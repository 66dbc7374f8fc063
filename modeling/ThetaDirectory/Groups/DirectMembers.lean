import ThetaDirectory.Groups.FilterRewrite

/-!
# Searches by groups an entry is in

Whether `postFilterEntries` (`utils/virtual_groups.js`) comes to an end, and whether it keeps
the entries that are in every group asked for.  A super-admin group has no kind that
`hasPermission` knows, and a group is looked for under a slug that is normalised once more.
-/

namespace ThetaDirectory.Groups

open Library Library.Delimited

/-! ## What a parsed CN is made of -/

theorem kindMatch_rebuild {text : List Char} {index : Nat} {word : String}
    (found : kindMatch text = some (index, word)) :
    text = text.take index ++
      '_' :: (word.toList ++ '_' :: text.drop (index + word.length + 2)) := by
  induction text generalizing index with
  | nil => cases found
  | cons head rest ih =>
      rw [kindMatch_cons] at found
      cases atHead : kindAt (head :: rest) with
      | some other =>
          rw [atHead] at found
          cases found
          have matched := List.find?_some atHead
          obtain ⟨tail, split⟩ := List.isPrefixOf_iff_prefix.mp matched
          have length : word.toList.length = word.length := String.length_toList
          have dropped : (head :: rest).drop (0 + word.length + 2) = tail := by
            rw [← split]
            exact List.drop_left' (by simp [length])
          rw [dropped, ← split]
          simp
      | none =>
          rw [atHead] at found
          obtain ⟨⟨position, known⟩, later, same⟩ := Option.map_eq_some_iff.mp found
          cases same
          have behind := ih later
          have shift : position + 1 + known.length + 2 = position + known.length + 2 + 1 := by omega
          rw [List.take_succ_cons, shift, List.drop_succ_cons, List.cons_append, ← behind]

theorem split_of_lastIndexOf {first : Char} {word text : List Char} {index : Nat}
    (found : lastIndexOf (first :: word) text = some index) :
    text = text.take index ++ first :: text.drop (index + 1) := by
  obtain ⟨tail, split⟩ := prefix_of_lastIndexOf_zero (lastIndexOf_drop found)
  have dropped : text.drop (index + 1) = word ++ tail := by
    rw [← List.tail_drop, ← split]
    rfl
  rw [dropped]
  exact (List.take_append_drop index text).symm.trans (congrArg (text.take index ++ ·) split.symm)

/-- The shapes of a CN the parser accepts. -/
inductive Shape (cn : String) (parsed : ParsedGroup) : Prop where
  | superAdmin (isSite : parsed.kind = "site") (noSlug : parsed.slug = none)
      (isAdmin : parsed.level = "admin") (printed : cn = siteSuperAdminCns parsed.site)
  | aggregate (kind : Kind) (isKind : parsed.kind = kind.text) (noSlug : parsed.slug = none)
      (printed : cn = (GroupName.aggregate parsed.site kind parsed.level).cn)
  | specific (kind : Kind) (slug : String) (isKind : parsed.kind = kind.text)
      (hasSlug : parsed.slug = some slug)
      (printed : cn = (GroupName.specific parsed.site kind slug parsed.level).cn)

theorem shape_of_parseGroupCn {cn : String} {parsed : ParsedGroup}
    (accepted : parseGroupCn cn = some parsed) : Shape cn parsed := by
  unfold parseGroupCn at accepted
  split at accepted
  · cases accepted
  · rename_i index word found
    have rebuilt := kindMatch_rebuild found
    dsimp only at accepted
    generalize cn.toList.drop (index + word.length + 2) = rest at accepted rebuilt
    generalize cn.toList.take index = site at accepted rebuilt
    split at accepted
    · rename_i super
      cases accepted
      apply Shape.superAdmin rfl rfl rfl
      rw [siteSuperAdminCns_eq, ← String.toList_inj, rebuilt, super.1, super.2]
      simp [GroupName.cn]
    · split at accepted
      · rename_i plural
        cases accepted
        rcases plural with rfl | rfl
        · apply Shape.aggregate .host rfl rfl
          simp [← String.toList_inj, rebuilt, GroupName.cn, Kind.plural]
        · apply Shape.aggregate .app rfl rfl
          simp [← String.toList_inj, rebuilt, GroupName.cn, Kind.plural]
      · split at accepted
        · rename_i singular
          obtain ⟨kind, rfl⟩ : ∃ kind : Kind, word = kind.text := by
            rcases singular with rfl | rfl
            · exact ⟨.host, rfl⟩
            · exact ⟨.app, rfl⟩
          have specific {position : Nat} {tail : List Char}
              (split : lastIndexOf ('_' :: tail) rest = some position) :
              Shape cn ⟨String.ofList site, kind.text, some (String.ofList (rest.take position)),
                String.ofList (rest.drop (position + 1))⟩ := by
            apply Shape.specific kind _ rfl rfl
            rw [← String.toList_inj, rebuilt]
            simp only [GroupName.cn, toList_field, String.toList_ofList, List.append_assoc,
              List.cons_append, ← split_of_lastIndexOf split]
          split at accepted
          · rename_i position atLevel
            cases accepted
            unfold levelIndex at atLevel
            split at atLevel
            · rename_i access
              cases atLevel
              exact specific access
            · exact specific atLevel
          · split at accepted
            · rename_i atDelimiter
              cases accepted
              exact specific atDelimiter
            · cases accepted
        · cases accepted

/-! ## The groups asked for -/

/-- The groups taken from a filter; a text that is no filter asks for none. -/
def requestedGroups (filter : Option Filter) : List VirtualGroup :=
  (filter.map fun filter => (interceptVirtualGroups filter).2).getD []

namespace VirtualGroup

/-- The group is asked for by a `memberOf`. -/
def Asked (group : VirtualGroup) : Prop := group.attrName = "memberof"

instance (group : VirtualGroup) : Decidable group.Asked :=
  inferInstanceAs (Decidable (group.attrName = "memberof"))

/-- The group was found in a filter. -/
def Found (group : VirtualGroup) : Prop :=
  ∃ attrName value, virtualGroup attrName value = some group

/-- The slug of the group is its own normal form. -/
def Regular (group : VirtualGroup) : Prop :=
  ∀ slug, group.parsed.slug = some slug → slugify slug = slug

/-- The entry is in `god_admin` or in a group whose name `hasPermission` looks for. -/
def Granted (group : VirtualGroup) (entry : Entry) : Prop :=
  godAdmin ∈ entry.memberOfCns ∨ ∃ kind : Kind, group.parsed.kind = kind.text ∧
    ∃ name ∈ group.grants kind, name.cn ∈ entry.memberOfCns

end VirtualGroup

open VirtualGroup

/-- The entry has the CN of a group asked for by its CN, and is kept unseen. -/
def IsNamed (groups : List VirtualGroup) (entry : Entry) : Prop :=
  ∃ group ∈ groups, group.attrName = "cn" ∧ entry.cn = some group.cn

/-- The entry's own groups have every group asked for among them. -/
def IsDirectMember (groups : List VirtualGroup) (entry : Entry) : Prop :=
  ∀ group ∈ groups, group.Asked → group.cn ∈ entry.memberOfCns

instance (groups : List VirtualGroup) (entry : Entry) : Decidable (IsDirectMember groups entry) :=
  inferInstanceAs (Decidable (∀ group ∈ groups, group.Asked → group.cn ∈ entry.memberOfCns))

/-- The entry is granted the groups in turn up to a super-admin group that it lacks. -/
inductive Stuck : List VirtualGroup → Entry → Prop where
  | here {group : VirtualGroup} {groups : List VirtualGroup} {entry : Entry}
      (asked : group.Asked) (isSite : group.parsed.kind = "site")
      (noGod : godAdmin ∉ entry.memberOfCns) (lacks : group.cn ∉ entry.memberOfCns) :
      Stuck (group :: groups) entry
  | granted {group : VirtualGroup} {groups : List VirtualGroup} {entry : Entry}
      (asked : group.Asked) (held : holds entry.memberOfCns group = .ok true)
      (later : Stuck groups (entry.inject group)) : Stuck (group :: groups) entry
  | skipped {group : VirtualGroup} {groups : List VirtualGroup} {entry : Entry}
      (notAsked : ¬ group.Asked) (later : Stuck groups entry) : Stuck (group :: groups) entry

/-- The search comes to an end and keeps the direct members. -/
def KeepsMembers (groups : List VirtualGroup) (entries : List Entry) : Prop :=
  ∃ kept, postFilterEntries entries groups = .ok kept ∧
    ∀ entry ∈ entries, IsDirectMember groups entry →
      ∃ same ∈ kept, filterEntry groups entry = .ok (some same)

/-! ## Groups found in a filter -/

mutual

theorem found_walk (filter : Filter) : ∀ group ∈ (walk filter).2, group.Found := by
  cases filter with
  | and filters => exact found_walkAll filters
  | or filters => exact found_walkAll filters
  | equality attrName value =>
      intro group member
      exact ⟨attrName, value, Option.mem_toList.mp member⟩
  | not filter => exact nofun
  | presence attrName => exact nofun

theorem found_walkAll (filters : List Filter) : ∀ group ∈ (walkAll filters).2, group.Found := by
  cases filters with
  | nil => exact nofun
  | cons filter filters =>
      have rest := found_walkAll filters
      have here := found_walk filter
      cases filter with
      | equality attrName value =>
          cases found : virtualGroup attrName value with
          | none => simpa only [walkAll, found] using rest
          | some group =>
              simp only [walkAll, found, List.mem_append, List.mem_singleton]
              rintro other (later | rfl)
              · exact rest other later
              · exact ⟨attrName, value, found⟩
      | and parts | or parts | not part | presence attrName =>
          simp only [walkAll, List.mem_append]
          rintro group (later | first)
          · exact rest group later
          · exact here group first

end

theorem found_of_mem_requestedGroups {filter : Option Filter} {group : VirtualGroup}
    (member : group ∈ requestedGroups filter) : group.Found := by
  cases filter with
  | none => cases member
  | some filter => exact found_walk filter group member

variable {group : VirtualGroup} {groups : List VirtualGroup} {entry : Entry}

theorem VirtualGroup.Found.shape (found : group.Found) : Shape group.cn group.parsed := by
  obtain ⟨attrName, value, found⟩ := found
  unfold virtualGroup at found
  dsimp only at found
  generalize (if toLowerCase attrName = "memberof" then cnOfDn value
    else if toLowerCase attrName = "cn" then value else "") = cn at found
  split at found
  · cases found
  · obtain ⟨parsed, accepted, rfl⟩ := Option.map_eq_some_iff.mp found
    exact shape_of_parseGroupCn accepted

theorem VirtualGroup.Found.cnOfDn_eq (found : group.Found) (asked : group.Asked) :
    cnOfDn group.originalValue = group.cn := by
  obtain ⟨attrName, value, found⟩ := found
  have attrEq : toLowerCase attrName = "memberof" := by
    rw [← attrName_of_virtualGroup found]
    exact asked
  simp only [virtualGroup, attrEq, if_true] at found
  split at found
  · cases found
  · obtain ⟨parsed, accepted, rfl⟩ := Option.map_eq_some_iff.mp found
    rfl

theorem mem_inject (found : group.Found) (asked : group.Asked) {cn : String} :
    cn ∈ (entry.inject group).memberOfCns ↔ cn ∈ entry.memberOfCns ∨ cn = group.cn := by
  rw [mem_memberOfCns_inject, found.cnOfDn_eq asked]

/-! ## One check -/

theorem text_ne_site (kind : Kind) : kind.text ≠ "site" := by
  cases kind <;> decide

/-- A group found in a filter is a super-admin group or one of a known kind. -/
theorem VirtualGroup.Found.kind (found : group.Found) :
    group.parsed.kind = "site" ∧ group.parsed.slug = none ∧ group.parsed.level = "admin" ∧
        group.cn = siteSuperAdminCns group.parsed.site ∨
      ∃ kind : Kind, group.parsed.kind = kind.text := by
  cases found.shape with
  | superAdmin isSite noSlug isAdmin printed => exact Or.inl ⟨isSite, noSlug, isAdmin, printed⟩
  | aggregate kind isKind _ _ => exact Or.inr ⟨kind, isKind⟩
  | specific kind _ isKind _ _ => exact Or.inr ⟨kind, isKind⟩

/-- A super-admin group is held, or its kind is refused. -/
theorem holds_site (found : group.Found) (isSite : group.parsed.kind = "site")
    (cns : List String) :
    holds cns group = if godAdmin ∈ cns ∨ group.cn ∈ cns then .ok true
      else .error "invalid resource kind: site (must be host or app)" := by
  rcases found.kind with ⟨-, noSlug, isAdmin, printed⟩ | ⟨kind, isKind⟩
  · rw [holds, isSite, noSlug, isAdmin, printed]
    simp only [hasPermission, Option.getD_some, List.contains_iff_mem]
    by_cases god : godAdmin ∈ cns
    · simp [god]
    · by_cases super : siteSuperAdminCns group.parsed.site ∈ cns
      · simp [super]
      · rw [if_neg god, if_neg super, if_neg (not_or.mpr ⟨god, super⟩)]
        rfl
  · exact absurd (isKind.symm.trans isSite) (text_ne_site kind)

theorem hasKind_of_text {site slug : Option String} {kind : Kind} :
    ResourceRef.HasKind ⟨site, kind.text, slug⟩ kind := by
  cases kind <;> rfl

/-- Every other group is held or not. -/
theorem holds_kind {kind : Kind} (isKind : group.parsed.kind = kind.text) (cns : List String) :
    holds cns group = .ok (group.Held cns) := by
  simp only [VirtualGroup.Held, holds, isKind, hasPermission_eq hasKind_of_text]

theorem granted_iff_held {kind : Kind} (isKind : group.parsed.kind = kind.text) :
    group.Granted entry ↔ group.Held entry.memberOfCns = true := by
  rw [held_iff isKind]
  apply or_congr_right
  constructor
  · rintro ⟨other, isOther, names⟩
    rwa [Kind.text_inj.mp (isKind.symm.trans isOther)]
  · exact fun names => ⟨kind, isKind, names⟩

/-- A regular group that is of a known kind is looked for under its own CN. -/
theorem granted_of_regular (found : group.Found) {kind : Kind}
    (isKind : group.parsed.kind = kind.text) (regular : group.Regular)
    (own : group.cn ∈ entry.memberOfCns) : group.Granted entry := by
  right
  refine ⟨kind, isKind, ?_⟩
  cases found.shape with
  | superAdmin isSite _ _ _ => exact absurd (isKind.symm.trans isSite) (text_ne_site kind)
  | aggregate other isOther _ printed =>
      cases Kind.text_inj.mp (isKind.symm.trans isOther)
      refine ⟨_, ?_, printed ▸ own⟩
      simp [VirtualGroup.grants, grantingNames]
  | specific other slug isOther hasSlug printed =>
      cases Kind.text_inj.mp (isKind.symm.trans isOther)
      refine ⟨_, ?_, printed ▸ own⟩
      have normal : slugify (resourceNameSlug (some slug)) = slug := by
        have slugFree := underscore_notMem_slugify slug
        rw [regular slug hasSlug] at slugFree
        rw [resourceNameSlug_of_underscore_notMem slugFree, regular slug hasSlug]
      simp [VirtualGroup.grants, grantingNames, hasSlug, normal]

/-- The check of a group whose CN the entry has. -/
theorem holds_own (found : group.Found) (own : group.cn ∈ entry.memberOfCns) :
    ∃ held, holds entry.memberOfCns group = .ok held ∧
      (held = true ↔ group.Regular ∨ group.Granted entry) := by
  rcases found.kind with ⟨isSite, noSlug, -, -⟩ | ⟨kind, isKind⟩
  · refine ⟨true, ?_, iff_of_true rfl (Or.inl fun slug hasSlug => ?_)⟩
    · rw [holds_site found isSite, if_pos (Or.inr own)]
    · cases noSlug.symm.trans hasSlug
  · refine ⟨_, holds_kind isKind _, ?_⟩
    rw [← granted_iff_held isKind]
    constructor
    · exact Or.inr
    · rintro (regular | granted)
      · exact granted_of_regular found isKind regular own
      · exact granted

/-! ## All checks of an entry -/

theorem checkGroups_skipped (notAsked : ¬ group.Asked) :
    checkGroups (group :: groups) entry = checkGroups groups entry := by
  rw [checkGroups]
  exact if_neg notAsked

theorem checkGroups_error (asked : group.Asked) {message : String}
    (refused : holds entry.memberOfCns group = .error message) :
    checkGroups (group :: groups) entry = .error message := by
  rw [checkGroups, refused]
  exact if_pos asked

theorem checkGroups_true (asked : group.Asked)
    (held : holds entry.memberOfCns group = .ok true) :
    checkGroups (group :: groups) entry = checkGroups groups (entry.inject group) := by
  rw [checkGroups, held]
  exact if_pos asked

theorem checkGroups_false (asked : group.Asked)
    (notHeld : holds entry.memberOfCns group = .ok false) :
    checkGroups (group :: groups) entry = .ok none := by
  rw [checkGroups, notHeld]
  exact if_pos asked

/-- The checks fail exactly when the entry gets stuck at a super-admin group. -/
theorem checkGroups_error_iff (found : ∀ group ∈ groups, group.Found) :
    (∃ message, checkGroups groups entry = .error message) ↔ Stuck groups entry := by
  induction groups generalizing entry with
  | nil => exact iff_of_false nofun nofun
  | cons group groups ih =>
      have here := found group List.mem_cons_self
      have behind := fun other member => found other (List.mem_cons_of_mem group member)
      by_cases asked : group.Asked
      · constructor
        · rintro ⟨message, failed⟩
          cases outcome : holds entry.memberOfCns group with
          | error refusal =>
              rcases here.kind with ⟨isSite, -⟩ | ⟨kind, isKind⟩
              · rw [holds_site here isSite] at outcome
                split at outcome
                · cases outcome
                · rename_i lacks
                  exact .here asked isSite (not_or.mp lacks).1 (not_or.mp lacks).2
              · rw [holds_kind isKind] at outcome
                cases outcome
          | ok held =>
              cases held with
              | false => cases (checkGroups_false asked outcome).symm.trans failed
              | true =>
                  rw [checkGroups_true asked outcome] at failed
                  exact .granted asked outcome ((ih behind).mp ⟨message, failed⟩)
        · intro stuck
          cases stuck with
          | here _ isSite noGod lacks =>
              have refused := holds_site here isSite entry.memberOfCns
              rw [if_neg (not_or.mpr ⟨noGod, lacks⟩)] at refused
              exact ⟨_, checkGroups_error asked refused⟩
          | granted _ held later =>
              rw [checkGroups_true asked held]
              exact (ih behind).mpr later
          | skipped notAsked _ => exact absurd asked notAsked
      · rw [checkGroups_skipped asked, ih behind]
        constructor
        · exact .skipped asked
        · intro stuck
          cases stuck with
          | here isAsked _ _ _ => exact absurd isAsked asked
          | granted isAsked _ _ => exact absurd isAsked asked
          | skipped _ later => exact later

theorem IsDirectMember.inject (found : group.Found) (asked : group.Asked)
    (direct : IsDirectMember groups entry) : IsDirectMember groups (entry.inject group) :=
  fun other member isAsked => (mem_inject found asked).mpr (Or.inl (direct other member isAsked))

/-- A group that an entry is in changes nothing when it is added. -/
theorem granted_inject {added : VirtualGroup} (found : added.Found) (asked : added.Asked)
    (own : added.cn ∈ entry.memberOfCns) :
    group.Granted (entry.inject added) ↔ group.Granted entry := by
  have same (cn : String) : cn ∈ (entry.inject added).memberOfCns ↔ cn ∈ entry.memberOfCns := by
    rw [mem_inject found asked]
    exact or_iff_left_of_imp fun isAdded => isAdded ▸ own
  simp only [VirtualGroup.Granted, same]

/-- A direct member is kept exactly when each group asked for is regular or granted. -/
theorem checkGroups_some_iff (found : ∀ group ∈ groups, group.Found)
    (direct : IsDirectMember groups entry) :
    (∃ same, checkGroups groups entry = .ok (some same)) ↔
      ∀ group ∈ groups, group.Asked → group.Regular ∨ group.Granted entry := by
  induction groups generalizing entry with
  | nil => exact iff_of_true ⟨entry, rfl⟩ nofun
  | cons group groups ih =>
      have here := found group List.mem_cons_self
      have behind := fun other member => found other (List.mem_cons_of_mem group member)
      have directs : IsDirectMember groups entry :=
        fun other member => direct other (List.mem_cons_of_mem group member)
      rw [List.forall_mem_cons]
      by_cases asked : group.Asked
      · have own := direct group List.mem_cons_self asked
        obtain ⟨held, outcome, isHeld⟩ := holds_own here own
        cases held with
        | false =>
            rw [checkGroups_false asked outcome]
            refine iff_of_false nofun fun every => ?_
            cases isHeld.mpr (every.1 asked)
        | true =>
            rw [checkGroups_true asked outcome, ih behind (directs.inject here asked)]
            simp only [granted_inject here asked own]
            exact (and_iff_right fun _ => isHeld.mp rfl).symm
      · rw [checkGroups_skipped asked, ih behind directs]
        exact (and_iff_right fun isAsked => absurd isAsked asked).symm

/-! ## The whole list -/

theorem any_isNamed : (groups.any fun group =>
    group.attrName == "cn" && entry.cn == some group.cn) = true ↔ IsNamed groups entry := by
  simp [IsNamed]

theorem filterEntry_named (named : IsNamed groups entry) :
    filterEntry groups entry = .ok (some entry) := by
  rw [filterEntry, if_pos (any_isNamed.mpr named)]

theorem filterEntry_checked (notNamed : ¬ IsNamed groups entry) :
    filterEntry groups entry = checkGroups groups entry := by
  rw [filterEntry, if_neg (mt any_isNamed.mp notNamed)]

section Lists

variable {ε α β : Type} {action : α → Except ε β}

/-- A pass succeeds when every step does. -/
theorem mapM_isOk_iff {items : List α} :
    (∃ results, items.mapM action = .ok results) ↔
      ∀ item ∈ items, ∃ result, action item = .ok result := by
  induction items with
  | nil => exact iff_of_true ⟨[], rfl⟩ nofun
  | cons item items ih =>
      rw [List.mapM_cons, List.forall_mem_cons, ← ih]
      cases first : action item with
      | error failure => exact iff_of_false nofun fun every => nomatch every.1
      | ok result =>
          cases rest : items.mapM action with
          | error failure => exact iff_of_false nofun fun every => nomatch every.2
          | ok results => exact iff_of_true ⟨result :: results, rfl⟩ ⟨⟨result, rfl⟩, results, rfl⟩

theorem mem_of_mapM {items : List α} {results : List β}
    (passed : items.mapM action = .ok results) {item : α} (member : item ∈ items) {result : β}
    (returned : action item = .ok result) : result ∈ results := by
  induction items generalizing results with
  | nil => cases member
  | cons first items ih =>
      rw [List.mapM_cons] at passed
      cases head : action first with
      | error failure =>
          rw [head] at passed
          cases passed
      | ok value =>
          cases tail : items.mapM action with
          | error failure =>
              rw [head, tail] at passed
              cases passed
          | ok values =>
              rw [head, tail] at passed
              cases passed
              rcases List.mem_cons.mp member with rfl | behind
              · cases head.symm.trans returned
                exact List.mem_cons_self
              · exact List.mem_cons_of_mem value (ih tail behind)

end Lists

/-- The entries with the made-up ones for groups asked for by their CN. -/
def withSynthesized (groups : List VirtualGroup) (entries : List Entry) : List Entry :=
  groups.foldl (fun entries group =>
    if entries.any fun entry => entry.cn == some group.cn then entries
    else entries ++ [synthesized group]) entries

theorem mem_withSynthesized {entries : List Entry}
    (member : entry ∈ withSynthesized groups entries) :
    entry ∈ entries ∨ ∃ group ∈ groups, entry = synthesized group := by
  induction groups generalizing entries with
  | nil => exact Or.inl member
  | cons group groups ih =>
      rcases ih member with early | ⟨other, behind, made⟩
      · dsimp only at early
        split at early
        · exact Or.inl early
        · rcases List.mem_append.mp early with given | made
          · exact Or.inl given
          · exact Or.inr ⟨group, List.mem_cons_self, List.mem_singleton.mp made⟩
      · exact Or.inr ⟨other, List.mem_cons_of_mem group behind, made⟩

theorem subset_withSynthesized (groups : List VirtualGroup) (entries : List Entry) :
    entries ⊆ withSynthesized groups entries := by
  induction groups generalizing entries with
  | nil => exact List.Subset.refl entries
  | cons group groups ih =>
      apply List.Subset.trans _ (ih _)
      dsimp only
      split
      · exact List.Subset.refl entries
      · exact List.subset_append_left entries _

/-- The groups asked for by their CN. -/
def cnGroups (groups : List VirtualGroup) : List VirtualGroup :=
  groups.filter fun group => group.attrName == "cn"

theorem isNamed_synthesized (member : group ∈ cnGroups groups) :
    IsNamed groups (synthesized group) := by
  obtain ⟨known, byCn⟩ := List.mem_filter.mp member
  exact ⟨group, known, eq_of_beq byCn, rfl⟩

theorem postFilterEntries_cons {entries : List Entry} :
    postFilterEntries entries (group :: groups) =
      ((withSynthesized (cnGroups (group :: groups)) entries).mapM
        (filterEntry (group :: groups))).map fun kept => kept.filterMap id := by
  unfold postFilterEntries
  rw [if_neg (by simp)]
  rfl

/-- The search ends when the check of every entry does. -/
theorem postFilterEntries_ok_iff {entries : List Entry} :
    (∃ kept, postFilterEntries entries groups = .ok kept) ↔
      ∀ entry ∈ entries, ∃ outcome, filterEntry groups entry = .ok outcome := by
  cases groups with
  | nil => exact iff_of_true ⟨entries, rfl⟩ fun entry _ => ⟨some entry, rfl⟩
  | cons group groups =>
      rw [postFilterEntries_cons]
      have ends := @mapM_isOk_iff _ _ _ (filterEntry (group :: groups))
        (withSynthesized (cnGroups (group :: groups)) entries)
      constructor
      · rintro ⟨kept, passed⟩ entry member
        apply ends.mp _ entry (subset_withSynthesized _ _ member)
        cases outcome : (withSynthesized (cnGroups (group :: groups)) entries).mapM
            (filterEntry (group :: groups)) with
        | ok outcomes => exact ⟨outcomes, rfl⟩
        | error message =>
            rw [outcome] at passed
            cases passed
      · intro every
        obtain ⟨outcomes, passed⟩ := ends.mpr fun entry member => by
          rcases mem_withSynthesized member with given | ⟨made, known, rfl⟩
          · exact every entry given
          · exact ⟨_, filterEntry_named (isNamed_synthesized known)⟩
        rw [passed]
        exact ⟨_, rfl⟩

theorem mem_postFilterEntries {entries kept : List Entry}
    (passed : postFilterEntries entries groups = .ok kept) (member : entry ∈ entries) {same : Entry}
    (isKept : filterEntry groups entry = .ok (some same)) : same ∈ kept := by
  cases groups with
  | nil =>
      cases passed
      cases isKept
      exact member
  | cons group groups =>
      rw [postFilterEntries_cons] at passed
      cases outcome : (withSynthesized (cnGroups (group :: groups)) entries).mapM
          (filterEntry (group :: groups)) with
      | error message =>
          rw [outcome] at passed
          cases passed
      | ok outcomes =>
          rw [outcome] at passed
          cases passed
          apply List.mem_filterMap.mpr
          exact ⟨some same, mem_of_mapM outcome (subset_withSynthesized _ _ member) isKept, rfl⟩

/-- For every filter and every list of entries, the search ends and keeps the direct members
exactly when no entry gets stuck, and each group with an irregular slug is granted to its
direct members by another name. -/
theorem keepsMembers_iff (filter : Option Filter) (entries : List Entry) :
    KeepsMembers (requestedGroups filter) entries ↔
      ∀ entry ∈ entries, ¬ IsNamed (requestedGroups filter) entry →
        ¬ Stuck (requestedGroups filter) entry ∧
          (IsDirectMember (requestedGroups filter) entry →
            ∀ group ∈ requestedGroups filter, group.Asked →
              group.Regular ∨ group.Granted entry) := by
  generalize groupsEq : requestedGroups filter = groups
  have found (group : VirtualGroup) (member : group ∈ groups) : group.Found :=
    found_of_mem_requestedGroups (groupsEq ▸ member)
  constructor
  · rintro ⟨kept, passed, keeps⟩ entry member notNamed
    obtain ⟨outcome, ended⟩ := postFilterEntries_ok_iff.mp ⟨kept, passed⟩ entry member
    rw [filterEntry_checked notNamed] at ended
    constructor
    · intro stuck
      obtain ⟨message, failed⟩ := (checkGroups_error_iff found).mpr stuck
      cases ended.symm.trans failed
    · intro direct
      obtain ⟨same, -, isKept⟩ := keeps entry member direct
      rw [filterEntry_checked notNamed] at isKept
      exact (checkGroups_some_iff found direct).mp ⟨same, isKept⟩
  · intro safe
    have ends : ∀ entry ∈ entries, ∃ outcome, filterEntry groups entry = .ok outcome := by
      intro entry member
      by_cases named : IsNamed groups entry
      · exact ⟨_, filterEntry_named named⟩
      · cases outcome : filterEntry groups entry with
        | ok kept => exact ⟨kept, rfl⟩
        | error message =>
            rw [filterEntry_checked named] at outcome
            exact absurd ((checkGroups_error_iff found).mp ⟨message, outcome⟩)
              (safe entry member named).1
    obtain ⟨kept, passed⟩ := postFilterEntries_ok_iff.mpr ends
    refine ⟨kept, passed, fun entry member direct => ?_⟩
    obtain ⟨same, isKept⟩ : ∃ same, filterEntry groups entry = .ok (some same) := by
      by_cases named : IsNamed groups entry
      · exact ⟨entry, filterEntry_named named⟩
      · rw [filterEntry_checked named]
        exact (checkGroups_some_iff found direct).mpr ((safe entry member named).2 direct)
    exact ⟨same, mem_postFilterEntries passed member isKept, isKept⟩

/-! ## Two searches -/

private def superAdmins : Filter := .equality "memberOf" "cn=site_local_super_admin,ou=groups"

private def embyAdmins : Filter := .equality "memberOf" "cn=site_local_app_emby_emby_admin,ou=groups"

private def alice (memberOf : List String) : Entry :=
  ⟨"uid=alice,ou=people", some "Alice", memberOf, []⟩

/-- A search for super admins fails at an entry that is none, and a search for the holders
of the capability `emby_admin` drops an entry that has it. -/
theorem not_keepsMembers :
    ¬ KeepsMembers (requestedGroups (some superAdmins)) [alice []] ∧
      ¬ KeepsMembers (requestedGroups (some embyAdmins))
        [alice ["cn=site_local_app_emby_emby_admin,ou=groups"]] := by
  constructor
  · rintro ⟨kept, passed, -⟩
    have failed : postFilterEntries [alice []] (requestedGroups (some superAdmins)) =
        .error "invalid resource kind: site (must be host or app)" := by decide +kernel
    cases failed.symm.trans passed
  · rintro ⟨kept, passed, keeps⟩
    have dropped : filterEntry (requestedGroups (some embyAdmins))
        (alice ["cn=site_local_app_emby_emby_admin,ou=groups"]) = .ok none := by decide +kernel
    obtain ⟨same, -, isKept⟩ := keeps _ List.mem_cons_self (by decide +kernel)
    cases dropped.symm.trans isKept

end ThetaDirectory.Groups
