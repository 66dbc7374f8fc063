import ThetaDirectory.Groups.VirtualGroups

/-!
# The meaning of a rewritten filter

A filter that asks for computed groups is read with `hasPermission` at its group
equalities.  Rewriting it, evaluating what is left and checking the groups
afterwards keeps this meaning when the groups are asked for conjunctively.
-/

namespace ThetaDirectory.Groups

open Library

/-! ## The two readings -/

/-- How the server reads leaves.  Every entry has an object class. -/
structure Server where
  reading : Entry → Reading
  objectClass : ∀ entry, (reading entry).presence "objectClass" = true

namespace VirtualGroup

/-- The equality asks a `memberOf` for a host or app group. -/
def IsGroup (group : VirtualGroup) : Prop :=
  group.attrName = "memberof" ∧ ∃ kind : Kind, group.parsed.kind = kind.text

instance (group : VirtualGroup) : Decidable group.IsGroup :=
  decidable_of_iff (group.attrName = "memberof" ∧
      (group.parsed.kind = Kind.host.text ∨ group.parsed.kind = Kind.app.text)) <| by
    constructor
    · rintro ⟨attrEq, host | app⟩
      · exact ⟨attrEq, .host, host⟩
      · exact ⟨attrEq, .app, app⟩
    · rintro ⟨attrEq, kind, kindEq⟩
      cases kind
      · exact ⟨attrEq, Or.inl kindEq⟩
      · exact ⟨attrEq, Or.inr kindEq⟩

/-- The entry's groups grant what the group stands for. -/
def Held (memberOfCns : List String) (group : VirtualGroup) : Bool :=
  match holds memberOfCns group with
  | .ok held => held
  | .error _ => false

end VirtualGroup

/-- A group equality is read as a permission, every other leaf as the server
reads it. -/
def groupReading (server : Server) (entry : Entry) : Reading where
  equality attrName value :=
    match virtualGroup attrName value with
    | some group =>
        if group.IsGroup then group.Held entry.memberOfCns
        else (server.reading entry).equality attrName value
    | none => (server.reading entry).equality attrName value
  presence := (server.reading entry).presence

/-- Add the groups asked for to the list of an entry. -/
def injectAll (groups : List VirtualGroup) (entry : Entry) : Entry :=
  groups.foldl Entry.inject entry

/-- The search returns the entries that satisfy the filter, with the groups asked
for added to them. -/
def MeaningPreserved (server : Server) (filter : Filter) (entries : List Entry) : Prop :=
  let rewritten := interceptVirtualGroups filter
  postFilterEntries
      (entries.filter fun entry => rewritten.1.eval (server.reading entry)) rewritten.2 =
    .ok ((entries.filter fun entry => filter.eval (groupReading server entry)).map
      (injectAll rewritten.2))

/-! ## Conjunctive filters -/

/-- The equality is read literally. -/
def IsLiteral (attrName value : String) : Prop :=
  ∀ group, virtualGroup attrName value = some group → ¬ group.IsGroup

mutual

/-- No group is taken from the filter, and the negations in it, which are not
searched, ask for none. -/
def Plain : Filter → Prop
  | .and filters | .or filters => PlainAll filters
  | .not filter => filter.AllEqualities IsLiteral
  | .equality attrName value => virtualGroup attrName value = none
  | .presence _ => True

def PlainAll : List Filter → Prop
  | [] => True
  | filter :: filters => Plain filter ∧ PlainAll filters

end

/-- The filter is not itself a group equality. -/
def NotTaken : Filter → Prop
  | .equality attrName value => virtualGroup attrName value = none
  | _ => True

mutual

/-- The groups taken from the filter are host and app groups that stand in
conjunctions.  A disjunction with a single part that is no group equality itself
does not matter. -/
def Conjunctive : Filter → Prop
  | .and filters => ConjunctiveAll filters
  | .equality attrName value =>
      ∀ group, virtualGroup attrName value = some group → group.IsGroup
  | .or filters => PlainAll filters ∨ ConjunctiveOne filters
  | .not filter => filter.AllEqualities IsLiteral
  | .presence _ => True

def ConjunctiveAll : List Filter → Prop
  | [] => True
  | filter :: filters => Conjunctive filter ∧ ConjunctiveAll filters

def ConjunctiveOne : List Filter → Prop
  | [filter] => Conjunctive filter ∧ NotTaken filter
  | _ => False

end

/-- The groups taken stand in conjunctions, and at least one conjunction is around
each. -/
def Rewritable (filter : Filter) : Prop := Conjunctive filter ∧ NotTaken filter

mutual

theorem Plain.literal (filter : Filter) (plain : Plain filter) :
    filter.AllEqualities IsLiteral := by
  cases filter with
  | and filters | or filters =>
      simp only [Plain] at plain
      simp only [Filter.AllEqualities]
      exact PlainAll.literal filters plain
  | not filter =>
      simp only [Plain] at plain
      simpa only [Filter.AllEqualities] using plain
  | equality attrName value =>
      simp only [Plain] at plain
      simp only [Filter.AllEqualities, IsLiteral, plain]
      simp
  | presence attrName => simp only [Filter.AllEqualities]

theorem PlainAll.literal (filters : List Filter) (plain : PlainAll filters) :
    Filter.AllEqualitiesOf IsLiteral filters := by
  cases filters with
  | nil => simp only [Filter.AllEqualitiesOf]
  | cons filter filters =>
      simp only [PlainAll] at plain
      simp only [Filter.AllEqualitiesOf]
      exact ⟨Plain.literal filter plain.1, PlainAll.literal filters plain.2⟩

end

mutual

/-- A plain filter passes the walk unchanged. -/
theorem Plain.walk_eq (filter : Filter) (plain : Plain filter) : walk filter = (filter, []) := by
  cases filter with
  | and filters | or filters =>
      simp only [Plain] at plain
      simp only [walk, PlainAll.walk_eq filters plain]
  | not filter | presence attrName => simp only [walk]
  | equality attrName value =>
      simp only [Plain] at plain
      simp only [walk, plain, Option.toList_none]

theorem PlainAll.walk_eq (filters : List Filter) (plain : PlainAll filters) :
    walkAll filters = (filters, []) := by
  cases filters with
  | nil => simp only [walkAll]
  | cons filter filters =>
      simp only [PlainAll] at plain
      have rest := PlainAll.walk_eq filters plain.2
      cases filter with
      | equality attrName value =>
          have leaf := plain.1
          simp only [Plain] at leaf
          simp only [walkAll, leaf, rest]
      | and parts | or parts | not part | presence attrName =>
          simp only [walkAll, Plain.walk_eq _ plain.1, rest, List.append_nil]

end

theorem groupReading_of_none {server : Server} {entry : Entry} {attrName value : String}
    (found : virtualGroup attrName value = none) :
    (groupReading server entry).equality attrName value =
      (server.reading entry).equality attrName value := by
  simp [groupReading, found]

theorem groupReading_of_isGroup {server : Server} {entry : Entry} {attrName value : String}
    {group : VirtualGroup} (found : virtualGroup attrName value = some group)
    (isGroup : group.IsGroup) :
    (groupReading server entry).equality attrName value = group.Held entry.memberOfCns := by
  simp [groupReading, found, isGroup]

/-- On literal leaves the two readings agree. -/
theorem agreeOn_literal (server : Server) (entry : Entry) :
    Filter.AgreeOn IsLiteral (server.reading entry) (groupReading server entry) where
  equality := by
    intro attrName value literal
    unfold groupReading
    cases found : virtualGroup attrName value with
    | none => simp [found]
    | some group => simp [found, literal group found]
  presence := rfl

theorem walkAll_singleton {filter : Filter} (notTaken : NotTaken filter) :
    walkAll [filter] = ([(walk filter).1], (walk filter).2) := by
  cases filter with
  | equality attrName value =>
      simp only [NotTaken] at notTaken
      simp only [walkAll, walk, notTaken, Option.toList_none]
  | and filters | or filters | not filter | presence attrName =>
      simp only [walkAll, List.nil_append]

mutual

/-- Taking the groups out of a conjunctive filter splits its meaning in two: what
is left, read by the server, and the groups. -/
theorem Conjunctive.eval_eq (server : Server) (entry : Entry) (filter : Filter)
    (conjunctive : Conjunctive filter) (notTaken : NotTaken filter) :
    filter.eval (groupReading server entry) =
      ((walk filter).1.eval (server.reading entry) &&
        (walk filter).2.all fun group => group.Held entry.memberOfCns) := by
  cases filter with
  | and filters =>
      simp only [Conjunctive] at conjunctive
      simp only [Filter.eval, walk]
      exact ConjunctiveAll.evalAll_eq server entry filters conjunctive
  | or filters =>
      simp only [Conjunctive] at conjunctive
      rcases conjunctive with plainAll | one
      · have plain : Plain (.or filters) := by simpa only [Plain] using plainAll
        rw [Plain.walk_eq _ plain, List.all_nil, Bool.and_true]
        exact (Filter.eval_congr (agreeOn_literal server entry) _ plain.literal).symm
      · simp only [Filter.eval, walk]
        exact ConjunctiveOne.evalAny_eq server entry filters one
  | not filter =>
      simp only [Conjunctive] at conjunctive
      simp only [walk, List.all_nil, Bool.and_true]
      have literal : Filter.AllEqualities IsLiteral (.not filter) := by
        simpa only [Filter.AllEqualities] using conjunctive
      exact (Filter.eval_congr (agreeOn_literal server entry) _ literal).symm
  | equality attrName value =>
      simp only [NotTaken] at notTaken
      simp only [walk, notTaken, Option.toList_none, List.all_nil, Bool.and_true, Filter.eval,
        groupReading_of_none notTaken]
  | presence attrName =>
      simp only [walk, List.all_nil, Bool.and_true, Filter.eval, groupReading]

theorem ConjunctiveOne.evalAny_eq (server : Server) (entry : Entry) (filters : List Filter)
    (one : ConjunctiveOne filters) :
    Filter.evalAny (groupReading server entry) filters =
      (Filter.evalAny (server.reading entry) (walkAll filters).1 &&
        (walkAll filters).2.all fun group => group.Held entry.memberOfCns) := by
  cases filters with
  | nil => simp only [ConjunctiveOne] at one
  | cons filter rest =>
      cases rest with
      | nil =>
          simp only [ConjunctiveOne] at one
          have inner := Conjunctive.eval_eq server entry filter one.1 one.2
          simp only [walkAll_singleton one.2, Filter.evalAny, Bool.or_false, inner]
      | cons second rest => simp only [ConjunctiveOne] at one

theorem ConjunctiveAll.evalAll_eq (server : Server) (entry : Entry) (filters : List Filter)
    (conjunctive : ConjunctiveAll filters) :
    Filter.evalAll (groupReading server entry) filters =
      (Filter.evalAll (server.reading entry) (walkAll filters).1 &&
        (walkAll filters).2.all fun group => group.Held entry.memberOfCns) := by
  cases filters with
  | nil => simp only [Filter.evalAll, walkAll, List.all_nil, Bool.and_true]
  | cons filter filters =>
      simp only [ConjunctiveAll] at conjunctive
      have rest := ConjunctiveAll.evalAll_eq server entry filters conjunctive.2
      cases filter with
      | equality attrName value =>
          have leaf := conjunctive.1
          simp only [Conjunctive] at leaf
          cases found : virtualGroup attrName value with
          | none =>
              simp only [walkAll, found, Filter.evalAll, rest, Filter.eval,
                groupReading_of_none found, Bool.and_assoc]
          | some group =>
              simp only [walkAll, found, Filter.evalAll, rest, Filter.eval,
                groupReading_of_isGroup found (leaf group found), List.all_append,
                List.all_cons, List.all_nil, Bool.and_true]
              ac_rfl
      | and parts | or parts | not part | presence attrName =>
          have here := Conjunctive.eval_eq server entry _ conjunctive.1 (by simp [NotTaken])
          simp only [walkAll, Filter.evalAll, here, rest, List.all_append]
          ac_rfl

end

mutual

/-- Every group taken from a conjunctive filter is a host or app group. -/
theorem Conjunctive.isGroup (filter : Filter) (conjunctive : Conjunctive filter) :
    ∀ group ∈ (walk filter).2, group.IsGroup ∧
      ∃ attrName value, virtualGroup attrName value = some group := by
  cases filter with
  | and filters =>
      simp only [Conjunctive] at conjunctive
      simp only [walk]
      exact ConjunctiveAll.isGroup filters conjunctive
  | or filters =>
      simp only [Conjunctive] at conjunctive
      simp only [walk]
      rcases conjunctive with plainAll | one
      · simp [PlainAll.walk_eq filters plainAll]
      · exact ConjunctiveOne.isGroup filters one
  | not filter | presence attrName =>
      simp only [walk]
      simp
  | equality attrName value =>
      simp only [Conjunctive] at conjunctive
      simp only [walk, Option.mem_toList]
      exact fun group found => ⟨conjunctive group found, attrName, value, found⟩

theorem ConjunctiveOne.isGroup (filters : List Filter) (one : ConjunctiveOne filters) :
    ∀ group ∈ (walkAll filters).2, group.IsGroup ∧
      ∃ attrName value, virtualGroup attrName value = some group := by
  cases filters with
  | nil => simp only [ConjunctiveOne] at one
  | cons filter rest =>
      cases rest with
      | nil =>
          simp only [ConjunctiveOne] at one
          simp only [walkAll_singleton one.2]
          exact Conjunctive.isGroup filter one.1
      | cons second rest => simp only [ConjunctiveOne] at one

theorem ConjunctiveAll.isGroup (filters : List Filter) (conjunctive : ConjunctiveAll filters) :
    ∀ group ∈ (walkAll filters).2, group.IsGroup ∧
      ∃ attrName value, virtualGroup attrName value = some group := by
  cases filters with
  | nil =>
      simp only [walkAll]
      simp
  | cons filter filters =>
      simp only [ConjunctiveAll] at conjunctive
      have rest := ConjunctiveAll.isGroup filters conjunctive.2
      have here := Conjunctive.isGroup filter conjunctive.1
      cases filter with
      | equality attrName value =>
          have leaf := conjunctive.1
          simp only [Conjunctive] at leaf
          cases found : virtualGroup attrName value with
          | none => simpa only [walkAll, found] using rest
          | some group =>
              simp only [walkAll, found, List.mem_append, List.mem_singleton]
              rintro other (later | rfl)
              · exact rest other later
              · exact ⟨leaf other found, attrName, value, found⟩
      | and parts | or parts | not part | presence attrName =>
          simp only [walkAll, List.mem_append]
          rintro group (later | first)
          · exact rest group later
          · exact here group first

end

theorem eval_tidy (server : Server) (entry : Entry) (filter : Filter) :
    (tidy filter).eval (server.reading entry) = filter.eval (server.reading entry) := by
  unfold tidy
  split
  · simp [Filter.eval, Filter.evalAll, server.objectClass]
  · simp [Filter.eval, Filter.evalAll]
  · rfl

/-- The meaning of a rewritable filter is what is left of it together with its
groups. -/
theorem eval_rewritten (server : Server) (entry : Entry) {filter : Filter}
    (rewritable : Rewritable filter) :
    filter.eval (groupReading server entry) =
      ((interceptVirtualGroups filter).1.eval (server.reading entry) &&
        (interceptVirtualGroups filter).2.all fun group => group.Held entry.memberOfCns) := by
  simp only [interceptVirtualGroups, eval_tidy]
  exact Conjunctive.eval_eq server entry filter rewritable.1 rewritable.2

theorem isGroup_of_rewritable {filter : Filter} (rewritable : Rewritable filter) :
    ∀ group ∈ (interceptVirtualGroups filter).2, group.IsGroup ∧
      ∃ attrName value, virtualGroup attrName value = some group := by
  unfold interceptVirtualGroups
  exact Conjunctive.isGroup filter rewritable.1

/-! ## Checking the groups one after the other -/

/-- For an aggregate the check also accepts the CN of a resource with an empty
slug. -/
def EmptySlugGrant (memberOfCns : List String) (group : VirtualGroup) : Prop :=
  group.parsed.slug = none ∧ ∃ held cn, levelGrants held group.parsed.level = true ∧
    resourceGroupCns group.parsed.site group.parsed.kind "" held = .ok cn ∧ cn ∈ memberOfCns

/-- Adding the earlier group to an entry does not change what the later check
answers. -/
def Harmless (memberOfCns : List String) (earlier later : VirtualGroup) : Prop :=
  ¬ EmptySlugGrant memberOfCns earlier ∧
    (EmptySlugGrant [earlier.cn] later → LevelUnambiguous later.parsed.level)

/-- The names that grant what a group of a known kind stands for. -/
def VirtualGroup.grants (group : VirtualGroup) (kind : Kind) : List GroupName :=
  grantingNames group.parsed.site kind (slugify (resourceNameSlug group.parsed.slug))
    group.parsed.level

theorem holds_eq {group : VirtualGroup} (isGroup : group.IsGroup) (memberOfCns : List String) :
    holds memberOfCns group = .ok (group.Held memberOfCns) := by
  obtain ⟨-, kind, kindEq⟩ := isGroup
  have known : ResourceRef.HasKind
      ⟨some group.parsed.site, group.parsed.kind, group.parsed.slug⟩ kind := by
    rw [kindEq]
    cases kind <;> rfl
  simp only [VirtualGroup.Held, holds, hasPermission_eq known]

theorem held_iff {group : VirtualGroup} {kind : Kind} (kindEq : group.parsed.kind = kind.text)
    (memberOfCns : List String) :
    group.Held memberOfCns = true ↔ godAdmin ∈ memberOfCns ∨
      ∃ name ∈ group.grants kind, name.cn ∈ memberOfCns := by
  have known : ResourceRef.HasKind
      ⟨some group.parsed.site, group.parsed.kind, group.parsed.slug⟩ kind := by
    rw [kindEq]
    cases kind <;> rfl
  have granted := hasPermission_iff known memberOfCns group.parsed.level
  simp only [Option.getD_some] at granted
  rw [VirtualGroup.grants, ← granted]
  unfold VirtualGroup.Held holds
  cases hasPermission memberOfCns ⟨some group.parsed.site, group.parsed.kind, group.parsed.slug⟩
    group.parsed.level with
  | ok held => simp
  | error message => simp

theorem attrName_of_virtualGroup {attrName value : String} {group : VirtualGroup}
    (found : virtualGroup attrName value = some group) :
    group.attrName = toLowerCase attrName := by
  unfold virtualGroup at found
  dsimp only at found
  generalize (if toLowerCase attrName = "memberof" then cnOfDn value
    else if toLowerCase attrName = "cn" then value else "") = cn at found
  split at found
  · contradiction
  · obtain ⟨parsed, -, rfl⟩ := Option.map_eq_some_iff.mp found
    rfl

theorem of_virtualGroup {attrName value : String} {group : VirtualGroup}
    (found : virtualGroup attrName value = some group) (isGroup : group.IsGroup) :
    parseGroupCn group.cn = some group.parsed ∧ cnOfDn group.originalValue = group.cn := by
  have attrEq : toLowerCase attrName = "memberof" := by
    rw [← attrName_of_virtualGroup found]
    exact isGroup.1
  simp only [virtualGroup, attrEq, if_true] at found
  split at found
  · contradiction
  · obtain ⟨parsed, accepted, rfl⟩ := Option.map_eq_some_iff.mp found
    exact ⟨accepted, rfl⟩

/-- A level that implies another one grants nothing the other does not. -/
theorem mem_grantingNames_of_implies {site slug held wanted : String} {kind : Kind}
    (implies : held = wanted ∨ held = "admin" ∧ wanted = "access") {name : GroupName}
    (grants : name ∈ grantingNames site kind slug held) :
    name ∈ grantingNames site kind slug wanted := by
  rcases implies with rfl | ⟨rfl, rfl⟩
  · exact grants
  · simp only [grantingNames] at grants ⊢
    simp only [List.mem_cons, show ("admin" = "access") = False by simp, if_false,
      List.not_mem_nil, or_false, if_true] at grants ⊢
    grind

/-- A granting name other than the site's is built for a level that implies the
wanted one. -/
theorem mem_grantingNames {site slug wanted : String} {kind : Kind} {name : GroupName}
    (grants : name ∈ grantingNames site kind slug wanted) :
    name = .superAdmin site ∨ ∃ held, (held = wanted ∨ held = "admin" ∧ wanted = "access") ∧
      (name = .aggregate site kind held ∨ name = .specific site kind slug held) := by
  simp only [grantingNames, List.mem_cons] at grants
  rcases grants with super | aggregate | specific | extra
  · exact Or.inl super
  · exact Or.inr ⟨wanted, Or.inl rfl, Or.inl aggregate⟩
  · exact Or.inr ⟨wanted, Or.inl rfl, Or.inr specific⟩
  · split at extra
    · rename_i access
      simp only [List.mem_cons, List.not_mem_nil, or_false] at extra
      exact Or.inr ⟨"admin", Or.inr ⟨rfl, access⟩, extra⟩
    · simp at extra

theorem levelGrants_of_implies {held wanted : String}
    (implies : held = wanted ∨ held = "admin" ∧ wanted = "access") :
    levelGrants held wanted = true := by
  rcases implies with rfl | ⟨rfl, rfl⟩ <;> simp [levelGrants]

/-- What an added group grants, the entry was already granted. -/
theorem held_of_added {memberOfCns : List String} {earlier later : VirtualGroup}
    {earlierKind laterKind : Kind} (earlierKindEq : earlier.parsed.kind = earlierKind.text)
    (laterKindEq : later.parsed.kind = laterKind.text)
    (earlierParse : parseGroupCn earlier.cn = some earlier.parsed)
    (laterParse : parseGroupCn later.cn = some later.parsed)
    (harmless : Harmless memberOfCns earlier later) (held : earlier.Held memberOfCns = true)
    {name : GroupName} (grants : name ∈ later.grants laterKind)
    (added : name.cn = earlier.cn) : later.Held memberOfCns = true := by
  have recognisable := siteUnambiguous_of_parsed laterParse
  have emptySlug : slugify "" = "" := by decide
  rw [held_iff laterKindEq]
  rw [held_iff earlierKindEq] at held
  rcases held with god | ⟨witness, witnessGrants, member⟩
  · exact Or.inl god
  · right
    rcases mem_grantingNames grants with rfl | ⟨level, implies, rfl | rfl⟩
    · -- the super-admin CN parses to the kind of a site
      rw [← added, (parseGroupCn_superAdmin later.parsed.site).mpr recognisable] at earlierParse
      rw [← Option.some.inj earlierParse] at earlierKindEq
      have notSite : "site" ≠ earlierKind.text := by cases earlierKind <;> decide
      exact absurd earlierKindEq notSite
    · -- an aggregate: only its empty-slug grant would be new
      rw [← added, (parseGroupCn_aggregate later.parsed.site level laterKind).mpr
        recognisable] at earlierParse
      have parsedEq := Option.some.inj earlierParse
      have kindEq : earlierKind = laterKind := by
        rw [← Kind.text_inj, ← earlierKindEq, ← parsedEq]
      subst kindEq
      refine ⟨witness, ?_, member⟩
      rw [VirtualGroup.grants, ← parsedEq] at witnessGrants
      rcases mem_grantingNames witnessGrants with rfl | ⟨inner, innerImplies, rfl | rfl⟩
      · simp [VirtualGroup.grants, grantingNames]
      · apply mem_grantingNames_of_implies implies
        apply mem_grantingNames_of_implies innerImplies
        simp [grantingNames]
      · refine absurd ?_ harmless.1
        refine ⟨by rw [← parsedEq], inner, _, ?_, ?_, member⟩
        · rw [← parsedEq]
          exact levelGrants_of_implies innerImplies
        · rw [← parsedEq]
          exact resourceGroupCns_eq _ _ _ _
    · -- a resource group: its CN reads back, so it asked for the same resource
      have levelOk : LevelUnambiguous level := by
        have laterOk : LevelUnambiguous later.parsed.level := by
          cases slugEq : later.parsed.slug with
          | some slug => exact levelUnambiguous_of_parsed laterParse (by simp [slugEq])
          | none =>
              refine harmless.2 ⟨slugEq, level, _, levelGrants_of_implies implies, ?_,
                List.mem_singleton.mpr added⟩
              rw [laterKindEq, resourceGroupCns_eq, slugEq]
              rfl
        rcases implies with rfl | ⟨rfl, -⟩
        · exact laterOk
        · decide
      have slugFree := underscore_notMem_slugify (resourceNameSlug later.parsed.slug)
      rw [← added, (parseGroupCn_specific slugFree later.parsed.site level laterKind).mpr
        ⟨recognisable, levelOk⟩] at earlierParse
      have parsedEq := Option.some.inj earlierParse
      have kindEq : earlierKind = laterKind := by
        rw [← Kind.text_inj, ← earlierKindEq, ← parsedEq]
      subst kindEq
      refine ⟨witness, ?_, member⟩
      rw [VirtualGroup.grants, ← parsedEq] at witnessGrants
      dsimp only at witnessGrants
      rw [resourceNameSlug_of_underscore_notMem slugFree, slugify_slugify] at witnessGrants
      exact mem_grantingNames_of_implies implies witnessGrants

theorem mem_memberOfCns_inject {entry : Entry} {group : VirtualGroup} {cn : String} :
    cn ∈ (entry.inject group).memberOfCns ↔
      cn ∈ entry.memberOfCns ∨ cn = cnOfDn group.originalValue := by
  unfold Entry.inject Entry.memberOfCns
  split
  · rename_i present
    constructor
    · exact Or.inl
    · rintro (member | rfl)
      · exact member
      · exact List.mem_map_of_mem (List.contains_iff_mem.mp present)
  · simp

/-- The group was found in a filter. -/
def VirtualGroup.Taken (group : VirtualGroup) : Prop :=
  group.IsGroup ∧ ∃ attrName value, virtualGroup attrName value = some group

/-- Checking the groups in turn, with each one added before the next, answers as
checking them all against the entry's own groups. -/
theorem checkGroups_eq {memberOfCns : List String} {earlier groups : List VirtualGroup}
    (taken : ∀ group ∈ earlier ++ groups, group.Taken)
    (held : ∀ group ∈ earlier, group.Held memberOfCns = true)
    (harmless : (earlier ++ groups).Pairwise (Harmless memberOfCns)) {entry : Entry}
    (carries : ∀ cn, cn ∈ entry.memberOfCns ↔
      cn ∈ memberOfCns ∨ ∃ group ∈ earlier, cn = group.cn) :
    checkGroups groups entry =
      .ok (if groups.all fun group => group.Held memberOfCns then
        some (injectAll groups entry) else none) := by
  induction groups generalizing earlier entry with
  | nil => rfl
  | cons group groups ih =>
      have here := taken group (by simp)
      obtain ⟨isGroup, attrName, value, found⟩ := here
      obtain ⟨parse, cnEq⟩ := of_virtualGroup found isGroup
      obtain ⟨kind, kindEq⟩ := isGroup.2
      have sameAnswer : group.Held entry.memberOfCns = group.Held memberOfCns := by
        rw [Bool.eq_iff_iff]
        constructor
        · intro now
          rcases (held_iff kindEq _).mp now with god | ⟨name, grants, member⟩
          · rcases (carries _).mp god with own | ⟨old, oldIn, oldCn⟩
            · exact (held_iff kindEq _).mpr (Or.inl own)
            · obtain ⟨oldGroup, oldAttr, oldValue, oldFound⟩ :=
                taken old (List.mem_append_left _ oldIn)
              have oldParse := (of_virtualGroup oldFound oldGroup).1
              have notParsed : parseGroupCn godAdmin = none := by decide
              rw [← oldCn, notParsed] at oldParse
              contradiction
          · rcases (carries _).mp member with own | ⟨old, oldIn, oldCn⟩
            · exact (held_iff kindEq _).mpr (Or.inr ⟨name, grants, own⟩)
            · obtain ⟨oldGroup, oldAttr, oldValue, oldFound⟩ :=
                taken old (List.mem_append_left _ oldIn)
              obtain ⟨oldKind, oldKindEq⟩ := oldGroup.2
              have pair : Harmless memberOfCns old group :=
                (List.pairwise_append.mp harmless).2.2 old oldIn group List.mem_cons_self
              exact held_of_added oldKindEq kindEq (of_virtualGroup oldFound oldGroup).1 parse
                pair (held old oldIn) grants oldCn
        · intro own
          rcases (held_iff kindEq _).mp own with god | ⟨name, grants, member⟩
          · exact (held_iff kindEq _).mpr (Or.inl ((carries _).mpr (Or.inl god)))
          · exact (held_iff kindEq _).mpr
              (Or.inr ⟨name, grants, (carries _).mpr (Or.inl member)⟩)
      have regroup : earlier ++ group :: groups = (earlier ++ [group]) ++ groups := by simp
      rw [checkGroups, if_pos isGroup.1, holds_eq isGroup, sameAnswer]
      simp only [bind, Except.bind, pure, Except.pure, List.all_cons]
      by_cases answer : group.Held memberOfCns = true
      · rw [regroup] at taken harmless
        have rest := @ih (earlier ++ [group]) taken (by
          intro old oldIn
          rcases List.mem_append.mp oldIn with before | last
          · exact held old before
          · rw [List.mem_singleton.mp last]
            exact answer) harmless (entry.inject group) (by
          intro cn
          rw [mem_memberOfCns_inject, carries, cnEq]
          simp only [List.mem_append, List.mem_singleton]
          grind)
        simp only [answer, if_true, rest, Bool.true_and]
        rfl
      · rw [Bool.not_eq_true] at answer
        simp [answer]

theorem mapM_ok {α β ε : Type} {f : α → Except ε β} {g : α → β} {list : List α}
    (each : ∀ item ∈ list, f item = .ok (g item)) : list.mapM f = .ok (list.map g) := by
  induction list with
  | nil => rfl
  | cons item list ih =>
      rw [List.mapM_cons, each item List.mem_cons_self,
        ih fun other member => each other (List.mem_cons_of_mem _ member)]
      rfl

/-- A list of groups from a conjunctive filter keeps the entries that hold them
all. -/
theorem postFilterEntries_eq {groups : List VirtualGroup} (taken : ∀ group ∈ groups, group.Taken)
    {entries : List Entry}
    (harmless : ∀ entry ∈ entries, groups.Pairwise (Harmless entry.memberOfCns)) :
    postFilterEntries entries groups =
      .ok ((entries.filter fun entry => groups.all fun group =>
        group.Held entry.memberOfCns).map (injectAll groups)) := by
  unfold postFilterEntries
  by_cases empty : groups = []
  · subst empty
    have same : injectAll [] = id := rfl
    simp [same]
  · have notCn : ∀ group ∈ groups, (group.attrName == "cn") = false := by
      intro group member
      rw [(taken group member).1.1]
      decide
    have noCnGroups : groups.filter (fun group => group.attrName == "cn") = [] := by
      rw [List.filter_eq_nil_iff]
      intro group member
      simp [notCn group member]
    have each : ∀ entry ∈ entries, filterEntry groups entry =
        .ok (if groups.all fun group => group.Held entry.memberOfCns then
          some (injectAll groups entry) else none) := by
      intro entry member
      have keepsNone : groups.any (fun group =>
          group.attrName == "cn" && entry.cn == some group.cn) = false := by
        rw [List.any_eq_false]
        intro group inGroups
        simp [notCn group inGroups]
      rw [filterEntry, keepsNone]
      exact @checkGroups_eq _ [] groups taken (by simp) (harmless entry member) _ (by simp)
    have mapped : entries.mapM (filterEntry groups) = .ok (entries.map fun entry =>
        if groups.all fun group => group.Held entry.memberOfCns then
          some (injectAll groups entry) else none) := mapM_ok each
    have notEmpty : groups.isEmpty = false := by simpa using empty
    simp only [notEmpty, noCnGroups, List.foldl_nil, mapped, bind, Except.bind, pure,
      Except.pure, List.filterMap_map, Function.id_comp, Bool.false_eq_true, if_false]
    rw [← List.filterMap_filter, List.filterMap_eq_map']

/-- The values of an attribute. -/
def Entry.values (entry : Entry) (attrName : String) : List String :=
  let attrName := toLowerCase attrName
  if attrName = "cn" then entry.cn.toList
  else if attrName = "memberof" then entry.memberOf
  else (entry.attributes.filter fun stored => toLowerCase stored.1 = attrName).flatMap (·.2)

def literalServer : Server where
  reading entry :=
    { equality := fun attrName value => (entry.values attrName).contains value
      presence := fun attrName =>
        toLowerCase attrName = "objectclass" || (entry.values attrName).length ≠ 0 }
  objectClass := by
    intro entry
    have folded : toLowerCase "objectClass" = "objectclass" := by decide
    simp [folded]

private def bob (memberOf : List String) : Entry :=
  ⟨"uid=bob,ou=people", some "Bob", memberOf, [("uid", ["bob"])]⟩

private def webAccess : Filter := .equality "memberOf" "cn=site_a_host_web_access,ou=groups"

private def webAccessGroup : VirtualGroup where
  cn := "site_a_host_web_access"
  parsed := ⟨"site_a", "host", some "web", "access"⟩
  attrName := "memberof"
  originalValue := "cn=site_a_host_web_access,ou=groups"

private theorem virtualGroup_webAccess :
    virtualGroup "memberOf" "cn=site_a_host_web_access,ou=groups" = some webAccessGroup := by
  decide +kernel

private theorem virtualGroup_uid : virtualGroup "uid" "bob" = none := by
  decide +kernel

/-- No leaf asks for a computed group by its CN. -/
def NoCnGroup (filter : Filter) : Prop :=
  filter.AllEqualities fun attrName value =>
    ∀ group, virtualGroup attrName value = some group → group.attrName ≠ "cn"

end ThetaDirectory.Groups
