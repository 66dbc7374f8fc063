import ThetaDirectory.Groups.Provisioning

/-!
# Resources with groups of their own

The slug of a resource is stripped of a kind prefix and made a slug again before it goes into the
names of its groups, so that two slugs with the same words name the same groups.
-/

namespace ThetaDirectory.Groups

open Library Delimited

/-! ## Words -/

/-- The maximal runs of lower-case letters and digits. -/
def words : List Char → List (List Char)
  | [] => []
  | char :: rest =>
      if isSlugChar char then
        if rest.head?.any isSlugChar then (words rest).modifyHead (char :: ·)
        else [char] :: words rest
      else words rest

/-- The words of a slug behind its kind prefix, in lower case. -/
def slugWords (slug : String) : List (List Char) :=
  words (toLowerCase (resourceNameSlug (some slug))).toList

variable {text word : List Char}

theorem words_ne_nil (plain : text.head?.any isSlugChar = true) : words text ≠ [] := by
  induction text with
  | nil => cases plain
  | cons char rest ih =>
      have slugChar : isSlugChar char = true := plain
      rw [words, if_pos slugChar]
      split
      · rename_i further
        exact fun none => ih further (List.modifyHead_eq_nil_iff.mp none)
      · exact List.cons_ne_nil _ _

theorem mem_words (member : word ∈ words text) :
    word ≠ [] ∧ ∀ char ∈ word, isSlugChar char = true := by
  induction text generalizing word with
  | nil => cases member
  | cons char rest ih =>
      rw [words] at member
      split at member
      · rename_i plain
        split at member
        · cases split : words rest with
          | nil =>
              rw [split] at member
              cases member
          | cons first later =>
              rw [split] at member ih
              rcases List.mem_cons.mp member with rfl | inLater
              · exact ⟨List.cons_ne_nil _ _, List.forall_mem_cons.mpr
                  ⟨plain, (ih List.mem_cons_self).2⟩⟩
              · exact ih (List.mem_cons_of_mem _ inLater)
        · rcases List.mem_cons.mp member with rfl | inLater
          · exact ⟨List.cons_ne_nil _ _, List.forall_mem_singleton.mpr plain⟩
          · exact ih inLater
      · exact ih member

/-- Behind a run that is filled already, the words are joined by dashes, and one dash can follow. -/
theorem fillRuns_true (text : List Char) : ∃ last : List Char, (∀ char ∈ last, char = '-') ∧
    fillRuns '-' true text = ['-'].intercalate (words text) ++ last := by
  induction text with
  | nil => exact ⟨[], List.forall_mem_nil _, rfl⟩
  | cons char rest ih =>
      obtain ⟨last, dashes, filled⟩ := ih
      rw [fillRuns, words]
      split
      · cases rest with
        | nil => exact ⟨[], List.forall_mem_nil _, rfl⟩
        | cons next rest =>
            by_cases further : isSlugChar next = true
            · -- The word goes on.
              refine ⟨last, dashes, ?_⟩
              have split := @words_ne_nil (next :: rest) further
              rw [fillRuns, if_pos further] at filled
              rw [fillRuns, if_pos further, filled, List.head?_cons, Option.any_some, if_pos further]
              cases found : words (next :: rest) with
              | nil => exact absurd found split
              | cons first later =>
                  rw [List.modifyHead_cons, List.intercalate_cons_cons_left, List.cons_append]
            · -- The word ends, with a dash behind it.
              have between : fillRuns '-' false (next :: rest) =
                  '-' :: fillRuns '-' true (next :: rest) := by
                rw [fillRuns, fillRuns, if_neg further, if_neg further, if_neg Bool.false_ne_true,
                  if_pos rfl]
              rw [between, filled, List.head?_cons, Option.any_some, if_neg further]
              cases found : words (next :: rest) with
              | nil => exact ⟨'-' :: last, List.forall_mem_cons.mpr ⟨rfl, dashes⟩, rfl⟩
              | cons first later =>
                  refine ⟨last, dashes, ?_⟩
                  rw [List.intercalate_cons_of_ne_nil (List.cons_ne_nil _ _)]
                  rfl
      · exact ⟨last, dashes, filled⟩

theorem fillRuns_false (text : List Char) : ∃ first : List Char, (∀ char ∈ first, char = '-') ∧
    fillRuns '-' false text = first ++ fillRuns '-' true text := by
  cases text with
  | nil => exact ⟨[], List.forall_mem_nil _, rfl⟩
  | cons char rest =>
      rw [fillRuns, fillRuns]
      split
      · exact ⟨[], List.forall_mem_nil _, rfl⟩
      · exact ⟨['-'], fun _ member => List.mem_singleton.mp member, rfl⟩

theorem trimDashes_frame {first middle last : List Char} (before : ∀ char ∈ first, char = '-')
    (after : ∀ char ∈ last, char = '-') (head : middle.head? ≠ some '-')
    (final : middle.getLast? ≠ some '-') : trimDashes (first ++ (middle ++ last)) = middle := by
  have dashed {chars : List Char} (all : ∀ char ∈ chars, char = '-') :
      ∀ char ∈ chars, (char == '-') = true := fun char member => beq_iff_eq.mpr (all char member)
  rw [trimDashes, List.dropWhile_append_of_pos (dashed before)]
  cases middle with
  | nil =>
      have gone : last.dropWhile (· == '-') = [] := by
        simpa using dashed after
      rw [List.nil_append, gone]
      rfl
  | cons char rest =>
      have start : (char :: rest ++ last).dropWhile (· == '-') = char :: rest ++ last :=
        List.dropWhile_cons_of_neg fun same => head (congrArg some (eq_of_beq same))
      have back : ∀ char ∈ last.reverse, (char == '-') = true :=
        fun char member => dashed after char (List.mem_reverse.mp member)
      rw [start, List.rdropWhile, List.reverse_append, List.dropWhile_append_of_pos back,
        ← List.rdropWhile, List.rdropWhile_eq_self_iff]
      intro nonempty same
      exact final ((List.getLast?_eq_some_getLast nonempty).trans (congrArg some (eq_of_beq same)))

/-- A slug is its words, joined by dashes. -/
theorem toList_slugify (name : String) :
    (slugify name).toList = ['-'].intercalate (words (toLowerCase name).toList) := by
  have noDash : ∀ word ∈ words (toLowerCase name).toList, word ≠ [] ∧ '-' ∉ word :=
    fun word member => ⟨(mem_words member).1, fun dash =>
      absurd ((mem_words member).2 '-' dash) (by decide)⟩
  rw [slugify, String.toList_ofList]
  generalize (toLowerCase name).toList = text at noDash
  obtain ⟨first, before, lead⟩ := fillRuns_false text
  obtain ⟨last, after, filled⟩ := fillRuns_true text
  rw [lead, filled]
  generalize words text = runs at noDash
  apply trimDashes_frame before after
  · cases runs with
    | nil =>
        intro same
        cases same
    | cons word later =>
        obtain ⟨nonempty, dashFree⟩ := noDash word List.mem_cons_self
        cases word with
        | nil => exact absurd rfl nonempty
        | cons char word =>
            rw [List.intercalate_cons_cons_left, List.head?_cons]
            exact fun same => dashFree (Option.some.inj same ▸ List.mem_cons_self)
  · induction runs with
    | nil =>
        intro same
        cases same
    | cons word later ih =>
        have rest := ih fun word member => noDash word (List.mem_cons_of_mem _ member)
        obtain ⟨nonempty, dashFree⟩ := noDash word List.mem_cons_self
        cases later with
        | nil =>
            rw [List.intercalate_singleton]
            exact fun same => dashFree (List.mem_of_getLast? same)
        | cons second later =>
            rw [List.intercalate_cons_of_ne_nil (List.cons_ne_nil _ _), List.getLast?_append]
            cases found : (['-'].intercalate (second :: later)).getLast? with
            | some char =>
                rw [found] at rest
                exact rest
            | none =>
                cases second with
                | nil => exact absurd rfl (noDash [] (List.mem_cons_of_mem _ List.mem_cons_self)).1
                | cons char second =>
                    rw [List.intercalate_cons_cons_left, List.getLast?_cons] at found
                    cases found

/-- Two texts have one slug exactly if they have the same words. -/
theorem slugify_eq_iff {name other : String} : slugify name = slugify other ↔
    words (toLowerCase name).toList = words (toLowerCase other).toList := by
  rw [← String.toList_inj, toList_slugify, toList_slugify]
  constructor
  · intro same
    have free (name : String) : ∀ word ∈ words (toLowerCase name).toList, '-' ∉ word :=
      fun word member dash => absurd ((mem_words member).2 '-' dash) (by decide)
    have first := free name
    have second := free other
    have noneEmpty (name : String) : [] ∉ words (toLowerCase name).toList :=
      fun member => (mem_words member).1 rfl
    have firstWord := noneEmpty name
    have secondWord := noneEmpty other
    generalize words (toLowerCase name).toList = runs at same first firstWord ⊢
    generalize words (toLowerCase other).toList = others at same second secondWord ⊢
    have apart {runs : List (List Char)} (wordy : [] ∉ runs) (some : runs ≠ []) :
        ['-'].intercalate runs ≠ [] := by
      match runs with
      | [] => exact absurd rfl some
      | [] :: _ => exact absurd List.mem_cons_self wordy
      | (char :: word) :: later =>
          rw [List.intercalate_cons_cons_left]
          exact List.cons_ne_nil _ _
    by_cases none : runs = []
    · by_contra different
      exact apart secondWord (fun empty => different (none.trans empty.symm))
        (same.symm.trans (congrArg _ none))
    · have wordyOther : others ≠ [] := fun empty => apart firstWord none (same.trans (congrArg _ empty))
      rw [← List.splitOn_intercalate '-' first none, same,
        List.splitOn_intercalate '-' second wordyOther]
  · exact congrArg _

/-! ## Separate groups -/

variable {base : GroupBase} {site : String} {kind : Kind} {slug other : String}

/-- The resource with the first slug has groups of its own beside the one with the other slug, of
the same kind at the same site. -/
structure Separate (base : GroupBase) (site : String) (kind : Kind) (slug other : String) :
    Prop where
  /-- The names differ at every level. -/
  names : ∀ level, resourceGroupCns site kind.text (resourceNameSlug (some slug)) level ≠
    resourceGroupCns site kind.text (resourceNameSlug (some other)) level
  /-- Provisioning the first resource binds no group of the other one. -/
  binds : ∀ id ownerDn store provisioned,
    provisionResourceGroups base ⟨id, some slug⟩ kind.text site ownerDn store = .ok provisioned →
      ∀ row ∈ provisioned.resourceGroups, row ∉ store.resourceGroups →
        ∀ level ∈ knownLevels,
          resourceGroupCns site kind.text (resourceNameSlug (some other)) level ≠ .ok row.groupCn
  /-- Membership in the access group of the first one gives no permission on the other. -/
  permits : ∀ cn, resourceGroupCns site kind.text (resourceNameSlug (some slug)) "access" = .ok cn →
    ∀ level, hasPermission [cn] ⟨some site, kind.text, some other⟩ level = .ok false

/-- The CNs of two resources whose slugs have different words differ, at any levels. -/
theorem specific_cn_ne (different : slugWords slug ≠ slugWords other) (level wanted : String) :
    (GroupName.specific site kind (slugify (resourceNameSlug (some slug))) level).cn ≠
      (GroupName.specific site kind (slugify (resourceNameSlug (some other))) wanted).cn := by
  intro same
  have behindKind : (slugify (resourceNameSlug (some slug))).toList ++ '_' :: level.toList =
      (slugify (resourceNameSlug (some other))).toList ++ '_' :: wanted.toList := by
    simpa [GroupName.cn, ← String.toList_inj] using same
  have slugs := (append_cons_inj_of_left (underscore_notMem_slugify _)
    (underscore_notMem_slugify _)).mp behindKind
  exact different (slugify_eq_iff.mp (String.toList_inj.mp slugs.1))

theorem accessCn_ne_superAdmin (name : String) :
    (GroupName.specific site kind (slugify name) "access").cn ≠ (GroupName.superAdmin site).cn := by
  intro same
  have levels := (field_inj (by decide) (by decide)).mp same
  exact absurd levels.2 (by decide)

theorem accessCn_ne_aggregate (name level : String) :
    (GroupName.specific site kind (slugify name) "access").cn ≠
      (GroupName.aggregate site kind level).cn := by
  intro same
  have behindSite : kind.text.toList ++ '_' :: ((slugify name).toList ++ '_' :: "access".toList) =
      kind.plural.toList ++ '_' :: level.toList := by
    simpa [GroupName.cn, ← String.toList_inj] using same
  have kinds := (append_cons_inj_of_left kind.underscore_notMem_text
    kind.underscore_notMem_plural).mp behindSite
  exact Kind.text_ne_plural kind kind (String.toList_inj.mp kinds.1)

/-- The names that are asked for are the site's and the resource's own. -/
theorem mem_grantingNames_cases {name : GroupName} {text level : String}
    (member : name ∈ grantingNames site kind text level) : name = .superAdmin site ∨
      ∃ wanted, name = .aggregate site kind wanted ∨ name = .specific site kind text wanted := by
  unfold grantingNames at member
  split at member
  · simp only [List.mem_cons, List.not_mem_nil, or_false] at member
    rcases member with super | aggregate | own | aggregate | own
    · exact Or.inl super
    · exact Or.inr ⟨level, Or.inl aggregate⟩
    · exact Or.inr ⟨level, Or.inr own⟩
    · exact Or.inr ⟨"admin", Or.inl aggregate⟩
    · exact Or.inr ⟨"admin", Or.inr own⟩
  · simp only [List.mem_cons, List.not_mem_nil, or_false] at member
    rcases member with super | aggregate | own
    · exact Or.inl super
    · exact Or.inr ⟨level, Or.inl aggregate⟩
    · exact Or.inr ⟨level, Or.inr own⟩

/-- The access group of one resource grants nothing on another one with other words. -/
theorem hasPermission_of_other (different : slugWords slug ≠ slugWords other) (level : String) :
    hasPermission [(GroupName.specific site kind
      (slugify (resourceNameSlug (some slug))) "access").cn] ⟨some site, kind.text, some other⟩ level =
        .ok false := by
  have known : ResourceRef.HasKind ⟨some site, kind.text, some other⟩ kind := by
    cases kind <;> rfl
  have plain : (GroupName.specific site kind
      (slugify (resourceNameSlug (some slug))) "access").Plain :=
    ⟨underscore_notMem_slugify _, by decide⟩
  rw [hasPermission_eq known]
  apply congrArg Except.ok
  simp only [List.contains_cons, List.contains_nil, Bool.or_false]
  rw [Bool.or_eq_false_iff, List.any_eq_false]
  constructor
  · exact beq_eq_false_iff_ne.mpr (GroupName.cn_ne_godAdmin plain).symm
  · intro name grants
    rw [beq_iff_eq]
    rcases mem_grantingNames_cases grants with rfl | ⟨wanted, rfl | rfl⟩
    · exact (accessCn_ne_superAdmin _).symm
    · exact (accessCn_ne_aggregate _ wanted).symm
    · exact (specific_cn_ne different "access" wanted).symm

theorem mem_ensure {rows : List ResourceGroup} {row : ResourceGroup} {id cn level : String}
    (member : row ∈ ResourceGroup.ensure rows id cn level) :
    row ∈ rows ∨ row = ⟨id, cn, level⟩ := by
  unfold ResourceGroup.ensure at member
  split at member
  · exact Or.inl member
  · rcases List.mem_append.mp member with old | new
    · exact Or.inl old
    · exact Or.inr (List.mem_singleton.mp new)

/-- Provisioning binds the two groups it is named for. -/
theorem bound_of_provisioned {resource : ProvisionedResource} {ownerDn : String}
    {store provisioned : GroupStore} (ran : provisionResourceGroups base resource kind.text site
      ownerDn store = .ok provisioned) {row : ResourceGroup}
    (member : row ∈ provisioned.resourceGroups) (new : row ∉ store.resourceGroups) :
    ∃ level ∈ knownLevels, row.groupCn =
      (GroupName.specific site kind (slugify (resourceNameSlug resource.slug)) level).cn := by
  unfold provisionResourceGroups at ran
  simp only [resourceGroupCns_eq, aggregateGroupCns_eq, bind, Except.bind, pure, Except.pure] at ran
  obtain rfl := Except.ok.inj ran
  rcases mem_ensure member with first | rfl
  · rcases mem_ensure first with old | rfl
    · exact absurd old new
    · exact ⟨"access", by decide, rfl⟩
  · exact ⟨"admin", by decide, rfl⟩

/-- Two different slugs of one kind at one site name separate groups exactly if they have different
words. -/
theorem separate_iff (base : GroupBase) (site : String) (kind : Kind) (slug other : String) :
    (slug ≠ other → Separate base site kind slug other) ↔
      slug = other ∨ slugWords slug ≠ slugWords other := by
  rw [or_iff_not_imp_left]
  apply forall_congr'
  intro distinct
  constructor
  · intro separate same
    apply separate.names ""
    rw [resourceGroupCns_eq, resourceGroupCns_eq, slugify_eq_iff.mpr same]
  · intro different
    constructor
    · intro level same
      rw [resourceGroupCns_eq, resourceGroupCns_eq] at same
      exact specific_cn_ne different level level (Except.ok.inj same)
    · intro id ownerDn store provisioned ran row member new level _ same
      obtain ⟨own, -, named⟩ := bound_of_provisioned ran member new
      rw [resourceGroupCns_eq, named] at same
      exact specific_cn_ne different own level (Except.ok.inj same).symm
    · intro cn named level
      rw [resourceGroupCns_eq] at named
      obtain rfl := Except.ok.inj named
      exact hasPermission_of_other different level

private def portalBase : GroupBase where
  groupBase := "ou=groups,dc=example,dc=com"
  escapeDN := id
  maxNestingDepth := 10
  escapeDN_inj := id
  depth_pos := default_depth_pos

/-- A service named `Custom Portal` and an OAuth client of that name share their groups, and a
member of the one may use the other. -/
theorem not_separate :
    ¬ Separate portalBase "site_local" .app "app_custom_portal" "custom-portal" ∧
      hasPermission ["site_local_app_custom-portal_access"]
        ⟨some "site_local", "app", some "custom-portal"⟩ "access" = .ok true ∧
      resourceGroupCns "site_local" "app" (resourceNameSlug (some "app_custom_portal")) "access" =
        .ok "site_local_app_custom-portal_access" := by
  refine ⟨fun separate => separate.names "access" ?_, ?_, ?_⟩ <;> decide +kernel

end ThetaDirectory.Groups
