import ThetaDirectory.Catalog.SubtypeTemplates
import ThetaDirectory.Discovery.Adoption
import ThetaDirectory.Groups.FilterRewrite
import ThetaDirectory.Library.RegExp

/-!
# The groups an operator may bind

`validGroupCnsForResource` and `POST /groups` of `routes/api_directory_admin.js`.  A group is
admitted by a fixed list or by a pattern made of the slugs as they are, where `hasPermission`
looks for the normalised slug.
-/

namespace ThetaDirectory.Groups

open Catalog Library

/-! ## The route -/

/-- The group family a resource gets, or none for no groups of its own
(`services/resource_groups.js`). -/
def groupKind (cache : TemplateCache) (resource : Resource) : Option Kind :=
  if (templateFor cache resource).ownGroups then
    if resource.kind = "host" then some .host
    else if resource.kind = "service" then some .app
    else none
  else none

inductive Refusal where
  | required
  | invalidPattern
  | invalidKind (message : String)
  | invalidGroup (message : String)
  deriving DecidableEq, Repr

structure ValidGroups where
  valid : List String
  capRe : Option (String → Bool)

section Route

-- `new RegExp` on the patterns outside the core
variable (engine : String → Option (String → Bool))

def newRegExp (pattern : String) : Except Refusal (String → Bool) :=
  match RegExp.regExp engine pattern with
  | some test => .ok test
  | none => .error .invalidPattern

/-- The pattern of opaque capability groups. -/
def capabilityPattern (siteSlug kind nameSlug : String) : String :=
  "^" ++ siteSlug ++ "_" ++ kind ++ "_" ++ nameSlug ++ "_[a-z0-9-]+$|^" ++ siteSlug ++ "_" ++ kind ++
    "s_[a-z0-9-]+$"

def validGroupCnsForResource (cache : TemplateCache) (resource : Resource) (siteSlug : String) :
    Except Refusal ValidGroups :=
  if resource.kind = "site" then do
    let capRe ← newRegExp engine ("^" ++ siteSlug ++ "_super_admin$|^" ++ siteSlug ++ "_everyone$")
    return ⟨[siteSuperAdminCns siteSlug, siteEveryoneCns siteSlug], some capRe⟩
  else
    match groupKind cache resource with
    | some kind => do
        let nameSlug := resourceNameSlug (some resource.slug)
        let admin ← (resourceGroupCns siteSlug kind.text nameSlug "admin").mapError .invalidKind
        let access ← (resourceGroupCns siteSlug kind.text nameSlug "access").mapError .invalidKind
        let allAdmin ← (aggregateGroupCns siteSlug kind.text "admin").mapError .invalidKind
        let allAccess ← (aggregateGroupCns siteSlug kind.text "access").mapError .invalidKind
        let capRe ← newRegExp engine (capabilityPattern siteSlug kind.text nameSlug)
        return ⟨[admin, access, allAdmin, allAccess, siteSuperAdminCns siteSlug,
          siteEveryoneCns siteSlug], some capRe⟩
    | none => return ⟨[siteSuperAdminCns siteSlug], none⟩

/-- The group is in the list or matches the pattern. -/
def ValidGroups.admits (groups : ValidGroups) (groupCn : String) : Bool :=
  groups.valid.contains groupCn || groups.capRe.any fun test => test groupCn

def invalidGroupMessage (groupCn kind : String) (valid : List String) : String :=
  "\"" ++ groupCn ++ "\" is not a valid group for this " ++ kind ++
    ". Use the resource's own groups, a site aggregate, a site-level group, or god_admin (e.g. " ++
    ", ".intercalate valid.eraseDups ++ ")."

/-- The slug of the site the resource is, or is at. -/
def siteSlugFor (store : Discovery.Store) (resourceId : String) : Option String :=
  match (store.find resourceId).filter fun row => row.kind == "site" with
  | some site => some site.slug
  | none => Discovery.siteSlugOf store resourceId

/-- Bind a group to a resource. -/
def postGroups (cache : TemplateCache) (store : Discovery.Store)
    (resourceId groupCn accessLevel : String) : Except Refusal (List ResourceGroup) := do
  if resourceId = "" ∨ groupCn = "" then .error .required
  else
    match store.find resourceId, truthy (siteSlugFor store resourceId) with
    | some resource, some siteSlug =>
        if groupCn = godAdmin then
          return ResourceGroup.ensure store.groups resourceId groupCn accessLevel
        else
          let groups ← validGroupCnsForResource engine cache resource siteSlug
          if groups.admits groupCn then
            return ResourceGroup.ensure store.groups resourceId groupCn accessLevel
          else .error (.invalidGroup (invalidGroupMessage groupCn resource.kind groups.valid))
    | _, _ => return ResourceGroup.ensure store.groups resourceId groupCn accessLevel

/-- The route binds the group to the resource. -/
def Accepts (cache : TemplateCache) (store : Discovery.Store) (resourceId groupCn : String) : Prop :=
  ∀ accessLevel, postGroups engine cache store resourceId groupCn accessLevel =
    .ok (ResourceGroup.ensure store.groups resourceId groupCn accessLevel)

/-! ## Agreement with the permission check -/

/-- A level of lowercase letters, digits and dashes. -/
def IsCapability (level : String) : Prop :=
  level ≠ "" ∧ ∀ char ∈ level.toList, isSlugChar char ∨ char = '-'

/-- What may be bound is honoured, and what the builders print may be bound. -/
def Agrees (cache : TemplateCache) (store : Discovery.Store) (row : Resource) (kind : Kind)
    (site : String) : Prop :=
  (∀ cn, isMetaGroup (some cn) = false → Accepts engine cache store row.id cn →
    ∃ level, hasPermission [cn] ⟨some site, row.kind, some row.slug⟩ level = .ok true) ∧
  ∀ level, IsCapability level → ∀ cn,
    resourceGroupCns site kind.text (resourceNameSlug (some row.slug)) level = .ok cn ∨
      aggregateGroupCns site kind.text level = .ok cn → Accepts engine cache store row.id cn

/-- The slugs mean themselves in a pattern and in a name. -/
def PlainSlugs (site nameSlug : String) : Prop :=
  site ≠ "" ∧ RegExp.Literal site.toList ∧ slugify nameSlug = nameSlug

end Route

/-! ## What the pattern admits -/

section Pattern

variable {engine : String → Option (String → Bool)}

/-- The units of the class `[a-z0-9-]`. -/
def capabilityRanges : List (UInt16 × UInt16) :=
  [(97, 122), (48, 57), (45, 45)]

theorem closeClass_capability :
    RegExp.closeClass "a-z0-9-".toList.reverse = .ok (.set false capabilityRanges) := by
  decide +kernel

theorem isSlugChar_iff {char : Char} : isSlugChar char = true ↔
    97 ≤ char.toNat ∧ char.toNat ≤ 122 ∨ 48 ≤ char.toNat ∧ char.toNat ≤ 57 := by
  have lower : char.isLower = (decide (char.val ≥ 'a'.val) && decide (char.val ≤ 'z'.val)) := rfl
  simp only [isSlugChar, lower, Char.isDigit, Bool.or_eq_true, Bool.and_eq_true,
    decide_eq_true_eq, ge_iff_le, UInt32.le_iff_toNat_le]
  rfl

theorem eq_dash_iff {char : Char} : char = '-' ↔ char.toNat = 45 := by
  rw [← Char.toNat_inj]
  rfl

theorem inSet_capability {unit : UInt16} :
    RegExp.inSet false capabilityRanges unit = true ↔
      97 ≤ unit.toNat ∧ unit.toNat ≤ 122 ∨ 48 ≤ unit.toNat ∧ unit.toNat ≤ 57 ∨
        unit.toNat = 45 := by
  simp [RegExp.inSet, capabilityRanges, UInt16.le_iff_toNat_le]
  omega

/-- A unit of the class is the unit of one character. -/
theorem unitChar_of_inSet {unit : UInt16}
    (inside : RegExp.inSet false capabilityRanges unit = true) :
    Utf16.ofChar (Utf16.unitChar unit) = [unit] ∧
      (isSlugChar (Utf16.unitChar unit) = true ∨ Utf16.unitChar unit = '-') := by
  have range := inSet_capability.mp inside
  have single : Utf16.isSurrogate unit = false := by
    simp only [Utf16.isSurrogate, Utf16.isHigh, Utf16.isLow, Bool.or_eq_false_iff,
      Bool.and_eq_false_iff, decide_eq_false_iff_not]
    omega
  refine ⟨Utf16.ofChar_unitChar single, ?_⟩
  rw [isSlugChar_iff, eq_dash_iff, Utf16.toNat_unitChar single]
  omega

theorem inSet_of_mem_ofChar {char : Char} (allowed : isSlugChar char = true ∨ char = '-')
    {unit : UInt16} (member : unit ∈ Utf16.ofChar char) :
    RegExp.inSet false capabilityRanges unit = true := by
  rw [isSlugChar_iff, eq_dash_iff] at allowed
  rw [Utf16.ofChar, if_pos (by omega)] at member
  have value : unit.toNat = char.toNat := by
    rw [List.mem_singleton.mp member, UInt16.toNat_ofNat']
    omega
  rw [inSet_capability]
  omega

/-- The units that the class repeats are the units of a capability. -/
theorem exists_capability_iff {units : Utf16.Units} :
    (units ≠ [] ∧ ∀ unit ∈ units, RegExp.inSet false capabilityRanges unit = true) ↔
      ∃ level, IsCapability level ∧ Utf16.ofString level = units := by
  constructor
  · rintro ⟨nonempty, every⟩
    have back : Utf16.ofString (String.ofList (units.map Utf16.unitChar)) = units := by
      rw [Utf16.ofString, String.toList_ofList, List.flatMap_map]
      have single (unit : UInt16) (member : unit ∈ units) :
          Utf16.ofChar (Utf16.unitChar unit) = [unit] :=
        (unitChar_of_inSet (every unit member)).1
      rw [List.flatMap_congr single, List.flatMap_singleton']
    refine ⟨String.ofList (units.map Utf16.unitChar), ⟨?_, ?_⟩, back⟩
    · intro empty
      rw [empty] at back
      exact nonempty back.symm
    · rw [String.toList_ofList, List.forall_mem_map]
      exact fun unit member => (unitChar_of_inSet (every unit member)).2
  · rintro ⟨level, ⟨nonempty, every⟩, rfl⟩
    constructor
    · intro empty
      apply nonempty
      exact Utf16.ofString_inj.mp empty
    · intro unit member
      obtain ⟨char, inLevel, inChar⟩ := List.mem_flatMap.mp member
      exact inSet_of_mem_ofChar (every char inLevel) inChar

theorem ofString_append (text more : String) :
    Utf16.ofString (text ++ more) = Utf16.ofString text ++ Utf16.ofString more := by
  rw [Utf16.ofString, String.toList_append, List.flatMap_append]
  rfl

/-- One alternative of the pattern: literal characters and a capability. -/
theorem reads_capability {front : List Char} (plain : RegExp.Literal front) :
    RegExp.Reads ('^' :: (front ++ "[a-z0-9-]+$".toList))
      (.start :: (((front.flatMap Utf16.ofChar).map RegExp.Node.unit ++
        [.seq (.set false capabilityRanges) (.star (.set false capabilityRanges))]) ++
          [.stop])) := by
  have repeats : RegExp.Reads "[a-z0-9-]+".toList
      [.seq (.set false capabilityRanges) (.star (.set false capabilityRanges))] :=
    RegExp.Reads.oneOrMore (forall_chars (by decide)) closeClass_capability
  have whole := RegExp.Reads.start.append
    (((RegExp.Reads.literal plain).append repeats).append RegExp.Reads.stop)
  simpa using whole

theorem test_capability {front : List Char} {cn : String} :
    (RegExp.seqOf (.start :: (((front.flatMap Utf16.ofChar).map RegExp.Node.unit ++
      [.seq (.set false capabilityRanges) (.star (.set false capabilityRanges))]) ++
        [.stop]))).test (Utf16.ofString cn) = true ↔
      ∃ level, IsCapability level ∧ cn = String.ofList front ++ level := by
  rw [RegExp.test_anchored, RegExp.rests_seqOf_append, List.mem_flatMap]
  have last (middle : Utf16.Units) :
      [] ∈ RegExp.rests (Utf16.ofString cn).length (RegExp.seqOf
        [.seq (.set false capabilityRanges) (.star (.set false capabilityRanges))]) middle ↔
      ∃ level, IsCapability level ∧ Utf16.ofString level = middle := by
    rw [← exists_capability_iff, ← RegExp.rests_seqOf_singleton, RegExp.mem_rests_oneOrMore]
    simp
  simp only [last, RegExp.mem_rests_units]
  constructor
  · rintro ⟨middle, split, level, isLevel, rfl⟩
    refine ⟨level, isLevel, Utf16.ofString_inj.mp ?_⟩
    rw [split, ofString_append, Utf16.ofString, Utf16.ofString, String.toList_ofList]
  · rintro ⟨level, isLevel, rfl⟩
    refine ⟨Utf16.ofString level, ?_, level, isLevel, rfl⟩
    rw [ofString_append, Utf16.ofString, String.toList_ofList]

/-- With literal slugs the pattern admits the names with the slugs as they are. -/
theorem regExp_capabilityPattern {site kind nameSlug : String}
    (plain : RegExp.Literal (site ++ "_" ++ kind ++ "_" ++ nameSlug ++ "_").toList)
    (plainKind : RegExp.Literal (site ++ "_" ++ kind ++ "s_").toList) :
    ∃ test, RegExp.regExp engine (capabilityPattern site kind nameSlug) = some test ∧
      ∀ cn, test cn = true ↔ ∃ level, IsCapability level ∧
        (cn = site ++ "_" ++ kind ++ "_" ++ nameSlug ++ "_" ++ level ∨
          cn = site ++ "_" ++ kind ++ "s_" ++ level) := by
  have written : capabilityPattern site kind nameSlug = String.ofList
      ('^' :: ((site ++ "_" ++ kind ++ "_" ++ nameSlug ++ "_").toList ++ "[a-z0-9-]+$".toList) ++
        '|' :: '^' :: ((site ++ "_" ++ kind ++ "s_").toList ++ "[a-z0-9-]+$".toList)) := by
    simp [capabilityPattern, ← String.toList_inj]
  have compiled := RegExp.compile_alt (reads_capability plain) (reads_capability plainKind)
  rw [written, RegExp.regExp, compiled]
  refine ⟨_, rfl, fun cn => ?_⟩
  rw [RegExp.test_alt, test_capability, test_capability, ← exists_or]
  simp only [String.ofList_toList, and_or_left]

end Pattern

/-! ## What is bound and what is honoured -/

section Agreement

variable {engine : String → Option (String → Bool)} {cache : TemplateCache}
variable {store : Discovery.Store} {row : Resource} {kind : Kind} {site : String}

theorem kind_of_groupKind (grouped : groupKind cache row = some kind) :
    row.kind = "host" ∧ kind = .host ∨ row.kind = "service" ∧ kind = .app := by
  unfold groupKind at grouped
  split at grouped
  · split at grouped
    · rename_i host
      exact Or.inl ⟨host, (Option.some.inj grouped).symm⟩
    · split at grouped
      · rename_i service
        exact Or.inr ⟨service, (Option.some.inj grouped).symm⟩
      · cases grouped
  · cases grouped

theorem not_site_of_groupKind (grouped : groupKind cache row = some kind) : row.kind ≠ "site" := by
  rcases kind_of_groupKind grouped with ⟨host, -⟩ | ⟨service, -⟩
  · rw [host]
    decide
  · rw [service]
    decide

theorem hasKind_of_groupKind (grouped : groupKind cache row = some kind)
    (site slug : Option String) : ResourceRef.HasKind ⟨site, row.kind, slug⟩ kind := by
  rcases kind_of_groupKind grouped with ⟨host, rfl⟩ | ⟨service, rfl⟩
  · rw [host]
    rfl
  · rw [service]
    rfl

/-- The fixed list of a host or app. -/
def fixedGroups (site : String) (kind : Kind) (slug : String) : List String :=
  [(GroupName.specific site kind slug "admin").cn, (GroupName.specific site kind slug "access").cn,
    (GroupName.aggregate site kind "admin").cn, (GroupName.aggregate site kind "access").cn,
    siteSuperAdminCns site, siteEveryoneCns site]

theorem validGroupCnsForResource_eq (grouped : groupKind cache row = some kind) :
    validGroupCnsForResource engine cache row site =
      (newRegExp engine
        (capabilityPattern site kind.text (resourceNameSlug (some row.slug)))).map fun capRe =>
          ⟨fixedGroups site kind (slugify (resourceNameSlug (some row.slug))), some capRe⟩ := by
  rw [validGroupCnsForResource, if_neg (not_site_of_groupKind grouped), grouped]
  simp only [resourceGroupCns_eq, aggregateGroupCns_eq, Except.mapError, bind, Except.bind, pure,
    Except.pure, fixedGroups]
  cases newRegExp engine (capabilityPattern site kind.text (resourceNameSlug (some row.slug))) with
  | error refusal => rfl
  | ok capRe => rfl

/-- Below a site the route asks the list and the pattern. -/
theorem accepts_iff (stored : store.find row.id = some row)
    (grouped : groupKind cache row = some kind)
    (located : Discovery.siteSlugOf store row.id = some site) (named : site ≠ "") {cn : String}
    (given : cn ≠ "") :
    Accepts engine cache store row.id cn ↔ cn = godAdmin ∨
      ∃ groups, validGroupCnsForResource engine cache row site = .ok groups ∧
        groups.admits cn = true := by
  have hasId : row.id ≠ "" := by
    intro noId
    rw [noId] at located
    cases located
  have atSite : truthy (siteSlugFor store row.id) = some site := by
    rw [siteSlugFor, stored, Option.filter_some,
      if_neg (by simpa using not_site_of_groupKind grouped), located]
    simp [truthy, named]
  have posted (accessLevel : String) :
      postGroups engine cache store row.id cn accessLevel =
        if cn = godAdmin then .ok (ResourceGroup.ensure store.groups row.id cn accessLevel)
        else (validGroupCnsForResource engine cache row site).bind fun groups =>
          if groups.admits cn then .ok (ResourceGroup.ensure store.groups row.id cn accessLevel)
          else .error (.invalidGroup (invalidGroupMessage cn row.kind groups.valid)) := by
    rw [postGroups, if_neg (not_or.mpr ⟨hasId, given⟩), stored, atSite]
    rfl
  constructor
  · intro accepts
    have first := accepts ""
    rw [posted] at first
    split at first
    · rename_i god
      exact Or.inl god
    · right
      cases outcome : validGroupCnsForResource engine cache row site with
      | error refusal =>
          rw [outcome] at first
          cases first
      | ok groups =>
          refine ⟨groups, rfl, ?_⟩
          rw [outcome] at first
          change (if groups.admits cn then _ else _) = _ at first
          split at first
          · rename_i admitted
            exact admitted
          · cases first
  · rintro (god | ⟨groups, valid, admitted⟩) accessLevel
    · rw [posted, if_pos god]
    · rw [posted, valid]
      split
      · rfl
      · exact if_pos admitted

theorem cn_aggregate (site level : String) (kind : Kind) :
    (GroupName.aggregate site kind level).cn = site ++ "_" ++ kind.text ++ "s_" ++ level := by
  cases kind <;>
    simp [GroupName.cn, Delimited.field, Kind.plural, Kind.text, ← String.toList_inj]

theorem literal_of_slug {slug : String} (slugged : slugify slug = slug) :
    RegExp.Literal slug.toList := by
  intro char member special
  rw [← slugged] at member
  have plain : ∀ char ∈ RegExp.specials, ¬ (isSlugChar char = true ∨ char = '-') :=
    forall_of_all (by decide)
  exact plain char special (slugify_chars member)

theorem literal_of_kind (kind : Kind) : RegExp.Literal kind.text.toList := by
  cases kind <;> decide

/-- With literal slugs the route binds a group that is in the list or has the slugs as they
are. -/
theorem accepts_iff_of_literal (stored : store.find row.id = some row)
    (grouped : groupKind cache row = some kind)
    (located : Discovery.siteSlugOf store row.id = some site) (named : site ≠ "")
    (literalSite : RegExp.Literal site.toList)
    (literalName : RegExp.Literal (resourceNameSlug (some row.slug)).toList) {cn : String}
    (given : cn ≠ "") :
    Accepts engine cache store row.id cn ↔ cn = godAdmin ∨
      cn ∈ fixedGroups site kind (slugify (resourceNameSlug (some row.slug))) ∨
      ∃ level, IsCapability level ∧
        (cn = (GroupName.specific site kind (resourceNameSlug (some row.slug)) level).cn ∨
          cn = (GroupName.aggregate site kind level).cn) := by
  have mark : RegExp.Literal "_".toList := by decide
  have pluralMark : RegExp.Literal "s_".toList := by decide
  have plain : RegExp.Literal
      (site ++ "_" ++ kind.text ++ "_" ++ resourceNameSlug (some row.slug) ++ "_").toList := by
    simp only [String.toList_append, RegExp.literal_append]
    exact ⟨⟨⟨⟨⟨literalSite, mark⟩, literal_of_kind kind⟩, mark⟩, literalName⟩, mark⟩
  have plainKind : RegExp.Literal (site ++ "_" ++ kind.text ++ "s_").toList := by
    simp only [String.toList_append, RegExp.literal_append]
    exact ⟨⟨⟨literalSite, mark⟩, literal_of_kind kind⟩, pluralMark⟩
  obtain ⟨test, compiled, tests⟩ := @regExp_capabilityPattern engine _ _ _ plain plainKind
  have valid : validGroupCnsForResource engine cache row site =
      .ok ⟨fixedGroups site kind (slugify (resourceNameSlug (some row.slug))), some test⟩ := by
    rw [validGroupCnsForResource_eq grouped, newRegExp, compiled]
    rfl
  rw [accepts_iff stored grouped located named given, valid]
  apply or_congr_right
  simp only [Except.ok.injEq, exists_eq_left', ValidGroups.admits, Bool.or_eq_true,
    List.contains_iff_mem, Option.any_some, tests, cn_aggregate]
  rfl

/-! ## Both directions -/

theorem IsCapability.underscore_notMem {level : String} (isLevel : IsCapability level) :
    '_' ∉ level.toList := by
  intro member
  rcases isLevel.2 '_' member with slugChar | dash
  · exact absurd slugChar (by decide)
  · exact absurd dash (by decide)

theorem field_inj_right {base left right : String} :
    Delimited.field base left = Delimited.field base right ↔ left = right := by
  simp [Delimited.field, ← String.toList_inj]

theorem underscore_mem_cn (name : GroupName) : '_' ∈ name.cn.toList := by
  cases name <;> simp [GroupName.cn]

theorem cn_ne_empty (name : GroupName) : name.cn ≠ "" := by
  intro empty
  have mark := underscore_mem_cn name
  rw [empty] at mark
  exact absurd mark (by decide)

theorem isMetaGroup_siteEveryoneCns (site : String) :
    isMetaGroup (some (siteEveryoneCns site)) = true := by
  rw [isMetaGroup, Bool.or_eq_true]
  right
  rw [List.isSuffixOf_iff_suffix, Option.getD_some, siteEveryoneCns, String.toList_append]
  exact List.suffix_append _ _

theorem not_accepts_empty : ¬ Accepts engine cache store row.id "" := by
  intro accepts
  have first := accepts ""
  rw [postGroups, if_pos (Or.inr rfl)] at first
  cases first

/-- Where the slugs are plain, the route and the permission check agree. -/
theorem agrees_of_plainSlugs (stored : store.find row.id = some row)
    (grouped : groupKind cache row = some kind)
    (located : Discovery.siteSlugOf store row.id = some site)
    (plain : PlainSlugs site (resourceNameSlug (some row.slug))) :
    Agrees engine cache store row kind site := by
  obtain ⟨named, literalSite, slugged⟩ := plain
  have accepts {cn : String} (given : cn ≠ "") :=
    @accepts_iff_of_literal engine _ _ _ _ _ stored grouped located named literalSite
      (literal_of_slug slugged) cn given
  rw [slugged] at accepts
  constructor
  · intro cn notMeta accepted
    have given : cn ≠ "" := fun empty => not_accepts_empty (empty ▸ accepted)
    have granted (level : String) {name : GroupName}
        (grants : name ∈ grantingNames site kind (resourceNameSlug (some row.slug)) level)
        (same : cn = name.cn) :
        ∃ level, hasPermission [cn] ⟨some site, row.kind, some row.slug⟩ level = .ok true := by
      refine ⟨level, (hasPermission_iff (hasKind_of_groupKind grouped _ _) _ _).mpr (Or.inr ?_)⟩
      exact ⟨name, by rwa [slugged], List.mem_singleton.mpr same.symm⟩
    rcases (accepts given).mp accepted with god | fixed | ⟨level, -, specific | aggregate⟩
    · refine ⟨"admin", (hasPermission_iff (hasKind_of_groupKind grouped _ _) _ _).mpr (Or.inl ?_)⟩
      exact List.mem_singleton.mpr god.symm
    · simp only [fixedGroups, List.mem_cons, List.not_mem_nil, or_false] at fixed
      rcases fixed with same | same | same | same | same | same
      · exact granted "admin" (by simp [grantingNames]) same
      · exact granted "access" (by simp [grantingNames]) same
      · exact granted "admin" (by simp [grantingNames]) same
      · exact granted "access" (by simp [grantingNames]) same
      · exact granted "admin" (by simp [grantingNames]) (same.trans (siteSuperAdminCns_eq site))
      · rw [same, isMetaGroup_siteEveryoneCns] at notMeta
        cases notMeta
    · exact granted level (by simp [grantingNames]) specific
    · exact granted level (by simp [grantingNames]) aggregate
  · intro level isLevel cn built
    rw [resourceGroupCns_eq, aggregateGroupCns_eq, slugged] at built
    have names : cn = (GroupName.specific site kind (resourceNameSlug (some row.slug)) level).cn ∨
        cn = (GroupName.aggregate site kind level).cn :=
      built.imp (fun same => (Except.ok.inj same).symm) fun same => (Except.ok.inj same).symm
    have given : cn ≠ "" := by
      rcases names with rfl | rfl
      · exact cn_ne_empty _
      · exact cn_ne_empty _
    exact (accepts given).mpr (Or.inr (Or.inr ⟨level, isLevel, names⟩))

/-- At a site without a slug the route binds anything. -/
theorem accepts_of_empty (located : Discovery.siteSlugOf store row.id = some "")
    (grouped : groupKind cache row = some kind) (stored : store.find row.id = some row)
    {cn : String} (given : cn ≠ "") : Accepts engine cache store row.id cn := by
  intro accessLevel
  have hasId : row.id ≠ "" := by
    intro noId
    rw [noId] at located
    cases located
  have nowhere : truthy (siteSlugFor store row.id) = none := by
    rw [siteSlugFor, stored, Option.filter_some,
      if_neg (by simpa using not_site_of_groupKind grouped), located]
    simp [truthy]
  rw [postGroups, if_neg (not_or.mpr ⟨hasId, given⟩), stored, nowhere]
  rfl

theorem last_of_mem_fixedGroups {slug cn : String} (member : cn ∈ fixedGroups site kind slug) :
    ∃ base, ∃ last ∈ ["admin", "access", "everyone"], cn = Delimited.field base last := by
  simp only [fixedGroups, List.mem_cons, List.not_mem_nil, or_false] at member
  rcases member with rfl | rfl | rfl | rfl | rfl | rfl
  · exact ⟨_, "admin", by simp, rfl⟩
  · exact ⟨_, "access", by simp, rfl⟩
  · exact ⟨_, "admin", by simp, rfl⟩
  · exact ⟨_, "access", by simp, rfl⟩
  · exact ⟨_, "admin", by simp, siteSuperAdminCns_eq site⟩
  · exact ⟨site, "everyone", by simp, by
      simp [siteEveryoneCns, Delimited.field, ← String.toList_inj]⟩

/-- Literal slugs for which the route and the permission check agree are plain. -/
theorem plainSlugs_of_agrees (stored : store.find row.id = some row)
    (grouped : groupKind cache row = some kind)
    (located : Discovery.siteSlugOf store row.id = some site)
    (literalSite : RegExp.Literal site.toList)
    (literalName : RegExp.Literal (resourceNameSlug (some row.slug)).toList)
    (agrees : Agrees engine cache store row kind site) :
    PlainSlugs site (resourceNameSlug (some row.slug)) := by
  have named : site ≠ "" := by
    rintro rfl
    obtain ⟨level, granted⟩ := agrees.1 "junk" (by decide)
      (accepts_of_empty located grouped stored (by decide))
    rw [hasPermission_iff (hasKind_of_groupKind grouped _ _)] at granted
    rcases granted with god | ⟨name, -, same⟩
    · exact absurd god (by decide)
    · have mark := underscore_mem_cn name
      rw [List.mem_singleton.mp same] at mark
      exact absurd mark (by decide)
  refine ⟨named, literalSite, ?_⟩
  generalize nameEq : resourceNameSlug (some row.slug) = name at literalName
  have capability : IsCapability "x" := ⟨by decide, forall_chars (by decide)⟩
  have slugFree := underscore_notMem_slugify name
  have accepted := agrees.2 "x" capability _ (Or.inl (resourceGroupCns_eq _ _ _ _))
  rw [nameEq, accepts_iff_of_literal stored grouped located named literalSite
    (nameEq ▸ literalName) (cn_ne_empty _), nameEq] at accepted
  rcases accepted with god | fixed | ⟨level, isLevel, specific | aggregate⟩
  · exact absurd god (GroupName.cn_ne_godAdmin ⟨slugFree, by decide⟩)
  · obtain ⟨base, last, known, same⟩ := last_of_mem_fixedGroups fixed
    have lasts : ∀ last ∈ ["admin", "access", "everyone"], '_' ∉ last.toList ∧ "x" ≠ last := by
      decide
    obtain ⟨lastFree, different⟩ := lasts last known
    exact absurd ((Delimited.field_inj (by decide) lastFree).mp same).2 different
  · have bases := ((Delimited.field_inj (by decide) isLevel.underscore_notMem).mp specific).1
    exact field_inj_right.mp bases
  · have bases := ((Delimited.field_inj (by decide) isLevel.underscore_notMem).mp aggregate).1
    rw [← Delimited.field_assoc, field_inj_right] at bases
    have mark : '_' ∈ kind.plural.toList := by
      rw [← bases, Delimited.toList_field]
      exact List.mem_append_right _ List.mem_cons_self
    exact absurd mark (Kind.underscore_notMem_plural kind)

/-- The route and the permission check agree where the slugs are plain, and among literal slugs
nowhere else. -/
theorem agrees_iff_plainSlugs (stored : store.find row.id = some row)
    (grouped : groupKind cache row = some kind)
    (located : Discovery.siteSlugOf store row.id = some site) :
    (PlainSlugs site (resourceNameSlug (some row.slug)) →
      Agrees engine cache store row kind site) ∧
    (RegExp.Literal site.toList → RegExp.Literal (resourceNameSlug (some row.slug)).toList →
      Agrees engine cache store row kind site →
        PlainSlugs site (resourceNameSlug (some row.slug))) :=
  ⟨agrees_of_plainSlugs stored grouped located,
    plainSlugs_of_agrees stored grouped located⟩

end Agreement

/-! ## A host with an underscore -/

def hostAt (slug : String) : Resource := ⟨"h", "host", "Web", slug, none, none, ∅⟩

/-- One host below the site of the installation. -/
def oneHost (slug : String) : Discovery.Store where
  resources := [⟨"s", "site", "Local", "site_local", none, none, ∅⟩, hostAt slug]
  edges := [⟨"e", "s", "h", "contains", none⟩]
  groups := []

/-- An engine for the core alone. -/
def coreOnly (_ : String) : Option (String → Bool) := none

theorem agrees_host_web :
    Agrees coreOnly none (oneHost "host_web") (hostAt "host_web") .host "site_local" :=
  (agrees_iff_plainSlugs (by rfl) (by rfl) (by decide +kernel)).1
    ⟨by decide, by decide, by decide +kernel⟩

/-- The slug `host_web_server`, as it is generated for `web server`: the route binds a group
that grants nothing, and refuses the one that would. -/
theorem not_agrees_web_server :
    ¬ Agrees coreOnly none (oneHost "host_web_server") (hostAt "host_web_server") .host
        "site_local" ∧
      Accepts coreOnly none (oneHost "host_web_server") "h" "site_local_host_web_server_docker" ∧
      ∀ level, hasPermission ["site_local_host_web_server_docker"]
        ⟨some "site_local", "host", some "host_web_server"⟩ level ≠ .ok true := by
  have name : resourceNameSlug (some "host_web_server") = "web_server" := by decide +kernel
  have normal : slugify "web_server" = "web-server" := by decide +kernel
  have literal : RegExp.Literal "web_server".toList := by decide
  have located : Discovery.siteSlugOf (oneHost "host_web_server") "h" = some "site_local" := by
    decide +kernel
  refine ⟨fun agrees => ?_, ?_, fun level granted => ?_⟩
  · have plain := (plainSlugs_of_agrees rfl rfl located (by decide) (name.symm ▸ literal) agrees).2.2
    change slugify (resourceNameSlug (some "host_web_server")) = _ at plain
    rw [name, normal] at plain
    exact absurd plain (by decide)
  · apply (@accepts_iff_of_literal _ _ _ (hostAt "host_web_server") _ _ rfl rfl located (by decide)
      (by decide) (name.symm ▸ literal) _ (by decide)).mpr
    right
    right
    refine ⟨"docker", ⟨by decide, forall_chars (by decide)⟩, Or.inl ?_⟩
    change _ = (GroupName.specific _ _ (resourceNameSlug (some "host_web_server")) _).cn
    rw [name]
    decide
  · have known : ResourceRef.HasKind ⟨some "site_local", "host", some "host_web_server"⟩ .host := rfl
    rw [hasPermission_iff known] at granted
    rcases granted with god | ⟨other, grants, same⟩
    · exact absurd god (by decide)
    · rw [Option.getD_some, name, normal] at grants
      have text := congrArg String.toList (List.mem_singleton.mp same)
      rcases mem_grantingNames grants with rfl | ⟨held, -, rfl | rfl⟩
      · exact absurd text (by decide)
      · simp [GroupName.cn, Kind.plural] at text
      · simp [GroupName.cn, Kind.text] at text

end ThetaDirectory.Groups
