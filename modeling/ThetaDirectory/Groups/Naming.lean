import ThetaDirectory.Library.Delimited
import ThetaDirectory.Text

/-!
# Group names and the permission lattice

The pure group model of `utils/groups.js`: slugs, the three CN builders, and
`hasPermission`, which decides a level on a resource from the CNs a user holds.

A CN is a string on both sides of the model.  `GroupName` is the structured
form the builders print; `grantingNames` lists the names `hasPermission` looks
for, so that questions about permissions become questions about names.
-/

namespace ThetaDirectory.Groups

open Library.Delimited

/-! ## Slugs -/

def slugify (name : String) : String :=
  String.ofList (trimDashes (fillRuns '-' false (toLowerCase name).toList))

/-- Strip the kind prefix a directory resource slug may carry. -/
def resourceNameSlug (slug : Option String) : String :=
  let text := (slug.getD "").toList
  if "site_".toList <+: text ∨ "host_".toList <+: text then
    String.ofList (text.drop 5)
  else if "app_".toList <+: text then
    String.ofList (text.drop 4)
  else
    String.ofList text

/-- A slug is made of lower-case letters, digits and dashes. -/
theorem slugify_chars {name : String} {char : Char}
    (member : char ∈ (slugify name).toList) : isSlugChar char ∨ char = '-' := by
  simp only [slugify, String.toList_ofList] at member
  exact fillRuns_chars (mem_of_mem_trimDashes member)

/-- A slug never contains the structural delimiter. -/
theorem underscore_notMem_slugify (name : String) : '_' ∉ (slugify name).toList := by
  intro member
  rcases slugify_chars member with slugChar | dash
  · exact absurd slugChar (by decide)
  · exact absurd dash (by decide)

theorem slugify_slugify (name : String) : slugify (slugify name) = slugify name := by
  have lower : toLowerCase (slugify name) = slugify name :=
    toLowerCase_eq_self fun char member => lowerChar_slugChar (slugify_chars member)
  rw [slugify, lower]
  simp only [slugify, String.toList_ofList, slug_idem]

/-- A slug carries no kind prefix. -/
theorem resourceNameSlug_of_underscore_notMem {text : String} (plain : '_' ∉ text.toList) :
    resourceNameSlug (some text) = text := by
  have noPrefix : ∀ word : List Char, '_' ∈ word → ¬ word <+: text.toList :=
    fun word member isPrefix => plain (isPrefix.subset member)
  simp only [resourceNameSlug, Option.getD_some]
  rw [if_neg (not_or.mpr ⟨noPrefix _ (by decide), noPrefix _ (by decide)⟩),
    if_neg (noPrefix _ (by decide)), String.ofList_toList]

/-! ## CN builders -/

def godAdmin : String := "god_admin"

def knownLevels : List String := ["admin", "access"]

def kinds : List String := ["host", "app"]

/-- Validate a kind; throws on anything but `host` and `app`. -/
def assertKind (kind : String) : Except String Unit :=
  if kinds.contains kind then .ok ()
  else .error ("invalid resource kind: " ++ kind ++ " (must be host or app)")

/-- `{site}_{kind}_{nameSlug}_{level}`, the group of one resource. -/
def resourceGroupCns (site kind nameSlug level : String) : Except String String := do
  assertKind kind
  return site ++ "_" ++ kind ++ "_" ++ slugify nameSlug ++ "_" ++ level

/-- `{site}_hosts_{level}` or `{site}_apps_{level}`. -/
def aggregateGroupCns (site kind level : String) : Except String String := do
  assertKind kind
  return site ++ "_" ++ kind ++ "s_" ++ level

def siteSuperAdminCns (site : String) : String := site ++ "_super_admin"

def siteEveryoneCns (site : String) : String := site ++ "_everyone"

def isKnownLevel (level : String) : Bool := knownLevels.contains level

/-- Holding `level` grants `wanted`: `admin` implies `access`. -/
def levelGrants (level wanted : String) : Bool :=
  if level == wanted then true else level == "admin" && wanted == "access"

/-! ## Permission -/

/-- The resource a permission is asked on.  A missing site prints as `null` in
the names built from it. -/
structure ResourceRef where
  site : Option String
  kind : String
  slug : Option String
  deriving DecidableEq, Repr

/-- The aggregate and the specific grant of one level. -/
def heldAt (memberOf : List String) (site kind nameSlug level : String) :
    Except String Bool := do
  if memberOf.contains (← aggregateGroupCns site kind level) then return true
  if memberOf.contains (← resourceGroupCns site kind nameSlug level) then return true
  return false

/-- The inheritance lattice over a user's group CNs.  `access` falls back to
`admin` once; the source recurses for it, and the two checks it repeats on the
way have already failed. -/
def hasPermission (memberOf : List String) (resource : ResourceRef) (level : String) :
    Except String Bool :=
  let site := resource.site.getD "null"
  let kind := if resource.kind == "service" then "app" else resource.kind
  let nameSlug := resourceNameSlug resource.slug
  if memberOf.contains godAdmin then .ok true
  else if memberOf.contains (siteSuperAdminCns site) then .ok true
  else do
    if isKnownLevel level then
      if ← heldAt memberOf site kind nameSlug level then return true
      if level == "access" then
        if ← heldAt memberOf site kind nameSlug "admin" then return true
      return false
    heldAt memberOf site kind nameSlug level

/-- Meta groups carry implicit membership and grant nothing by themselves. -/
def isMetaGroup (cn : Option String) : Bool :=
  let name := cn.getD ""
  name == "everyone" || "_everyone".toList.isSuffixOf name.toList

/-! ## Structured names -/

/-- The two kinds `assertKind` lets through. -/
inductive Kind where
  | host
  | app
  deriving DecidableEq, Repr

namespace Kind

/-- The kind as it is written in a CN. -/
def text : Kind → String
  | .host => "host"
  | .app => "app"

/-- The plural used by the aggregate groups. -/
def plural : Kind → String
  | .host => "hosts"
  | .app => "apps"

@[simp] theorem text_inj {left right : Kind} : left.text = right.text ↔ left = right := by
  cases left <;> cases right <;> decide

@[simp] theorem plural_inj {left right : Kind} : left.plural = right.plural ↔ left = right := by
  cases left <;> cases right <;> decide

theorem text_ne_plural (left right : Kind) : left.text ≠ right.plural := by
  cases left <;> cases right <;> decide

@[simp] theorem underscore_notMem_text (kind : Kind) : '_' ∉ kind.text.toList := by
  cases kind <;> decide

@[simp] theorem underscore_notMem_plural (kind : Kind) : '_' ∉ kind.plural.toList := by
  cases kind <;> decide

@[simp] theorem assertKind_text (kind : Kind) : assertKind kind.text = .ok () := by
  cases kind <;> rfl

theorem plural_eq (kind : Kind) : kind.plural = kind.text ++ "s" := by
  cases kind <;> decide

/-- Only the two kinds pass the assertion. -/
theorem of_assertKind {kind : String} (passes : assertKind kind = .ok ()) :
    ∃ known : Kind, kind = known.text := by
  by_cases known : kinds.contains kind
  · simp only [kinds, List.contains_cons, List.contains_nil, Bool.or_false,
      Bool.or_eq_true, beq_iff_eq] at known
    rcases known with rfl | rfl
    · exact ⟨.host, rfl⟩
    · exact ⟨.app, rfl⟩
  · rw [assertKind, if_neg known] at passes
    contradiction

end Kind

/-- The names the builders print, with their fields kept apart. -/
inductive GroupName where
  | superAdmin (site : String)
  | aggregate (site : String) (kind : Kind) (level : String)
  | specific (site : String) (kind : Kind) (slug level : String)
  deriving DecidableEq, Repr

namespace GroupName

/-- The site whose builders print the name. -/
def site : GroupName → String
  | superAdmin site | aggregate site _ _ | specific site _ _ _ => site

/-- Print a structured name. -/
def cn : GroupName → String
  | superAdmin site => field (field site "super") "admin"
  | aggregate site kind level => field (field site kind.plural) level
  | specific site kind slug level => field (field (field site kind.text) slug) level

/-- No field behind the site contains the delimiter.  Slugs never do; levels may
when they are opaque capabilities. -/
def Plain : GroupName → Prop
  | superAdmin _ => True
  | aggregate _ _ level => '_' ∉ level.toList
  | specific _ _ slug level => '_' ∉ slug.toList ∧ '_' ∉ level.toList

/-- A site-wide name that prints like the specific name of a shorter site: the
kind word has been absorbed into the site. -/
def ReadsAs : GroupName → GroupName → Prop
  | superAdmin site, specific shorter kind slug level =>
      site = field shorter kind.text ∧ slug = "super" ∧ level = "admin"
  | aggregate site swallowed level, specific shorter kind slug level' =>
      site = field shorter kind.text ∧ slug = swallowed.plural ∧ level = level'
  | _, _ => False

private theorem underscore_notMem_admin : '_' ∉ "admin".toList := by decide

private theorem underscore_notMem_super : '_' ∉ "super".toList := by decide

private theorem plural_ne_super (kind : Kind) : kind.plural ≠ "super" := by
  cases kind <;> decide

/-- Plain names print alike only when they are the same name or one absorbs a
kind word into its site. -/
theorem cn_eq_iff {left right : GroupName} (leftPlain : left.Plain)
    (rightPlain : right.Plain) :
    left.cn = right.cn ↔ left = right ∨ left.ReadsAs right ∨ right.ReadsAs left := by
  cases left with
  | superAdmin site =>
      cases right with
      | superAdmin other =>
          simp [cn, ReadsAs, field_inj]
      | aggregate other kind level =>
          have different := (plural_ne_super kind).symm
          simp [cn, ReadsAs, field_inj,
            show '_' ∉ level.toList from rightPlain, different]
      | specific other kind slug level =>
          simp only [cn, field_inj underscore_notMem_admin rightPlain.2,
            field_inj underscore_notMem_super rightPlain.1, ReadsAs]
          grind
  | aggregate site kind level =>
      cases right with
      | superAdmin other =>
          have different := plural_ne_super kind
          simp [cn, ReadsAs, field_inj,
            show '_' ∉ level.toList from leftPlain, different]
      | aggregate other kind' level' =>
          simp only [cn, field_inj leftPlain rightPlain, field_inj
            kind.underscore_notMem_plural kind'.underscore_notMem_plural, Kind.plural_inj,
            ReadsAs, aggregate.injEq]
          grind
      | specific other kind' slug level' =>
          simp only [cn, field_inj leftPlain rightPlain.2,
            field_inj kind.underscore_notMem_plural rightPlain.1, ReadsAs]
          grind
  | specific site kind slug level =>
      cases right with
      | superAdmin other =>
          simp only [cn, field_inj leftPlain.2 underscore_notMem_admin,
            field_inj leftPlain.1 underscore_notMem_super, ReadsAs]
          grind
      | aggregate other kind' level' =>
          simp only [cn, field_inj leftPlain.2 rightPlain,
            field_inj leftPlain.1 kind'.underscore_notMem_plural, ReadsAs]
          grind
      | specific other kind' slug' level' =>
          simp only [cn, field_inj leftPlain.2 rightPlain.2, field_inj leftPlain.1 rightPlain.1,
            field_inj kind.underscore_notMem_text kind'.underscore_notMem_text, Kind.text_inj,
            ReadsAs, specific.injEq]
          grind

/-- No builder prints the global group. -/
theorem cn_ne_godAdmin {name : GroupName} (plain : name.Plain) : name.cn ≠ godAdmin := by
  have split : godAdmin = field "god" "admin" := by decide
  have oneField : '_' ∉ "god".toList := by decide
  rw [split]
  intro equal
  apply oneField
  cases name with
  | superAdmin site =>
      rw [cn, field_inj underscore_notMem_admin underscore_notMem_admin] at equal
      simp [← equal.1]
  | aggregate site kind level =>
      rw [cn, field_inj plain underscore_notMem_admin] at equal
      simp [← equal.1]
  | specific site kind slug level =>
      rw [cn, field_inj plain.2 underscore_notMem_admin] at equal
      simp [← equal.1]

end GroupName

theorem siteSuperAdminCns_eq (site : String) :
    siteSuperAdminCns site = (GroupName.superAdmin site).cn := by
  simp only [siteSuperAdminCns, GroupName.cn, field, ← String.toList_inj]
  simp

theorem aggregateGroupCns_eq (site level : String) (kind : Kind) :
    aggregateGroupCns site kind.text level =
      .ok (GroupName.aggregate site kind level).cn := by
  simp only [aggregateGroupCns, Kind.assertKind_text, GroupName.cn, field,
    Kind.plural_eq]
  simp [bind, Except.bind, pure, Except.pure, ← String.toList_inj]

theorem resourceGroupCns_eq (site nameSlug level : String) (kind : Kind) :
    resourceGroupCns site kind.text nameSlug level =
      .ok (GroupName.specific site kind (slugify nameSlug) level).cn := by
  simp only [resourceGroupCns, Kind.assertKind_text, GroupName.cn, field]
  simp [bind, Except.bind, pure, Except.pure]

/-- What the three builders take: the name of a resource is slugified on the way
into its CN. -/
inductive BuilderInput where
  | siteSuperAdmin (site : String)
  | aggregate (site : String) (kind : Kind) (level : String)
  | resource (site : String) (kind : Kind) (name level : String)
  deriving DecidableEq, Repr

namespace BuilderInput

def site : BuilderInput → String
  | siteSuperAdmin site | aggregate site _ _ | resource site _ _ _ => site

/-- Run the builder. -/
def build : BuilderInput → Except String String
  | siteSuperAdmin site => .ok (siteSuperAdminCns site)
  | aggregate site kind level => aggregateGroupCns site kind.text level
  | resource site kind name level => resourceGroupCns site kind.text name level

/-- The structured name the builder prints. -/
def name : BuilderInput → GroupName
  | siteSuperAdmin site => .superAdmin site
  | aggregate site kind level => .aggregate site kind level
  | resource site kind name level => .specific site kind (slugify name) level

theorem build_eq (input : BuilderInput) : input.build = .ok input.name.cn := by
  cases input with
  | siteSuperAdmin site => simp [build, name, siteSuperAdminCns_eq]
  | aggregate site kind level => exact aggregateGroupCns_eq site level kind
  | resource site kind nameSlug level => exact resourceGroupCns_eq site nameSlug level kind

end BuilderInput

/-- The structured names that grant a level on one resource; `god_admin` grants
everything besides. -/
def grantingNames (site : String) (kind : Kind) (slug level : String) :
    List GroupName :=
  .superAdmin site ::
    .aggregate site kind level :: .specific site kind slug level ::
      if level = "access" then
        [.aggregate site kind "admin", .specific site kind slug "admin"]
      else []

theorem heldAt_eq (memberOf : List String) (site nameSlug level : String) (kind : Kind) :
    heldAt memberOf site kind.text nameSlug level =
      .ok (memberOf.contains (GroupName.aggregate site kind level).cn ||
        memberOf.contains (GroupName.specific site kind (slugify nameSlug) level).cn) := by
  simp only [heldAt, aggregateGroupCns_eq, resourceGroupCns_eq, bind, Except.bind]
  split
  · simp_all [pure, Except.pure]
  · split <;> simp_all [pure, Except.pure]

/-- A resource of a known kind; a `service` counts as an app. -/
def ResourceRef.HasKind (resource : ResourceRef) (kind : Kind) : Prop :=
  (if resource.kind == "service" then "app" else resource.kind) = kind.text

instance (resource : ResourceRef) (kind : Kind) : Decidable (resource.HasKind kind) :=
  inferInstanceAs (Decidable (_ = _))

/-- For a known kind the check never throws, and it is membership in the list
of granting names. -/
theorem hasPermission_eq {resource : ResourceRef} {kind : Kind}
    (known : resource.HasKind kind) (memberOf : List String) (level : String) :
    hasPermission memberOf resource level =
      .ok (memberOf.contains godAdmin ||
        (grantingNames (resource.site.getD "null") kind
          (slugify (resourceNameSlug resource.slug)) level).any
            fun name => memberOf.contains name.cn) := by
  simp only [hasPermission, ResourceRef.HasKind] at known ⊢
  rw [known]
  generalize resource.site.getD "null" = site
  simp only [siteSuperAdminCns_eq, heldAt_eq, grantingNames, bind, Except.bind,
    pure, Except.pure]
  generalize slugify (resourceNameSlug resource.slug) = slug
  cases memberOf.contains godAdmin <;>
    cases super : memberOf.contains (GroupName.superAdmin site).cn <;>
    cases aggregate : memberOf.contains (GroupName.aggregate site kind level).cn <;>
    cases specific : memberOf.contains (GroupName.specific site kind slug level).cn
  all_goals by_cases access : level = "access"
  all_goals simp_all [isKnownLevel, knownLevels]
  split_ifs <;> simp_all

/-- A set of CNs grants a level exactly when it holds `god_admin` or one of the
granting names. -/
theorem hasPermission_iff {resource : ResourceRef} {kind : Kind}
    (known : resource.HasKind kind) (memberOf : List String) (level : String) :
    hasPermission memberOf resource level = .ok true ↔
      godAdmin ∈ memberOf ∨
        ∃ name ∈ grantingNames (resource.site.getD "null") kind
          (slugify (resourceNameSlug resource.slug)) level, name.cn ∈ memberOf := by
  rw [hasPermission_eq known]
  simp

/-- Permission grows with the groups held. -/
theorem hasPermission_mono {resource : ResourceRef} {kind : Kind}
    (known : resource.HasKind kind) {fewer more : List String} {level : String}
    (subset : fewer ⊆ more) (granted : hasPermission fewer resource level = .ok true) :
    hasPermission more resource level = .ok true := by
  rw [hasPermission_iff known] at granted ⊢
  rcases granted with god | ⟨name, grants, member⟩
  · exact Or.inl (subset god)
  · exact Or.inr ⟨name, grants, subset member⟩

end ThetaDirectory.Groups
