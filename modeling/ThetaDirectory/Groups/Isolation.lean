import ThetaDirectory.Catalog.Slug
import ThetaDirectory.Groups.Naming

/-!
# Isolation between sites

A CN joins site, kind, slug and level with the same underscore that occurs inside
site slugs, so two sites can print one name.  This module determines exactly
which builder inputs of one site grant a level at another.
-/

namespace ThetaDirectory.Groups

open Catalog Library.Delimited

/-- The level of a builder input is `admin` or `access`; the super-admin builder
takes none. -/
def BuilderInput.HasKnownLevel : BuilderInput → Prop
  | siteSuperAdmin _ => True
  | aggregate _ _ level | resource _ _ _ level => level ∈ knownLevels

theorem underscore_notMem_of_knownLevel {level : String} (known : level ∈ knownLevels) :
    '_' ∉ level.toList := by
  simp only [knownLevels, List.mem_cons, List.not_mem_nil, or_false] at known
  rcases known with rfl | rfl <;> decide

theorem BuilderInput.name_plain {input : BuilderInput} (known : input.HasKnownLevel) :
    input.name.Plain := by
  cases input with
  | siteSuperAdmin site => trivial
  | aggregate site kind level => exact underscore_notMem_of_knownLevel known
  | resource site kind name level =>
      exact ⟨underscore_notMem_slugify name, underscore_notMem_of_knownLevel known⟩

theorem grantingNames_plain {site slug level : String} {kind : Kind} {name : GroupName}
    (slugFree : '_' ∉ slug.toList) (known : level ∈ knownLevels)
    (grants : name ∈ grantingNames site kind slug level) : name.Plain := by
  have levelFree := underscore_notMem_of_knownLevel known
  have adminFree : '_' ∉ "admin".toList := by decide
  simp only [grantingNames, List.mem_cons] at grants
  rcases grants with rfl | rfl | rfl | extra
  · trivial
  · exact levelFree
  · exact ⟨slugFree, levelFree⟩
  · split at extra
    · simp only [List.mem_cons, List.not_mem_nil, or_false] at extra
      rcases extra with rfl | rfl
      · exact adminFree
      · exact ⟨slugFree, adminFree⟩
    · simp at extra

theorem site_of_mem_grantingNames {site slug level : String} {kind : Kind}
    {name : GroupName} (grants : name ∈ grantingNames site kind slug level) :
    name.site = site := by
  simp only [grantingNames, List.mem_cons] at grants
  rcases grants with rfl | rfl | rfl | extra
  · rfl
  · rfl
  · rfl
  · split at extra
    · simp only [List.mem_cons, List.not_mem_nil, or_false] at extra
      rcases extra with rfl | rfl <;> rfl
    · simp at extra

/-- The builder inputs of another site whose CN is also a granting name of the
resource.  Either the resource's site is the other site with a kind word behind
it and the input names a resource `super`, `hosts` or `apps`, or the other way
round. -/
def Collides (own : String) (kind : Kind) (slug level : String) : BuilderInput → Prop
  | .siteSuperAdmin site => site = field own kind.text ∧ slug = "super"
  | .aggregate site swallowed held =>
      site = field own kind.text ∧ slug = swallowed.plural ∧ levelGrants held level
  | .resource site swallowed name held =>
      own = field site swallowed.text ∧
        (slugify name = "super" ∧ held = "admin" ∨
          slugify name = kind.plural ∧ levelGrants held level)

/-- Among granting names of a site, those that print like a name of a different
site are the collisions. -/
theorem exists_grantingName_cn_eq_iff {own slug level : String} {kind : Kind}
    {input : BuilderInput} (slugFree : '_' ∉ slug.toList) (wanted : level ∈ knownLevels)
    (held : input.HasKnownLevel) (distinct : own ≠ input.site) :
    (∃ name ∈ grantingNames own kind slug level, name.cn = input.name.cn) ↔
      Collides own kind slug level input := by
  have plain := BuilderInput.name_plain held
  have cnIff : ∀ name ∈ grantingNames own kind slug level,
      (name.cn = input.name.cn ↔ name.ReadsAs input.name ∨ input.name.ReadsAs name) := by
    intro name grants
    rw [GroupName.cn_eq_iff (grantingNames_plain slugFree wanted grants) plain]
    have different : name ≠ input.name := by
      rintro rfl
      apply distinct
      rw [← site_of_mem_grantingNames grants]
      cases input <;> rfl
    simp [different]
  rw [show (∃ name ∈ grantingNames own kind slug level, name.cn = input.name.cn) ↔
      ∃ name ∈ grantingNames own kind slug level,
        name.ReadsAs input.name ∨ input.name.ReadsAs name from
    exists_congr fun name => and_congr_right fun grants => cnIff name grants]
  simp only [knownLevels, List.mem_cons, List.not_mem_nil, or_false] at wanted
  cases input with
  | siteSuperAdmin site =>
      rcases wanted with rfl | rfl <;>
        simp [grantingNames, BuilderInput.name, GroupName.ReadsAs, Collides]
  | aggregate site swallowed held =>
      rcases wanted with rfl | rfl
      · simp [grantingNames, BuilderInput.name, GroupName.ReadsAs, Collides, levelGrants]
      · simp [grantingNames, BuilderInput.name, GroupName.ReadsAs, Collides, levelGrants]
        grind
  | resource site swallowed name held =>
      rcases wanted with rfl | rfl
      · simp [grantingNames, BuilderInput.name, GroupName.ReadsAs, Collides, levelGrants]
        grind
      · simp [grantingNames, BuilderInput.name, GroupName.ReadsAs, Collides, levelGrants]
        grind

/-- A group generated for one site grants nothing on a resource of a different
site exactly when its CN does not collide with a granting name there. -/
theorem hasPermission_other_site_iff (own other : SiteSlug) (distinct : own.text ≠ other.text)
    (input : BuilderInput) (generated : input.site = other.text)
    (held : input.HasKnownLevel) {resource : ResourceRef} {kind : Kind}
    (located : resource.site = some own.text) (known : resource.HasKind kind)
    {level : String} (wanted : level ∈ knownLevels) :
    (∀ cn, input.build = .ok cn → hasPermission [cn] resource level = .ok false) ↔
      ¬ Collides own.text kind (slugify (resourceNameSlug resource.slug)) level input := by
  have notGod := GroupName.cn_ne_godAdmin (BuilderInput.name_plain held)
  have siteNe : own.text ≠ input.site := generated ▸ distinct
  rw [← exists_grantingName_cn_eq_iff (underscore_notMem_slugify _) wanted held siteNe]
  simp only [BuilderInput.build_eq, Except.ok.injEq, forall_eq', hasPermission_eq known,
    located, Option.getD_some]
  simp [notGod.symm]

/-- The super-admin group of `site_a_host` is also the admin group of a host
named `super` at `site_a`. -/
theorem not_hasPermission_other_site_false :
    ¬ ∀ (own other : SiteSlug), own.text ≠ other.text →
      ∀ input : BuilderInput, input.site = other.text → input.HasKnownLevel →
      ∀ (resource : ResourceRef) (kind : Kind), resource.site = some own.text →
        resource.HasKind kind → ∀ level ∈ knownLevels,
          ∀ cn, input.build = .ok cn → hasPermission [cn] resource level = .ok false := by
  intro isolated
  have denied := isolated
    ⟨"site_a_host", "a_host", by decide, forall_chars (by decide)⟩
    ⟨"site_a", "a", by decide, forall_chars (by decide)⟩
    (by decide) (.resource "site_a" .host "super" "admin") rfl
    (show "admin" ∈ knownLevels by decide)
    ⟨some "site_a_host", "host", some "web"⟩ .host rfl (by decide)
    "admin" (by decide) "site_a_host_super_admin" (by decide)
  exact absurd denied (by decide)

theorem hasPermission_other_site_iff_at :
    (∀ cn, (BuilderInput.siteSuperAdmin "site_b").build = .ok cn →
      hasPermission [cn] ⟨some "site_a", "host", some "web"⟩ "access" = .ok false) ↔
      ¬ Collides "site_a" .host (slugify (resourceNameSlug (some "web"))) "access"
        (.siteSuperAdmin "site_b") :=
  hasPermission_other_site_iff ⟨"site_a", "a", by decide, forall_chars (by decide)⟩
    ⟨"site_b", "b", by decide, forall_chars (by decide)⟩ (by decide) (.siteSuperAdmin "site_b") rfl
    trivial rfl (by decide) (by decide)

end ThetaDirectory.Groups
