import ThetaDirectory.Text

/-!
# Slugs a new resource receives

The slug generator of `Resource.create` (`models/resource.js`), and the shape it
gives the slug of a site.
-/

namespace ThetaDirectory.Catalog

/-- Remove one leading and one trailing underscore. -/
def trimUnderscore (text : List Char) : List Char :=
  let front := if text.head? = some '_' then text.tail else text
  if front.getLast? = some '_' then front.dropLast else front

/-- The slug `Resource.create` derives from the name when the caller sends none.
`suffix` is the random hexadecimal text appended when the slug is taken. -/
def generatedSlug (kind name : String) (taken : Bool) (suffix : String) : String :=
  let lead := if kind = "service" then "app_" else if kind = "host" then "host_" else "site_"
  let clean := String.ofList (trimUnderscore (fillRuns '_' false (toLowerCase name).toList))
  let baseSlug := lead ++ (if clean = "" then "resource" else clean)
  if taken then baseSlug ++ "_" ++ suffix else baseSlug

/-- A site slug as the generator writes it: `site_`, then lower-case letters,
digits and underscores. -/
structure SiteSlug where
  text : String
  generated : ∃ rest : String, text = "site_" ++ rest ∧
    ∀ char ∈ rest.toList, isSlugChar char ∨ char = '_'

theorem mem_of_mem_trimUnderscore {text : List Char} {char : Char}
    (member : char ∈ trimUnderscore text) : char ∈ text := by
  simp only [trimUnderscore] at member
  split_ifs at member
  all_goals first
    | exact List.mem_of_mem_tail (List.mem_of_mem_dropLast member)
    | exact List.mem_of_mem_tail member
    | exact List.mem_of_mem_dropLast member
    | exact member

/-- Every site the generator names has a slug of the generated shape, whatever
its display name. -/
theorem generatedSlug_site {kind name suffix : String} {taken : Bool}
    (notService : kind ≠ "service") (notHost : kind ≠ "host")
    (hex : ∀ char ∈ suffix.toList, isSlugChar char) :
    ∃ slug : SiteSlug, slug.text = generatedSlug kind name taken suffix := by
  simp only [generatedSlug, if_neg notService, if_neg notHost]
  generalize cleaned : String.ofList (trimUnderscore
    (fillRuns '_' false (toLowerCase name).toList)) = clean
  have cleanChars : ∀ char ∈ clean.toList, isSlugChar char ∨ char = '_' := by
    intro char member
    rw [← cleaned, String.toList_ofList] at member
    exact fillRuns_chars (mem_of_mem_trimUnderscore member)
  have bodyChars : ∀ char ∈ (if clean = "" then "resource" else clean).toList,
      isSlugChar char ∨ char = '_' := by
    split
    · exact forall_chars (by decide)
    · exact cleanChars
  generalize (if clean = "" then "resource" else clean) = body at bodyChars ⊢
  cases taken with
  | false => exact ⟨⟨_, body, rfl, bodyChars⟩, rfl⟩
  | true =>
      refine ⟨⟨_, body ++ "_" ++ suffix, rfl, ?_⟩, by simp [String.append_assoc]⟩
      intro char member
      simp only [String.toList_append, List.mem_append] at member
      rcases member with (member | member) | member
      · exact bodyChars char member
      · exact Or.inr (by simpa using member)
      · exact Or.inl (hex char member)

end ThetaDirectory.Catalog
