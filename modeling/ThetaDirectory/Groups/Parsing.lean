import ThetaDirectory.Catalog.Slug
import ThetaDirectory.Groups.Naming
import ThetaDirectory.Library.Search

/-!
# Reading a CN back

`parseGroupCn` of `utils/virtual_groups.js` splits a CN at the first kind word
and the last level word.  It inverts the builders exactly for the inputs of
`Parseable`.
-/

namespace ThetaDirectory.Groups

open Catalog Library Library.Delimited

/-- What `parseGroupCn` returns. -/
structure ParsedGroup where
  site : String
  kind : String
  slug : Option String
  level : String
  deriving DecidableEq, Repr

/-- The alternatives of `/_(host|app|hosts|apps|super)_/`, in their order. -/
def kindWords : List String := ["host", "app", "hosts", "apps", "super"]

/-- The alternative that matches at the start of the text. -/
def kindAt (text : List Char) : Option String :=
  kindWords.find? fun word => ('_' :: word.toList ++ ['_']).isPrefixOf text

/-- The leftmost match: its index and its alternative. -/
def kindMatch : List Char → Option (Nat × String)
  | [] => none
  | head :: rest =>
      match kindAt (head :: rest) with
      | some word => some (0, word)
      | none => (kindMatch rest).map fun found => (found.1 + 1, found.2)

/-- The position that separates the slug from a known level: the last `_access`,
else the last `_admin`. -/
def levelIndex (rest : List Char) : Option Nat :=
  match lastIndexOf "_access".toList rest with
  | some index => some index
  | none => lastIndexOf "_admin".toList rest

def parseGroupCn (cn : String) : Option ParsedGroup :=
  match kindMatch cn.toList with
  | none => none
  | some (index, kindStr) =>
      let site := String.ofList (cn.toList.take index)
      let rest := cn.toList.drop (index + kindStr.length + 2)
      if kindStr = "super" ∧ rest = "admin".toList then
        some ⟨site, "site", none, "admin"⟩
      else if kindStr = "hosts" ∨ kindStr = "apps" then
        some ⟨site, if kindStr = "hosts" then "host" else "app", none, String.ofList rest⟩
      else if kindStr = "host" ∨ kindStr = "app" then
        let split := fun position => some
          ⟨site, kindStr, some (String.ofList (rest.take position)),
            String.ofList (rest.drop (position + 1))⟩
        match levelIndex rest with
        | some underIdx => split underIdx
        | none =>
            match lastIndexOf ['_'] rest with
            | some underIdx => split underIdx
            | none => none
      else none

/-! ## The kind word -/

theorem kindMatch_cons (head : Char) (rest : List Char) :
    kindMatch (head :: rest) =
      match kindAt (head :: rest) with
      | some word => some (0, word)
      | none => (kindMatch rest).map fun found => (found.1 + 1, found.2) := rfl

theorem kindMatch_le {text : List Char} {index : Nat} {word : String}
    (found : kindMatch text = some (index, word)) : index + 2 ≤ text.length := by
  induction text generalizing index word with
  | nil => simp [kindMatch] at found
  | cons head rest ih =>
      cases atHead : kindAt (head :: rest) with
      | some other =>
          simp only [kindMatch, atHead, Option.some.injEq, Prod.mk.injEq] at found
          have occurs := List.find?_some atHead
          have room := (List.isPrefixOf_iff_prefix.mp occurs).length_le
          simp only [List.length_append, List.length_cons, List.length_nil] at room ⊢
          omega
      | none =>
          simp only [kindMatch, atHead, Option.map_eq_some_iff, Prod.mk.injEq] at found
          obtain ⟨⟨position, other⟩, later, positionEq, -⟩ := found
          have room := ih later
          simp only [List.length_cons]
          omega

/-- A delimited word cannot reach past the delimiter that ends a text. -/
theorem delimited_prefix_iff {word front : List Char} (tail : List Char)
    (wordFree : '_' ∉ word) :
    word ++ ['_'] <+: front ++ '_' :: tail ↔ word ++ ['_'] <+: front ++ ['_'] := by
  induction word generalizing front with
  | nil => cases front <;> simp [List.cons_prefix_cons]
  | cons letter word ih =>
      simp only [List.mem_cons, not_or] at wordFree
      cases front with
      | nil => simp [List.cons_prefix_cons, Ne.symm wordFree.1]
      | cons head front =>
          simp only [List.cons_append, List.cons_prefix_cons, ih wordFree.2]

theorem underscore_notMem_kindWord {word : String} (known : word ∈ kindWords) :
    '_' ∉ word.toList := by
  revert word
  decide

/-- Behind a non-empty front, whether a kind word matches depends on the front
and its closing delimiter alone. -/
theorem kindAt_cons_append (head : Char) (front tail : List Char) :
    kindAt (head :: front ++ '_' :: tail) = kindAt (head :: front ++ ['_']) := by
  have same : ∀ word ∈ kindWords,
      ('_' :: word.toList ++ ['_']).isPrefixOf (head :: front ++ '_' :: tail) =
        ('_' :: word.toList ++ ['_']).isPrefixOf (head :: front ++ ['_']) := by
    intro word known
    rw [Bool.eq_iff_iff, List.isPrefixOf_iff_prefix, List.isPrefixOf_iff_prefix]
    simp only [List.cons_append, List.cons_prefix_cons]
    rw [delimited_prefix_iff tail (underscore_notMem_kindWord known)]
  simp only [kindAt, kindWords, List.find?_cons, List.find?_nil] at same ⊢
  simp only [List.mem_cons, List.not_mem_nil, or_false, forall_eq_or_imp,
    forall_eq] at same
  obtain ⟨hostEq, appEq, hostsEq, appsEq, superEq⟩ := same
  rw [hostEq, appEq, hostsEq, appsEq, superEq]

/-- The leftmost kind word lies in the site if there is one there, and otherwise
behind it. -/
theorem kindMatch_append (site tail : List Char) :
    kindMatch (site ++ '_' :: tail) =
      match kindMatch (site ++ ['_']) with
      | some found => some found
      | none => (kindMatch ('_' :: tail)).map fun found =>
          (site.length + found.1, found.2) := by
  induction site with
  | nil =>
      have alone : kindMatch ['_'] = none := by decide
      simp [alone]
  | cons head site ih =>
      have atHead := kindAt_cons_append head site tail
      simp only [List.cons_append] at atHead
      simp only [List.cons_append, kindMatch_cons head, atHead, ih]
      cases kindAt (head :: (site ++ ['_'])) with
      | some word => simp
      | none =>
          cases kindMatch (site ++ ['_']) with
          | some found => simp
          | none =>
              cases kindMatch ('_' :: tail) with
              | none => simp
              | some found => simp [Nat.add_right_comm]

theorem kindMatch_word {word : String} (known : word ∈ kindWords) (rest : List Char) :
    kindMatch ('_' :: word.toList ++ '_' :: rest) = some (0, word) := by
  have atHead : kindAt ('_' :: word.toList ++ '_' :: rest) = some word := by
    simp only [kindWords, List.mem_cons, List.not_mem_nil, or_false] at known
    rcases known with rfl | rfl | rfl | rfl | rfl <;>
      simp [kindAt, kindWords, List.isPrefixOf]
  simp only [List.cons_append] at atHead ⊢
  simp [kindMatch, atHead]

/-- A site is recognisable when no kind word occurs between delimiters in it, its
closing delimiter included. -/
def SiteUnambiguous (site : String) : Prop :=
  ∀ word ∈ kindWords, ¬ '_' :: word.toList ++ ['_'] <:+: site.toList ++ ['_']

instance (site : String) : Decidable (SiteUnambiguous site) :=
  inferInstanceAs (Decidable (∀ _ ∈ _, ¬ _))

/-- The search fails exactly when no kind word occurs. -/
theorem kindMatch_eq_none {text : List Char} :
    kindMatch text = none ↔ ∀ word ∈ kindWords, ¬ '_' :: word.toList ++ ['_'] <:+: text := by
  induction text with
  | nil => simp [kindMatch]
  | cons head rest ih =>
      have atHead : kindAt (head :: rest) = none ↔
          ∀ word ∈ kindWords, ¬ '_' :: word.toList ++ ['_'] <+: head :: rest := by
        simp only [kindAt, List.find?_eq_none, List.isPrefixOf_iff_prefix]
      simp only [List.infix_cons_iff, not_or, forall_and, ← atHead, ← ih, kindMatch_cons]
      cases kindAt (head :: rest) with
      | some word => simp
      | none => simp

theorem kindMatch_site {site : String} :
    kindMatch (site.toList ++ ['_']) = none ↔ SiteUnambiguous site :=
  kindMatch_eq_none

/-- Behind a recognisable site the kind word of the builder is the one found. -/
theorem kindMatch_of_siteUnambiguous {site word : String} (recognisable : SiteUnambiguous site)
    (known : word ∈ kindWords) (rest : List Char) :
    kindMatch (site.toList ++ '_' :: (word.toList ++ '_' :: rest)) =
      some (site.toList.length, word) := by
  have atWord := kindMatch_word known rest
  rw [List.cons_append] at atWord
  rw [kindMatch_append, kindMatch_site.mpr recognisable, atWord]
  rfl

/-- Every result names the text in front of the leftmost kind word as its
site. -/
theorem site_of_parseGroupCn {cn : String} {parsed : ParsedGroup}
    (accepted : parseGroupCn cn = some parsed) :
    ∃ index word, kindMatch cn.toList = some (index, word) ∧
      parsed.site = String.ofList (cn.toList.take index) := by
  unfold parseGroupCn at accepted
  split at accepted
  · contradiction
  · rename_i index word found
    refine ⟨index, word, found, ?_⟩
    dsimp only at accepted
    split_ifs at accepted
    · simp [← Option.some.inj accepted]
    · simp [← Option.some.inj accepted]
    · simp [← Option.some.inj accepted]
    · split at accepted
      · simp [← Option.some.inj accepted]
      · split at accepted
        · simp [← Option.some.inj accepted]
        · contradiction

/-- A kind word inside the site hides the site from the parser. -/
theorem siteUnambiguous_of_parseGroupCn {site : String} {cn : String} {tail : List Char}
    (printed : cn.toList = site.toList ++ '_' :: tail) {parsed : ParsedGroup}
    (accepted : parseGroupCn cn = some parsed) (siteEq : parsed.site = site) :
    SiteUnambiguous site := by
  obtain ⟨index, word, found, siteIs⟩ := site_of_parseGroupCn accepted
  rw [← kindMatch_site]
  cases inside : kindMatch (site.toList ++ ['_']) with
  | none => rfl
  | some early =>
      rw [printed, kindMatch_append, inside] at found
      obtain rfl := Option.some.inj found
      have short := kindMatch_le inside
      simp only [List.length_append, List.length_cons, List.length_nil] at short
      have lengths := congrArg (fun text => text.toList.length) (siteIs.symm.trans siteEq)
      simp only [String.toList_ofList, List.length_take, printed, List.length_append,
        List.length_cons] at lengths
      omega

/-! ## The level -/

/-- The levels a parser recovers: no delimiter at all, or a leading `access` or
`admin` behind which no level word is searched for again. -/
def LevelUnambiguous (level : String) : Prop :=
  '_' ∉ level.toList ∨
    ("access".toList <+: level.toList ∧ ¬ "_access".toList <:+: level.toList) ∨
    ("admin".toList <+: level.toList ∧ ¬ "_access".toList <:+: level.toList ∧
      ¬ "_admin".toList <:+: level.toList)

instance (level : String) : Decidable (LevelUnambiguous level) :=
  inferInstanceAs (Decidable (_ ∨ _))

/-- Where the parser separates slug and level. -/
def splitIndex (rest : List Char) : Option Nat :=
  match levelIndex rest with
  | some index => some index
  | none => lastIndexOf ['_'] rest

theorem lastIndexOf_underscore_cons (word level : List Char) :
    lastIndexOf ('_' :: word) ('_' :: level) =
      match lastIndexOf ('_' :: word) level with
      | some index => some (index + 1)
      | none => if word <+: level then some 0 else none := by
  rw [lastIndexOf]
  cases lastIndexOf ('_' :: word) level with
  | some index => rfl
  | none => simp only [List.cons_prefix_cons, true_and]

/-- The parser separates in front of the level exactly for the unambiguous
levels. -/
theorem splitIndex_level_eq_zero (level : String) :
    splitIndex ('_' :: level.toList) = some 0 ↔ LevelUnambiguous level := by
  have accessWord : "_access".toList = '_' :: "access".toList := by decide
  have adminWord : "_admin".toList = '_' :: "admin".toList := by decide
  have delimiterOf : ∀ {word : List Char}, '_' :: word <:+: level.toList →
      '_' ∈ level.toList := fun occurs => occurs.subset (by simp)
  have occursOf : ∀ {word : List Char} {index : Nat},
      lastIndexOf ('_' :: word) level.toList = some index →
        '_' :: word <:+: level.toList := by
    intro word index found
    by_contra absent
    rw [(lastIndexOf_eq_none (List.cons_ne_nil '_' word)).mpr absent] at found
    contradiction
  simp only [splitIndex, levelIndex, LevelUnambiguous, accessWord, adminWord,
    lastIndexOf_underscore_cons]
  generalize "access".toList = access
  generalize "admin".toList = admin
  cases accessIn : lastIndexOf ('_' :: access) level.toList with
  | some index =>
      have occurs := occursOf accessIn
      simp [occurs, delimiterOf occurs]
  | none =>
      have noAccess := (lastIndexOf_eq_none (List.cons_ne_nil '_' _)).mp accessIn
      by_cases accessLead : access <+: level.toList
      · simp only [if_pos accessLead, true_iff]
        exact Or.inr (Or.inl ⟨accessLead, noAccess⟩)
      · simp only [if_neg accessLead]
        cases adminIn : lastIndexOf ('_' :: admin) level.toList with
        | some index =>
            have occurs := occursOf adminIn
            simp [occurs, delimiterOf occurs, accessLead]
        | none =>
            have noAdmin := (lastIndexOf_eq_none (List.cons_ne_nil '_' _)).mp adminIn
            by_cases adminLead : admin <+: level.toList
            · simp only [if_pos adminLead, true_iff]
              exact Or.inr (Or.inr ⟨adminLead, noAccess, noAdmin⟩)
            · simp only [if_neg adminLead]
              cases delimiterIn : lastIndexOf ['_'] level.toList with
              | some index =>
                  have occurs := occursOf delimiterIn
                  simp [delimiterOf occurs, accessLead, adminLead]
              | none =>
                  have noDelimiter :=
                    (lastIndexOf_eq_none (List.cons_ne_nil '_' [])).mp delimiterIn
                  have free : '_' ∉ level.toList := by
                    intro member
                    obtain ⟨front, back, split⟩ := List.append_of_mem member
                    exact noDelimiter ⟨front, back, by simp [split]⟩
                  simp [free]

/-! ## What the parser returns -/

/-- The leftmost kind word starts with a delimiter. -/
theorem kindMatch_split {text : List Char} {index : Nat} {word : String}
    (found : kindMatch text = some (index, word)) :
    ∃ tail, text = text.take index ++ '_' :: tail := by
  induction text generalizing index with
  | nil => simp [kindMatch] at found
  | cons head rest ih =>
      cases atHead : kindAt (head :: rest) with
      | some other =>
          simp only [kindMatch, atHead, Option.some.injEq, Prod.mk.injEq] at found
          obtain ⟨rfl, -⟩ := found
          have matched := List.find?_some atHead
          have occurs := List.isPrefixOf_iff_prefix.mp matched
          simp only [List.cons_append, List.cons_prefix_cons] at occurs
          exact ⟨rest, by simp [← occurs.1]⟩
      | none =>
          simp only [kindMatch, atHead, Option.map_eq_some_iff, Prod.mk.injEq] at found
          obtain ⟨⟨position, other⟩, later, rfl, rfl⟩ := found
          obtain ⟨tail, split⟩ := ih later
          exact ⟨tail, by rw [List.take_succ_cons, List.cons_append, ← split]⟩

/-- The site of every result is recognisable. -/
theorem siteUnambiguous_of_parsed {cn : String} {parsed : ParsedGroup}
    (accepted : parseGroupCn cn = some parsed) : SiteUnambiguous parsed.site := by
  obtain ⟨index, word, found, siteEq⟩ := site_of_parseGroupCn accepted
  obtain ⟨tail, split⟩ := kindMatch_split found
  rw [siteEq, ← kindMatch_site, String.toList_ofList]
  cases inside : kindMatch (cn.toList.take index ++ ['_']) with
  | none => rfl
  | some early =>
      rw [split, kindMatch_append, inside] at found
      obtain rfl := Option.some.inj found
      have short := kindMatch_le inside
      simp only [List.length_append, List.length_take, List.length_cons, List.length_nil] at short
      omega

/-- Where the parser separates, it would separate again. -/
theorem splitIndex_drop {rest : List Char} {index : Nat}
    (found : splitIndex rest = some index) : splitIndex (rest.drop index) = some 0 := by
  have stillAbsent : ∀ {word : List Char}, word ≠ [] → lastIndexOf word rest = none →
      lastIndexOf word (rest.drop index) = none := by
    intro word nonempty absent
    rw [lastIndexOf_eq_none nonempty] at absent ⊢
    exact fun occurs => absent (occurs.trans (List.drop_suffix index rest).isInfix)
  simp only [splitIndex, levelIndex] at found ⊢
  cases access : lastIndexOf "_access".toList rest with
  | some position =>
      simp only [access, Option.some.injEq] at found
      subst found
      rw [lastIndexOf_drop access]
  | none =>
      rw [stillAbsent (by decide) access]
      cases admin : lastIndexOf "_admin".toList rest with
      | some position =>
          simp only [access, admin, Option.some.injEq] at found
          subst found
          rw [lastIndexOf_drop admin]
      | none =>
          rw [stillAbsent (by decide) admin]
          simp only [access, admin] at found
          exact lastIndexOf_drop found

/-- A separated level is unambiguous. -/
theorem levelUnambiguous_of_splitIndex {rest : List Char} {index : Nat}
    (found : splitIndex rest = some index) :
    LevelUnambiguous (String.ofList (rest.drop (index + 1))) := by
  have again := splitIndex_drop found
  have delimiter : ∃ level, rest.drop index = '_' :: level := by
    have startsWith : ∀ {word : List Char},
        lastIndexOf ('_' :: word) (rest.drop index) = some 0 →
          ∃ level, rest.drop index = '_' :: level := by
      intro word front
      obtain ⟨back, split⟩ := prefix_of_lastIndexOf_zero front
      exact ⟨word ++ back, split.symm⟩
    simp only [splitIndex, levelIndex] at again
    cases access : lastIndexOf "_access".toList (rest.drop index) with
    | some position =>
        simp only [access] at again
        exact startsWith (access.trans again)
    | none =>
        cases admin : lastIndexOf "_admin".toList (rest.drop index) with
        | some position =>
            simp only [access, admin] at again
            exact startsWith (admin.trans again)
        | none =>
            simp only [access, admin] at again
            exact startsWith again
  obtain ⟨level, split⟩ := delimiter
  have levelEq : rest.drop (index + 1) = level := by
    rw [← List.tail_drop, split, List.tail_cons]
  rw [← splitIndex_level_eq_zero, String.toList_ofList, levelEq, ← split]
  exact again

/-- The level of a result with a slug is unambiguous. -/
theorem levelUnambiguous_of_parsed {cn : String} {parsed : ParsedGroup}
    (accepted : parseGroupCn cn = some parsed) (hasSlug : parsed.slug ≠ none) :
    LevelUnambiguous parsed.level := by
  unfold parseGroupCn at accepted
  split at accepted
  · contradiction
  · rename_i index word found
    dsimp only at accepted
    generalize cn.toList.drop (index + word.length + 2) = rest at accepted
    split at accepted
    · simp [← Option.some.inj accepted] at hasSlug
    · split at accepted
      · simp [← Option.some.inj accepted] at hasSlug
      · split at accepted
        · cases atLevel : levelIndex rest with
          | some position =>
              simp only [atLevel, Option.some.injEq] at accepted
              subst accepted
              exact levelUnambiguous_of_splitIndex (by simp [splitIndex, atLevel])
          | none =>
              cases atDelimiter : lastIndexOf ['_'] rest with
              | some position =>
                  simp only [atLevel, atDelimiter, Option.some.injEq] at accepted
                  subst accepted
                  exact levelUnambiguous_of_splitIndex (by simp [splitIndex, atLevel, atDelimiter])
              | none => simp [atLevel, atDelimiter] at accepted
        · contradiction

/-! ## Inverting the builders -/

namespace BuilderInput

/-- The tuple the builder was given, its name slugified. -/
def parsed : BuilderInput → ParsedGroup
  | siteSuperAdmin site => ⟨site, "site", none, "admin"⟩
  | aggregate site kind level => ⟨site, kind.text, none, level⟩
  | resource site kind name level => ⟨site, kind.text, some (slugify name), level⟩

/-- The parser returns what the builder was given. -/
def ParsesBack (input : BuilderInput) : Prop :=
  ∀ cn, input.build = .ok cn → parseGroupCn cn = some input.parsed

/-- The inputs whose CN can be read back. -/
def Parseable : BuilderInput → Prop
  | siteSuperAdmin site | aggregate site _ _ => SiteUnambiguous site
  | resource site _ _ level => SiteUnambiguous site ∧ LevelUnambiguous level

/-- Up to slugification the tuple determines the builder's input. -/
theorem name_eq_of_parsed_eq {left right : BuilderInput} (same : left.parsed = right.parsed) :
    left.name = right.name := by
  cases left <;> cases right <;> simp_all [parsed, name]
  all_goals cases ‹Kind› <;> simp_all [Kind.text]

end BuilderInput

/-- Behind the site and the kind word the parser sees the rest of the CN. -/
theorem drop_kindWord (site : List Char) (word : String) (rest : List Char) :
    (site ++ '_' :: (word.toList ++ '_' :: rest)).drop (site.length + word.length + 2) =
      rest := by
  have regrouped : site ++ '_' :: (word.toList ++ '_' :: rest) =
      (site ++ '_' :: (word.toList ++ ['_'])) ++ rest := by simp
  have wordLength : word.toList.length = word.length := String.length_toList
  rw [regrouped]
  exact List.drop_left' (by simp only [List.length_append, List.length_cons,
    List.length_nil, wordLength]; omega)

theorem parseGroupCn_superAdmin (site : String) :
    parseGroupCn (GroupName.superAdmin site).cn = some ⟨site, "site", none, "admin"⟩ ↔
      SiteUnambiguous site := by
  have printed : (GroupName.superAdmin site).cn.toList =
      site.toList ++ '_' :: ("super".toList ++ '_' :: "admin".toList) := by
    simp [GroupName.cn]
  constructor
  · intro accepted
    exact siteUnambiguous_of_parseGroupCn printed accepted rfl
  · intro recognisable
    have found := kindMatch_of_siteUnambiguous recognisable (show "super" ∈ kindWords by decide)
      "admin".toList
    simp only [parseGroupCn, printed, found]
    rw [drop_kindWord]
    simp

theorem parseGroupCn_aggregate (site level : String) (kind : Kind) :
    parseGroupCn (GroupName.aggregate site kind level).cn =
        some ⟨site, kind.text, none, level⟩ ↔ SiteUnambiguous site := by
  have printed : (GroupName.aggregate site kind level).cn.toList =
      site.toList ++ '_' :: (kind.plural.toList ++ '_' :: level.toList) := by
    simp [GroupName.cn]
  constructor
  · intro accepted
    exact siteUnambiguous_of_parseGroupCn printed accepted rfl
  · intro recognisable
    have known : kind.plural ∈ kindWords := by cases kind <;> decide
    have found := kindMatch_of_siteUnambiguous recognisable known level.toList
    simp only [parseGroupCn, printed, found]
    rw [drop_kindWord]
    cases kind <;> simp [Kind.plural, Kind.text]

/-- In front of an underscore-free slug the separating position only shifts. -/
theorem splitIndex_slug {slug : List Char} (slugFree : '_' ∉ slug) (level : List Char) :
    splitIndex (slug ++ '_' :: level) =
      (splitIndex ('_' :: level)).map (slug.length + ·) := by
  have accessWord : "_access".toList = '_' :: "access".toList := by decide
  have adminWord : "_admin".toList = '_' :: "admin".toList := by decide
  simp only [splitIndex, levelIndex, accessWord, adminWord, lastIndexOf_append slugFree]
  cases lastIndexOf ('_' :: "access".toList) ('_' :: level) with
  | some index => rfl
  | none =>
      cases lastIndexOf ('_' :: "admin".toList) ('_' :: level) with
      | some index => rfl
      | none => rfl

/-- Some delimiter always separates a level. -/
theorem splitIndex_level_le (level : List Char) :
    ∃ index, splitIndex ('_' :: level) = some index ∧ index ≤ level.length := by
  have bounded : ∀ {word : List Char} {index : Nat}, word ≠ [] →
      lastIndexOf word ('_' :: level) = some index → index ≤ level.length := by
    intro word index nonempty found
    have room := lastIndexOf_le found
    have positive := List.length_pos_iff.mpr nonempty
    simp only [List.length_cons] at room
    omega
  simp only [splitIndex, levelIndex]
  cases access : lastIndexOf "_access".toList ('_' :: level) with
  | some index => exact ⟨index, rfl, bounded (by decide) access⟩
  | none =>
      cases admin : lastIndexOf "_admin".toList ('_' :: level) with
      | some index => exact ⟨index, rfl, bounded (by decide) admin⟩
      | none =>
          cases delimiter : lastIndexOf ['_'] ('_' :: level) with
          | some index => exact ⟨index, rfl, bounded (by decide) delimiter⟩
          | none =>
              have absent := (lastIndexOf_eq_none (List.cons_ne_nil '_' [])).mp delimiter
              exact absurd ⟨[], level, rfl⟩ absent

/-- Behind a recognisable site the parser splits the rest of a specific name at
`splitIndex`. -/
theorem parseGroupCn_split {site : String} (recognisable : SiteUnambiguous site)
    {cn : String} {kind : Kind} {rest : List Char} {index : Nat}
    (printed : cn.toList = site.toList ++ '_' :: (kind.text.toList ++ '_' :: rest))
    (split : splitIndex rest = some index) :
    parseGroupCn cn = some ⟨site, kind.text, some (String.ofList (rest.take index)),
      String.ofList (rest.drop (index + 1))⟩ := by
  have known : kind.text ∈ kindWords := by cases kind <;> decide
  have found := kindMatch_of_siteUnambiguous recognisable known rest
  simp only [parseGroupCn, printed, found]
  rw [drop_kindWord]
  simp only [splitIndex] at split
  have notSuper : kind.text ≠ "super" := by cases kind <;> decide
  have notPlural : ¬(kind.text = "hosts" ∨ kind.text = "apps") := by cases kind <;> decide
  have singular : kind.text = "host" ∨ kind.text = "app" := by cases kind <;> decide
  rw [if_neg (fun both => notSuper both.1), if_neg notPlural, if_pos singular]
  have siteEq : String.ofList (List.take site.toList.length
      (site.toList ++ '_' :: (kind.text.toList ++ '_' :: rest))) = site := by simp
  rw [siteEq]
  cases level : levelIndex rest with
  | some position =>
      simp only [level] at split
      rw [Option.some.inj split]
  | none =>
      simp only [level] at split
      simp only [split]

theorem parseGroupCn_specific {slug : String} (slugFree : '_' ∉ slug.toList)
    (site level : String) (kind : Kind) :
    parseGroupCn (GroupName.specific site kind slug level).cn =
        some ⟨site, kind.text, some slug, level⟩ ↔
      SiteUnambiguous site ∧ LevelUnambiguous level := by
  have printed : (GroupName.specific site kind slug level).cn.toList =
      site.toList ++ '_' :: (kind.text.toList ++
        '_' :: (slug.toList ++ '_' :: level.toList)) := by
    simp [GroupName.cn]
  obtain ⟨index, atLevel, bounded⟩ := splitIndex_level_le level.toList
  have split : splitIndex (slug.toList ++ '_' :: level.toList) =
      some (slug.toList.length + index) := by
    rw [splitIndex_slug slugFree, atLevel]
    rfl
  rw [← splitIndex_level_eq_zero, atLevel]
  constructor
  · intro accepted
    have recognisable := siteUnambiguous_of_parseGroupCn printed accepted rfl
    rw [parseGroupCn_split recognisable printed split] at accepted
    have levels := congrArg (fun parsed => parsed.level.toList.length) (Option.some.inj accepted)
    simp only [String.toList_ofList, List.length_drop, List.length_append,
      List.length_cons] at levels
    exact ⟨recognisable, congrArg some (by omega)⟩
  · rintro ⟨recognisable, start⟩
    obtain rfl := Option.some.inj start
    rw [parseGroupCn_split recognisable printed split]
    simp

namespace BuilderInput

/-- The parser inverts a builder exactly on the inputs with an unambiguous site
and level. -/
theorem parsesBack_iff (input : BuilderInput) : input.ParsesBack ↔ input.Parseable := by
  simp only [ParsesBack, build_eq, Except.ok.injEq, forall_eq']
  cases input with
  | siteSuperAdmin site => exact parseGroupCn_superAdmin site
  | aggregate site kind level => exact parseGroupCn_aggregate site level kind
  | resource site kind name level =>
      exact parseGroupCn_specific (underscore_notMem_slugify name) site level kind

end BuilderInput

/-- The characters of a level: lower-case letters, digits, dashes and
underscores. -/
def isTokenChar (char : Char) : Bool := isSlugChar char || char == '-' || char == '_'

/-- The level of a builder input is written in the characters of a capability. -/
def BuilderInput.HasTokenLevel : BuilderInput → Prop
  | siteSuperAdmin _ => True
  | aggregate _ _ level | resource _ _ _ level => ∀ char ∈ level.toList, isTokenChar char

/-- Two builder inputs are told apart when both read back and inputs of different
names never share a parse. -/
def ReadApart (left right : BuilderInput) : Prop :=
  left.ParsesBack ∧ right.ParsesBack ∧
    (left.name ≠ right.name → ∀ leftCn rightCn,
      left.build = .ok leftCn → right.build = .ok rightCn →
        parseGroupCn leftCn ≠ parseGroupCn rightCn)

/-- Exactly the parseable inputs round-trip, and among them the parser never maps
different names to one tuple. -/
theorem readApart_iff (left right : BuilderInput) :
    ReadApart left right ↔ left.Parseable ∧ right.Parseable := by
  constructor
  · rintro ⟨leftBack, rightBack, -⟩
    exact ⟨left.parsesBack_iff.mp leftBack, right.parsesBack_iff.mp rightBack⟩
  · rintro ⟨leftOk, rightOk⟩
    have leftBack := left.parsesBack_iff.mpr leftOk
    have rightBack := right.parsesBack_iff.mpr rightOk
    refine ⟨leftBack, rightBack, ?_⟩
    intro different leftCn rightCn leftBuilt rightBuilt same
    rw [leftBack leftCn leftBuilt, rightBack rightCn rightBuilt] at same
    exact different (BuilderInput.name_eq_of_parsed_eq (Option.some.inj same))

/-- The capability `emby_admin` of the app `emby` is read back as the level
`admin` of an app `emby_emby`. -/
theorem not_readApart_sites :
    ¬ ∀ left right : BuilderInput,
      (∃ site : SiteSlug, left.site = site.text) →
      (∃ site : SiteSlug, right.site = site.text) → left.HasTokenLevel →
      right.HasTokenLevel → ReadApart left right := by
  intro inverts
  let input := BuilderInput.resource "site_local" .app "Emby" "emby_admin"
  let site : SiteSlug := ⟨"site_local", "local", by decide, forall_chars (by decide)⟩
  have apart := inverts input input ⟨site, rfl⟩ ⟨site, rfl⟩
    (show ∀ char ∈ "emby_admin".toList, isTokenChar char from forall_chars (by decide))
    (show ∀ char ∈ "emby_admin".toList, isTokenChar char from forall_chars (by decide))
  exact absurd (apart.1 "site_local_app_emby_emby_admin" (by decide)) (by decide)

end ThetaDirectory.Groups
