import ThetaDirectory.Access.CatalogueOrder
import ThetaDirectory.Bubbling.Summaries
import ThetaDirectory.Bubbling.Tags

/-!
# The environment status rules are evaluated with

`bubbledEnvironment` of `services/scheduler.js`.  It is meant to be what `getGraph` shows, but it
caches what it finds also where the set of visited resources cut it short.
-/

namespace ThetaDirectory.Bubbling

open Catalog Library Library.Gathering
open Access (byId)

/-- A rule of a subtype template. -/
structure StatusRule where
  condition : String
  status : String
  message : String

/-- What status evaluation reads of a subtype template. -/
structure RuledTemplate where
  slug : String
  statusRules : List StatusRule

section Evaluation

variable (templates : List RuledTemplate) (rows : List Resource) (edges : List ResourceEdge)

/-- The rules of each subtype that has some. -/
def rulesBySubtype : JsMap (List StatusRule) :=
  templates.foldl (fun rules template =>
    if template.statusRules.isEmpty then rules
    else rules.insert template.slug template.statusRules) ∅

/-- The rules a resource is evaluated by. -/
def rulesFor (row : Resource) : List StatusRule :=
  let subType := row.metadata.field "subType"
  let subtype := if subType.isTruthy then subType else row.metadata.field "subtype"
  if subtype.isTruthy then ((rulesBySubtype templates).lookup subtype.text).getD [] else []

/-- The recursion `bubbledEnvironment`. -/
def evaluationRules : Rules String (Option String) where
  next := childrenOf edges
  own id := (byId rows id).map environmentOf
  join := worse envRank
  nothing := none

/-- The resources that are evaluated, each with the environment its rules see. -/
def evaluateAll : List Resource → List (String × Option String) → List (Resource × Option String)
  | [], _ => []
  | row :: rest, cache =>
      if (rulesFor templates row).isEmpty then evaluateAll rest cache
      else
        let found := gather (evaluationRules rows edges) (depthOf rows) row.id ⟨[], cache⟩
        (row, found.1) :: evaluateAll rest found.2.cache

def evaluated : List (Resource × Option String) := evaluateAll templates rows edges rows []

/-- The environment the graph shows for a resource. -/
def shownEnvironment (id : String) : Json :=
  ((findRow (getGraph rows edges) id).map fun out => out.metadata.field "bubbled_environment").getD .null

/-! ## Where the two agree -/

/-- The resources with rules, in their order. -/
def withRules : List Resource := rows.filter fun row => !(rulesFor templates row).isEmpty

/-- The ways of the walk for the resources with rules. -/
def evaluationWays : List (List String) :=
  trails (environmentRules rows edges) (depthOf rows) ((withRules templates rows).map (·.id))

/-- The row is reached along steps that do not turn back. -/
def Seen (row lower : Resource) : Prop :=
  lower ∈ rows ∧
    Counts (environmentRules rows edges) (evaluationWays templates rows edges) row.id lower.id

/-- A resource as critical as any under the row is reached without turning back, and where there is
none no stored summary shows. -/
structure Ranked (row : Resource) : Prop where
  reached : ∀ lower environment, Under rows edges row lower → environmentOf lower = some environment →
    ∃ source given, Seen templates rows edges row source ∧ environmentOf source = some given ∧
      envRank environment ≤ envRank given
  unstained : (∀ lower, Under rows edges row lower → environmentOf lower = none) →
    row.metadata.field "bubbled_environment" = .null

end Evaluation

variable {templates : List RuledTemplate} {rows : List Resource} {edges : List ResourceEdge}
  {row : Resource}

theorem evaluationRules_eq (distinct : (rows.map (·.id)).Nodup) :
    evaluationRules rows edges = environmentRules rows edges := by
  have sameRow : byId rows = findRow rows := by
    funext id
    apply Option.ext
    intro row
    rw [Access.byId_eq_some_iff distinct, findRow_eq_some distinct]
  unfold evaluationRules
  rw [sameRow]
  rfl

theorem environment_of_envRank {environment : String} (ranked : envRank environment ≠ 0) :
    environment = "prod" ∨ environment = "testing" ∨ environment = "dev" := by
  unfold envRank at ranked
  split at ranked
  · exact Or.inl rfl
  · exact Or.inr (Or.inl rfl)
  · exact Or.inr (Or.inr rfl)
  · exact absurd rfl ranked

/-- Environments of one rank are one. -/
theorem envRank_injective {environment other : String} (ranked : envRank environment ≠ 0)
    (same : envRank environment = envRank other) : environment = other := by
  have otherRanked : envRank other ≠ 0 := same ▸ ranked
  rcases environment_of_envRank ranked with rfl | rfl | rfl <;>
    rcases environment_of_envRank otherRanked with rfl | rfl | rfl <;>
      first
      | rfl
      | exact absurd same (by decide)

/-! ## One resource -/

theorem agrees_shown_iff (distinct : (rows.map (·.id)).Nodup) {shown seen : Option String}
    (worst : Worst rows edges envRank environmentOf row shown)
    (joins : Joins (environmentRules rows edges)
      (Counts (environmentRules rows edges) (evaluationWays templates rows edges) row.id) seen) :
    (shown.map Json.str).getD (row.metadata.field "bubbled_environment") =
        (seen.map Json.str).getD .null ↔
      Ranked templates rows edges row := by
  have ofSource (source : Resource) (met : Seen templates rows edges row source) :
      rankOf envRank (environmentOf source) ≤ rankOf envRank seen :=
    highest_of_joins joins met.2
      (Option.map_eq_some_iff.mpr ⟨source, (findRow_eq_some distinct).mpr ⟨met.1, rfl⟩, rfl⟩)
  have fromSource (given : String) (isSeen : seen = some given) :
      ∃ source, Seen templates rows edges row source ∧ environmentOf source = some given := by
    obtain ⟨id, counts, isOwn⟩ := found_of_joins joins isSeen
    obtain ⟨source, isRow, isGiven⟩ := Option.map_eq_some_iff.mp isOwn
    obtain ⟨member, rfl⟩ := (findRow_eq_some distinct).mp isRow
    exact ⟨source, ⟨member, counts⟩, isGiven⟩
  have under (source : Resource) (met : Seen templates rows edges row source) :
      Under rows edges row source := under_of_counts (ways_trails _ _) met.1 met.2
  cases shown with
  | none =>
      have bare (lower : Resource) (isUnder : Under rows edges row lower) :
          environmentOf lower = none := by
        cases given : environmentOf lower with
        | none => rfl
        | some environment =>
            have most := worst.highest lower isUnder
            rw [given] at most
            exact absurd (Nat.le_zero.mp most) (envRank_of_environmentOf given)
      have unseen : seen = none := by
        cases isSeen : seen with
        | none => rfl
        | some given =>
            obtain ⟨source, met, isGiven⟩ := fromSource given isSeen
            cases (bare source (under source met)).symm.trans isGiven
      rw [unseen]
      constructor
      · intro blank
        refine ⟨fun lower environment isUnder given => ?_, fun _ => blank⟩
        cases (bare lower isUnder).symm.trans given
      · exact fun ranked => ranked.unstained bare
  | some best =>
      obtain ⟨lower, isUnder, isBest⟩ := worst.found best rfl
      have positive := envRank_of_environmentOf isBest
      constructor
      · intro same
        have isSeen : seen = some best := by
          cases seen with
          | none => cases same
          | some given => exact congrArg some (Json.str.inj same).symm
        obtain ⟨source, met, isGiven⟩ := fromSource best isSeen
        refine ⟨fun other environment isUnder given => ?_, fun none => ?_⟩
        · have most := worst.highest other isUnder
          rw [given] at most
          exact ⟨source, best, met, isGiven, most⟩
        · cases (none lower isUnder).symm.trans isBest
      · intro ranked
        obtain ⟨source, given, met, isGiven, most⟩ := ranked.reached lower best isUnder isBest
        have atLeast := ofSource source met
        rw [isGiven] at atLeast
        cases isSeen : seen with
        | none =>
            rw [isSeen] at atLeast
            exact absurd (Nat.le_zero.mp (most.trans atLeast)) positive
        | some found =>
            rw [isSeen] at atLeast
            obtain ⟨other, metOther, isFound⟩ := fromSource found isSeen
            have atMost := worst.highest other (under other metOther)
            rw [isFound] at atMost
            have sameRank := Nat.le_antisymm (most.trans atLeast) atMost
            rw [envRank_injective positive sameRank]
            rfl

/-! ## The loop -/

/-- What each evaluated resource sees joins what counts for it. -/
theorem joins_of_evaluated (distinct : (rows.map (·.id)).Nodup) {entry : Resource × Option String}
    (listed : entry ∈ evaluated templates rows edges) : entry.1 ∈ rows ∧
      Joins (environmentRules rows edges)
        (Counts (environmentRules rows edges) (evaluationWays templates rows edges) entry.1.id)
        entry.2 := by
  have enough : (rows.map (·.id)).length < depthOf rows := by
    rw [List.length_map]
    exact Nat.lt_succ_self _
  have stored (id : String) (there : ((environmentRules rows edges).own id).isSome = true) :
      id ∈ rows.map (·.id) := mem_of_rulesOf there
  -- induction on the rows left, with the ways of the evaluated rows before them
  have along (rest done : List Resource) (cache : List (String × Option String))
      (split : rows = done ++ rest)
      (tracks : Tracks (environmentRules rows edges) (evaluationWays templates rows edges) []
        (trails (environmentRules rows edges) (depthOf rows) ((withRules templates done).map (·.id)))
        ⟨[], cache⟩)
      (listed : entry ∈ evaluateAll templates rows edges rest cache) : entry.1 ∈ rows ∧
        Joins (environmentRules rows edges)
          (Counts (environmentRules rows edges) (evaluationWays templates rows edges) entry.1.id)
          entry.2 := by
    induction rest generalizing done cache with
    | nil => cases listed
    | cons row rest ih =>
        have further : rows = (done ++ [row]) ++ rest := by
          rw [split, List.append_assoc]
          rfl
        by_cases ruled : (rulesFor templates row).isEmpty = true
        · rw [evaluateAll, if_pos ruled] at listed
          apply ih (done ++ [row]) cache further _ listed
          have same : withRules templates (done ++ [row]) = withRules templates done := by
            unfold withRules
            rw [List.filter_append, List.filter_singleton, ruled]
            exact List.append_nil _
          rwa [same]
        · rw [evaluateAll, if_neg ruled, evaluationRules_eq distinct] at listed
          have same : withRules templates (done ++ [row]) = withRules templates done ++ [row] := by
            unfold withRules
            rw [List.filter_append, List.filter_singleton, Bool.not_eq_true _ |>.mp ruled]
            rfl
          have next : trails (environmentRules rows edges) (depthOf rows)
              ((withRules templates (done ++ [row])).map (·.id)) =
                trail (environmentRules rows edges) (depthOf rows) [] row.id
                  (trails (environmentRules rows edges) (depthOf rows)
                    ((withRules templates done).map (·.id))) := by
            rw [same, List.map_append, List.map_singleton, trails_concat]
          have inFinal : trails (environmentRules rows edges) (depthOf rows)
              ((withRules templates (done ++ [row])).map (·.id)) ⊆
                evaluationWays templates rows edges := by
            unfold evaluationWays
            have ids : (withRules templates rows).map (·.id) =
                (withRules templates (done ++ [row])).map (·.id) ++
                  (withRules templates rest).map (·.id) := by
              unfold withRules
              rw [← List.map_append, ← List.filter_append, ← further]
            rw [ids]
            exact trails_subset _ _ _
          rw [next] at inFinal
          obtain ⟨kept, joins⟩ := gather_call (ways_trails _ _) stored tracks enough
            inFinal
          rcases List.mem_cons.mp listed with rfl | later
          · exact ⟨split ▸ List.mem_append_cons_self, joins⟩
          · rw [← next] at kept
            exact ih (done ++ [row]) _ further kept later
  exact along rows [] [] rfl tracks_nil listed

/-- The graph shows the worst environment, or what is stored under its key. -/
theorem shownEnvironment_eq (distinct : (rows.map (·.id)).Nodup) (member : row ∈ rows) :
    ∃ shown, Worst rows edges envRank environmentOf row shown ∧ shownEnvironment rows edges row.id =
      (shown.map Json.str).getD (row.metadata.field "bubbled_environment") := by
  have entries : List.Forall₂ (fun row out => out.id = row.id ∧
      ∃ shown, Worst rows edges envRank environmentOf row shown ∧
        out.metadata.field "bubbled_environment" =
          (shown.map Json.str).getD (row.metadata.field "bubbled_environment"))
      rows (getGraph rows edges) := by
    apply forall₂_getGraph rows edges fun _ caches =>
      Exact (environmentRules rows edges) ⟨[], caches.environments⟩
    · exact exact_nil
    · intro done row rest caches split exact
      have member : row ∈ rows := split ▸ List.mem_append_cons_self
      obtain ⟨worst, kept⟩ := worst_measure distinct member exact
      exact ⟨⟨rfl, _, worst, field_withBubbled _ _ _ _ _⟩, kept⟩
  obtain ⟨out, isOut, shown, worst, written⟩ := Keyed.find?_of_forall₂ distinct entries member
  refine ⟨shown, worst, ?_⟩
  rw [shownEnvironment, findRow, isOut]
  exact written

/-- A server with some metadata. -/
def server (name : String) (metadata : Metadata) : Resource where
  id := name
  kind := "host"
  name := name
  slug := name
  description := none
  createdBy := none
  metadata := metadata.insert "subType" (.str "server")

def knottedServers : List Resource :=
  [server "first" (AList.insert "environment" (.str "prod") ∅), server "second" ∅]

def serverTemplate : RuledTemplate where
  slug := "server"
  statusRules := [⟨"bubbled_environment == 'prod'", "critical", "production"⟩]

end ThetaDirectory.Bubbling
