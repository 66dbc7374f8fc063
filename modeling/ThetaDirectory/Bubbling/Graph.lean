import ThetaDirectory.Catalog.Resource
import ThetaDirectory.Library.Gathering
import ThetaDirectory.Library.Keyed

/-!
# The graph with what bubbles up

`Resource.getGraph` of `models/resource.js`: each resource is given the tags, the most critical
environment and the worst status of itself and everything under it.  The names of built-in object
properties, which the rank tables of the source inherit, are left out.
-/

namespace ThetaDirectory.Bubbling

open Catalog Library Library.Gathering

/-- How critical an environment is; 0 for one that is not in the table. -/
def envRank : String → Nat
  | "prod" => 3
  | "testing" => 2
  | "dev" => 1
  | _ => 0

/-- How bad a status is; 0 for one that is not in the table. -/
def statusRank : String → Nat
  | "critical" | "error" => 4
  | "warning" => 3
  | "unknown" => 2
  | "ok" => 1
  | _ => 0

section Rules

variable (rows : List Resource) (edges : List ResourceEdge)

def findRow (id : String) : Option Resource := rows.find? fun row => row.id == id

/-- A recursion down the stored resources. -/
def rulesOf {β : Type} (own : Resource → β) (join : β → β → β) (nothing : β) : Rules String β where
  next := childrenOf edges
  own id := (findRow rows id).map own
  join := join
  nothing := nothing

/-! ## Tags -/

def addTag (tags : List Json) (tag : Json) : List Json :=
  if tags.any tag.same then tags else tags ++ [tag]

/-- Add the tags of one set to another. -/
def addTags (tags more : List Json) : List Json := more.foldl addTag tags

/-- The tags of a row; a text stands for its characters. -/
def tagsOf (row : Resource) : List Json :=
  match row.metadata.field "tags" with
  | .arr tags => tags
  | .str text => text.toList.map fun char => .str (String.singleton char)
  | _ => []

/-- The recursion `getTags`. -/
def tagRules : Rules String (List Json) :=
  rulesOf rows edges (fun row => addTags [] (tagsOf row)) addTags []

/-! ## Environments and statuses -/

/-- The rank of a value; 0 where there is none. -/
def rankOf {β : Type} (rank : β → Nat) (value : Option β) : Nat := (value.map rank).getD 0

/-- The value of higher rank, the first one of equals. -/
def worse {β : Type} (rank : β → Nat) (best child : Option β) : Option β :=
  if rankOf rank child ≠ 0 ∧ (best.isNone ∨ rankOf rank best < rankOf rank child) then child
  else best

/-- The recursion that looks for the highest rank. -/
def worstRules {β : Type} (rank : β → Nat) (own : Resource → Option β) : Rules String (Option β) :=
  rulesOf rows edges own (worse rank) none

def environmentOf (row : Resource) : Option String :=
  (row.metadata.field "environment").str?.filter fun environment => envRank environment != 0

/-- The recursion `getEnvironment`. -/
def environmentRules : Rules String (Option String) := worstRules rows edges envRank environmentOf

def statusOf (row : Resource) : Option String :=
  (row.metadata.field "status").str?.filter fun status => statusRank status != 0

/-- The status of a row, and the row it is from. -/
def statusFrom (row : Resource) : Option (String × Resource) :=
  (statusOf row).map fun status => (status, row)

/-- The recursion `getStatus`. -/
def statusRules : Rules String (Option (String × Resource)) :=
  worstRules rows edges (fun found => statusRank found.1) statusFrom

/-! ## The loop -/

structure Caches where
  tags : List (String × List Json)
  environments : List (String × Option String)
  statuses : List (String × Option (String × Resource))

/-- What a row is called where it is blamed. -/
def displayName (row : Resource) : String := if row.name = "" then row.slug else row.name

/-- Set a key where there is a text for it. -/
def write (metadata : Metadata) (key : String) : Option String → Metadata
  | some value => metadata.insert key (.str value)
  | none => metadata

/-- The metadata of a row with what bubbled up to it.  A row that is the worst itself blames no one. -/
def withBubbled (row : Resource) (tags : List Json) (environment : Option String)
    (rolled : Option (String × Resource)) : Metadata :=
  let metadata := row.metadata.insert "bubbled_tags" (.arr tags)
  let metadata := write metadata "bubbled_environment" environment
  let metadata := write metadata "bubbled_status" (rolled.map Prod.fst)
  write metadata "bubbled_status_from"
    ((rolled.filter fun found => found.2.id != row.id).map fun found => displayName found.2)

/-- Deep enough for every walk over the rows. -/
def depthOf : Nat := rows.length + 1

/-- What the loop does to one row. -/
def bubble (caches : Caches) (row : Resource) : Resource × Caches :=
  let tags := gather (tagRules rows edges) (depthOf rows) row.id ⟨[], caches.tags⟩
  let environment := measure (environmentRules rows edges) (depthOf rows) row.id
    ⟨[], caches.environments⟩
  let rolled := measure (statusRules rows edges) (depthOf rows) row.id ⟨[], caches.statuses⟩
  ({ row with metadata := withBubbled row tags.1 environment.1.1 rolled.1.1 },
    ⟨tags.2.cache, environment.2.cache, rolled.2.cache⟩)

def bubbleAll : List Resource → Caches → List Resource
  | [], _ => []
  | row :: rest, caches =>
      let done := bubble rows edges caches row
      done.1 :: bubbleAll rest done.2

/-- The resources of the graph. -/
def getGraph : List Resource := bubbleAll rows edges rows ⟨[], [], []⟩

/-- What every round of the loop gives, if it keeps what the rounds before it left behind. -/
theorem forall₂_getGraph (keeps : List Resource → Caches → Prop) {holds : Resource → Resource → Prop}
    (start : keeps [] ⟨[], [], []⟩)
    (step : ∀ done row rest caches, rows = done ++ row :: rest → keeps done caches →
      holds row (bubble rows edges caches row).1 ∧
        keeps (done ++ [row]) (bubble rows edges caches row).2) :
    List.Forall₂ holds rows (getGraph rows edges) := by
  have along (rest done : List Resource) (caches : Caches) (split : rows = done ++ rest)
      (kept : keeps done caches) : List.Forall₂ holds rest (bubbleAll rows edges rest caches) := by
    induction rest generalizing done caches with
    | nil => exact .nil
    | cons row rest ih =>
        obtain ⟨now, later⟩ := step done row rest caches split kept
        apply List.Forall₂.cons now
        apply ih (done ++ [row]) _ _ later
        rw [List.append_assoc]
        exact split
  exact along rows [] _ rfl start

/-! ## What is written -/

theorem field_write (metadata : Metadata) (written key : String) (value : Option String) :
    (write metadata written value).field key =
      if key = written then (value.map Json.str).getD (metadata.field key)
      else metadata.field key := by
  cases value with
  | none => exact (ite_self _).symm
  | some value => exact Metadata.field_insert _ _ _ _

theorem field_withBubbled (row : Resource) (tags : List Json) (environment : Option String)
    (rolled : Option (String × Resource)) (key : String) :
    (withBubbled row tags environment rolled).field key =
      if key = "bubbled_status_from" then
        (((rolled.filter fun found => found.2.id != row.id).map fun found =>
          displayName found.2).map Json.str).getD (row.metadata.field key)
      else if key = "bubbled_status" then
        ((rolled.map Prod.fst).map Json.str).getD (row.metadata.field key)
      else if key = "bubbled_environment" then
        (environment.map Json.str).getD (row.metadata.field key)
      else if key = "bubbled_tags" then .arr tags
      else row.metadata.field key := by
  unfold withBubbled
  simp only [field_write, Metadata.field_insert]
  split_ifs <;> simp_all

/-! ## What is under a resource -/

/-- A step from a stored resource down to a child. -/
def StepDown (start finish : String) : Prop :=
  (findRow rows start).isSome = true ∧ IsChild edges start finish

/-- The row is the resource or under it, through stored resources. -/
def Under (row lower : Resource) : Prop :=
  lower ∈ rows ∧ Relation.ReflTransGen (StepDown rows edges) row.id lower.id

end Rules

variable {rows : List Resource} {edges : List ResourceEdge} {row : Resource}

theorem findRow_eq_some (distinct : (rows.map (·.id)).Nodup) {id : String} :
    findRow rows id = some row ↔ row ∈ rows ∧ row.id = id :=
  Keyed.find?_eq_some_iff distinct

theorem mem_of_findRow {id : String} (there : (findRow rows id).isSome = true) :
    id ∈ rows.map (·.id) := by
  obtain ⟨row, found⟩ := Option.isSome_iff_exists.mp there
  have same : row.id = id := by simpa using List.find?_some found
  exact same ▸ List.mem_map_of_mem (List.mem_of_find?_eq_some found)

section Down

variable {β : Type} {own : Resource → β} {join : β → β → β} {nothing : β}

/-- Only rows have a value of their own. -/
theorem mem_of_rulesOf {id : String} (there : ((rulesOf rows edges own join nothing).own id).isSome = true) :
    id ∈ rows.map (·.id) :=
  mem_of_findRow (Option.isSome_map.symm.trans there)

theorem below_rulesOf : Below (rulesOf rows edges own join nothing) = StepDown rows edges := by
  funext start finish
  unfold Below rulesOf
  rw [Option.isSome_map]
  rfl

/-- What is joined at or below a resource are the values of the rows under it. -/
theorem atOrBelow_own_iff (distinct : (rows.map (·.id)).Nodup) {other : String} {value : β} :
    AtOrBelow (rulesOf rows edges own join nothing) row.id other ∧
        (rulesOf rows edges own join nothing).own other = some value ↔
      ∃ lower, Under rows edges row lower ∧ lower.id = other ∧ own lower = value := by
  unfold AtOrBelow
  rw [below_rulesOf]
  constructor
  · intro below
    obtain ⟨path, found⟩ := below
    obtain ⟨lower, isRow, given⟩ := Option.map_eq_some_iff.mp found
    obtain ⟨member, rfl⟩ := (findRow_eq_some distinct).mp isRow
    exact ⟨lower, ⟨member, path⟩, rfl, given⟩
  · intro under
    obtain ⟨lower, ⟨member, path⟩, rfl, rfl⟩ := under
    have isRow := (findRow_eq_some distinct).mpr ⟨member, rfl⟩
    exact ⟨path, Option.map_eq_some_iff.mpr ⟨lower, isRow, rfl⟩⟩

/-- What is reached along the ways of a walk is under the resource. -/
theorem under_of_counts {ways : List (List String)} {lower : Resource}
    (isWays : Ways (rulesOf rows edges own join nothing) ways) (member : lower ∈ rows)
    (counts : Counts (rulesOf rows edges own join nothing) ways row.id lower.id) :
    Under rows edges row lower := by
  have below := atOrBelow_of_counts isWays counts
  unfold AtOrBelow at below
  rw [below_rulesOf] at below
  exact ⟨member, below⟩

end Down

end ThetaDirectory.Bubbling
