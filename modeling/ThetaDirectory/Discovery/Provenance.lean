import ThetaDirectory.Discovery.AgentReferential
import ThetaDirectory.Library.Runs

/-!
# Who made the resources an agent deletes

Runs of service registrations, telemetry, unregisters and of the operators' create and edit
requests.  A prune takes the row of a service no other source knows for the agent's own; the row
is that unless a report matched one made by hand, or an operator wrote the agent's source on it.
-/

namespace ThetaDirectory.Discovery

open Library Catalog Store

/-! ## Searching a list that changed -/

section Search

variable {α : Type*} {Later : α → α → Prop} {was is : α → Bool} {before now new : List α}

theorem exists_of_forall₂ (entries : List.Forall₂ Later before now) {entry : α}
    (member : entry ∈ now) : ∃ old ∈ before, Later old entry := by
  induction entries with
  | nil => cases member
  | cons later _ ih =>
      rcases List.mem_cons.mp member with rfl | behind
      · exact ⟨_, List.mem_cons_self, later⟩
      · obtain ⟨old, listed, later⟩ := ih behind
        exact ⟨old, List.mem_cons_of_mem _ listed, later⟩

/-- What is found among entries that still match is new, or was found before. -/
theorem find?_of_forall₂ (entries : List.Forall₂ Later before now)
    (still : ∀ old ∈ before, ∀ entry, Later old entry → was old = true → is entry = true)
    {found : α} (isFound : (now ++ new).find? is = some found) :
    found ∈ new ∨ ∃ old ∈ before, Later old found ∧
      (was old = true → before.find? was = some old) := by
  induction entries with
  | nil => exact Or.inl (List.mem_of_find?_eq_some isFound)
  | @cons old entry before now later entries ih =>
      rw [List.cons_append] at isFound
      by_cases here : is entry = true
      · rw [List.find?_cons_of_pos here] at isFound
        cases isFound
        exact Or.inr ⟨old, List.mem_cons_self, later, fun matched => List.find?_cons_of_pos matched⟩
      · rw [List.find?_cons_of_neg here] at isFound
        have skipped : ¬ was old = true := fun matched =>
          here (still old List.mem_cons_self entry later matched)
        rcases ih (fun old member => still old (List.mem_cons_of_mem _ member)) isFound with
          fresh | ⟨first, member, later, first'⟩
        · exact Or.inl fresh
        · refine Or.inr ⟨first, List.mem_cons_of_mem _ member, later, fun matched => ?_⟩
          rw [List.find?_cons_of_neg skipped]
          exact first' matched

end Search

/-! ## Runs -/

/-- The catalogue with the ids of the rows that the agent path created. -/
structure Provenance where
  store : Store
  agentMade : List String

/-- The ids that are new. -/
def newIds (store later : Store) : List String :=
  (later.resources.map (·.id)).filter fun id => !(store.resources.any fun row => row.id == id)

inductive ServiceEvent where
  | report (env : Env) (resourceId : Option String) (services : List AgentService) (prune : Bool)
  | unregister (resourceId service : Option String)
  | post (env : Env) (templates : List TemplateRow) (uid : String) (body : CreateBody)
  | put (env : Env) (templates : List TemplateRow) (id : String) (body : ResourceBody)

namespace ServiceEvent

/-- A registration is a report of one service without a prune. -/
def register (env : Env) (resourceId : Option String) (service : AgentService) : ServiceEvent :=
  report env resourceId [service] false

/-- A request that is refused leaves the catalogue as it is. -/
def apply : ServiceEvent → Provenance → Provenance
  | report env resourceId services prune, state =>
      let later := reconcileServicesFromTelemetry env resourceId services prune state.store
      ⟨later, state.agentMade ++ newIds state.store later⟩
  | unregister resourceId service, state =>
      { state with
        store := (handleServiceUnregistration resourceId service state.store).toOption.getD
          state.store }
  | post env templates uid body, state =>
      let later := (postResource env templates uid body state.store).toOption.getD state.store
      ⟨later, state.agentMade.filter fun id => !(newIds state.store later).contains id⟩
  | put env templates id body, state =>
      { state with
        store := (putResource env templates id body state.store).toOption.getD state.store }

end ServiceEvent

/-! ## Sources -/

def others (metadata : Metadata) : List String := (sourcesOf metadata).filter (· ≠ "theta-agent")

/-- The agent is the only source. -/
def OnlyAgent (metadata : Metadata) : Prop :=
  "theta-agent" ∈ sourcesOf metadata ∧ others metadata = []

/-- A report before its first service. -/
def startRun (store : Store) : ServiceRun :=
  ⟨store, (store.resources.filter fun row => row.kind == "service").map (·.id), [], 0⟩

/-- The row that a service is matched with as the report begins. -/
def matched (context : HostServices) (store : Store) (service : AgentService) : Option Resource :=
  (truthy service.name).bind (findService context (startRun store)
    ((truthy service.subtype).getD "systemd"))

/-- The step does not take a row made by hand for one of the agent's. -/
def ServiceEvent.SparesHandmade : ServiceEvent → Provenance → Prop
  | report env resourceId services _, state =>
      ∀ host, hostForAgent state.store resourceId = some host → ∀ service ∈ services, ∀ row,
        matched (hostServices env state.store host) state.store service = some row →
          row.id ∈ state.agentMade ∨ others row.metadata ≠ []
  | unregister resourceId service, state =>
      ∀ name, truthy service = some name → ∀ row,
        findRegistered state.store resourceId name = some row → row.id ∈ state.agentMade
  | post _ _ _ body, state =>
      OnlyAgent (body.metadata.getD ∅) → asksOAuthClient body = false ∧
        ∃ row ∈ state.store.resources, some row.slug = body.slug ∧ row.id ∈ state.agentMade
  | put _ _ id body, state =>
      OnlyAgent (body.metadata.getD ∅) → ∀ row, state.store.find id = some row →
        row.id ∈ state.agentMade ∨ isOAuthClient row = true

instance (metadata : Metadata) : Decidable (OnlyAgent metadata) := inferInstanceAs (Decidable (_ ∧ _))

instance (event : ServiceEvent) (state : Provenance) : Decidable (event.SparesHandmade state) :=
  match event with
  | .report env resourceId services _ =>
      inferInstanceAs (Decidable (∀ host ∈ hostForAgent state.store resourceId, ∀ service ∈ services,
        ∀ row ∈ matched (hostServices env state.store host) state.store service,
          row.id ∈ state.agentMade ∨ others row.metadata ≠ []))
  | .unregister resourceId service =>
      inferInstanceAs (Decidable (∀ name ∈ truthy service,
        ∀ row ∈ findRegistered state.store resourceId name, row.id ∈ state.agentMade))
  | .post _ _ _ body =>
      inferInstanceAs (Decidable (OnlyAgent (body.metadata.getD ∅) → asksOAuthClient body = false ∧
        ∃ row ∈ state.store.resources, some row.slug = body.slug ∧ row.id ∈ state.agentMade))
  | .put _ _ id body =>
      inferInstanceAs (Decidable (OnlyAgent (body.metadata.getD ∅) →
        ∀ row ∈ state.store.find id, row.id ∈ state.agentMade ∨ isOAuthClient row = true))

/-- Rows only the agent knows are its own. -/
structure Provenance.Own (state : Provenance) : Prop where
  keyed : state.store.Keyed
  made : ∀ row ∈ state.store.resources, OnlyAgent row.metadata → row.id ∈ state.agentMade

variable {env : Env} {store later : Store} {metadata top : Metadata} {key name subtype : String}

theorem mem_newIds {id : String} : id ∈ newIds store later ↔ later.Has id ∧ ¬ store.Has id := by
  unfold newIds
  rw [List.mem_filter, List.mem_map, Bool.not_eq_true', List.any_eq_false]
  simp only [beq_iff_eq, Has, not_exists, not_and]

theorem sourcesOf_withSources (metadata : Metadata) (sources : List String) :
    sourcesOf (withSources metadata sources) = sources := by
  unfold sourcesOf withSources
  rw [Metadata.field_insert, if_pos rfl]
  simp [Json.items, Json.str?, List.filterMap_map, Function.comp_def]

theorem sourcesOf_insert (value : Json) (other : key ≠ "discovery_sources") :
    sourcesOf (metadata.insert key value) = sourcesOf metadata := by
  unfold sourcesOf
  rw [Metadata.field_insert, if_neg other.symm]

/-- The sources a spread leaves: those of the top, where it names any. -/
theorem onlyAgent_spread (alone : OnlyAgent (metadata.spread top)) :
    OnlyAgent top ∨ OnlyAgent metadata := by
  have read : Metadata.field (metadata.spread top) "discovery_sources" =
      ((top.lookup "discovery_sources").or (metadata.lookup "discovery_sources")).getD .null :=
    congrArg (fun found => found.getD Json.null) (JsMap.lookup_union top metadata _)
  cases given : top.lookup "discovery_sources" with
  | none =>
      rw [given, Option.none_or] at read
      have same : sourcesOf (metadata.spread top) = sourcesOf metadata :=
        congrArg (fun value => value.items.filterMap Json.str?) read
      exact Or.inr (by rwa [OnlyAgent, others, same] at alone)
  | some value =>
      have field : Metadata.field top "discovery_sources" = value := by
        rw [Metadata.field, given]
        rfl
      rw [given, Option.some_or, Option.getD_some, ← field] at read
      have same : sourcesOf (metadata.spread top) = sourcesOf top :=
        congrArg (fun value => value.items.filterMap Json.str?) read
      exact Or.inl (by rwa [OnlyAgent, others, same] at alone)

/-! ## Reports -/

section Reports

variable {context : HostServices} {run : ServiceRun} {row : Resource}

/-- The row stands for the service. -/
def isMatch (context : HostServices) (subtype name : String) (row : Resource) : Bool :=
  isChildOfHost context row && (row.slug == serviceSlug context.host.slug subtype name ||
    ((row.metadata.field "subType").isStr subtype &&
      ((row.metadata.field "serviceName").isStr name ||
        (row.metadata.field "dockerContainer").isStr name ||
        (row.metadata.field "systemdService").isStr name || row.name == name)))

theorem findService_eq : findService context run subtype name =
    run.store.resources.find? fun row =>
      run.known.contains row.id && isMatch context subtype name row := by
  apply List.find?_filter.trans
  congr 1
  funext row
  rw [Bool.decide_and, Bool.decide_eq_true, Bool.decide_eq_true]
  rfl

/-- What a report changes of a row leaves it standing for the services it stood for. -/
structure Grown (context : HostServices) (old row : Resource) : Prop where
  id : row.id = old.id
  still : ∀ subtype name, name ≠ "" → isMatch context subtype name old = true →
    isMatch context subtype name row = true

theorem Grown.trans {old next : Resource} (first : Grown context old row)
    (second : Grown context row next) : Grown context old next where
  id := second.id.trans first.id
  still subtype name named matched :=
    second.still subtype name named (first.still subtype name named matched)

theorem sourcesOf_seen : sourcesOf (seenServiceMetadata context subtype name metadata) =
    (sourcesOf metadata ++ ["theta-agent"]).eraseDups := by
  unfold seenServiceMetadata
  dsimp only
  split <;> split <;> simp only [sourcesOf_insert, ne_eq, String.reduceEq, not_false_eq_true,
    sourcesOf_withSources]

/-- A value is only filled in where there is none. -/
theorem field_fill {fills : Prop} [Decidable fills] {filled : String} {value : Json}
    (blank : fills → ¬ (Metadata.field metadata filled).isTruthy = true)
    (stays : key ≠ filled ∨ (Metadata.field metadata key).isTruthy = true) :
    Metadata.field (if fills then metadata.insert filled value else metadata) key =
      Metadata.field metadata key := by
  split
  · rename_i isBlank
    have other : key ≠ filled :=
      stays.elim id fun truthy same => blank isBlank (same ▸ truthy)
    rw [Metadata.field_insert, if_neg other]
  · rfl

theorem field_seen (other : key ≠ "discovery_sources" ∧ key ≠ "last_seen")
    (stays : (key ≠ "dockerContainer" ∧ key ≠ "serviceName") ∨
      (Metadata.field metadata key).isTruthy = true) :
    Metadata.field (seenServiceMetadata context subtype name metadata) key =
      Metadata.field metadata key := by
  unfold seenServiceMetadata
  dsimp only
  have first : Metadata.field ((withSources metadata
      (sourcesOf metadata ++ ["theta-agent"]).eraseDups).insert "last_seen" (.num context.env.now))
        key = Metadata.field metadata key := by
    rw [withSources, Metadata.field_insert, if_neg other.2, Metadata.field_insert, if_neg other.1]
  generalize (withSources metadata (sourcesOf metadata ++ ["theta-agent"]).eraseDups).insert
    "last_seen" (.num context.env.now) = seen at first ⊢
  rw [← first] at stays ⊢
  have second : Metadata.field (if subtype = "docker" && !(Metadata.field seen
      "dockerContainer").isTruthy then seen.insert "dockerContainer" (.str name) else seen) key =
        Metadata.field seen key := by
    apply field_fill
    · intro fills
      simp only [Bool.and_eq_true, Bool.not_eq_true'] at fills
      simp [fills.2]
    · exact stays.imp_left And.left
  generalize (if (subtype = "docker" && !(Metadata.field seen "dockerContainer").isTruthy) = true
    then seen.insert "dockerContainer" (.str name) else seen) = filled at second ⊢
  rw [← second] at stays ⊢
  rw [← ite_not]
  exact field_fill id (stays.imp_left And.right)

theorem isStr_seen {wanted : String} (other : key ≠ "discovery_sources" ∧ key ≠ "last_seen")
    (stays : (key ≠ "dockerContainer" ∧ key ≠ "serviceName") ∨ wanted ≠ "")
    (is : (Metadata.field metadata key).isStr wanted = true) :
    (Metadata.field (seenServiceMetadata context subtype name metadata) key).isStr wanted = true := by
  rw [field_seen other, is]
  refine stays.imp_right fun given => ?_
  cases value : Metadata.field metadata key with
  | str text =>
      rw [value] at is
      have same : text = wanted := eq_of_beq is
      simp [Json.isTruthy, same, given]
  | _ =>
      rw [value] at is
      cases is

/-- A row that is reported again. -/
def seenRow (context : HostServices) (subtype name : String) (row : Resource) : Resource :=
  { row with metadata := seenServiceMetadata context subtype name row.metadata }

theorem grown_seenRow (row : Resource) : Grown context row (seenRow context subtype name row) where
  id := rfl
  still wantedType wanted named matched := by
    have keeps {key value : String} (other : key ≠ "discovery_sources" ∧ key ≠ "last_seen")
        (stays : (key ≠ "dockerContainer" ∧ key ≠ "serviceName") ∨ value ≠ "")
        (is : (row.metadata.field key).isStr value = true) :
        (Metadata.field (seenRow context subtype name row).metadata key).isStr value = true :=
      isStr_seen other stays is
    simp only [isMatch, isChildOfHost, Bool.and_eq_true, Bool.or_eq_true] at matched ⊢
    obtain ⟨child, stands⟩ := matched
    constructor
    · exact child.imp_left (keeps (by decide) (Or.inl (by decide)))
    · refine stands.imp_right fun parts => ⟨keeps (by decide) (Or.inl (by decide)) parts.1, ?_⟩
      exact parts.2.imp_left (Or.imp (Or.imp (keeps (by decide) (Or.inr named))
        (keeps (by decide) (Or.inr named))) (keeps (by decide) (Or.inr named)))

/-- A row and what a report made of it: one made by hand that no other source knows is as it
was. -/
structure Later (context : HostServices) (agentMade : List String) (old row : Resource) : Prop where
  grown : Grown context old row
  apart : old.id ∉ agentMade → row = old ∨ others row.metadata ≠ []

/-- A report on its way. -/
structure Reporting (context : HostServices) (agentMade : List String) (store : Store)
    (run : ServiceRun) : Prop where
  kept : ServicesKept context store run
  known : ∀ id, store.Has id → run.known.contains id = (startRun store).known.contains id
  rows : ∃ now new, run.store.resources = now ++ new ∧
    List.Forall₂ (Later context agentMade) store.resources now ∧ ∀ row ∈ new, ¬ store.Has row.id

variable {agentMade : List String}

theorem Reporting.parentService {serviceId : String} (reporting : Reporting context agentMade store run)
    (has : run.store.Has serviceId) :
    Reporting context agentMade store (parentService context run serviceId) where
  kept := reporting.kept.parentService has
  known := by
    unfold Discovery.parentService
    split <;> exact reporting.known
  rows := by
    unfold Discovery.parentService
    split <;> exact reporting.rows

/-- A row that a report finds is new, or what it made of the row found before. -/
theorem Reporting.found {row : Resource} (reporting : Reporting context agentMade store run)
    (named : name ≠ "") (found : findService context run subtype name = some row) :
    ¬ store.Has row.id ∨ ∃ old ∈ store.resources, Later context agentMade old row ∧
      (row = old → findService context (startRun store) subtype name = some old) := by
  obtain ⟨now, new, listed, later, fresh⟩ := reporting.rows
  rw [findService_eq, listed] at found
  have still : ∀ old ∈ store.resources, ∀ row, Later context agentMade old row →
      ((startRun store).known.contains old.id && isMatch context subtype name old) = true →
      (run.known.contains row.id && isMatch context subtype name row) = true := by
    intro old member row later matched
    rw [Bool.and_eq_true] at matched ⊢
    rw [later.grown.id, reporting.known _ ⟨old, member, rfl⟩]
    exact ⟨matched.1, later.grown.still subtype name named matched.2⟩
  rcases find?_of_forall₂ later still found with isNew | ⟨old, member, later, first⟩
  · exact Or.inl (fresh row isNew)
  · refine Or.inr ⟨old, member, later, ?_⟩
    rintro rfl
    rw [findService_eq]
    apply first
    have matched := List.find?_some found
    rwa [← reporting.known _ ⟨row, member, rfl⟩]

theorem others_seen (other : others metadata ≠ []) :
    others (seenServiceMetadata context subtype name metadata) ≠ [] := by
  obtain ⟨source, member⟩ := List.exists_mem_of_ne_nil _ other
  obtain ⟨listed, notAgent⟩ := List.mem_filter.mp member
  apply List.ne_nil_of_mem
  apply List.mem_filter.mpr
  refine ⟨?_, notAgent⟩
  rw [sourcesOf_seen, List.mem_eraseDups]
  exact List.mem_append_left _ listed

/-- Seen again, a row is what it was made of the row found before. -/
theorem Reporting.seen {row : Resource} (reporting : Reporting context agentMade store run)
    (keyed : store.Keyed) (named : name ≠ "")
    (spares : ∀ row, findService context (startRun store) subtype name = some row →
      row.id ∈ agentMade ∨ others row.metadata ≠ [])
    (found : findService context run subtype name = some row) :
    Reporting context agentMade store { run with
      store := run.store.update row.id fun old =>
        { old with metadata := seenServiceMetadata context subtype name row.metadata } } := by
  have inTable : row ∈ run.store.resources := by
    rw [findService_eq] at found
    exact List.mem_of_find?_eq_some found
  have touched := fun id => @has_update run.store row.id (fun old => { old with
    metadata := seenServiceMetadata context subtype name row.metadata }) id fun _ => rfl
  obtain ⟨now, new, listed, later, fresh⟩ := reporting.rows
  refine ⟨⟨reporting.kept.keyed.update (fun _ => rfl) (fun _ => rfl), ?_, ?_, reporting.kept.groups⟩,
    reporting.known, ?_⟩
  · exact fun id has => (touched id).mpr (reporting.kept.rows id has)
  · intro edge member
    exact (reporting.kept.edges edge member).imp_right fun new => ⟨new.1, (touched _).mpr new.2⟩
  · let change (entry : Resource) : Resource := if entry.id = row.id then { entry with
      metadata := seenServiceMetadata context subtype name row.metadata } else entry
    have sameId (entry : Resource) : (change entry).id = entry.id := by
      dsimp only [change]
      split <;> rfl
    refine ⟨now.map change, new.map change, ?_, ?_, ?_⟩
    · exact (congrArg (List.map change) listed).trans List.map_append
    · apply List.forall₂_map_right_iff.mpr
      have members : ∀ entry ∈ now, entry ∈ run.store.resources :=
        fun entry member => listed ▸ List.mem_append_left new member
      have olds : ∀ old ∈ store.resources, old ∈ store.resources := fun _ => id
      have both := (List.forall₂_and_left _ _).mpr
        ⟨olds, ((List.forall₂_and_left _ _).mpr ⟨members, later.flip⟩).flip⟩
      refine both.imp ?_
      intro old entry parts
      obtain ⟨oldIn, entryIn, later⟩ := parts
      dsimp only [change]
      split
      · rename_i sameRow
        have equal : entry = row := reporting.kept.keyed.eq_of_id entryIn inTable sameRow
        subst equal
        refine ⟨later.grown.trans (grown_seenRow entry), fun notAgent => Or.inr ?_⟩
        apply others_seen
        rcases later.apart notAgent with same | other
        · rcases reporting.found named found with isNew | ⟨first, firstIn, grown, before⟩
          · exact absurd ⟨old, oldIn, later.grown.id.symm⟩ isNew
          · have sameOld : first = old := keyed.eq_of_id firstIn oldIn
              (grown.grown.id.symm.trans later.grown.id)
            subst sameOld
            rw [same]
            exact (spares first (before same)).resolve_left notAgent
        · exact other
      · exact later
    · intro entry member
      obtain ⟨old, listed, rfl⟩ := List.mem_map.mp member
      rw [sameId]
      exact fresh old listed

theorem Reporting.created {next : Store} {suffix : String} {data : NewResource} {row : Resource}
    {draws : Nat} (reporting : Reporting context agentMade store run)
    (created : run.store.create suffix data = .ok (row, next)) :
    Reporting context agentMade store
      { run with store := next, known := run.known ++ [row.id], draws } := by
  obtain ⟨-, rfl, free⟩ := create_ok created
  have fresh : ¬ store.Has row.id := by
    intro has
    obtain ⟨old, member, same⟩ := reporting.kept.rows _ has
    exact (free old member).1 same
  have grown : ∀ id, run.store.Has id →
      Has { run.store with resources := run.store.resources ++ [row] } id :=
    fun id ⟨old, member, same⟩ => ⟨old, List.mem_append_left _ member, same⟩
  obtain ⟨now, new, listed, later, isNew⟩ := reporting.rows
  refine ⟨⟨reporting.kept.keyed.create created, fun id has => grown id (reporting.kept.rows id has),
    ?_, reporting.kept.groups⟩, ?_, now, new ++ [row], ?_, later, ?_⟩
  · intro edge member
    exact (reporting.kept.edges edge member).imp_right fun new => ⟨new.1, grown _ new.2⟩
  · intro id has
    have other : id ≠ row.id := fun same => fresh (same ▸ has)
    rw [← reporting.known id has]
    simp [other]
  · exact (congrArg (· ++ [row]) listed).trans (List.append_assoc _ _ _)
  · intro entry member
    rcases List.mem_append.mp member with old | here
    · exact isNew entry old
    · rw [List.mem_singleton.mp here]
      exact fresh

theorem Reporting.reportService {service : AgentService}
    (reporting : Reporting context agentMade store run) (keyed : store.Keyed)
    (spares : ∀ row, matched context store service = some row →
      row.id ∈ agentMade ∨ others row.metadata ≠ []) :
    Reporting context agentMade store (reportService context run service) := by
  unfold Discovery.reportService
  unfold matched at spares
  split
  · exact reporting
  · rename_i name isNamed
    rw [isNamed, Option.bind_some] at spares
    have named : name ≠ "" := of_decide_eq_true (Option.filter_eq_some_iff.mp isNamed).2
    have reported : Reporting context agentMade store { run with
        reported := run.reported ++ [(truthy service.subtype).getD "systemd" ++ "/" ++ name] } :=
      ⟨⟨reporting.kept.keyed, reporting.kept.rows, reporting.kept.edges, reporting.kept.groups⟩,
        reporting.known, reporting.rows⟩
    dsimp only
    split
    · rename_i row found
      apply (reported.seen keyed named spares found).parentService
      have inTable := List.mem_of_mem_filter (List.mem_of_find?_eq_some found)
      exact ⟨_, mem_update_iff.mpr (Or.inl ⟨row, inTable, rfl, rfl⟩), rfl⟩
    · split
      · exact reported
      · rename_i row next created
        apply (reported.created created).parentService
        obtain ⟨-, rfl, -⟩ := create_ok created
        exact ⟨row, List.mem_append_right _ (List.mem_singleton_self _), rfl⟩

/-- Every row behind the services is new, or one made by hand that stayed or has another source. -/
theorem Reporting.own {row : Resource} (reporting : Reporting context agentMade store run)
    (made : ∀ row ∈ store.resources, OnlyAgent row.metadata → row.id ∈ agentMade)
    (member : row ∈ run.store.resources) (alone : OnlyAgent row.metadata) :
    row.id ∈ agentMade ∨ ¬ store.Has row.id := by
  obtain ⟨now, new, listed, later, fresh⟩ := reporting.rows
  rw [listed] at member
  rcases List.mem_append.mp member with here | isNew
  · obtain ⟨old, oldIn, later⟩ := exists_of_forall₂ later here
    by_cases byAgent : old.id ∈ agentMade
    · exact Or.inl (later.grown.id ▸ byAgent)
    · rcases later.apart byAgent with rfl | other
      · exact absurd (made row oldIn alone) byAgent
      · exact absurd alone.2 other
  · exact Or.inr (fresh row isNew)

/-- Behind a prune, every row was there, or kept another source. -/
theorem mem_pruneServicesNotReported {row : Resource}
    (member : row ∈ (pruneServicesNotReported context run).resources) :
    run.store.Has row.id ∧ (row ∈ run.store.resources ∨ others row.metadata ≠ []) := by
  revert row
  refine @List.foldlRecOn _ _ (fun store : Store => ∀ row ∈ store.resources,
    run.store.Has row.id ∧ (row ∈ run.store.resources ∨ others row.metadata ≠ []))
    run.allServices (pruneService context run.reported) run.store
    (fun row member => ⟨⟨row, member, rfl⟩, Or.inl member⟩) ?_
  intro store kept service _ row member
  unfold pruneService at member
  split at member
  · exact kept row member
  · dsimp only at member
    split at member
    · rename_i other
      rcases mem_update_iff.mp member with ⟨old, inTable, -, rfl⟩ | ⟨old, -⟩
      · refine ⟨(kept old inTable).1, Or.inr ?_⟩
        rw [others, sourcesOf_withSources, List.filter_filter]
        simpa only [Bool.and_self] using other
      · exact kept row old
    · exact kept row (List.mem_of_mem_filter member)

/-- What a prune deletes, only the agent knew. -/
theorem onlyAgent_of_pruned {id : String} (has : run.store.Has id)
    (gone : ¬ (pruneServicesNotReported context run).Has id) :
    ∃ row ∈ run.store.resources, row.id = id ∧ OnlyAgent row.metadata := by
  by_contra known
  apply gone
  refine @List.foldlRecOn _ _ (fun store : Store => store.Has id) run.allServices
    (pruneService context run.reported) run.store has ?_
  intro store has service member
  unfold pruneService
  split
  · exact has
  · rename_i unreported
    dsimp only
    split
    · exact (@has_update store service.id (fun old => { old with
        metadata := withSources service.metadata (others service.metadata) }) id
          fun _ => rfl).mpr has
    · rename_i alone
      obtain ⟨row, inTable, rfl⟩ := has
      refine ⟨row, List.mem_filter.mpr ⟨inTable, decide_eq_true fun same => known ?_⟩, rfl⟩
      refine ⟨service, List.mem_of_mem_filter member, same.symm, ?_, ?_⟩
      · simp only [isUnreported, reportsTo, Bool.not_eq_true', Bool.not_eq_false, Bool.and_eq_true,
          List.contains_iff_mem] at unreported
        exact unreported.1.1.2
      · exact not_ne_iff.mp alone

theorem keyed_pruneServicesNotReported (keyed : run.store.Keyed) :
    (pruneServicesNotReported context run).Keyed := by
  refine @List.foldlRecOn _ _ (fun store : Store => store.Keyed) run.allServices
    (pruneService context run.reported) run.store keyed ?_
  intro store keyed service _
  unfold pruneService
  split
  · exact keyed
  · dsimp only
    split
    · exact keyed.update (fun _ => rfl) (fun _ => rfl)
    · exact keyed.filter

end Reports

section Events

variable {resourceId : Option String} {services : List AgentService} {prune : Bool}
  {agentMade : List String}

/-- A report keeps the ids it does not delete, and what it deletes or leaves to the agent alone
was made by the agent. -/
theorem report_spec (keyed : store.Keyed)
    (made : ∀ row ∈ store.resources, OnlyAgent row.metadata → row.id ∈ agentMade)
    (spares : ∀ host, hostForAgent store resourceId = some host → ∀ service ∈ services, ∀ row,
      matched (hostServices env store host) store service = some row →
        row.id ∈ agentMade ∨ others row.metadata ≠ []) :
    (reconcileServicesFromTelemetry env resourceId services prune store).Keyed ∧
      (∀ row ∈ (reconcileServicesFromTelemetry env resourceId services prune store).resources,
        OnlyAgent row.metadata → row.id ∈ agentMade ∨ ¬ store.Has row.id) ∧
      ∀ id, store.Has id →
        ¬ (reconcileServicesFromTelemetry env resourceId services prune store).Has id →
          id ∈ agentMade := by
  unfold reconcileServicesFromTelemetry
  split
  · exact ⟨keyed, fun row member alone => Or.inl (made row member alone),
      fun id has gone => absurd has gone⟩
  · rename_i host bound
    have reporting : Reporting (hostServices env store host) agentMade store
        (serviceRun env services store host) := by
      refine @List.foldlRecOn _ _ (Reporting (hostServices env store host) agentMade store) services
        _ _ ?_ fun run reporting service member => reporting.reportService keyed
          (spares host bound service member)
      refine ⟨⟨keyed, fun _ has => has, fun edge member => Or.inl member, rfl⟩, fun _ _ => rfl,
        store.resources, [], (List.append_nil _).symm, ?_, fun row member => nomatch member⟩
      exact List.forall₂_same.mpr fun row _ => ⟨⟨rfl, fun _ _ _ matched => matched⟩, fun _ =>
        Or.inl rfl⟩
    have own {row : Resource} := @reporting.own _ _ _ _ row made
    dsimp only
    split
    · refine ⟨keyed_pruneServicesNotReported reporting.kept.keyed, ?_, ?_⟩
      · intro row member alone
        rcases (mem_pruneServicesNotReported member).2 with before | other
        · exact own before alone
        · exact absurd alone.2 other
      · intro id has gone
        obtain ⟨row, member, rfl, alone⟩ := onlyAgent_of_pruned (reporting.kept.rows id has) gone
        exact (own member alone).resolve_right fun isNew => isNew has
    · exact ⟨reporting.kept.keyed, fun row => own,
        fun id has gone => absurd (reporting.kept.rows id has) gone⟩

theorem mem_addResource {data : NewResource} {description createdBy : Option String}
    {written row : Resource}
    (added : addResource env data description createdBy store = .ok (written, later))
    (member : row ∈ later.resources) :
    row ∈ store.resources ∨ row.metadata = data.metadata := by
  unfold addResource at added
  split at added
  · cases added
  · rename_i created next isCreated
    cases added
    obtain ⟨createdEq, rfl, -⟩ := create_ok isCreated
    have isData : created.metadata = data.metadata := by
      rw [createdEq]
      rfl
    rcases mem_update_iff.mp member with ⟨_, -, -, rfl⟩ | ⟨listed, other⟩
    · exact Or.inr isData
    · rcases List.mem_append.mp listed with old | new
      · exact Or.inl old
      · exact absurd (congrArg Resource.id (List.mem_singleton.mp new)) other

/-- A row of a create request is new, with the metadata of the body, or the one that has its
slug. -/
theorem mem_createOrMerge {uid : String} {body : CreateBody} {written row : Resource}
    (created : createOrMerge env uid body store = .ok (written, later))
    (member : row ∈ later.resources) : row ∈ store.resources ∨
      ((OnlyAgent row.metadata → OnlyAgent (body.metadata.getD ∅)) ∧
        (asksOAuthClient body = false → ∀ prev ∈ store.resources, some prev.slug ≠ body.slug)) ∨
        asksOAuthClient body = false ∧ ∃ prev ∈ store.resources, some prev.slug = body.slug ∧
          row.id = prev.id ∧ row.metadata = prev.metadata.spread (body.metadata.getD ∅) := by
  unfold createOrMerge at created
  split at created
  · split at created
    · cases created
    · rename_i asked _ _ _
      refine (mem_addResource created member).imp_right fun new => Or.inl ⟨fun alone => ?_, ?_⟩
      · rwa [OnlyAgent, others, new, oauthClient, sourcesOf_insert _ (by decide)] at alone
      · exact fun notAsked => nomatch asked.symm.trans notAsked
  · rename_i notAsked
    split at created
    · rename_i prev found
      cases created
      rcases mem_update_iff.mp member with ⟨_, -, -, rfl⟩ | ⟨listed, -⟩
      · exact Or.inr (Or.inr ⟨by simpa using notAsked, prev, List.mem_of_find?_eq_some found,
          by simpa using List.find?_some found, rfl, rfl⟩)
      · exact Or.inl listed
    · rename_i none
      refine (mem_addResource created member).imp_right fun new => Or.inl ⟨fun alone => ?_, ?_⟩
      · rwa [OnlyAgent, others, new] at alone
      · intro _ prev inTable
        simpa using List.find?_eq_none.mp none prev inTable

/-- An accepted edit writes one row, under a slug no other row has. -/
theorem putResource_spec {templates : List TemplateRow} {id : String} {body : ResourceBody}
    (put : putResource env templates id body store = .ok later) :
    ∃ stored, store.find id = some stored ∧
      (∀ row ∈ store.resources, row.id ≠ id →
        row.slug ≠ (updateRow body (body.metadata.map stored.metadata.spread) stored).slug) ∧
      later.resources =
        (store.update id (updateRow body (body.metadata.map stored.metadata.spread))).resources := by
  unfold putResource at put
  split at put
  · rename_i stored found
    simp only [bind, Except.bind] at put
    split at put
    · cases put
    · split at put
      · cases put
      · split at put
        · cases put
        · rename_i free
          refine ⟨stored, found, ?_, ?_⟩
          · simpa using free
          · split at put
            · cases put
              rfl
            · cases put
              rfl
  · cases put

theorem updateRow_id (body : ResourceBody) (metadata : Option Metadata) (row : Resource) :
    (updateRow body metadata row).id = row.id := by
  unfold updateRow
  dsimp only
  split <;> rfl

theorem keyed_putResource {templates : List TemplateRow} {id : String} {body : ResourceBody}
    (keyed : store.Keyed) (put : putResource env templates id body store = .ok later) :
    later.Keyed ∧ ∀ id, store.Has id → later.Has id := by
  obtain ⟨stored, found, free, written⟩ := putResource_spec put
  obtain ⟨-, inTable, storedId⟩ := has_find found
  constructor
  · constructor
    · rw [written, Store.update, List.map_map]
      have same : ((fun row : Resource => row.id) ∘ fun row => if row.id = id then
          updateRow body (body.metadata.map stored.metadata.spread) row else row) =
            fun row => row.id := by
        funext row
        rw [Function.comp_apply]
        split
        · exact updateRow_id _ _ row
        · rfl
      rw [same]
      exact keyed.ids
    · rw [written, Store.update, List.map_map]
      apply List.Nodup.map_on _ (List.Nodup.of_map _ keyed.ids)
      intro row member other memberOther same
      simp only [Function.comp_apply] at same
      split at same
      · rename_i isRow
        split at same
        · rename_i isOther
          exact keyed.eq_of_id member memberOther (isRow.trans isOther.symm)
        · rename_i notOther
          rw [keyed.eq_of_id member inTable (isRow.trans storedId.symm)] at same
          exact absurd same.symm (free other memberOther notOther)
      · rename_i notRow
        split at same
        · rename_i isOther
          rw [keyed.eq_of_id memberOther inTable (isOther.trans storedId.symm)] at same
          exact absurd same (free row member notRow)
        · exact keyed.eq_of_slug member memberOther same
  · intro found has
    obtain ⟨row, member, same⟩ := (has_update (updateRow_id body _)).mpr has
    exact ⟨row, written ▸ member, same⟩

/-- The metadata behind an edit are those stored, or a client's as it was. -/
theorem mem_putResource {templates : List TemplateRow} {id : String} {body : ResourceBody}
    {row : Resource} (keyed : store.Keyed)
    (put : putResource env templates id body store = .ok later)
    (member : row ∈ later.resources) (alone : OnlyAgent row.metadata) :
    ∃ prev ∈ store.resources, prev.id = row.id ∧ (OnlyAgent prev.metadata ∨
      store.find id = some prev ∧ isOAuthClient prev = false ∧
        OnlyAgent (body.metadata.getD ∅)) := by
  obtain ⟨stored, found, -, written⟩ := putResource_spec put
  obtain ⟨-, inTable, storedId⟩ := has_find found
  rw [written] at member
  rcases mem_update_iff.mp member with ⟨prev, listed, isPrev, rfl⟩ | ⟨listed, -⟩
  · have same : prev = stored := keyed.eq_of_id listed inTable (isPrev.trans storedId.symm)
    subst same
    refine ⟨prev, listed, (updateRow_id _ _ prev).symm, ?_⟩
    unfold updateRow at alone
    dsimp only at alone
    split at alone
    · exact Or.inl alone
    · rename_i notClient
      have plain : isOAuthClient prev = false := Bool.not_eq_true _ ▸ notClient
      cases given : body.metadata with
      | none =>
          rw [given] at alone
          exact Or.inl alone
      | some top =>
          rw [given] at alone
          rcases onlyAgent_spread alone with byBody | stored
          · exact Or.inr ⟨found, plain, byBody⟩
          · exact Or.inl stored
  · exact ⟨row, listed, rfl, Or.inl alone⟩

end Events

/-! ## Every run -/

/-- What a step deletes was made by the agent. -/
def DeletesOwn (step : Runs.Step ServiceEvent Provenance) : Prop :=
  ∀ id, step.before.store.Has id → ¬ step.after.store.Has id → id ∈ step.before.agentMade

theorem own_report {resourceId : Option String} {services : List AgentService} {prune : Bool}
    {state : Provenance} (own : state.Own)
    (spares : (ServiceEvent.report env resourceId services prune).SparesHandmade state) :
    ((ServiceEvent.report env resourceId services prune).apply state).Own ∧
      DeletesOwn ⟨state, .report env resourceId services prune,
        (ServiceEvent.report env resourceId services prune).apply state⟩ := by
  obtain ⟨keyed, made, deleted⟩ := @report_spec env _ _ _ prune _ own.keyed own.made spares
  refine ⟨⟨keyed, fun row member alone => ?_⟩, deleted⟩
  rcases made row member alone with before | isNew
  · exact List.mem_append_left _ before
  · exact List.mem_append_right _ (mem_newIds.mpr ⟨⟨row, member, rfl⟩, isNew⟩)

theorem own_unregister {resourceId service : Option String} {state : Provenance} (own : state.Own)
    (spares : (ServiceEvent.unregister resourceId service).SparesHandmade state) :
    ((ServiceEvent.unregister resourceId service).apply state).Own ∧
      DeletesOwn ⟨state, .unregister resourceId service,
        (ServiceEvent.unregister resourceId service).apply state⟩ := by
  unfold DeletesOwn
  dsimp only [ServiceEvent.apply]
  unfold handleServiceUnregistration
  split
  · exact ⟨own, fun id has gone => absurd has gone⟩
  · rename_i name named
    split
    · exact ⟨own, fun id has gone => absurd has gone⟩
    · rename_i target found
      refine ⟨⟨own.keyed.filter, fun row member => own.made row (List.mem_of_mem_filter member)⟩, ?_⟩
      intro id has gone
      obtain ⟨row, member, rfl⟩ := has
      have same : row.id = target.id := by
        by_contra other
        exact gone ⟨row, List.mem_filter.mpr ⟨member, decide_eq_true other⟩, rfl⟩
      rw [same]
      exact spares name named target found

theorem own_post {templates : List TemplateRow} {uid : String} {body : CreateBody}
    {state : Provenance} (own : state.Own)
    (spares : (ServiceEvent.post env templates uid body).SparesHandmade state) :
    ((ServiceEvent.post env templates uid body).apply state).Own ∧
      DeletesOwn ⟨state, .post env templates uid body,
        (ServiceEvent.post env templates uid body).apply state⟩ := by
  unfold DeletesOwn
  dsimp only [ServiceEvent.apply]
  have stays {id : String} {later : Store} (made : id ∈ state.agentMade) (has : state.store.Has id) :
      id ∈ state.agentMade.filter fun id => !(newIds state.store later).contains id := by
    refine List.mem_filter.mpr ⟨made, ?_⟩
    have old : id ∉ newIds state.store later := fun isNew => (mem_newIds.mp isNew).2 has
    simp [old]
  cases posted : postResource env templates uid body state.store with
  | error refusal =>
      exact ⟨⟨own.keyed, fun row member alone => stays (own.made row member alone)
        ⟨row, member, rfl⟩⟩, fun id has gone => absurd has gone⟩
  | ok later =>
      obtain ⟨written, next, created, outcome⟩ := postResource_spec posted
      have stored := stores_createOrMerge own.keyed created
      have same : later.resources = next.resources := by
        rcases outcome with rfl | ⟨_, -, rfl⟩
        · rfl
        · rfl
      refine ⟨⟨⟨same ▸ stored.keyed.ids, same ▸ stored.keyed.slugs⟩, fun row member alone => ?_⟩,
        fun id has gone => ?_⟩
      · rcases mem_createOrMerge created (same ▸ member) with
          before | ⟨byBody, none⟩ | ⟨notAsked, prev, inTable, slugEq, idEq, metadataEq⟩
        · exact stays (own.made row before alone) ⟨row, before, rfl⟩
        · obtain ⟨notAsked, other, listed, sameSlug, -⟩ := spares (byBody alone)
          exact absurd sameSlug (none notAsked other listed)
        · rw [metadataEq] at alone
          have kept : prev.id ∈ state.agentMade := by
            rcases onlyAgent_spread alone with byBody | before
            · obtain ⟨-, other, listed, sameSlug, made⟩ := spares byBody
              have equal : other.slug = prev.slug := Option.some.inj (sameSlug.trans slugEq.symm)
              exact own.keyed.eq_of_slug listed inTable equal ▸ made
            · exact own.made prev inTable before
          rw [idEq]
          exact stays kept ⟨prev, inTable, rfl⟩
      · obtain ⟨row, member, rfl⟩ := stored.rows id has
        exact absurd ⟨row, same.symm ▸ member, rfl⟩ gone

theorem own_put {templates : List TemplateRow} {id : String} {body : ResourceBody}
    {state : Provenance} (own : state.Own)
    (spares : (ServiceEvent.put env templates id body).SparesHandmade state) :
    ((ServiceEvent.put env templates id body).apply state).Own ∧
      DeletesOwn ⟨state, .put env templates id body,
        (ServiceEvent.put env templates id body).apply state⟩ := by
  unfold DeletesOwn
  dsimp only [ServiceEvent.apply]
  cases put : putResource env templates id body state.store with
  | error refusal => exact ⟨own, fun id has gone => absurd has gone⟩
  | ok later =>
      obtain ⟨keyed, kept⟩ := keyed_putResource own.keyed put
      refine ⟨⟨keyed, fun row member alone => ?_⟩, fun id has gone => absurd (kept id has) gone⟩
      obtain ⟨prev, listed, sameId, origin⟩ := mem_putResource own.keyed put member alone
      rw [← sameId]
      rcases origin with stored | ⟨found, notClient, byBody⟩
      · exact own.made prev listed stored
      · exact (spares byBody prev found).resolve_right (by rw [notClient]; exact Bool.false_ne_true)

/-- In every run whose steps take no row made by hand for the agent's, everything that is deleted was
made by the agent path. -/
theorem deletes_own (events : List ServiceEvent) (state : Provenance) (own : state.Own)
    (spares : ∀ step ∈ Runs.steps ServiceEvent.apply events state,
      step.operation.SparesHandmade step.before) :
    ∀ step ∈ Runs.steps ServiceEvent.apply events state, DeletesOwn step := by
  have kept := Runs.forall_steps own spares fun event state own spares => by
    cases event with
    | report env resourceId services prune => exact own_report own spares
    | unregister resourceId service => exact own_unregister own spares
    | post env templates uid body => exact own_post own spares
    | put env templates id body => exact own_put own spares
  exact fun step member => (kept step member).2.2

/-- A create request of an operator. -/
def request (id kind slug : String) (hostId : Option String) (metadata : Metadata) : ServiceEvent :=
  .post ⟨0, fun draw => "edge " ++ id ++ toString draw, fun _ => ""⟩ [] "ann"
    { id, kind, name := id, slug, hostId, metadata }

/-- The requests for a site, a host and the service of its agent. -/
def agentHost : List ServiceEvent :=
  [request "site" "site" "home" none ∅, request "host" "host" "host-web" (some "site") ∅,
    request "agent" "service" "svc-web-theta-agent" (some "host")
      ((∅ : Metadata).insert "subType" (.str "theta-agent"))]

def nginx : ServiceEvent :=
  request "nginx" "service" "nginx" (some "host") ((∅ : Metadata).insert "subType" (.str "systemd"))

/-- Telemetry of the host's agent with these services. -/
def telemetry (names : List String) : ServiceEvent :=
  .report ⟨0, fun draw => "made" ++ toString draw, fun _ => ""⟩ (some "agent")
    (names.map fun name => ⟨some name, none⟩) true

theorem deletes_own_reported : List.Forall DeletesOwn
    (Runs.steps ServiceEvent.apply (agentHost ++ [telemetry ["nginx"], telemetry []])
      ⟨⟨[], [], []⟩, []⟩) :=
  List.forall_iff_forall_mem.mpr (deletes_own _ _
    ⟨⟨List.nodup_nil, List.nodup_nil⟩, fun _ member => nomatch member⟩ (by decide +kernel))

/-- A service made by hand that the agent reports once is deleted when it no longer reports it. -/
theorem not_deletes_own : ¬ List.Forall DeletesOwn
    (Runs.steps ServiceEvent.apply (agentHost ++ [nginx, telemetry ["nginx"], telemetry []])
      ⟨⟨[], [], []⟩, []⟩) := by
  intro all
  obtain ⟨step, member, had, gone, notMade⟩ : ∃ step ∈ Runs.steps ServiceEvent.apply (agentHost ++
      [nginx, telemetry ["nginx"], telemetry []]) ⟨⟨[], [], []⟩, []⟩,
        step.before.store.Has "nginx" ∧ ¬ step.after.store.Has "nginx" ∧
          "nginx" ∉ step.before.agentMade := by decide +kernel
  exact notMade (List.forall_iff_forall_mem.mp all step member "nginx" had gone)

end ThetaDirectory.Discovery
