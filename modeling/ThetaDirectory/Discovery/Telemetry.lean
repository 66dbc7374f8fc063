import ThetaDirectory.Discovery.Provenance
import ThetaDirectory.Discovery.Repetition

/-!
# What a report leaves of its services

Telemetry names the services of a host, and `reconcileServicesFromTelemetry` gives each a row.  A
row that is found by its slug or another name may bear the name of a different service, and a
create may fail, so a service has a row of its own only under a condition on what its turn finds.
-/

namespace ThetaDirectory.Discovery

open Library Catalog Store

/-- The subtype and the name that a service is reported with. -/
def AgentService.key (service : AgentService) : Option (String × String) :=
  (truthy service.name).map fun name => ((truthy service.subtype).getD "systemd", name)

/-- A service resource under the host that bears the name of the service. -/
structure StandsFor (context : HostServices) (subtype name : String) (row : Resource) : Prop where
  service : row.kind = "service"
  child : isChildOfHost context row = true
  named : (row.metadata.field "serviceName").isStr name = true
  subtype : (row.metadata.textAt "subType").getD "systemd" = subtype

def Listed (context : HostServices) (store : Store) (subtype name : String) : Prop :=
  ∃ row ∈ store.resources, StandsFor context subtype name row

/-- Every reported service has its own stored resource under the host. -/
def Complete (env : Env) (host : Resource) (services : List AgentService) (store : Store) : Prop :=
  ∀ service ∈ services, ∀ subtype name, service.key = some (subtype, name) →
    Listed (hostServices env store host) store subtype name

/-- At its turn a service writes the name on a row: on one that bears none yet, or on a new one. -/
def Writes (context : HostServices) (run : ServiceRun) (turn : AgentService)
    (subtype name : String) : Prop :=
  ∃ turnType, turn.key = some (turnType, name) ∧
    ((∃ row, findService context run turnType name = some row ∧
        (row.metadata.field "serviceName").isTruthy = false ∧
          (row.metadata.textAt "subType").getD "systemd" = subtype) ∨
      (turnType = subtype ∧ findService context run turnType name = none ∧
        ¬ IsTaken run.store (context.env.uuid run.draws)
          (serviceSlug context.host.slug turnType name)))

/-- The service has a row from the start, or its name is written at some turn. -/
def Provided (context : HostServices) (services : List AgentService) (store : Store)
    (subtype name : String) : Prop :=
  Listed context store subtype name ∨ ∃ before turn after, services = before ++ turn :: after ∧
    Writes context (before.foldl (reportService context) (startRun store)) turn subtype name

variable {env : Env} {store : Store} {context : HostServices} {run : ServiceRun} {row : Resource}
  {subtype name turnType turnName : String}

/-- No row is the own row of two services. -/
theorem StandsFor.unique (stands : StandsFor context subtype name row)
    (other : StandsFor context turnType turnName row) : turnType = subtype ∧ turnName = name := by
  refine ⟨other.subtype.symm.trans stands.subtype, ?_⟩
  have named := stands.named
  have otherNamed := other.named
  cases value : row.metadata.field "serviceName" with
  | str text =>
      rw [value] at named otherNamed
      exact (eq_of_beq otherNamed).symm.trans (eq_of_beq named)
  | _ =>
      rw [value] at named
      cases named

/-! ## One turn -/

theorem isTruthy_of_isStr {value : Json} (isName : value.isStr name = true) (some : name ≠ "") :
    value.isTruthy = true := by
  cases value with
  | str text =>
      have same : text = name := eq_of_beq isName
      simp [Json.isTruthy, same, some]
  | _ => cases isName

theorem serviceName_seen {metadata : Metadata}
    (blank : (Metadata.field metadata "serviceName").isTruthy = false) :
    Metadata.field (seenServiceMetadata context turnType turnName metadata) "serviceName" =
      .str turnName := by
  rw [seenServiceMetadata]
  split <;> simp [withSources, Metadata.field_insert, blank]

/-- The row bears no name yet, and gets one. -/
structure Filled (context : HostServices) (subtype : String) (row : Resource) : Prop where
  service : row.kind = "service"
  child : isChildOfHost context row = true
  blank : (row.metadata.field "serviceName").isTruthy = false
  subtype : (row.metadata.textAt "subType").getD "systemd" = subtype

theorem subType_seen : (seenRow context turnType turnName row).metadata.textAt "subType" =
    row.metadata.textAt "subType" :=
  congrArg (fun value => truthy (Json.str? value))
    (field_seen (by decide) (Or.inl (by decide)))

theorem isChildOfHost_seen : isChildOfHost context (seenRow context turnType turnName row) =
    isChildOfHost context row := by
  have hostId : (seenRow context turnType turnName row).metadata.field "hostId" =
      row.metadata.field "hostId" := field_seen (by decide) (Or.inl (by decide))
  rw [isChildOfHost, isChildOfHost, hostId]
  rfl

theorem standsFor_seenRow (some : name ≠ "") :
    StandsFor context subtype name (seenRow context turnType turnName row) ↔
      StandsFor context subtype name row ∨ Filled context subtype row ∧ turnName = name := by
  cases blank : (row.metadata.field "serviceName").isTruthy with
  | true =>
      have same : (seenRow context turnType turnName row).metadata.field "serviceName" =
          row.metadata.field "serviceName" := field_seen (by decide) (Or.inr blank)
      constructor
      · intro stands
        exact .inl ⟨stands.service, isChildOfHost_seen ▸ stands.child, same ▸ stands.named,
          subType_seen ▸ stands.subtype⟩
      · rintro (stands | ⟨filled, -⟩)
        · exact ⟨stands.service, isChildOfHost_seen.trans stands.child, same.symm ▸ stands.named,
            by rw [subType_seen]; exact stands.subtype⟩
        · rw [filled.blank] at blank
          contradiction
  | false =>
      have written : (seenRow context turnType turnName row).metadata.field "serviceName" =
          .str turnName := serviceName_seen blank
      constructor
      · intro stands
        have named := stands.named
        rw [written] at named
        exact .inr ⟨⟨stands.service, isChildOfHost_seen ▸ stands.child, blank,
          subType_seen ▸ stands.subtype⟩, eq_of_beq named⟩
      · rintro (stands | ⟨filled, rfl⟩)
        · rw [isTruthy_of_isStr stands.named some] at blank
          contradiction
        · exact ⟨filled.service, isChildOfHost_seen.trans filled.child,
            by rw [written]; exact beq_self_eq_true _, by rw [subType_seen]; exact filled.subtype⟩

theorem fields_created :
    Metadata.field (newServiceMetadata context turnType turnName) "serviceName" = .str turnName ∧
      Metadata.field (newServiceMetadata context turnType turnName) "subType" = .str turnType ∧
        Metadata.field (newServiceMetadata context turnType turnName) "hostId" =
          .str context.host.id := by
  rw [newServiceMetadata, withSources]
  split <;> simp [Metadata.field_insert, -AList.insert_empty]

/-- A new row stands for the service that it is made for. -/
theorem standsFor_created {suffix : String} {draws : Nat} (typed : turnType ≠ "") :
    StandsFor context subtype name (run.store.rowOf suffix ⟨context.env.uuid draws, "service", turnName,
        serviceSlug context.host.slug turnType turnName,
        newServiceMetadata context turnType turnName⟩) ↔ turnType = subtype ∧ turnName = name := by
  obtain ⟨serviceName, subType, hostId⟩ := @fields_created context turnType turnName
  have textAt : Metadata.textAt (newServiceMetadata context turnType turnName) "subType" =
      some turnType := by
    rw [Metadata.textAt, subType]
    exact if_pos (decide_eq_true typed)
  constructor
  · intro stands
    have named := stands.named
    have typed := stands.subtype
    change (Metadata.field (newServiceMetadata context turnType turnName) "serviceName").isStr name =
      true at named
    change (Metadata.textAt (newServiceMetadata context turnType turnName) "subType").getD "systemd" =
      subtype at typed
    rw [serviceName] at named
    rw [textAt] at typed
    exact ⟨typed, eq_of_beq named⟩
  · rintro ⟨rfl, rfl⟩
    refine ⟨rfl, ?_, ?_, ?_⟩
    · change ((Metadata.field (newServiceMetadata context turnType turnName) "hostId").isStr
        context.host.id || _) = true
      rw [hostId, Json.isStr, beq_self_eq_true, Bool.true_or]
    · change (Metadata.field (newServiceMetadata context turnType turnName) "serviceName").isStr
        turnName = true
      rw [serviceName, Json.isStr, beq_self_eq_true]
    · change (Metadata.textAt (newServiceMetadata context turnType turnName) "subType").getD
        "systemd" = turnType
      rw [textAt, Option.getD_some]

/-! ## The loop -/

/-- The loop on its way. -/
structure Loop (context : HostServices) (run : ServiceRun) : Prop where
  keyed : run.store.Keyed
  services : ∀ row ∈ run.store.resources, run.known.contains row.id = true → row.kind = "service"
  children : ∀ edge ∈ run.store.edges, edge.parentId = context.host.id →
    ∀ row ∈ run.store.resources, row.id = edge.childId → isChildOfHost context row = true
  hosts : ∀ row ∈ run.store.resources, row.id = context.host.id → row.kind = "host"
  bound : run.store.Has context.host.id
  older : ∀ id, context.childIds.contains id = true →
    IsChild run.store.edges context.host.id id

theorem Loop.parentService (loop : Loop context run) {serviceId : String}
    (child : ∀ row ∈ run.store.resources, row.id = serviceId → isChildOfHost context row = true) :
    Loop context (parentService context run serviceId) := by
  rw [Discovery.parentService]
  split
  · exact loop
  · refine ⟨⟨loop.keyed.ids, loop.keyed.slugs⟩, loop.services, ?_, loop.hosts, loop.bound, ?_⟩
    · intro edge member fromHost row inTable isEnd
      rcases List.mem_append.mp member with old | new
      · exact loop.children edge old fromHost row inTable isEnd
      · cases List.mem_singleton.mp new
        exact child row inTable isEnd
    · intro id known
      exact isChild_mono (fun edge => List.mem_append_left _) _ _ (loop.older id known)

theorem resources_parentService (serviceId : String) :
    (parentService context run serviceId).store.resources = run.store.resources := by
  rw [parentService]
  split <;> rfl

/-- What is found is a service resource under the host. -/
theorem Loop.found (loop : Loop context run)
    (isFound : findService context run turnType turnName = some row) :
    row ∈ run.store.resources ∧ row.kind = "service" ∧ isChildOfHost context row = true := by
  rw [findService_eq] at isFound
  have inTable := List.mem_of_find?_eq_some isFound
  have both := List.find?_some isFound
  rw [Bool.and_eq_true, isMatch, Bool.and_eq_true] at both
  exact ⟨inTable, loop.services row inTable both.1, both.2.1⟩

/-- A row of the catalogue behind the update of the row that was found. -/
theorem mem_seen (loop : Loop context run)
    (isFound : findService context run turnType turnName = some row) {now : Resource} :
    (now ∈ (run.store.update row.id fun old => { old with
      metadata := seenServiceMetadata context turnType turnName row.metadata }).resources) ↔
      now = seenRow context turnType turnName row ∨ now ∈ run.store.resources ∧ now.id ≠ row.id := by
  obtain ⟨inTable, -⟩ := loop.found isFound
  rw [mem_update_iff]
  apply or_congr_left
  constructor
  · rintro ⟨old, oldIn, same, rfl⟩
    cases loop.keyed.eq_of_id oldIn inTable same
    rfl
  · rintro rfl
    exact ⟨row, inTable, rfl, rfl⟩

theorem Loop.seen (loop : Loop context run)
    (isFound : findService context run turnType turnName = some row) :
    Loop context { run with store := run.store.update row.id fun old => { old with
      metadata := seenServiceMetadata context turnType turnName row.metadata } } := by
  obtain ⟨inTable, service, child⟩ := loop.found isFound
  refine ⟨loop.keyed.update (fun _ => rfl) (fun _ => rfl), ?_, ?_, ?_,
    (@has_update run.store row.id (fun old => { old with
      metadata := seenServiceMetadata context turnType turnName row.metadata }) _
        fun _ => rfl).mpr loop.bound, loop.older⟩
  · intro now member known
    rcases (mem_seen loop isFound).mp member with rfl | ⟨old, -⟩
    · exact service
    · exact loop.services now old known
  · intro edge member fromHost now inNow isEnd
    rcases (mem_seen loop isFound).mp inNow with rfl | ⟨old, -⟩
    · exact isChildOfHost_seen.trans child
    · exact loop.children edge member fromHost now old isEnd
  · intro now member isHost
    rcases (mem_seen loop isFound).mp member with rfl | ⟨old, -⟩
    · exact loop.hosts row inTable isHost
    · exact loop.hosts now old isHost

theorem Loop.created (loop : Loop context run) {suffix : String} {draws : Nat} {next : Store}
    (typed : turnType ≠ "")
    (isCreated : run.store.create suffix ⟨context.env.uuid draws, "service", turnName,
      serviceSlug context.host.slug turnType turnName,
      newServiceMetadata context turnType turnName⟩ = .ok (row, next)) :
    Loop context { run with store := next, known := run.known ++ [row.id], draws := draws + 1 } ∧
      StandsFor context turnType turnName row := by
  obtain ⟨isRow, rfl, free⟩ := create_ok isCreated
  have stands : StandsFor context turnType turnName row := by
    rw [isRow]
    exact (standsFor_created typed).mpr ⟨rfl, rfl⟩
  obtain ⟨host, hostIn, isHost⟩ := loop.bound
  refine ⟨⟨loop.keyed.create isCreated, ?_, ?_, ?_, ⟨host, List.mem_append_left _ hostIn, isHost⟩,
    loop.older⟩, stands⟩
  · intro now member known
    rcases List.mem_append.mp member with old | new
    · rw [List.contains_iff_mem] at known
      rcases List.mem_append.mp known with before | here
      · exact loop.services now old (List.contains_iff_mem.mpr before)
      · exact absurd (List.mem_singleton.mp here) (free now old).1
    · cases List.mem_singleton.mp new
      exact stands.service
  · intro edge member fromHost now inNow isEnd
    rcases List.mem_append.mp inNow with old | new
    · exact loop.children edge member fromHost now old isEnd
    · cases List.mem_singleton.mp new
      exact stands.child
  · intro now member same
    rcases List.mem_append.mp member with old | new
    · exact loop.hosts now old same
    · cases List.mem_singleton.mp new
      exact absurd (isHost.trans same.symm) (free host hostIn).1

/-- What one turn does to the rows. -/
inductive Turned (context : HostServices) (run : ServiceRun) (turn : AgentService)
    (later : ServiceRun) : Prop where
  | unnamed (key : turn.key = none) (rows : later.store.resources = run.store.resources)
      (reported : later.reported = run.reported)
  | found (turnType turnName : String) (row : Resource) (key : turn.key = some (turnType, turnName))
      (isFound : findService context run turnType turnName = some row)
      (rows : ∀ now, now ∈ later.store.resources ↔
        now = seenRow context turnType turnName row ∨ now ∈ run.store.resources ∧ now.id ≠ row.id)
      (reported : later.reported = run.reported ++ [turnType ++ "/" ++ turnName])
  | taken (turnType turnName : String) (key : turn.key = some (turnType, turnName))
      (isTaken : IsTaken run.store (context.env.uuid run.draws)
        (serviceSlug context.host.slug turnType turnName))
      (missing : findService context run turnType turnName = none)
      (rows : later.store.resources = run.store.resources)
      (reported : later.reported = run.reported ++ [turnType ++ "/" ++ turnName])
  | created (turnType turnName : String) (row : Resource) (key : turn.key = some (turnType, turnName))
      (missing : findService context run turnType turnName = none)
      (free : ¬ IsTaken run.store (context.env.uuid run.draws)
        (serviceSlug context.host.slug turnType turnName))
      (stands : StandsFor context turnType turnName row)
      (rows : later.store.resources = run.store.resources ++ [row])
      (reported : later.reported = run.reported ++ [turnType ++ "/" ++ turnName])

theorem key_ne_empty {turn : AgentService} (key : turn.key = some (turnType, turnName)) :
    turnType ≠ "" ∧ turnName ≠ "" := by
  obtain ⟨text, isText, isKey⟩ := Option.map_eq_some_iff.mp key
  cases isKey
  refine ⟨?_, of_decide_eq_true (Option.filter_eq_some_iff.mp isText).2⟩
  cases given : truthy turn.subtype with
  | none => decide
  | some subtype => exact of_decide_eq_true (Option.filter_eq_some_iff.mp given).2

theorem reported_parentService (serviceId : String) :
    (parentService context run serviceId).reported = run.reported := by
  rw [parentService]
  split <;> rfl

theorem trim_serviceSlug (hostSlug : String) :
    trim (serviceSlug hostSlug turnType turnName) ≠ "" := by
  have chars : (serviceSlug hostSlug turnType turnName).toList =
      's' :: ("vc-" ++ String.ofList (dropLead ["host-"] hostSlug.toList) ++ "-" ++ turnType ++ "-" ++
        String.ofList ((toLowerCase turnName).toList.map fun char =>
          if isSlugChar char || char == '_' || char == '-' then char else '-')).toList := by
    simp only [serviceSlug, String.toList_append]
    rfl
  exact trim_ne_empty chars (by decide)

theorem turned (loop : Loop context run) (turn : AgentService) :
    Loop context (reportService context run turn) ∧
      Turned context run turn (reportService context run turn) := by
  rw [reportService]
  cases named : truthy turn.name with
  | none => exact ⟨loop, .unnamed (by rw [AgentService.key, named]; rfl) rfl rfl⟩
  | some turnName =>
      have key : turn.key = some ((truthy turn.subtype).getD "systemd", turnName) := by
        rw [AgentService.key, named]
        rfl
      generalize (truthy turn.subtype).getD "systemd" = turnType at key ⊢
      have noted : Loop context { run with reported := run.reported ++ [turnType ++ "/" ++ turnName] } :=
        ⟨loop.keyed, loop.services, loop.children, loop.hosts, loop.bound, loop.older⟩
      dsimp only
      split
      case h_1 row isFound =>
        obtain ⟨-, -, child⟩ := noted.found isFound
        constructor
        · apply (noted.seen isFound).parentService
          intro now member same
          rcases (mem_seen noted isFound).mp member with rfl | ⟨-, other⟩
          · exact isChildOfHost_seen.trans child
          · exact absurd same other
        · refine @Turned.found context run turn _ turnType turnName row key isFound ?_ ?_
          · intro now
            rw [resources_parentService]
            exact mem_seen noted isFound
          · rw [reported_parentService]
      case h_2 missing =>
        let data : NewResource := ⟨context.env.uuid run.draws, "service", turnName,
          serviceSlug context.host.slug turnType turnName,
          newServiceMetadata context turnType turnName⟩
        rcases create_cases run.store (context.env.hex run.draws) data (trim_serviceSlug _) with
          ⟨⟨error, failed⟩, isTaken⟩ | ⟨⟨row, isCreated⟩, free⟩
        · rw [failed]
          exact ⟨noted, @Turned.taken context run turn _ turnType turnName key isTaken missing rfl rfl⟩
        · rw [isCreated]
          obtain ⟨later, stands⟩ := noted.created (key_ne_empty key).1 isCreated
          obtain ⟨-, -, apart⟩ := create_ok isCreated
          constructor
          · apply later.parentService
            intro now member same
            rcases List.mem_append.mp member with old | new
            · exact absurd same (apart now old).1
            · cases List.mem_singleton.mp new
              exact stands.child
          · refine @Turned.created context run turn _ turnType turnName row key missing free stands ?_ ?_
            · rw [resources_parentService]
            · rw [reported_parentService]

/-- After a turn a service has a row that it had before, or that the turn wrote its name on. -/
theorem listed_turn (loop : Loop context run) (turn : AgentService) (some : name ≠ "") :
    Listed context (reportService context run turn).store subtype name ↔
      Listed context run.store subtype name ∨ Writes context run turn subtype name := by
  cases (turned loop turn).2 with
  | unnamed key rows =>
      rw [Listed, rows]
      apply (or_iff_left ?_).symm
      rintro ⟨turnType, isKey, -⟩
      rw [key] at isKey
      cases isKey
  | found turnType turnName row key isFound rows =>
      obtain ⟨inTable, service, child⟩ := loop.found isFound
      constructor
      · rintro ⟨now, member, stands⟩
        rcases (rows now).mp member with rfl | ⟨old, -⟩
        · rcases (standsFor_seenRow some).mp stands with before | ⟨filled, rfl⟩
          · exact .inl ⟨row, inTable, before⟩
          · exact .inr ⟨turnType, key, .inl ⟨row, isFound, filled.blank, filled.subtype⟩⟩
        · exact .inl ⟨now, old, stands⟩
      · rintro (⟨old, oldIn, stands⟩ | ⟨otherType, isKey, written⟩)
        · by_cases same : old.id = row.id
          · cases loop.keyed.eq_of_id oldIn inTable same
            exact ⟨_, (rows _).mpr (.inl rfl), (standsFor_seenRow some).mpr (.inl stands)⟩
          · exact ⟨old, (rows old).mpr (.inr ⟨oldIn, same⟩), stands⟩
        · cases key.symm.trans isKey
          rcases written with ⟨first, isFirst, blank, typed⟩ | ⟨-, missing, -⟩
          · cases isFound.symm.trans isFirst
            exact ⟨_, (rows _).mpr (.inl rfl), (standsFor_seenRow some).mpr
              (.inr ⟨⟨service, child, blank, typed⟩, rfl⟩)⟩
          · cases isFound.symm.trans missing
  | taken turnType turnName key isTaken missing rows =>
      rw [Listed, rows]
      apply (or_iff_left ?_).symm
      rintro ⟨otherType, isKey, ⟨first, isFirst, -⟩ | ⟨-, -, free⟩⟩
      · cases key.symm.trans isKey
        cases missing.symm.trans isFirst
      · cases key.symm.trans isKey
        exact free isTaken
  | created turnType turnName row key missing free stands rows =>
      rw [Listed, rows]
      constructor
      · rintro ⟨now, member, isOwn⟩
        rcases List.mem_append.mp member with old | new
        · exact .inl ⟨now, old, isOwn⟩
        · cases List.mem_singleton.mp new
          obtain ⟨rfl, rfl⟩ := isOwn.unique stands
          exact .inr ⟨_, key, .inr ⟨rfl, missing, free⟩⟩
      · rintro (⟨old, member, isOwn⟩ | ⟨otherType, isKey, written⟩)
        · exact ⟨old, List.mem_append_left _ member, isOwn⟩
        · cases key.symm.trans isKey
          rcases written with ⟨first, isFirst, -⟩ | ⟨rfl, -, -⟩
          · cases missing.symm.trans isFirst
          · exact ⟨row, List.mem_append_right _ List.mem_cons_self, stands⟩

theorem loop_foldl (loop : Loop context run) (services : List AgentService) :
    Loop context (services.foldl (reportService context) run) :=
  List.foldlRecOn _ _ loop fun _ loop turn _ => (turned loop turn).1

/-- After the turns a service has a row that it had before, or that one of the turns wrote its name
on. -/
theorem listed_foldl (loop : Loop context run) (services : List AgentService) (some : name ≠ "") :
    Listed context (services.foldl (reportService context) run).store subtype name ↔
      Listed context run.store subtype name ∨ ∃ before turn after,
        services = before ++ turn :: after ∧
          Writes context (before.foldl (reportService context) run) turn subtype name := by
  induction services generalizing run with
  | nil =>
      apply (or_iff_left ?_).symm
      rintro ⟨before, turn, after, split, -⟩
      exact absurd split (by simp)
  | cons turn services ih =>
      rw [List.foldl_cons, ih (turned loop turn).1, listed_turn loop turn some, or_assoc]
      apply or_congr_right
      constructor
      · rintro (written | ⟨before, later, after, rfl, written⟩)
        · exact ⟨[], turn, services, rfl, written⟩
        · exact ⟨turn :: before, later, after, rfl, written⟩
      · rintro ⟨before, later, after, split, written⟩
        cases before with
        | nil =>
            cases split
            exact .inl written
        | cons first before =>
            cases split
            exact .inr ⟨before, later, after, rfl, written⟩

theorem reported_turn (loop : Loop context run) (turn : AgentService) :
    (∀ text ∈ run.reported, text ∈ (reportService context run turn).reported) ∧
      (turn.key = some (subtype, name) →
        subtype ++ "/" ++ name ∈ (reportService context run turn).reported) := by
  cases (turned loop turn).2 with
  | unnamed key rows reported =>
      rw [reported, key]
      exact ⟨fun _ => id, nofun⟩
  | found _ _ _ key _ _ reported =>
      rw [reported, key]
      exact ⟨fun _ => List.mem_append_left _, by rintro ⟨⟩; exact List.mem_append_right _ List.mem_cons_self⟩
  | taken _ _ key _ _ _ reported =>
      rw [reported, key]
      exact ⟨fun _ => List.mem_append_left _, by rintro ⟨⟩; exact List.mem_append_right _ List.mem_cons_self⟩
  | created _ _ _ key _ _ _ _ reported =>
      rw [reported, key]
      exact ⟨fun _ => List.mem_append_left _, by rintro ⟨⟩; exact List.mem_append_right _ List.mem_cons_self⟩

theorem mem_named (loop : Loop context run) {services : List AgentService} {service : AgentService}
    (member : service ∈ services) (key : service.key = some (subtype, name)) :
    subtype ++ "/" ++ name ∈ (services.foldl (reportService context) run).reported := by
  induction services generalizing run with
  | nil => cases member
  | cons turn services ih =>
      obtain ⟨next, -⟩ := turned loop turn
      rw [List.foldl_cons]
      rcases List.mem_cons.mp member with rfl | later
      · have here := (@reported_turn _ run subtype name loop service).2 key
        exact @List.foldlRecOn _ _ (fun run : ServiceRun => Loop context run ∧
          subtype ++ "/" ++ name ∈ run.reported) services (reportService context) _ ⟨next, here⟩
            (fun run both turn _ => ⟨(turned both.1 turn).1,
              (@reported_turn _ run subtype name both.1 turn).1 _ both.2⟩) |>.2
      · exact ih next later

/-! ## The prune -/

theorem field_withSources {metadata : Metadata} {sources : List String} {key : String}
    (other : key ≠ "discovery_sources") :
    Metadata.field (withSources metadata sources) key = Metadata.field metadata key := by
  rw [withSources, Metadata.field_insert, if_neg other]

theorem isChildOfHost_withSources (sources : List String) :
    isChildOfHost context { row with metadata := withSources row.metadata sources } =
      isChildOfHost context row := by
  rw [isChildOfHost, isChildOfHost, field_withSources (by decide)]

theorem standsFor_withSources (sources : List String) :
    StandsFor context subtype name { row with metadata := withSources row.metadata sources } ↔
      StandsFor context subtype name row := by
  have typed : Metadata.textAt (withSources row.metadata sources) "subType" =
      Metadata.textAt row.metadata "subType" :=
    congrArg (fun value => truthy (Json.str? value)) (field_withSources (by decide))
  constructor
  · intro stands
    refine ⟨stands.service, ?_, ?_, typed ▸ stands.subtype⟩
    · exact (isChildOfHost_withSources sources).symm.trans stands.child
    · exact (congrArg (fun value => Json.isStr value name) (field_withSources (by decide))).symm.trans
        stands.named
  · intro stands
    refine ⟨stands.service, (isChildOfHost_withSources sources).trans stands.child, ?_, ?_⟩
    · exact (congrArg (fun value => Json.isStr value name) (field_withSources (by decide))).trans
        stands.named
    · exact (congrArg (fun text => Option.getD text "systemd") typed).trans stands.subtype

/-- The row of a reported service is not pruned. -/
theorem not_isUnreported {reported : List String} (stands : StandsFor context subtype name row)
    (some : name ≠ "") (isReported : subtype ++ "/" ++ name ∈ reported) :
    isUnreported context reported row = false := by
  have text : row.metadata.textAt "serviceName" = .some name := by
    have named := stands.named
    rw [Metadata.textAt]
    cases value : row.metadata.field "serviceName" with
    | str written =>
        rw [value] at named
        cases eq_of_beq named
        exact if_pos (decide_eq_true some)
    | _ =>
        rw [value] at named
        cases named
  have isName : serviceName row = name := by
    rw [serviceName, text]
    rfl
  rw [isUnreported, isName, stands.subtype, List.contains_iff_mem.mpr isReported, Bool.not_true,
    Bool.and_false]

/-- What a prune leaves. -/
structure Pruning (context : HostServices) (run : ServiceRun) (store : Store) : Prop where
  rows : ∀ now ∈ store.resources, ∃ row ∈ run.store.resources,
    now = row ∨ ∃ sources, now = { row with metadata := withSources row.metadata sources }
  kept : ∀ row ∈ run.store.resources, isUnreported context run.reported row = false →
    row ∈ store.resources
  edges : ∀ edge ∈ store.edges, edge ∈ run.store.edges
  children : ∀ edge ∈ run.store.edges, edge.parentId = context.host.id → store.Has edge.childId →
    edge ∈ store.edges

theorem Pruning.pruneService (loop : Loop context run) {store : Store} {service : Resource}
    (pruning : Pruning context run store) (member : service ∈ run.allServices) :
    Pruning context run (pruneService context run.reported store service) := by
  obtain ⟨inTable, isKnown⟩ := List.mem_filter.mp member
  have apart {row : Resource} (rowIn : row ∈ run.store.resources)
      (unreported : isUnreported context run.reported service = true)
      (isReported : isUnreported context run.reported row = false) : row.id ≠ service.id := by
    intro same
    cases loop.keyed.eq_of_id rowIn inTable same
    rw [unreported] at isReported
    contradiction
  rw [Discovery.pruneService]
  cases unreported : isUnreported context run.reported service with
  | false => exact pruning
  | true =>
      dsimp only
      rw [if_neg (by decide)]
      split
      · refine ⟨?_, ?_, pruning.edges, ?_⟩
        · intro now nowIn
          rcases mem_update_iff.mp nowIn with ⟨old, oldIn, same, rfl⟩ | ⟨old, -⟩
          · obtain ⟨row, rowIn, isOld⟩ := pruning.rows old oldIn
            have isRow : row = service := by
              apply loop.keyed.eq_of_id rowIn inTable
              rcases isOld with rfl | ⟨sources, rfl⟩
              · exact same
              · exact same
            cases isRow
            refine ⟨service, inTable, .inr ⟨others service.metadata, ?_⟩⟩
            rcases isOld with rfl | ⟨sources, rfl⟩
            · rfl
            · rfl
          · exact pruning.rows now old
        · exact fun row rowIn isReported =>
            mem_update (pruning.kept row rowIn isReported) (apart rowIn unreported isReported)
        · exact fun edge edgeIn fromHost has => pruning.children edge edgeIn fromHost
            ((@has_update store service.id (fun old => { old with
              metadata := withSources service.metadata (others service.metadata) }) _
                fun _ => rfl).mp has)
      · refine ⟨?_, ?_, ?_, ?_⟩
        · exact fun now nowIn => pruning.rows now (List.mem_of_mem_filter nowIn)
        · exact fun row rowIn isReported => List.mem_filter.mpr
            ⟨pruning.kept row rowIn isReported, decide_eq_true (apart rowIn unreported isReported)⟩
        · exact fun edge edgeIn => pruning.edges edge (List.mem_of_mem_filter edgeIn)
        · rintro edge edgeIn fromHost ⟨row, rowIn, isEnd⟩
          obtain ⟨old, other⟩ := List.mem_filter.mp rowIn
          apply List.mem_filter.mpr
          refine ⟨pruning.children edge edgeIn fromHost ⟨row, old, isEnd⟩, decide_eq_true ⟨?_, ?_⟩⟩
          · exact isEnd ▸ of_decide_eq_true other
          · intro isService
            have isHost := loop.hosts service inTable (isService.symm.trans fromHost)
            rw [loop.services service inTable isKnown] at isHost
            exact absurd isHost (by decide)

theorem pruned (loop : Loop context run) :
    Pruning context run (pruneServicesNotReported context run) :=
  List.foldlRecOn _ _ ⟨fun row member => ⟨row, member, .inl rfl⟩, fun _ member _ => member,
    fun _ => id, fun _ member _ _ => member⟩ fun _ pruning _ member => pruning.pruneService loop member

/-- Whether a row is under the host is the same to the catalogue that is left. -/
theorem isChildOfHost_pruned (loop : Loop context run) {now : Resource}
    (member : now ∈ (pruneServicesNotReported context run).resources) :
    isChildOfHost (hostServices context.env (pruneServicesNotReported context run) context.host) now =
      isChildOfHost context now := by
  have pruning := pruned loop
  rw [Bool.eq_iff_iff]
  constructor
  · intro child
    rcases Bool.or_eq_true_iff.mp child with byId | byEdge
    · exact Bool.or_eq_true_iff.mpr (.inl byId)
    · obtain ⟨edge, edgeIn, isEnd⟩ := List.mem_map.mp (List.contains_iff_mem.mp byEdge)
      obtain ⟨inTable, fromHost⟩ := List.mem_filter.mp edgeIn
      obtain ⟨row, rowIn, isNow⟩ := pruning.rows now member
      have below := loop.children edge (pruning.edges edge inTable) (eq_of_beq fromHost) row rowIn
      rcases isNow with rfl | ⟨sources, rfl⟩
      · exact below isEnd.symm
      · exact (isChildOfHost_withSources sources).trans (below isEnd.symm)
  · intro child
    apply Bool.or_eq_true_iff.mpr
    rcases Bool.or_eq_true_iff.mp child with byId | known
    · exact .inl byId
    · obtain ⟨edge, edgeIn, fromHost, isEnd⟩ := loop.older now.id known
      have kept := pruning.children edge edgeIn fromHost ⟨now, member, isEnd.symm⟩
      exact .inr (List.contains_iff_mem.mpr (List.mem_map.mpr
        ⟨edge, List.mem_filter.mpr ⟨kept, beq_iff_eq.mpr fromHost⟩, isEnd⟩))

/-- The prune neither takes nor gives a reported service its row. -/
theorem listed_pruned (loop : Loop context run) (some : name ≠ "")
    (isReported : subtype ++ "/" ++ name ∈ run.reported) :
    Listed (hostServices context.env (pruneServicesNotReported context run) context.host)
        (pruneServicesNotReported context run) subtype name ↔ Listed context run.store subtype name := by
  have pruning := pruned loop
  constructor
  · rintro ⟨now, member, stands⟩
    have here : StandsFor context subtype name now :=
      ⟨stands.service, (isChildOfHost_pruned loop member).symm.trans stands.child, stands.named,
        stands.subtype⟩
    obtain ⟨row, rowIn, rfl | ⟨sources, rfl⟩⟩ := pruning.rows now member
    · exact ⟨_, rowIn, here⟩
    · exact ⟨row, rowIn, (standsFor_withSources sources).mp here⟩
  · rintro ⟨row, rowIn, stands⟩
    have member := pruning.kept row rowIn (not_isUnreported stands some isReported)
    exact ⟨row, member, stands.service, (isChildOfHost_pruned loop member).trans stands.child,
      stands.named, stands.subtype⟩

/-! ## The report -/

theorem loop_start {host : Resource} (keyed : store.Keyed) (hostIn : host ∈ store.resources)
    (isHost : host.kind = "host") : Loop (hostServices env store host) (startRun store) where
  keyed := keyed
  services := by
    intro row member known
    obtain ⟨other, listed, same⟩ := List.mem_map.mp (List.contains_iff_mem.mp known)
    obtain ⟨otherIn, service⟩ := List.mem_filter.mp listed
    cases keyed.eq_of_id otherIn member same
    exact eq_of_beq service
  children := by
    intro edge member fromHost row _ isEnd
    apply Bool.or_eq_true_iff.mpr
    exact .inr (List.contains_iff_mem.mpr (List.mem_map.mpr
      ⟨edge, List.mem_filter.mpr ⟨member, beq_iff_eq.mpr fromHost⟩, isEnd.symm⟩))
  hosts := by
    intro row member same
    cases keyed.eq_of_id member hostIn same
    exact isHost
  bound := ⟨host, hostIn, rfl⟩
  older := by
    intro id known
    obtain ⟨edge, member, isEnd⟩ := List.mem_map.mp (List.contains_iff_mem.mp known)
    obtain ⟨inTable, fromHost⟩ := List.mem_filter.mp member
    exact ⟨edge, inTable, eq_of_beq fromHost, isEnd⟩

def webHost : Resource where
  id := "host"
  kind := "host"
  name := "web"
  slug := "host-web"
  description := none
  createdBy := none
  metadata := ∅

def webAgent : Resource where
  id := "agent"
  kind := "service"
  name := "Theta Agent"
  slug := "svc-web-theta-agent"
  description := none
  createdBy := none
  metadata := (∅ : Metadata).insert "subType" (.str "theta-agent")

def webStore : Store := ⟨[webHost, webAgent], [⟨"edge", "host", "agent", "hosts", none⟩], []⟩

def webEnv : Env := ⟨0, fun draw => "made" ++ toString draw, fun _ => ""⟩

theorem keyed_webStore : webStore.Keyed := ⟨by decide, by decide⟩

/-- Two names that are written alike in a slug. -/
def dotAndDash : List AgentService := [⟨some "a.b", none⟩, ⟨some "a-b", none⟩]

end ThetaDirectory.Discovery
