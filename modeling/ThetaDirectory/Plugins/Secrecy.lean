import Mathlib.Data.List.Find
import ThetaDirectory.Plugins.Instances

/-!
# Plugin secrets stay in the vault

The rows of instances hold only fields that are not secret.  Of two runs of the plugin API whose
requests differ in secret values only, the rows, the schedule, the queue and every answer are the
same.  A secret value shows at most that it is there; values that a test for truth fails, and the
placeholder itself, do not count as secrets.
-/

namespace ThetaDirectory.Plugins

open Library Library.Interleaving Catalog

/-! ## What is stored where -/

section Stored

variable {types : Registry} {α β : Type}

/-- The row holds only fields that its type declares as not secret. -/
def Plain (types : Registry) (row : PluginInstance) : Prop :=
  ∀ field ∈ row.config, field.1 ∈ types.publicKeys row.pluginType

/-- No blank value and no placeholder is in the vault. -/
structure Store.Tidy (types : Registry) (store : Store) : Prop where
  plain : ∀ row ∈ store.instances, Plain types row
  kept : ∀ id, ∀ secrets ∈ store.bao.lookup id, ∀ field ∈ secrets, isKept field.2 = true

def Op.Permitted (types : Registry) {β : Type} : Op β → Prop
  | createInstance row => Plain types row
  | updateInstance _ change => ∀ row, Plain types row → Plain types (change row)
  | setSecrets _ values => ∀ field ∈ values, isKept field.2 = true
  | _ => True

def bounds (types : Registry) : Program.Bounds Fault Op where
  permitted := Op.Permitted types
  possible _ _ := True

theorem keeps_act : host.Keeps (Store.Tidy types) (bounds types) := by
  intro β operation outcome store tidy permitted
  refine ⟨?_, trivial⟩
  change Store.Tidy types (operation.act outcome store).1
  change operation.Permitted types at permitted
  unfold Op.act
  cases outcome.failure with
  | some fault => exact tidy
  | none =>
      cases operation with
      | createInstance row =>
          change Store.Tidy types (Store.insert store row).1
          unfold Store.insert
          split
          · exact tidy
          · refine ⟨fun other listed => ?_, tidy.kept⟩
            rcases List.mem_append.mp listed with old | new
            · exact tidy.plain other old
            · exact List.mem_singleton.mp new ▸ permitted
      | updateInstance id change =>
          refine ⟨fun row listed => ?_, tidy.kept⟩
          obtain ⟨before, there, rfl⟩ := List.mem_map.mp listed
          split
          · exact permitted before (tidy.plain before there)
          · exact tidy.plain before there
      | deleteInstance id =>
          exact ⟨fun row listed => tidy.plain row (List.mem_filter.mp listed).1, tidy.kept⟩
      | setSecrets id values =>
          refine ⟨tidy.plain, fun key secrets found => ?_⟩
          change secrets ∈ (store.bao.insert id values).lookup key at found
          rw [JsMap.lookup_insert] at found
          split at found
          · cases found
            exact permitted
          · exact tidy.kept key secrets found
      | deleteSecrets id =>
          refine ⟨tidy.plain, fun key secrets found => ?_⟩
          change secrets ∈ (store.bao.erase id).lookup key at found
          by_cases same : key = id
          · subst same
            rw [AList.lookup_erase] at found
            cases found
          · rw [AList.lookup_erase_ne same] at found
            exact tidy.kept key secrets found
      | _ => exact ⟨tidy.plain, tidy.kept⟩

theorem mem_setField {fields : Fields} {key : String} {value : Json} {field : String × Json}
    (listed : field ∈ Json.setField fields key value) : field.1 = key ∨ field ∈ fields := by
  unfold Json.setField at listed
  split at listed
  · obtain ⟨before, there, rfl⟩ := List.mem_map.mp listed
    split
    · exact .inl rfl
    · exact .inr there
  · rcases List.mem_append.mp listed with old | new
    · exact .inr old
    · exact .inl (congrArg Prod.fst (List.mem_singleton.mp new))

theorem plain_splitConfig {type : String} {flat : Fields} {field : String × Json}
    (listed : field ∈ (types.splitConfig type flat).1) : field.1 ∈ types.publicKeys type := by
  revert field
  unfold Registry.splitConfig
  refine List.foldlRecOn (motive := fun parts : Fields × Fields =>
    ∀ {field}, field ∈ parts.1 → field.1 ∈ types.publicKeys type)
    _ _ (fun listed => absurd listed List.not_mem_nil) ?_
  intro parts sofar declared there field listed
  unfold splitField at listed
  split at listed
  · exact sofar listed
  · split at listed
    · exact sofar listed
    · rename_i shown
      rcases mem_setField listed with same | old
      · have public_ : declared ∈ (types.configSchema type).filter (!·.secret) :=
          List.mem_filter.mpr ⟨there, by simpa using shown⟩
        exact List.mem_map.mpr ⟨declared, public_, same.symm⟩
      · exact sofar old

/-- A handler that stores nothing in the wrong place. -/
structure Confined (types : Registry) (handler : Handler α) : Prop where
  within : handler.Within (bounds types) fun _ => True

theorem Confined.bind {handler : Handler α} {next : α → Handler β}
    (confined : Confined types handler) (goesOn : ∀ result, Confined types (next result)) :
    Confined types (handler >>= next) :=
  ⟨confined.within.bind fun result _ => (goesOn result).within⟩

theorem Confined.tryCatch {handler : Handler α} {catcher : Fault → Handler α}
    (confined : Confined types handler) (catches : ∀ fault, Confined types (catcher fault)) :
    Confined types (tryCatch handler catcher) :=
  ⟨confined.within.tryCatch fun fault => (catches fault).within⟩

theorem confined_pure (result : α) : Confined types (pure result : Handler α) := ⟨trivial⟩

theorem confined_throw (fault : Fault) : Confined types (throw fault : Handler α) := ⟨trivial⟩

theorem confined_perform (operation : Op β) (permitted : operation.Permitted types) :
    Confined types (perform operation) :=
  ⟨Program.within_perform permitted fun _ _ => trivial⟩

theorem confined_ambient {next : Ambience → Handler α}
    (goesOn : ∀ now iso, Confined types (next ⟨now, iso⟩)) :
    Confined types (Program.ambience >>= next) :=
  ⟨fun ambience => (goesOn ambience.now ambience.iso).within⟩

theorem confined_attempt {handler : Handler α} (confined : Confined types handler) :
    Confined types (attempt handler) :=
  (confined.bind fun _ => confined_pure _).tryCatch fun _ => confined_pure _

theorem confined_onlyIf (condition : Bool) {handler : Handler Unit}
    (confined : Confined types handler) : Confined types (onlyIf condition handler) := by
  cases condition with
  | true => exact confined
  | false => exact confined_pure ()

/-- A change that leaves the fields and the type of a row. -/
theorem confined_change {id : String} {change : PluginInstance → PluginInstance}
    (config : ∀ row, (change row).config = row.config)
    (pluginType : ∀ row, (change row).pluginType = row.pluginType) :
    Confined types (perform (.updateInstance id change)) := by
  refine confined_perform (.updateInstance id change) fun row plain => ?_
  unfold Plain
  rw [config, pluginType]
  exact plain

theorem confined_assertId (id : String) : Confined types (assertId id) := by
  unfold assertId
  split
  · exact confined_pure ()
  · exact confined_throw _

theorem confined_read (id : String) : Confined types (read id) := by
  refine (confined_assertId id).bind fun _ => ?_
  refine Confined.tryCatch ?_ fun fault => ?_
  · exact (confined_perform (.getSecrets id) trivial).bind fun _ => confined_pure _
  · split
    · exact confined_throw fault
    · exact confined_pure _

theorem confined_write (id : String) (secrets : Fields) : Confined types (write id secrets) :=
  (confined_assertId id).bind fun _ =>
    confined_perform (.setSecrets id (clean secrets)) fun _ listed => (List.mem_filter.mp listed).2

theorem confined_remove (id : String) : Confined types (remove id) :=
  (confined_assertId id).bind fun _ =>
    (confined_perform (.deleteSecrets id) trivial).tryCatch fun _ => confined_pure ()

theorem confined_unscheduleInstance (id : String) : Confined types (unscheduleInstance id) := by
  unfold unscheduleInstance
  split
  · exact confined_pure ()
  · exact (confined_perform (.removeJobScheduler id) trivial).tryCatch fun _ => confined_pure ()

theorem confined_scheduleInstance (row : PluginInstance) :
    Confined types (scheduleInstance row) := by
  unfold scheduleInstance
  split
  · exact confined_pure ()
  · split
    · exact confined_perform (.upsertJobScheduler _ _) trivial
    · exact confined_unscheduleInstance row.id

theorem confined_runInstanceNow (id : String) : Confined types (runInstanceNow id) := by
  unfold runInstanceNow
  split
  · exact confined_pure ()
  · exact confined_perform (.addJob id) trivial

theorem confined_serialize (row : PluginInstance) : Confined types (serialize types row) :=
  ((confined_read row.id).tryCatch fun _ => confined_pure []).bind fun _ => confined_pure _

theorem confined_serializeAll (rows : List PluginInstance) :
    Confined types (serializeAll types rows) := by
  induction rows with
  | nil => exact confined_pure []
  | cons row rows ih =>
      exact (confined_serialize row).bind fun _ => ih.bind fun _ => confined_pure _

theorem confined_firstFree (candidates : List String) : Confined types (firstFree candidates) := by
  induction candidates with
  | nil => exact confined_pure none
  | cons candidate candidates ih =>
      refine (confined_perform (.getBySlug candidate) trivial).bind fun taken => ?_
      split
      · exact confined_pure _
      · exact ih

theorem confined_finalSlug (name : String) (slug : Option String) :
    Confined types (finalSlug name slug) := by
  unfold finalSlug
  split
  · exact confined_pure _
  · exact (confined_firstFree _).bind fun _ => confined_pure _

theorem confined_withInstance {id : String} {next : PluginInstance → Handler Response}
    (goesOn : ∀ row, Confined types (next row)) : Confined types (withInstance id next) := by
  refine (confined_perform (.getInstance id) trivial).bind fun found => ?_
  cases found with
  | none => exact confined_pure notFound
  | some row => exact goesOn row

theorem confined_orUniqueViolation {handler : Handler Response}
    (confined : Confined types handler) : Confined types (orUniqueViolation handler) := by
  refine confined.tryCatch fun fault => ?_
  split
  · exact confined_pure _
  · exact confined_throw fault

theorem confined_results (row : PluginInstance) :
    Confined types (do pure (Response.results (← serialize types row))) :=
  (confined_serialize row).bind fun _ => confined_pure _

theorem confined_store {row : PluginInstance} (plain : Plain types row) (secrets : Fields) :
    Confined types (store types row secrets) := by
  refine (confined_perform (.createInstance row) plain).bind fun created => ?_
  refine (confined_attempt (confined_write created.id secrets)).bind fun written => ?_
  cases written with
  | error fault =>
      refine (confined_attempt ?_).bind fun _ => confined_pure _
      exact confined_perform (.deleteInstance created.id) trivial
  | ok _ =>
      refine (confined_onlyIf created.enabled ?_).bind fun _ => confined_results created
      exact (confined_scheduleInstance created).bind fun _ => confined_runInstanceNow created.id

theorem confined_create (id uid : String) (body : PluginBody) :
    Confined types (create types id uid body) := by
  refine confined_orUniqueViolation ?_
  split
  · exact confined_pure _
  · split
    · unfold createTyped
      split
      · exact confined_pure _
      · refine (confined_finalSlug _ body.slug).bind fun slug => ?_
        split
        · exact confined_pure _
        · split
          · exact confined_pure _
          · exact confined_pure _
          · refine confined_ambient fun now iso => confined_store ?_ _
            exact fun field listed => plain_splitConfig listed
    · exact confined_pure _
  · exact confined_pure _

theorem confined_update (id uid : String) (body : PluginBody) :
    Confined types (update types id uid body) := by
  refine confined_orUniqueViolation (confined_withInstance fun row => ?_)
  split
  · exact confined_pure _
  · split
    · exact confined_pure _
    · exact confined_pure _
    · refine confined_ambient fun now iso => ?_
      refine (confined_perform (.updateInstance row.id _) ?_).bind fun _ => ?_
      · intro row plain field listed
        change field ∈ (if isObject body.config then
          (types.splitConfig row.pluginType (fieldsOf body.config)).1 else row.config) at listed
        split at listed
        · exact plain_splitConfig listed
        · exact plain field listed
      · refine (confined_onlyIf _ (confined_scheduleInstance _)).bind fun _ => ?_
        exact confined_results _

theorem confined_updateSecrets (id uid : String) (body : Fields) :
    Confined types (updateSecrets types id uid body) := by
  refine confined_withInstance fun row => ?_
  split
  · exact confined_pure _
  · refine (confined_write row.id _).bind fun _ => confined_ambient fun now iso => ?_
    refine (confined_change ?_ ?_).bind fun _ => confined_pure _
    · exact fun _ => rfl
    · exact fun _ => rfl

theorem confined_mergeForRun (row : PluginInstance) : Confined types (mergeForRun row) :=
  (confined_read row.id).bind fun _ => confined_pure _

theorem confined_test (id : String) : Confined types (test types id) := by
  refine (confined_withInstance fun row => ?_).tryCatch fun _ => confined_pure _
  split
  · exact confined_pure _
  · split
    · refine (confined_mergeForRun row).bind fun config => ?_
      refine (confined_perform (.validate row.pluginType config) trivial).bind fun result => ?_
      split
      · exact confined_pure _
      · split
        · exact confined_pure _
        · exact confined_pure _
    · exact confined_pure _

theorem confined_load (id uid : String) : Confined types (load types id uid) := by
  refine confined_withInstance fun row => confined_ambient fun now iso => ?_
  refine (confined_change ?_ ?_).bind fun _ => ?_
  · exact fun _ => rfl
  · exact fun _ => rfl
  refine (confined_scheduleInstance _).bind fun _ => ?_
  exact (confined_runInstanceNow row.id).bind fun _ => confined_results _

theorem confined_unload (id uid : String) : Confined types (unload types id uid) := by
  refine confined_withInstance fun row => ?_
  refine (confined_unscheduleInstance row.id).bind fun _ => confined_ambient fun now iso => ?_
  refine (confined_change ?_ ?_).bind fun _ => confined_results _
  · exact fun _ => rfl
  · exact fun _ => rfl

theorem confined_delete (id : String) (keepPromoted : Bool) :
    Confined types (delete id keepPromoted) := by
  refine confined_withInstance fun row => ?_
  refine (confined_unscheduleInstance row.id).bind fun _ => ?_
  refine (confined_remove row.id).bind fun _ => ?_
  refine Confined.bind ?_ fun _ => ?_
  · refine Confined.tryCatch ?_ fun _ => confined_pure noCleanup
    exact confined_perform (.forgetSource row.slug keepPromoted) trivial
  · exact (confined_perform (.deleteInstance row.id) trivial).bind fun _ => confined_pure _

theorem confined_settleRun (row : PluginInstance) (config : Fields) (iso : String)
    (ending : Ending) (logs : List String) :
    Confined types (settleRun row config iso ending logs) := by
  cases ending with
  | failed message | timedOut => exact confined_pure _
  | returned payload =>
      simp only [settleRun]
      split
      · cases payload with
        | error why => exact confined_pure _
        | ok payload =>
            refine (confined_attempt ?_).bind fun _ => confined_pure _
            have written : Confined types (perform (.reconcile row.slug
                (Discovery.validateDiscoveryPayload payload).payload config)) :=
              confined_perform (.reconcile row.slug _ config) trivial
            refine written.bind fun _ => ?_
            refine Confined.tryCatch ?_ fun _ => confined_pure ()
            exact confined_perform (.ensureCatalogEntry row config) trivial
      · exact confined_pure _

theorem confined_runPlugin (row : PluginInstance) : Confined types (runPlugin row) := by
  refine (confined_attempt (confined_mergeForRun row)).bind fun config => ?_
  cases config with
  | error fault => exact confined_pure _
  | ok config =>
      have runs : Confined types (perform (.run row.pluginType config)) :=
        confined_perform (.run row.pluginType config) trivial
      refine (confined_attempt runs).bind fun finished => ?_
      cases finished with
      | error fault => exact confined_pure _
      | ok finished => exact confined_ambient fun now iso => confined_settleRun row config iso _ _

theorem confined_stampRun (id : String) (logs : List String) (ended : Except Fault Unit) :
    Confined types (stampRun id logs ended) := by
  have fails (fault : Fault) : Confined types (failRun id logs fault.text) :=
    confined_change (fun _ => rfl) fun _ => rfl
  cases ended with
  | error fault => exact fails fault
  | ok _ =>
      refine Confined.tryCatch ?_ fails
      exact confined_change (fun _ => rfl) fun _ => rfl

theorem confined_runPluginJob (id : String) : Confined types (runPluginJob types id) := by
  have stops (id error : String) : Confined types (cannotRun id error) :=
    confined_ambient fun now iso => confined_change (fun _ => rfl) fun _ => rfl
  unfold runPluginJob
  split
  · exact confined_pure ()
  · refine (confined_perform (.getInstance id) trivial).bind fun found => ?_
    split
    · exact confined_pure ()
    · rename_i row _
      split
      · exact stops row.id _
      · split
        · have starts : Confined types (startRun row.id) :=
            confined_ambient fun now iso => confined_change (fun _ => rfl) fun _ => rfl
          refine starts.bind fun _ => (confined_runPlugin row).bind fun (logs, ended) => ?_
          exact confined_stampRun row.id logs ended
        · exact stops row.id _

theorem confined_handle (request : Request) : Confined types (handle types request) := by
  cases request with
  | list =>
      refine (confined_perform .listInstances trivial).bind fun rows => ?_
      exact (confined_serializeAll rows).bind fun _ => confined_pure _
  | get id => exact confined_withInstance confined_results
  | create id uid body => exact confined_create id uid body
  | update id uid body => exact confined_update id uid body
  | secrets id uid body => exact confined_updateSecrets id uid body
  | test id => exact confined_test id
  | load id uid => exact confined_load id uid
  | unload id uid => exact confined_unload id uid
  | run id => exact confined_withInstance fun row =>
      (confined_runInstanceNow row.id).bind fun _ => confined_pure _
  | runs id => exact confined_withInstance fun _ => confined_pure _
  | delete id keepPromoted => exact confined_delete id keepPromoted
  | job id => exact (confined_runPluginJob id).bind fun _ => confined_pure _

/-- However requests and jobs overlap, the rows hold only fields that their types declare as not
secret, and the vault no blank value and no placeholder. -/
theorem tidy_run (types : Registry) (events : List (Event (Request × Ambience) Outcome)) :
    (Runs.run (apply types) events start).shared.Tidy types := by
  have initial : start.shared.Tidy types :=
    ⟨fun row listed => absurd listed List.not_mem_nil, fun _ secrets found =>
      (Option.not_mem_none secrets found).elim⟩
  exact (Program.within_run keeps_act initial
    (fun call listed => absurd listed List.not_mem_nil) fun request _ _ =>
      (confined_handle request).within).1

end Stored

/-! ## Values that nobody can tell apart -/

/-- A value that is stored and shown as the placeholder. -/
def Sealable (value : Json) : Prop := value.isTruthy = true ∧ value.isStr MASK = false

def Concealed (value other : Json) : Prop := value = other ∨ Sealable value ∧ Sealable other

theorem Concealed.isBlank {value other : Json} (concealed : Concealed value other) :
    isBlank (some value) = isBlank (some other) := by
  have shown {value : Json} (sealable : Sealable value) : Plugins.isBlank (some value) = false := by
    cases value <;> simp_all [Sealable, Plugins.isBlank, Json.isTruthy]
  rcases concealed with rfl | ⟨sealed, sealedOther⟩
  · rfl
  · rw [shown sealed, shown sealedOther]

section Fields

variable (types : Registry) (type : String)

/-- Two entries of a vault record of which the API shows the same. -/
def SealedField (field other : String × Json) : Prop :=
  field.1 = other.1 ∧ (field.2 = other.2 ∨
    Sealable field.2 ∧ Sealable other.2 ∧ field.1 ∈ types.secretKeys type)

abbrev SealedFields : Fields → Fields → Prop := List.Forall₂ (SealedField types type)

/-- Two bodies with the same values of the fields that are not secret. -/
def Shown (flat other : Fields) : Prop :=
  ∀ field ∈ types.configSchema type, field.secret = false →
    flat.lookup field.key = other.lookup field.key

/-- Two bodies with the same secret fields, whatever their values. -/
def Hidden (flat other : Fields) : Prop :=
  ∀ field ∈ types.configSchema type, field.secret = true →
    Option.Rel Concealed (flat.lookup field.key) (other.lookup field.key)

variable {types type}

theorem sealedFields_refl (fields : Fields) : SealedFields types type fields fields :=
  List.forall₂_same.mpr fun _ _ => ⟨rfl, .inl rfl⟩

theorem sealedFields_setField {fields others : Fields} {field other : String × Json}
    (sealed : SealedFields types type fields others) (agree : SealedField types type field other) :
    SealedFields types type (Json.setField fields field.1 field.2)
      (Json.setField others other.1 other.2) := by
  have keys : fields.any (·.1 == field.1) = others.any (·.1 == other.1) := by
    rw [agree.1]
    induction sealed with
    | nil => rfl
    | cons first _ ih => simp only [List.any_cons, first.1, ih]
  unfold Json.setField
  rw [keys]
  split
  · refine List.rel_map (P := SealedField types type) (fun old found same => ?_) sealed
    rw [same.1, agree.1]
    split
    · exact ⟨rfl, agree.1 ▸ agree.2⟩
    · exact same
  · exact List.rel_append sealed (.cons agree .nil)

theorem rel_splitConfig (relation : Fields × Fields → Fields × Fields → Prop) {flat other : Fields}
    (initial : relation ([], []) ([], []))
    (step : ∀ field ∈ types.configSchema type, ∀ parts others, relation parts others →
      relation (splitField flat parts field) (splitField other others field)) :
    relation (types.splitConfig type flat) (types.splitConfig type other) := by
  have declared : List.Forall₂ (fun field same => field = same ∧ field ∈ types.configSchema type)
      (types.configSchema type) (types.configSchema type) :=
    List.forall₂_same.mpr fun _ listed => ⟨rfl, listed⟩
  refine List.rel_foldl (P := relation) ?_ initial declared
  rintro parts others sofar field _ ⟨rfl, listed⟩
  exact step field listed parts others sofar

theorem splitConfig_shown {flat other : Fields} (shown : Shown types type flat other) :
    (types.splitConfig type flat).1 = (types.splitConfig type other).1 := by
  refine rel_splitConfig (fun parts others => parts.1 = others.1) rfl ?_
  intro field listed parts others sofar
  unfold splitField
  cases secret : field.secret with
  | false =>
      rw [← shown field listed secret]
      cases flat.lookup field.key with
      | none => exact sofar
      | some value => exact congrArg (Json.setField · field.key value) sofar
  | true =>
      cases flat.lookup field.key <;> cases other.lookup field.key <;> exact sofar

theorem splitConfig_hidden {flat other : Fields} (hidden : Hidden types type flat other) :
    SealedFields types type (types.splitConfig type flat).2 (types.splitConfig type other).2 := by
  refine rel_splitConfig (fun parts others => SealedFields types type parts.2 others.2) .nil ?_
  intro field listed parts others sofar
  unfold splitField
  cases secret : field.secret with
  | false =>
      cases flat.lookup field.key <;> cases other.lookup field.key <;> exact sofar
  | true =>
      have secretKey : field.key ∈ types.secretKeys type :=
        List.mem_map.mpr ⟨field, List.mem_filter.mpr ⟨listed, secret⟩, rfl⟩
      have concealed := hidden field listed secret
      generalize flat.lookup field.key = value at concealed
      generalize other.lookup field.key = found at concealed
      cases concealed with
      | none => exact sofar
      | @some value other concealed =>
          have agree : SealedField types type (field.key, value) (field.key, other) :=
            ⟨rfl, concealed.imp_right fun both => ⟨both.1, both.2, secretKey⟩⟩
          exact sealedFields_setField sofar agree

theorem isKept_of_sealable {value : Json} (sealable : Sealable value) : isKept value = true := by
  cases value <;> simp_all [Sealable, isKept, Json.isTruthy, Json.isStr]

theorem sealedFields_clean {fields others : Fields}
    (sealed : SealedFields types type fields others) :
    SealedFields types type (clean fields) (clean others) := by
  refine List.rel_filter (fun field other agree => ?_) sealed
  change isKept field.2 = true ↔ isKept other.2 = true
  rcases agree.2 with same | ⟨first, second, -⟩
  · rw [same]
  · rw [isKept_of_sealable first, isKept_of_sealable second]

theorem sealedFields_assign {config fields others : Fields}
    (sealed : SealedFields types type fields others) :
    SealedFields types type (assign config fields) (assign config others) :=
  List.rel_foldl (P := SealedFields types type) (R := SealedField types type)
    (fun _ _ sofar _ _ agree => sealedFields_setField sofar agree) (sealedFields_refl config) sealed

/-- The API shows the same of both. -/
theorem mask_eq {fields others : Fields} (sealed : SealedFields types type fields others) :
    types.mask type fields = types.mask type others := by
  unfold Registry.mask
  induction sealed with
  | nil => rfl
  | @cons field other _ _ agree _ ih =>
      rcases agree.2 with same | ⟨first, second, secret⟩
      · simp only [List.map_cons, ih, agree.1, same]
      · have secretKey : (types.secretKeys type).contains field.1 = true :=
          List.contains_iff_mem.mpr secret
        rw [agree.1] at secretKey
        simp only [List.map_cons, ih, secretKey, first.1, second.1, agree.1, Bool.and_self, if_true]

end Fields

/-! ## Operations of two runs -/

variable (types : Registry) (kind : String → String)

/-- A row has the type that its id goes with. -/
def Typed (row : PluginInstance) : Prop := row.pluginType = kind row.id

/-- Two changes that do the same to a row of the id and leave its id and its type. -/
structure SameChange (id : String) (change other : PluginInstance → PluginInstance) : Prop where
  agree : ∀ row, row.id = id → Typed kind row → change row = other row
  id : ∀ row, (change row).id = row.id
  pluginType : ∀ row, (change row).pluginType = row.pluginType

/-- Operations of two runs that differ at most in secrets. -/
inductive SameOp : {β : Type} → Op β → Op β → Prop
  | getInstance (id : String) : SameOp (.getInstance id) (.getInstance id)
  | listInstances : SameOp .listInstances .listInstances
  | getBySlug (slug : String) : SameOp (.getBySlug slug) (.getBySlug slug)
  | createInstance {row : PluginInstance} (typed : Typed kind row) :
      SameOp (.createInstance row) (.createInstance row)
  | updateInstance {id : String} {change other : PluginInstance → PluginInstance}
      (same : SameChange kind id change other) :
      SameOp (.updateInstance id change) (.updateInstance id other)
  | deleteInstance (id : String) : SameOp (.deleteInstance id) (.deleteInstance id)
  | getSecrets (id : String) : SameOp (.getSecrets id) (.getSecrets id)
  | setSecrets {id : String} {values others : Fields}
      (sealed : SealedFields types (kind id) values others) :
      SameOp (.setSecrets id values) (.setSecrets id others)
  | deleteSecrets (id : String) : SameOp (.deleteSecrets id) (.deleteSecrets id)
  | upsertJobScheduler (id cron : String) :
      SameOp (.upsertJobScheduler id cron) (.upsertJobScheduler id cron)
  | removeJobScheduler (id : String) : SameOp (.removeJobScheduler id) (.removeJobScheduler id)
  | addJob (id : String) : SameOp (.addJob id) (.addJob id)
  | validate {type : String} {config other : Fields}
      (sealed : SealedFields types type config other) :
      SameOp (.validate type config) (.validate type other)
  | run {type : String} {config other : Fields} (sealed : SealedFields types type config other) :
      SameOp (.run type config) (.run type other)
  | reconcile (sourceName : String) (payload : Discovery.Payload) {type : String}
      {config other : Fields} (sealed : SealedFields types type config other) :
      SameOp (.reconcile sourceName payload config) (.reconcile sourceName payload other)
  | ensureCatalogEntry (row : PluginInstance) {config other : Fields}
      (sealed : SealedFields types row.pluginType config other) :
      SameOp (.ensureCatalogEntry row config) (.ensureCatalogEntry row other)
  | forgetSource (slug : String) (keepPromoted : Bool) :
      SameOp (.forgetSource slug keepPromoted) (.forgetSource slug keepPromoted)

/-- What such operations give: the same, but for the secrets themselves. -/
def MatchResult {β : Type} (operation : Op β) : Except Fault β → Except Fault β → Prop :=
  match operation with
  | .getInstance id => fun result found => result = found ∧
      ∀ row, result = .ok (some row) → row.id = id ∧ Typed kind row
  | .listInstances => fun result found => result = found ∧
      ∀ rows, result = .ok rows → ∀ row ∈ rows, Typed kind row
  | .createInstance row => fun result found => result = found ∧
      ∀ made, result = .ok made → made = row
  | .getSecrets id => fun
      | .ok secrets, .ok others => Option.Rel (SealedFields types (kind id)) secrets others
      | .error fault, .error other => fault = other
      | _, _ => False
  | _ => Eq

/-- The states of two runs: all but the vault records is the same. -/
structure Related (store beside : Store) : Prop where
  instances : store.instances = beside.instances
  schedulers : store.schedulers = beside.schedulers
  jobs : store.jobs = beside.jobs
  typed : ∀ row ∈ store.instances, Typed kind row
  bao : ∀ id, Option.Rel (SealedFields types (kind id)) (store.bao.lookup id)
    (beside.bao.lookup id)

def likeness : Program.Likeness Fault Op where
  same := SameOp types kind
  matching := MatchResult types kind

variable {types kind}

/-- A vault record is written or dropped in both runs. -/
theorem option_rel_insert {bao beside : JsMap Fields} {id : String} {values others : Fields}
    (related : ∀ id, Option.Rel (SealedFields types (kind id)) (bao.lookup id) (beside.lookup id))
    (sealed : SealedFields types (kind id) values others) (key : String) :
    Option.Rel (SealedFields types (kind key)) ((bao.insert id values).lookup key)
      ((beside.insert id others).lookup key) := by
  rw [JsMap.lookup_insert, JsMap.lookup_insert]
  split
  · rename_i same
    subst same
    exact .some sealed
  · exact related key

theorem option_rel_erase {bao beside : JsMap Fields}
    (related : ∀ id, Option.Rel (SealedFields types (kind id)) (bao.lookup id) (beside.lookup id))
    (id key : String) :
    Option.Rel (SealedFields types (kind key)) ((bao.erase id).lookup key)
      ((beside.erase id).lookup key) := by
  by_cases same : key = id
  · subst same
    rw [AList.lookup_erase, AList.lookup_erase]
    exact .none
  · rw [AList.lookup_erase_ne same, AList.lookup_erase_ne same]
    exact related key

theorem map_change {rows : List PluginInstance} (typed : ∀ row ∈ rows, Typed kind row) {id : String}
    {change other : PluginInstance → PluginInstance} (same : SameChange kind id change other) :
    (rows.map fun row => if row.id == id then change row else row) =
      rows.map fun row => if row.id == id then other row else row := by
  refine List.map_congr_left fun row listed => ?_
  split
  · rename_i there
    exact same.agree row (beq_iff_eq.mp there) (typed row listed)
  · rfl

theorem typed_change {rows : List PluginInstance} (typed : ∀ row ∈ rows, Typed kind row)
    {id : String} {change other : PluginInstance → PluginInstance}
    (same : SameChange kind id change other) :
    ∀ row ∈ rows.map fun row => if row.id == id then change row else row, Typed kind row := by
  intro row listed
  obtain ⟨before, there, rfl⟩ := List.mem_map.mp listed
  split
  · unfold Typed
    rw [same.id, same.pluginType]
    exact typed before there
  · exact typed before there

theorem respects_act : host.Respects (Related types kind) (likeness types kind) := by
  intro β operation other outcome shared beside related same
  change Related types kind (operation.act outcome shared).1 (other.act outcome beside).1 ∧
    MatchResult types kind operation (operation.act outcome shared).2 (other.act outcome beside).2
  change SameOp types kind operation other at same
  unfold Op.act
  cases outcome.failure with
  | some fault =>
      refine ⟨related, ?_⟩
      cases same <;> simp [MatchResult]
  | none =>
      obtain ⟨rows, bao, schedulers, jobs⟩ := shared
      obtain ⟨_, baoBeside, _, _⟩ := beside
      obtain ⟨rfl, rfl, rfl, typed, sealedBao⟩ := related
      have unchanged : Related types kind ⟨rows, bao, schedulers, jobs⟩
          ⟨rows, baoBeside, schedulers, jobs⟩ := ⟨rfl, rfl, rfl, typed, sealedBao⟩
      cases same with
      | getInstance id =>
          refine ⟨unchanged, rfl, fun row found => ?_⟩
          have found : rows.find? (fun row => row.id == id) = some row := Except.ok.inj found
          exact ⟨by simpa using List.find?_some found, typed row (List.mem_of_find?_eq_some found)⟩
      | listInstances => exact ⟨unchanged, rfl, fun _ all => Except.ok.inj all ▸ typed⟩
      | @createInstance row rowTyped =>
          change Related types kind (Store.insert _ row).1 (Store.insert _ row).1 ∧
            (Store.insert _ row).2 = (Store.insert _ row).2 ∧
              ∀ made, (Store.insert _ row).2 = .ok made → made = row
          unfold Store.insert
          split
          · exact ⟨unchanged, rfl, fun _ made => by cases made⟩
          · refine ⟨⟨rfl, rfl, rfl, fun other listed => ?_, sealedBao⟩, rfl,
              fun _ made => (Except.ok.inj made).symm⟩
            rcases List.mem_append.mp listed with old | new
            · exact typed other old
            · exact List.mem_singleton.mp new ▸ rowTyped
      | updateInstance same =>
          exact ⟨⟨map_change typed same, rfl, rfl, typed_change typed same, sealedBao⟩, rfl⟩
      | deleteInstance id =>
          exact ⟨⟨rfl, rfl, rfl, fun row listed => typed row (List.mem_filter.mp listed).1,
            sealedBao⟩, rfl⟩
      | getSecrets id => exact ⟨unchanged, sealedBao id⟩
      | setSecrets sealed =>
          exact ⟨⟨rfl, rfl, rfl, typed, option_rel_insert sealedBao sealed⟩, rfl⟩
      | deleteSecrets id =>
          exact ⟨⟨rfl, rfl, rfl, typed, option_rel_erase sealedBao id⟩, rfl⟩
      | _ => exact ⟨⟨rfl, rfl, rfl, typed, sealedBao⟩, rfl⟩

/-! ## Handlers of two runs -/

section Handlers

variable {α β : Type}

/-- Two handlers between which only secrets differ. -/
abbrev Likewise (types : Registry) (kind : String → String) (wanted : α → α → Prop)
    (handler other : Handler α) : Prop :=
  handler.Alike (likeness types kind) wanted other

/-- Two outcomes that fail in the same way or agree. -/
inductive Attempted (wanted : α → α → Prop) : Except Fault α → Except Fault α → Prop
  | ok {result found : α} (agree : wanted result found) : Attempted wanted (.ok result) (.ok found)
  | error (fault : Fault) : Attempted wanted (.error fault) (.error fault)

theorem attempted_of_matchResult {operation : Op β} {result found : Except Fault β}
    (matched : MatchResult types kind operation result found) :
    Attempted (fun result found => MatchResult types kind operation (.ok result) (.ok found))
      result found := by
  cases result with
  | ok result =>
      cases found with
      | ok found => exact .ok matched
      | error fault => cases operation <;> simp [MatchResult] at matched
  | error fault =>
      have same : found = .error fault := by
        cases operation <;> cases found <;> simp_all [MatchResult]
      rw [same]
      exact .error fault

theorem likewise_perform {hoped : β → β → Prop} {operation other : Op β}
    (same : SameOp types kind operation other)
    (gives : ∀ result found, MatchResult types kind operation (.ok result) (.ok found) →
      hoped result found) :
    Likewise types kind hoped (perform operation) (perform other) := by
  refine .await same fun result found matched => ?_
  cases attempted_of_matchResult matched with
  | ok agree => exact .done (gives _ _ agree)
  | error fault => exact .thrown fault

/-- An operation of which both runs get the same. -/
theorem likewise_eq {operation other : Op β} (same : SameOp types kind operation other)
    (plain : MatchResult types kind operation = Eq) :
    Likewise types kind Eq (perform operation) (perform other) :=
  likewise_perform same fun result found matched => by
    rw [plain] at matched
    exact Except.ok.inj matched

theorem likewise_unit {operation other : Op Unit} (same : SameOp types kind operation other) :
    Likewise types kind Eq (perform operation) (perform other) :=
  likewise_perform same fun _ _ _ => rfl

/-- A change that both runs make. -/
theorem likewise_change {id : String} {change : PluginInstance → PluginInstance}
    (keepsId : ∀ row, (change row).id = row.id)
    (keepsType : ∀ row, (change row).pluginType = row.pluginType) :
    Likewise types kind Eq (perform (.updateInstance id change))
      (perform (.updateInstance id change)) :=
  likewise_unit (.updateInstance ⟨fun _ _ _ => rfl, keepsId, keepsType⟩)

theorem likewise_pure {wanted : α → α → Prop} {result found : α} (agree : wanted result found) :
    Likewise types kind wanted (pure result) (pure found) := .done agree

theorem likewise_ambience :
    Likewise types kind Eq (Program.ambience : Handler Ambience) Program.ambience :=
  .ask fun _ => .done rfl

theorem likewise_ambient {wanted : α → α → Prop} {next other : Ambience → Handler α}
    (goOn : ∀ now iso, Likewise types kind wanted (next ⟨now, iso⟩) (other ⟨now, iso⟩)) :
    Likewise types kind wanted (Program.ambience >>= next) (Program.ambience >>= other) :=
  likewise_ambience.andThen fun ambience => goOn ambience.now ambience.iso

theorem likewise_attempt {wanted : α → α → Prop} {handler other : Handler α}
    (alike : Likewise types kind wanted handler other) :
    Likewise types kind (Attempted wanted) (attempt handler) (attempt other) :=
  (alike.bind fun _ _ agree => .done (.ok agree)).tryCatch fun fault => .done (.error fault)

theorem likewise_attempt_eq {handler other : Handler α}
    (alike : Likewise types kind Eq handler other) :
    Likewise types kind Eq (attempt handler) (attempt other) :=
  (alike.bind fun _ _ agree => .done (congrArg Except.ok agree)).tryCatch fun _ => .done rfl

theorem likewise_onlyIf (condition : Bool) {handler other : Handler Unit}
    (alike : Likewise types kind Eq handler other) :
    Likewise types kind Eq (onlyIf condition handler) (onlyIf condition other) := by
  cases condition with
  | true => exact alike
  | false => exact .done rfl

theorem likewise_assertId (id : String) :
    Likewise types kind Eq (assertId id) (assertId id) := by
  unfold assertId
  split
  · exact .done rfl
  · exact .thrown _

theorem likewise_read (id : String) :
    Likewise types kind (SealedFields types (kind id)) (read id) (read id) := by
  refine (likewise_assertId id).andThen fun _ => ?_
  refine Program.Alike.tryCatch ?_ fun fault => ?_
  · refine (likewise_perform (.getSecrets id) fun _ _ sealed => sealed).bind ?_
    intro secrets others sealed
    refine likewise_pure ?_
    cases sealed with
    | none => exact .nil
    | some sealed => exact sealed
  · split
    · exact .thrown _
    · exact .done .nil

theorem likewise_write {id : String} {secrets others : Fields}
    (sealed : SealedFields types (kind id) secrets others) :
    Likewise types kind Eq (write id secrets) (write id others) :=
  (likewise_assertId id).andThen fun _ => likewise_unit (.setSecrets (sealedFields_clean sealed))

theorem likewise_mergeForRun {row : PluginInstance} (typed : Typed kind row) :
    Likewise types kind (SealedFields types row.pluginType) (mergeForRun row)
      (mergeForRun row) := by
  refine (likewise_read row.id).bind fun secrets others sealed => .done ?_
  rw [typed]
  exact sealedFields_assign sealed

theorem likewise_remove (id : String) : Likewise types kind Eq (remove id) (remove id) :=
  (likewise_assertId id).andThen fun _ =>
    (likewise_unit (.deleteSecrets id)).tryCatch fun _ => .done rfl

theorem likewise_unscheduleInstance (id : String) :
    Likewise types kind Eq (unscheduleInstance id) (unscheduleInstance id) := by
  unfold unscheduleInstance
  split
  · exact .done rfl
  · exact (likewise_unit (.removeJobScheduler id)).tryCatch fun _ => .done rfl

theorem likewise_scheduleInstance (row : PluginInstance) :
    Likewise types kind Eq (scheduleInstance row) (scheduleInstance row) := by
  unfold scheduleInstance
  split
  · exact .done rfl
  · split
    · exact likewise_unit (.upsertJobScheduler _ _)
    · exact likewise_unscheduleInstance row.id

theorem likewise_runInstanceNow (id : String) :
    Likewise types kind Eq (runInstanceNow id) (runInstanceNow id) := by
  unfold runInstanceNow
  split
  · exact .done rfl
  · exact likewise_unit (.addJob id)

theorem likewise_serialize {row : PluginInstance} (typed : Typed kind row) :
    Likewise types kind Eq (serialize types row) (serialize types row) := by
  have masked : Likewise types kind (SealedFields types row.pluginType)
      (tryCatch (read row.id) fun _ => pure []) (tryCatch (read row.id) fun _ => pure []) := by
    rw [typed]
    exact (likewise_read row.id).tryCatch fun _ => .done .nil
  refine masked.bind fun secrets others sealed => .done ?_
  rw [mask_eq sealed]

theorem likewise_serializeAll {rows : List PluginInstance} (typed : ∀ row ∈ rows, Typed kind row) :
    Likewise types kind Eq (serializeAll types rows) (serializeAll types rows) := by
  induction rows with
  | nil => exact .done rfl
  | cons row rows ih =>
      refine (likewise_serialize (typed row List.mem_cons_self)).andThen fun first => ?_
      refine (ih fun row listed => typed row (List.mem_cons_of_mem _ listed)).andThen fun rest => ?_
      exact .done rfl

theorem likewise_firstFree (candidates : List String) :
    Likewise types kind Eq (firstFree candidates) (firstFree candidates) := by
  induction candidates with
  | nil => exact .done rfl
  | cons candidate candidates ih =>
      refine (likewise_eq (.getBySlug candidate) rfl).andThen fun taken => ?_
      split
      · exact .done rfl
      · exact ih

theorem likewise_finalSlug (name : String) (slug : Option String) :
    Likewise types kind Eq (finalSlug name slug) (finalSlug name slug) := by
  unfold finalSlug
  split
  · exact .done rfl
  · refine (likewise_firstFree _).andThen fun made => ?_
    exact .done rfl

theorem likewise_withInstance {id : String} {next other : PluginInstance → Handler Response}
    (goOn : ∀ row, row.id = id → Typed kind row →
      Likewise types kind Eq (next row) (other row)) :
    Likewise types kind Eq (withInstance id next) (withInstance id other) := by
  refine (likewise_perform (.getInstance id) fun _ _ same => same).bind ?_
  rintro found result ⟨same, typed⟩
  obtain rfl := Except.ok.inj same
  cases found with
  | none => exact .done rfl
  | some row =>
      obtain ⟨there, typed⟩ := typed row rfl
      exact goOn row there typed

theorem likewise_orUniqueViolation {handler other : Handler Response}
    (alike : Likewise types kind Eq handler other) :
    Likewise types kind Eq (orUniqueViolation handler) (orUniqueViolation other) := by
  refine alike.tryCatch fun fault => ?_
  split
  · exact .done rfl
  · exact .thrown fault

theorem likewise_list : Likewise types kind Eq (handle types .list) (handle types .list) := by
  refine (likewise_perform .listInstances fun _ _ same => same).bind ?_
  rintro rows _ ⟨same, typed⟩
  obtain rfl := Except.ok.inj same
  refine (likewise_serializeAll (typed rows rfl)).andThen fun shown => ?_
  exact .done rfl

/-- The end of the handlers that answer with a row. -/
theorem likewise_results {row : PluginInstance} (typed : Typed kind row) :
    Likewise types kind Eq (do pure (Response.results (← serialize types row)))
      (do pure (Response.results (← serialize types row))) := by
  refine (likewise_serialize typed).andThen fun shown => ?_
  exact .done rfl

theorem likewise_store {row : PluginInstance} (typed : Typed kind row) {secrets others : Fields}
    (sealed : SealedFields types row.pluginType secrets others) :
    Likewise types kind Eq (store types row secrets) (store types row others) := by
  refine (likewise_perform (.createInstance typed) fun _ _ made => made).bind ?_
  rintro created _ ⟨same, made⟩
  obtain rfl := Except.ok.inj same
  obtain rfl := made created rfl
  refine (likewise_attempt (likewise_write (typed ▸ sealed))).bind ?_
  rintro _ _ (_ | fault)
  · refine (likewise_onlyIf created.enabled ?_).andThen fun _ => likewise_results typed
    exact (likewise_scheduleInstance created).andThen fun _ => likewise_runInstanceNow created.id
  · refine (likewise_attempt (likewise_unit (.deleteInstance created.id))).bind fun _ _ _ => ?_
    exact .done rfl

theorem validateFields_eq {type : String} {flat other : Fields}
    (shown : Shown types type flat other) (hidden : Hidden types type flat other) :
    validateFields types type flat = validateFields types type other := by
  have blank : ∀ key ∈ types.requiredKeys type,
      isBlank (flat.lookup key) = isBlank (other.lookup key) := by
    intro key listed
    obtain ⟨field, required, rfl⟩ := List.mem_map.mp listed
    have declared := (List.mem_filter.mp required).1
    cases secret : field.secret with
    | false => rw [shown field declared secret]
    | true =>
        have concealed := hidden field declared secret
        generalize flat.lookup field.key = value at concealed
        generalize other.lookup field.key = found at concealed
        cases concealed with
        | none => rfl
        | some concealed => exact concealed.isBlank
  unfold validateFields
  rw [List.find?_congr blank]

/-- Two bodies that agree but for the values of secret fields of the type. -/
structure AlikeBody (types : Registry) (type : String) (body other : PluginBody) : Prop where
  same : other = { body with config := other.config }
  shown : Shown types type (fieldsOf body.config) (fieldsOf other.config)
  hidden : Hidden types type (fieldsOf body.config) (fieldsOf other.config)

theorem likewise_createTyped {manifest : Manifest} {type id uid : String} {body other : PluginBody}
    (typed : kind id = type) (alike : AlikeBody types type body other) :
    Likewise types kind Eq (createTyped types manifest type id uid body)
      (createTyped types manifest type id uid other) := by
  obtain ⟨same, shown, hidden⟩ := alike
  generalize other.config = config at same shown hidden
  subst same
  unfold createTyped
  dsimp only
  rw [validateFields_eq shown hidden, splitConfig_shown shown]
  split
  · exact .done rfl
  · refine (likewise_finalSlug _ body.slug).andThen fun slug => ?_
    split
    · exact .done rfl
    · split
      · exact .done rfl
      · exact .done rfl
      · refine likewise_ambience.andThen fun ambience => ?_
        refine likewise_store ?_ (splitConfig_hidden hidden)
        exact typed.symm

theorem likewise_create {id uid : String} {body other : PluginBody}
    (typed : ∀ type, body.pluginType = some (.str type) → kind id = type)
    (alike : AlikeBody types (kind id) body other) :
    Likewise types kind Eq (create types id uid body) (create types id uid other) := by
  have sameType : other.pluginType = body.pluginType := by rw [alike.same]
  refine likewise_orUniqueViolation ?_
  rw [sameType]
  split
  · exact .done rfl
  · rename_i type given
    have typed := typed type (Option.eq_some_of_filter_eq_some given)
    subst typed
    split
    · exact likewise_createTyped rfl alike
    · exact .done rfl
  · exact .done rfl

/-- Two bodies of `PUT /:id` that agree but for secret fields of the type. -/
structure AlikeUpdate (types : Registry) (type : String) (body other : PluginBody) : Prop where
  same : other = { body with config := other.config }
  sort : isObject body.config = isObject other.config
  shown : Shown types type (fieldsOf body.config) (fieldsOf other.config)

theorem AlikeUpdate.change_eq {type : String} {body other : PluginBody}
    (alike : AlikeUpdate types type body other) (timeoutMs : Option (Option Int))
    {row : PluginInstance} (typed : row.pluginType = type) :
    body.change types timeoutMs row = other.change types timeoutMs row := by
  obtain ⟨same, sort, shown⟩ := alike
  generalize other.config = config at same sort shown
  subst same typed
  unfold PluginBody.change
  dsimp only
  rw [sort, splitConfig_shown shown]

theorem likewise_update {id uid : String} {body other : PluginBody}
    (alike : AlikeUpdate types (kind id) body other) :
    Likewise types kind Eq (update types id uid body) (update types id uid other) := by
  have cron : other.cron = body.cron := by rw [alike.same]
  have enabled : other.enabled = body.enabled := by rw [alike.same]
  have timeoutMs : other.timeoutMs = body.timeoutMs := by rw [alike.same]
  refine likewise_orUniqueViolation (likewise_withInstance fun row there typed => ?_)
  rw [cron, enabled, timeoutMs]
  split
  · exact .done rfl
  · split
    · exact .done rfl
    · exact .done rfl
    · rename_i timeoutMs _ _
      refine likewise_ambient fun now iso => ?_
      have same : SameChange kind row.id
          (fun row => stamp uid now (body.change types timeoutMs row))
          (fun row => stamp uid now (other.change types timeoutMs row)) := by
        refine ⟨fun row here typed => ?_, fun _ => rfl, fun _ => rfl⟩
        have type : row.pluginType = kind id := by rw [typed, here, there]
        exact congrArg (stamp uid now) (alike.change_eq timeoutMs type)
      have changed := same.agree row rfl typed
      refine (likewise_unit (.updateInstance same)).andThen fun _ => ?_
      dsimp only at changed ⊢
      rw [← changed]
      refine (likewise_onlyIf _ (likewise_scheduleInstance _)).andThen fun _ => ?_
      exact likewise_results typed

theorem likewise_updateSecrets {id uid : String} {body other : Fields}
    (hidden : Hidden types (kind id) body other) :
    Likewise types kind Eq (updateSecrets types id uid body)
      (updateSecrets types id uid other) := by
  refine likewise_withInstance fun row there typed => ?_
  split
  · exact .done rfl
  · have sealed : SealedFields types (kind row.id) (types.splitConfig row.pluginType body).2
        (types.splitConfig row.pluginType other).2 := by
      rw [typed, there]
      exact splitConfig_hidden hidden
    refine (likewise_write sealed).andThen fun _ => ?_
    refine likewise_ambient fun now iso => ?_
    refine (likewise_change ?_ ?_).andThen fun _ => .done rfl
    · exact fun _ => rfl
    · exact fun _ => rfl

theorem likewise_test (id : String) : Likewise types kind Eq (test types id) (test types id) := by
  refine Program.Alike.tryCatch (likewise_withInstance fun row _ typed => ?_) fun _ => .done rfl
  split
  · exact .done rfl
  · split
    · refine (likewise_mergeForRun typed).bind fun config other sealed => ?_
      refine (likewise_eq (.validate sealed) rfl).andThen fun result => ?_
      split
      · exact .done rfl
      · split
        · exact .done rfl
        · exact .done rfl
    · exact .done rfl

theorem likewise_load (id uid : String) :
    Likewise types kind Eq (load types id uid) (load types id uid) := by
  refine likewise_withInstance fun row _ typed => ?_
  refine likewise_ambient fun now iso => ?_
  refine (likewise_change ?_ ?_).andThen fun _ => ?_
  · exact fun _ => rfl
  · exact fun _ => rfl
  refine (likewise_scheduleInstance _).andThen fun _ => ?_
  refine (likewise_runInstanceNow row.id).andThen fun _ => ?_
  exact likewise_results typed

theorem likewise_unload (id uid : String) :
    Likewise types kind Eq (unload types id uid) (unload types id uid) := by
  refine likewise_withInstance fun row _ typed => ?_
  refine (likewise_unscheduleInstance row.id).andThen fun _ => ?_
  refine likewise_ambient fun now iso => ?_
  refine (likewise_change ?_ ?_).andThen fun _ => ?_
  · exact fun _ => rfl
  · exact fun _ => rfl
  exact likewise_results typed

theorem likewise_delete (id : String) (keepPromoted : Bool) :
    Likewise types kind Eq (delete id keepPromoted) (delete id keepPromoted) := by
  refine likewise_withInstance fun row _ _ => ?_
  refine (likewise_unscheduleInstance row.id).andThen fun _ => ?_
  refine (likewise_remove row.id).andThen fun _ => ?_
  have forgotten : Likewise types kind Eq (perform (.forgetSource row.slug keepPromoted))
      (perform (.forgetSource row.slug keepPromoted)) :=
    likewise_eq (.forgetSource row.slug keepPromoted) rfl
  refine (forgotten.tryCatch fun _ => .done rfl).andThen fun cleanup => ?_
  exact (likewise_unit (.deleteInstance row.id)).andThen fun _ => .done rfl

/-! ### Jobs -/

theorem likewise_settleRun {row : PluginInstance} {config other : Fields}
    (sealed : SealedFields types row.pluginType config other) (iso : String) (ending : Ending)
    (logs : List String) :
    Likewise types kind Eq (settleRun row config iso ending logs)
      (settleRun row other iso ending logs) := by
  cases ending with
  | failed message => exact .done rfl
  | timedOut => exact .done rfl
  | returned payload =>
      simp only [settleRun]
      split
      · cases payload with
        | error why => exact .done rfl
        | ok payload =>
            have written : Likewise types kind Eq
                (do perform (.reconcile row.slug
                      (Discovery.validateDiscoveryPayload payload).payload config)
                    tryCatch (perform (.ensureCatalogEntry row config)) fun _ => pure ())
                (do perform (.reconcile row.slug
                      (Discovery.validateDiscoveryPayload payload).payload other)
                    tryCatch (perform (.ensureCatalogEntry row other)) fun _ => pure ()) :=
              (likewise_unit (.reconcile _ _ sealed)).andThen fun _ =>
                (likewise_unit (.ensureCatalogEntry row sealed)).tryCatch fun _ => .done rfl
            refine (likewise_attempt_eq written).andThen fun reconciled => ?_
            exact .done rfl
      · exact .done rfl

theorem likewise_runPlugin {row : PluginInstance} (typed : Typed kind row) :
    Likewise types kind Eq (runPlugin row) (runPlugin row) := by
  refine (likewise_attempt (likewise_mergeForRun typed)).bind ?_
  rintro _ _ (sealed | fault)
  · refine (likewise_attempt_eq (likewise_eq (.run sealed) rfl)).andThen fun finished => ?_
    cases finished with
    | error fault => exact .done rfl
    | ok finished =>
        refine likewise_ambient fun now iso => ?_
        exact likewise_settleRun sealed iso finished.ending _
  · exact .done rfl

theorem likewise_failRun (id : String) (logs : List String) (message : String) :
    Likewise types kind Eq (failRun id logs message) (failRun id logs message) :=
  likewise_change (fun _ => rfl) fun _ => rfl

theorem likewise_stampRun (id : String) (logs : List String) (ended : Except Fault Unit) :
    Likewise types kind Eq (stampRun id logs ended) (stampRun id logs ended) := by
  cases ended with
  | error fault => exact likewise_failRun id logs fault.text
  | ok _ =>
      refine Program.Alike.tryCatch ?_ fun fault => likewise_failRun id logs fault.text
      exact likewise_change (fun _ => rfl) fun _ => rfl

theorem likewise_startRun (id : String) : Likewise types kind Eq (startRun id) (startRun id) := by
  refine likewise_ambient fun now iso => ?_
  exact likewise_change (fun _ => rfl) fun _ => rfl

theorem likewise_cannotRun (id error : String) :
    Likewise types kind Eq (cannotRun id error) (cannotRun id error) := by
  refine likewise_ambient fun now iso => ?_
  exact likewise_change (fun _ => rfl) fun _ => rfl

theorem likewise_runPluginJob (id : String) :
    Likewise types kind Eq (runPluginJob types id) (runPluginJob types id) := by
  unfold runPluginJob
  split
  · exact .done rfl
  · refine (likewise_perform (.getInstance id) fun _ _ same => same).bind ?_
    rintro found _ ⟨same, typed⟩
    obtain rfl := Except.ok.inj same
    split
    · exact .done rfl
    · rename_i row given
      have typed := (typed row (congrArg Except.ok (Option.eq_some_of_filter_eq_some given))).2
      split
      · exact likewise_cannotRun row.id _
      · split
        · refine (likewise_startRun row.id).andThen fun _ => ?_
          refine (likewise_runPlugin typed).andThen fun (logs, ended) => ?_
          exact likewise_stampRun row.id logs ended
        · exact likewise_cannotRun row.id _

end Handlers

/-! ## Runs -/

/-- Two requests between which only secrets differ; `kind` is the type of the instance with an
id. -/
inductive AlikeRequest (types : Registry) (kind : String → String) : Request → Request → Prop
  | list : AlikeRequest types kind .list .list
  | get (id : String) : AlikeRequest types kind (.get id) (.get id)
  | create {id : String} (uid : String) {body other : PluginBody}
      (typed : ∀ type, body.pluginType = some (.str type) → kind id = type)
      (alike : AlikeBody types (kind id) body other) :
      AlikeRequest types kind (.create id uid body) (.create id uid other)
  | update {id : String} (uid : String) {body other : PluginBody}
      (alike : AlikeUpdate types (kind id) body other) :
      AlikeRequest types kind (.update id uid body) (.update id uid other)
  | secrets {id : String} (uid : String) {body other : Fields}
      (hidden : Hidden types (kind id) body other) :
      AlikeRequest types kind (.secrets id uid body) (.secrets id uid other)
  | test (id : String) : AlikeRequest types kind (.test id) (.test id)
  | load (id uid : String) : AlikeRequest types kind (.load id uid) (.load id uid)
  | unload (id uid : String) : AlikeRequest types kind (.unload id uid) (.unload id uid)
  | run (id : String) : AlikeRequest types kind (.run id) (.run id)
  | runs (id : String) : AlikeRequest types kind (.runs id) (.runs id)
  | delete (id : String) (keepPromoted : Bool) :
      AlikeRequest types kind (.delete id keepPromoted) (.delete id keepPromoted)
  | job (id : String) : AlikeRequest types kind (.job id) (.job id)

theorem likewise_handle {request other : Request} (alike : AlikeRequest types kind request other) :
    Likewise types kind Eq (handle types request) (handle types other) := by
  cases alike with
  | list => exact likewise_list
  | get id => exact likewise_withInstance fun _ _ typed => likewise_results typed
  | create uid typed alike => exact likewise_create typed alike
  | update uid alike => exact likewise_update alike
  | secrets uid hidden => exact likewise_updateSecrets hidden
  | test id => exact likewise_test id
  | load id uid => exact likewise_load id uid
  | unload id uid => exact likewise_unload id uid
  | run id =>
      exact likewise_withInstance fun row _ _ =>
        (likewise_runInstanceNow row.id).andThen fun _ => .done rfl
  | runs id => exact likewise_withInstance fun _ _ _ => .done rfl
  | delete id keepPromoted => exact likewise_delete id keepPromoted
  | job id => exact (likewise_runPluginJob id).andThen fun _ => .done rfl

/-- Alike requests, and the same turns with the same outcomes. -/
inductive AlikeEvent (types : Registry) (kind : String → String) :
    Event (Request × Ambience) Outcome → Event (Request × Ambience) Outcome → Prop
  | call {request other : Request} (ambience : Ambience)
      (alike : AlikeRequest types kind request other) :
      AlikeEvent types kind (.call (request, ambience)) (.call (other, ambience))
  | turn (index : Nat) (outcome : Outcome) :
      AlikeEvent types kind (.turn index outcome) (.turn index outcome)

/-- All that can be seen without access to the vault. -/
structure View where
  instances : List PluginInstance
  schedulers : JsMap String
  jobs : List String
  answers : List (Option (Except Fault Response))

def view (system : System) : View where
  instances := system.shared.instances
  schedulers := system.shared.schedulers
  jobs := system.shared.jobs
  answers := system.calls.map Program.answer?

theorem answers_eq {programs others : List (Handler Response)}
    (alike : List.Forall₂ (Likewise types kind Eq) programs others) :
    programs.map Program.answer? = others.map Program.answer? := by
  induction alike with
  | nil => rfl
  | cons first _ ih => rw [List.map_cons, List.map_cons, first.answer?, ih]

/-- Two runs between whose requests only the values of secret fields differ look the same: the
rows, the schedule, the queue and all answers.  What plugins report is the same by assumption. -/
theorem secrets_unseen_run (types : Registry) (kind : String → String)
    {events others : List (Event (Request × Ambience) Outcome)}
    (alike : List.Forall₂ (AlikeEvent types kind) events others) :
    view (Runs.run (apply types) events start) = view (Runs.run (apply types) others start) := by
  have same : List.Forall₂ (Program.SameEvent (handle types) (likeness types kind) Eq)
      events others := by
    refine alike.imp fun event other same => ?_
    cases same with
    | call ambience alike => exact .call ambience (likewise_handle alike)
    | turn index outcome => exact .turn index outcome
  have initial : Related types kind start.shared start.shared :=
    ⟨rfl, rfl, rfl, fun row listed => absurd listed List.not_mem_nil, fun _ => .none⟩
  obtain ⟨related, calls⟩ := Program.alike_run respects_act initial .nil same
  unfold view apply
  rw [related.instances, related.schedulers, related.jobs, answers_eq calls]

private def proxmox : Manifest :=
  ⟨"proxmox", "discovery", [⟨"host", true, false⟩, ⟨"password", true, true⟩], true, true⟩

private def installed : Registry := fun type => if type = "proxmox" then some proxmox else none

private def lab (password : String) : PluginBody :=
  ⟨some (.str "proxmox"), some "lab", none, none, none, none,
    some (.obj [("host", .str "pve"), ("password", .str password)])⟩

private def session (password : String) : List (Event (Request × Ambience) Outcome) :=
  .call (.create "0f9c8c1e-5a3b-4f6e-9d21-7c4b8a1e2f30" "ada" (lab password), ⟨0, ""⟩) ::
    List.replicate 8 (.turn 0 ⟨⟨0, ""⟩, none, .null, ⟨[], .timedOut⟩, noCleanup⟩)

theorem secrets_unseen_run_proxmox :
    view (Runs.run (apply installed) (session "tiger") start) =
      view (Runs.run (apply installed) (session "scott") start) := by
  have typed : ∀ type, (lab "tiger").pluginType = some (.str type) → "proxmox" = type := by
    intro type given
    simpa [lab] using given
  have declared : ∀ field ∈ installed.configSchema "proxmox",
      field = ⟨"host", true, false⟩ ∨ field = ⟨"password", true, true⟩ := by
    simp [Registry.configSchema, installed, proxmox]
  have alike : AlikeBody installed "proxmox" (lab "tiger") (lab "scott") := by
    refine ⟨rfl, fun field listed plain => ?_, fun field listed secret => ?_⟩
    · rcases declared field listed with rfl | rfl
      · rfl
      · cases plain
    · rcases declared field listed with rfl | rfl
      · cases secret
      · exact .some (.inr ⟨⟨rfl, by decide⟩, rfl, by decide⟩)
  exact secrets_unseen_run installed (fun _ => "proxmox")
    (.cons (.call _ (.create "ada" typed alike))
      (List.forall₂_same.mpr fun event listed => List.eq_of_mem_replicate listed ▸ .turn 0 _))

end ThetaDirectory.Plugins
