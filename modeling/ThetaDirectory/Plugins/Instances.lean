import ThetaDirectory.Catalog.Json
import ThetaDirectory.Discovery.Validation
import ThetaDirectory.Library.Programs
import ThetaDirectory.Number

/-!
# Plugin instances

The plugin API of `routes/api_plugins.js` and the plugin jobs of `services/scheduler.js` over the
rows of `models/plugin_instance.js`, with the type registry of `services/plugin_registry.js` and
the secrets of `utils/plugin_secrets.js`.  What a plugin itself and the reconciler do is up to
the run.  Requests are those that the gate of the router has let in.
-/

namespace ThetaDirectory.Plugins

open Library Library.Interleaving Catalog

abbrev Fields : Type := List (String × Json)

def MASK : String := "********"

/-! ## Types of plugins -/

/-- An entry of a `configSchema`. -/
structure Field where
  key : String
  required : Bool
  secret : Bool
  deriving DecidableEq

structure Manifest where
  type : String
  category : String
  configSchema : List Field
  /-- The module has a `validate` function. -/
  validate : Bool
  /-- The module has a `run` or `discover` function. -/
  run : Bool

/-- The installed types, as `getManifest` looks them up. -/
abbrev Registry : Type := String → Option Manifest

def Registry.configSchema (types : Registry) (type : String) : List Field :=
  ((types type).map (·.configSchema)).getD []

def Registry.secretKeys (types : Registry) (type : String) : List String :=
  ((types.configSchema type).filter (·.secret)).map (·.key)

def Registry.publicKeys (types : Registry) (type : String) : List String :=
  ((types.configSchema type).filter (!·.secret)).map (·.key)

def Registry.requiredKeys (types : Registry) (type : String) : List String :=
  ((types.configSchema type).filter (·.required)).map (·.key)

def Registry.mask (types : Registry) (type : String) (values : Fields) : Fields :=
  values.map fun (key, value) =>
    (key, if (types.secretKeys type).contains key && value.isTruthy then .str MASK else value)

/-- One field of a body goes to the row or to the vault. -/
def splitField (flat : Fields) (parts : Fields × Fields) (field : Field) : Fields × Fields :=
  match flat.lookup field.key with
  | none => parts
  | some value =>
      if field.secret then (parts.1, Json.setField parts.2 field.key value)
      else (Json.setField parts.1 field.key value, parts.2)

/-- The non-secret and the secret values of the declared fields. -/
def Registry.splitConfig (types : Registry) (type : String) (flat : Fields) : Fields × Fields :=
  (types.configSchema type).foldl (splitField flat) ([], [])

/-! ## Rows and operations -/

structure PluginInstance where
  id : String
  pluginType : String
  category : String
  name : String
  slug : String
  timeoutMs : Option Int
  enabled : Bool
  cron : String
  config : Fields
  lastRunAt : Option Nat
  lastStatus : Option String
  lastError : Option String
  lastLog : Option String
  created_by : String
  created_on : Nat
  updated_by : String
  updated_on : Nat

structure Store where
  instances : List PluginInstance
  /-- The records `plugins/<id>/conf` of OpenBao. -/
  bao : JsMap Fields
  /-- The cron of each job scheduler `plugin:<id>`. -/
  schedulers : JsMap String
  /-- The queued jobs. -/
  jobs : List String

structure Fault where
  name : String
  message : String
  deriving DecidableEq

/-- `String(err.message || err)` -/
def Fault.text (fault : Fault) : String :=
  if fault.message = "" then fault.name else fault.message

/-- How a run of a plugin ends; a payload of the wrong type comes with what is wrong. -/
inductive Ending where
  | returned (payload : Except String Discovery.Payload)
  | failed (message : String)
  | timedOut

structure Finished where
  logs : List String
  ending : Ending

structure Cleanup where
  removed : Nat
  kept : Nat
  edgesRemoved : Nat

/-- What a turn has at hand: the time, and the same as an ISO text. -/
structure Ambience where
  now : Nat
  iso : String

inductive Op : Type → Type
  | getInstance (id : String) : Op (Option PluginInstance)
  | listInstances : Op (List PluginInstance)
  | getBySlug (slug : String) : Op (Option PluginInstance)
  | createInstance (row : PluginInstance) : Op PluginInstance
  | updateInstance (id : String) (change : PluginInstance → PluginInstance) : Op Unit
  | deleteInstance (id : String) : Op Unit
  | getSecrets (id : String) : Op (Option Fields)
  | setSecrets (id : String) (values : Fields) : Op Unit
  | deleteSecrets (id : String) : Op Unit
  | upsertJobScheduler (id cron : String) : Op Unit
  | removeJobScheduler (id : String) : Op Unit
  | addJob (id : String) : Op Unit
  | validate (pluginType : String) (config : Fields) : Op Json
  | run (pluginType : String) (config : Fields) : Op Finished
  | reconcile (sourceName : String) (payload : Discovery.Payload) (config : Fields) : Op Unit
  | ensureCatalogEntry (instance_ : PluginInstance) (config : Fields) : Op Unit
  | forgetSource (slug : String) (keepPromoted : Bool) : Op Cleanup

/-- What the environment supplies to a turn: an operation that fails does nothing. -/
structure Outcome where
  ambience : Ambience
  failure : Option Fault
  report : Json
  finished : Finished
  cleanup : Cleanup

def uniqueViolation : Fault := ⟨"SequelizeUniqueConstraintError", "Validation error"⟩

def Store.insert (store : Store) (row : PluginInstance) : Store × Except Fault PluginInstance :=
  if store.instances.any fun other => other.id == row.id || other.slug == row.slug then
    (store, .error uniqueViolation)
  else ({ store with instances := store.instances ++ [row] }, .ok row)

def Op.act {β : Type} (operation : Op β) (outcome : Outcome) (store : Store) :
    Store × Except Fault β :=
  match outcome.failure with
  | some fault => (store, .error fault)
  | none =>
      match operation with
      | getInstance id => (store, .ok (store.instances.find? fun row => row.id == id))
      | listInstances => (store, .ok store.instances)
      | getBySlug slug => (store, .ok (store.instances.find? fun row => row.slug == slug))
      | createInstance row => store.insert row
      | updateInstance id change =>
          let instances := store.instances.map fun row => if row.id == id then change row else row
          ({ store with instances }, .ok ())
      | deleteInstance id =>
          ({ store with instances := store.instances.filter fun row => row.id != id }, .ok ())
      | getSecrets id => (store, .ok (store.bao.lookup id))
      | setSecrets id values => ({ store with bao := store.bao.insert id values }, .ok ())
      | deleteSecrets id => ({ store with bao := store.bao.erase id }, .ok ())
      | upsertJobScheduler id cron =>
          ({ store with schedulers := store.schedulers.insert id cron }, .ok ())
      | removeJobScheduler id => ({ store with schedulers := store.schedulers.erase id }, .ok ())
      | addJob id => ({ store with jobs := store.jobs ++ [id] }, .ok ())
      | validate _ _ => (store, .ok outcome.report)
      | run _ _ => (store, .ok outcome.finished)
      | reconcile _ _ _ => (store, .ok ())
      | ensureCatalogEntry _ _ => (store, .ok ())
      | forgetSource _ _ => (store, .ok outcome.cleanup)

def host : Program.Host Ambience Fault Op Store Outcome where
  ambience := Outcome.ambience
  act := Op.act

abbrev Handler : Type → Type 1 := Program Ambience Fault Op

def perform {β : Type} (operation : Op β) : Handler β := Program.perform operation

def attempt {α : Type} (handler : Handler α) : Handler (Except Fault α) :=
  tryCatch (do pure (.ok (← handler))) fun fault => pure (.error fault)

def onlyIf (condition : Bool) (handler : Handler Unit) : Handler Unit :=
  if condition then handler else pure ()

/-! ## Secrets -/

/-- The test `/^[0-9a-f]{8}-[0-9a-f]{4}-[0-9a-f]{4}-[0-9a-f]{4}-[0-9a-f]{12}$/i`. -/
def isUuid (id : String) : Bool :=
  (splitAt '-' id).map String.length == [8, 4, 4, 4, 12] &&
    (splitAt '-' id).all fun part => part.toList.all fun char => (digitOf char).isSome

def assertId (id : String) : Handler Unit :=
  if isUuid id then pure ()
  else throw ⟨"Error", "invalid plugin instance id for secret path"⟩

/-- The test `/403|permission/i` of an error's message. -/
def isDenied (message : String) : Bool :=
  let text := (toLowerCase message).toList
  "403".toList <:+: text || "permission".toList <:+: text

def read (id : String) : Handler Fields := do
  assertId id
  tryCatch (do pure ((← perform (.getSecrets id)).getD []))
    fun fault => if isDenied fault.message then throw fault else pure []

/-- No blank value is stored, and no placeholder. -/
def isKept : Json → Bool
  | .null => false
  | .str text => text != "" && text != MASK
  | _ => true

def clean (secrets : Fields) : Fields := secrets.filter fun field => isKept field.2

def write (id : String) (secrets : Fields) : Handler Unit := do
  assertId id
  perform (.setSecrets id (clean secrets))

/-- The spread `{ ...config, ...secrets }`. -/
def assign (config secrets : Fields) : Fields :=
  secrets.foldl (fun fields field => Json.setField fields field.1 field.2) config

def mergeForRun (row : PluginInstance) : Handler Fields := do
  pure (assign row.config (← read row.id))

def remove (id : String) : Handler Unit := do
  assertId id
  tryCatch (perform (.deleteSecrets id)) fun _ => pure ()

/-! ## The schedule -/

def unscheduleInstance (id : String) : Handler Unit :=
  if id = "" then pure () else tryCatch (perform (.removeJobScheduler id)) fun _ => pure ()

def scheduleInstance (row : PluginInstance) : Handler Unit :=
  if row.id = "" then pure ()
  else if row.enabled then
    perform (.upsertJobScheduler row.id ((truthy (some row.cron)).getD "0 * * * *"))
  else unscheduleInstance row.id

def runInstanceNow (id : String) : Handler Unit :=
  if id = "" then pure () else perform (.addJob id)

/-! ## Slugs -/

/-- The test `/^[a-z0-9][a-z0-9_-]{0,63}$/`. -/
def isSlug (slug : String) : Bool :=
  match slug.toList with
  | [] => false
  | first :: rest => isSlugChar first && rest.length ≤ 63 &&
      rest.all fun char => isSlugChar char || char == '_' || char == '-'

def slice64 (text : String) : String := String.ofList (text.toList.take 64)

def slugify (name : String) : String :=
  let text := String.ofList (trimDashes (fillRuns '-' false (trim (toLowerCase name)).toList))
  let text := if text = "" then "plugin" else text
  slice64 (if (text.toList.head?.map isSlugChar).getD false then text else "plugin-" ++ text)

/-- The first slug that no row has. -/
def firstFree : List String → Handler (Option String)
  | [] => pure none
  | candidate :: candidates => do
      let taken ← perform (.getBySlug candidate)
      if taken.isNone then pure (some candidate) else firstFree candidates

def makeSlug (name : String) : Handler (Option String) :=
  let base := slugify name
  firstFree (base :: (List.range' 2 15).map fun suffix => slice64 (base ++ "-" ++ toString suffix))

/-! ## Requests -/

/-- The body of a request to create or to change an instance; `id` is what the ORM generates. -/
structure PluginBody where
  pluginType : Option Json
  name : Option String
  slug : Option String
  cron : Option Json
  enabled : Option Json
  timeoutMs : Option Json
  config : Option Json

structure Serialized extends PluginInstance where
  secrets : Fields

inductive Response where
  | results (row : Serialized)
  | listed (rows : List Serialized)
  | done
  | report (status : Nat) (body : Json)
  | runs (lastRunAt : Option Nat) (lastStatus lastError lastLog : Option String)
  | deleted (cleanup : Cleanup)
  | refused (status : Nat) (error : String)

def notFound : Response := .refused 404 "Not found"

def notInstalled (pluginType : String) : Response :=
  .refused 400 ("Plugin type " ++ pluginType ++ " is no longer installed")

/-- A row with its secrets masked. -/
def serialize (types : Registry) (row : PluginInstance) : Handler Serialized := do
  let secrets ← tryCatch (read row.id) fun _ => pure []
  pure { row with secrets := types.mask row.pluginType secrets }

def serializeAll (types : Registry) : List PluginInstance → Handler (List Serialized)
  | [] => pure []
  | row :: rows => do
      let first ← serialize types row
      let rest ← serializeAll types rows
      pure (first :: rest)

def isBlank : Option Json → Bool
  | none => true
  | some .null => true
  | some (.str text) => text == ""
  | some _ => false

def validateFields (types : Registry) (type : String) (flat : Fields) : Option String :=
  ((types.requiredKeys type).find? fun key => isBlank (flat.lookup key)).map fun key =>
    "Missing required field: " ++ key

/-- Why a cron is refused. -/
def cronFault : Option Json → Option String
  | none => none
  | some (.str text) => if trim text = "" then some "cron must be a non-empty string" else none
  | some _ => some "cron must be a non-empty string"

def cronText (cron : Option Json) : Option String := cron.bind Json.str?

/-- `Number(value)`, if that is finite. -/
def numberOf : Json → Option ℚ
  | .null => some 0
  | .bool value => some (if value then 1 else 0)
  | .num value => some value
  | .str text => finiteNumber text
  | .arr items => finiteNumber (Json.text (.arr items))
  | .obj _ => none

/-- The time limit a body asks for. -/
def timeoutOf : Option Json → Except String (Option (Option Int))
  | none => .ok none
  | some .null => .ok (some none)
  | some (.str "") => .ok (some none)
  | some value =>
      match numberOf value with
      | some ms =>
          if ms < 1000 ∨ 3600000 < ms then
            .error "timeoutMs must be between 1000 and 3600000 (1s to 1h)"
          else .ok (some (some ⌊ms + 1 / 2⌋))
      | none => .error "timeoutMs must be between 1000 and 3600000 (1s to 1h)"

/-- The properties of a value that is an object. -/
def fieldsOf : Option Json → Fields
  | some (.obj fields) => fields
  | _ => []

def isObject : Option Json → Bool
  | some .null | some (.arr _) | some (.obj _) => true
  | _ => false

def orUniqueViolation (handler : Handler Response) : Handler Response :=
  tryCatch handler fun fault =>
    if fault.name = "SequelizeUniqueConstraintError" then
      pure (.refused 400 "A plugin instance with this slug already exists.")
    else throw fault

def finalSlug (name : String) (slug : Option String) : Handler (Except String String) :=
  match truthy slug with
  | some slug =>
      pure (if isSlug slug then .ok slug
        else .error "slug must be lowercase letters/digits/_/- (max 64)")
  | none => do
      let made ← makeSlug name
      pure (match truthy made with
        | some slug => .ok slug
        | none => .error
            "Could not generate a unique slug from the name; supply one explicitly.")

/-- The end of `POST /`, with a body that has passed its checks. -/
def store (types : Registry) (row : PluginInstance) (secrets : Fields) : Handler Response := do
  let created ← perform (.createInstance row)
  let written ← attempt (write created.id secrets)
  match written with
  | .error fault =>
      let _ ← attempt (perform (.deleteInstance created.id))
      pure (.refused 400 ("Failed to store plugin secrets in OpenBao: " ++ fault.message ++
        ". Re-run ./setup.sh with theta-suite >= v1.30.1."))
  | .ok () =>
      onlyIf created.enabled do
        scheduleInstance created
        runInstanceNow created.id
      pure (.results (← serialize types created))

def isFalse : Option Json → Bool
  | some (.bool false) => true
  | _ => false

/-- The row that `POST /` stores. -/
def newInstance (manifest : Manifest) (type id uid name slug : String) (body : PluginBody)
    (config : Fields) (now : Nat) : PluginInstance where
  id := id
  pluginType := type
  category := manifest.category
  name := name
  slug := slug
  timeoutMs := none
  enabled := !isFalse body.enabled
  cron := (truthy (cronText body.cron)).getD "0 * * * *"
  config := config
  lastRunAt := none
  lastStatus := none
  lastError := none
  lastLog := none
  created_by := uid
  created_on := now
  updated_by := uid
  updated_on := now

/-- `POST /` for an installed type. -/
def createTyped (types : Registry) (manifest : Manifest) (type id uid : String)
    (body : PluginBody) : Handler Response :=
  match truthy body.name with
  | none => pure (.refused 400 "name is required")
  | some name => do
    match ← finalSlug name body.slug with
    | .error error => pure (.refused 400 error)
    | .ok slug =>
      match cronFault body.cron, validateFields types type (fieldsOf body.config) with
      | some error, _ => pure (.refused 400 error)
      | none, some error => pure (.refused 400 error)
      | none, none => do
        let parts := types.splitConfig type (fieldsOf body.config)
        let { now, .. } ← Program.ambience
        store types (newInstance manifest type id uid name slug body parts.1 now) parts.2

def unknownType (pluginType : Json) : Response :=
  .refused 400 ("Unknown plugin type: " ++ pluginType.text)

def create (types : Registry) (id uid : String) (body : PluginBody) : Handler Response :=
  orUniqueViolation <|
    match body.pluginType.filter Json.isTruthy with
    | none => pure (.refused 400 "pluginType is required")
    | some (.str type) =>
      match types type with
      | some manifest => createTyped types manifest type id uid body
      | none => pure (unknownType (.str type))
    | some pluginType => pure (unknownType pluginType)

/-- Do something with the row of an id, if there is one. -/
def withInstance (id : String) (next : PluginInstance → Handler Response) : Handler Response := do
  match ← perform (.getInstance id) with
  | none => pure notFound
  | some row => next row

/-- Stamp a change of a row. -/
def stamp (uid : String) (now : Nat) (row : PluginInstance) : PluginInstance :=
  { row with updated_by := uid, updated_on := now }

/-- What a body changes in a row. -/
def PluginBody.change (types : Registry) (body : PluginBody) (timeoutMs : Option (Option Int))
    (row : PluginInstance) : PluginInstance :=
  { row with
    name := body.name.getD row.name
    cron := (cronText body.cron).getD row.cron
    enabled := (body.enabled.map Json.isTruthy).getD row.enabled
    timeoutMs := timeoutMs.getD row.timeoutMs
    config := if isObject body.config then
        (types.splitConfig row.pluginType (fieldsOf body.config)).1
      else row.config }

def update (types : Registry) (id uid : String) (body : PluginBody) : Handler Response :=
  orUniqueViolation <| withInstance id fun row =>
    match types row.pluginType with
    | none => pure (notInstalled row.pluginType)
    | some _ =>
      match cronFault body.cron, timeoutOf body.timeoutMs with
      | some error, _ => pure (.refused 400 error)
      | none, .error error => pure (.refused 400 error)
      | none, .ok timeoutMs => do
        let { now, .. } ← Program.ambience
        let change := fun row => stamp uid now (body.change types timeoutMs row)
        perform (.updateInstance row.id change)
        onlyIf (body.cron.isSome || body.enabled.isSome) (scheduleInstance (change row))
        pure (.results (← serialize types (change row)))

def updateSecrets (types : Registry) (id uid : String) (body : Fields) : Handler Response :=
  withInstance id fun row =>
    match types row.pluginType with
    | none => pure (notInstalled row.pluginType)
    | some _ => do
      write row.id (types.splitConfig row.pluginType body).2
      let { now, .. } ← Program.ambience
      perform (.updateInstance row.id (stamp uid now))
      pure .done

def failedReport (error : String) : Response :=
  .report 400 (.obj [("ok", .bool false), ("error", .str error)])

def test (types : Registry) (id : String) : Handler Response :=
  tryCatch
    (withInstance id fun row =>
      match types row.pluginType with
      | none => pure (failedReport ("Unknown plugin type: " ++ row.pluginType))
      | some manifest =>
        if manifest.validate then do
          let config ← mergeForRun row
          let result ← perform (.validate row.pluginType config)
          if (result.get "ok").isTruthy then pure (.report 200 result)
          else if result.isTruthy then pure (.report 400 result)
          else pure (failedReport "validation failed")
        else pure (.report 200
          (.obj [("ok", .bool true), ("note", .str "no validate defined")])))
    fun fault => pure (failedReport fault.message)

def load (types : Registry) (id uid : String) : Handler Response :=
  withInstance id fun row => do
    let { now, .. } ← Program.ambience
    let change := fun row => stamp uid now { row with enabled := true }
    perform (.updateInstance row.id change)
    scheduleInstance (change row)
    runInstanceNow row.id
    pure (.results (← serialize types (change row)))

def unload (types : Registry) (id uid : String) : Handler Response :=
  withInstance id fun row => do
    unscheduleInstance row.id
    let { now, .. } ← Program.ambience
    let change := fun row => stamp uid now { row with enabled := false }
    perform (.updateInstance row.id change)
    pure (.results (← serialize types (change row)))

def noCleanup : Cleanup := ⟨0, 0, 0⟩

def delete (id : String) (keepPromoted : Bool) : Handler Response :=
  withInstance id fun row => do
    unscheduleInstance row.id
    remove row.id
    let cleanup ← tryCatch (perform (.forgetSource row.slug keepPromoted))
      fun _ => pure noCleanup
    perform (.deleteInstance row.id)
    pure (.deleted cleanup)

/-! ## Jobs -/

/-- `Math.min` of the instance's limit, or five minutes, and an hour. -/
def timeoutMsOf (row : PluginInstance) : Int :=
  min (match row.timeoutMs with
    | some ms => if 0 < ms then ms else 300000
    | none => 300000) 3600000

def lastLines (logs : List String) : List String := logs.drop (logs.length - 1000)

/-- What comes of a run and is written to the resource graph. -/
def settleRun (row : PluginInstance) (config : Fields) (iso : String) :
    Ending → List String → Handler (List String × Except Fault Unit)
  | .failed message, logs => pure (logs, .error ⟨"Error", message⟩)
  | .timedOut, logs => pure (logs, .error ⟨"Error", "plugin " ++ row.slug ++ " timed out after " ++
      toString ((timeoutMsOf row + 500) / 1000) ++ "s"⟩)
  | .returned payload, logs =>
      if row.category = "discovery" then
        match payload with
        | .error why =>
            pure (logs, .error ⟨"Error", "plugin returned an unusable payload: " ++ why⟩)
        | .ok payload => do
            let check := Discovery.validateDiscoveryPayload payload
            let logs := lastLines (logs ++ check.dropped.map fun problem =>
              "[" ++ iso ++ "] dropped " ++ problem)
            let reconciled ← attempt do
              perform (.reconcile row.slug check.payload config)
              tryCatch (perform (.ensureCatalogEntry row config)) fun _ => pure ()
            pure (logs, reconciled)
      else pure (logs, .ok ())

/-- The `try` block of a job, with the lines it has logged. -/
def runPlugin (row : PluginInstance) : Handler (List String × Except Fault Unit) := do
  match ← attempt (mergeForRun row) with
  | .error fault => pure ([], .error fault)
  | .ok config =>
    match ← attempt (perform (.run row.pluginType config)) with
    | .error fault => pure ([], .error fault)
    | .ok finished => do
      let { iso, .. } ← Program.ambience
      settleRun row config iso finished.ending (lastLines finished.logs)

def failRun (id : String) (logs : List String) (message : String) : Handler Unit :=
  perform (.updateInstance id fun row => { row with
    lastStatus := some "error"
    lastError := some message
    lastLog := some ("\n".intercalate logs) })

/-- The bookkeeping behind a run. -/
def stampRun (id : String) (logs : List String) : Except Fault Unit → Handler Unit
  | .error fault => failRun id logs fault.text
  | .ok () =>
      tryCatch
        (perform (.updateInstance id fun row => { row with
          lastStatus := some "ok", lastError := none, lastLog := some ("\n".intercalate logs) }))
        fun fault => failRun id logs fault.text

/-- A job that cannot run its plugin. -/
def cannotRun (id error : String) : Handler Unit := do
  let { now, .. } ← Program.ambience
  perform (.updateInstance id fun row =>
    { row with lastRunAt := some now, lastStatus := some "error", lastError := some error })

def startRun (id : String) : Handler Unit := do
  let { now, .. } ← Program.ambience
  perform (.updateInstance id fun row => { row with
    lastRunAt := some now, lastStatus := some "running", lastError := none, lastLog := none })

def runPluginJob (types : Registry) (instanceId : String) : Handler Unit :=
  if instanceId = "" then pure () else do
  match (← perform (.getInstance instanceId)).filter (·.enabled) with
  | none => pure ()
  | some row =>
    match types row.pluginType with
    | none => cannotRun row.id ("plugin type unavailable: " ++ row.pluginType)
    | some manifest =>
      if manifest.run then do
        startRun row.id
        let (logs, ended) ← runPlugin row
        stampRun row.id logs ended
      else cannotRun row.id "plugin type has no run()/discover()"

/-! ## The system -/

inductive Request where
  | list
  | get (id : String)
  | create (id uid : String) (body : PluginBody)
  | update (id uid : String) (body : PluginBody)
  | secrets (id uid : String) (body : Fields)
  | test (id : String)
  | load (id uid : String)
  | unload (id uid : String)
  | run (id : String)
  | runs (id : String)
  | delete (id : String) (keepPromoted : Bool)
  /-- The worker takes up a job. -/
  | job (id : String)

def handle (types : Registry) : Request → Handler Response
  | .list => do
      let rows ← perform .listInstances
      pure (.listed (← serializeAll types rows))
  | .get id => withInstance id fun row => do pure (.results (← serialize types row))
  | .create id uid body => create types id uid body
  | .update id uid body => update types id uid body
  | .secrets id uid body => updateSecrets types id uid body
  | .test id => test types id
  | .load id uid => load types id uid
  | .unload id uid => unload types id uid
  | .run id => withInstance id fun row => do
      runInstanceNow row.id
      pure .done
  | .runs id => withInstance id fun row =>
      pure (.runs row.lastRunAt row.lastStatus row.lastError row.lastLog)
  | .delete id keepPromoted => delete id keepPromoted
  | .job id => do
      runPluginJob types id
      pure .done

abbrev System : Type 1 := Pool Store (Handler Response)

def apply (types : Registry) :
    Event (Request × Ambience) Outcome → System → System :=
  (Program.protocol host (handle types)).apply

def start : System := ⟨⟨[], ∅, ∅, []⟩, []⟩

end ThetaDirectory.Plugins
