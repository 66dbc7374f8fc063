import Mathlib.Logic.Function.Basic
import ThetaDirectory.Library.JsMap
import ThetaDirectory.Text

/-!
# Seeding the directory of a spoke

`utils/ldap_seed.js`: the database of the running slapd is moved aside, the
master's dump is loaded in its place, and a failure puts the old database back.
Every io call either does its work or throws without having done anything; which
calls throw is an input.
-/

namespace ThetaDirectory.Seeding

open Library

/-- What an io call throws. -/
structure IoError where
  code : String := ""
  message : String
  deriving DecidableEq, Repr

/-- The directories that hold database files. -/
inductive Place where
  | dataDir
  | stash
  deriving DecidableEq, Repr

/-- The disk, what was asked of slapd, and the variable `backup`. -/
structure World (Content : Type) where
  files : Place → JsMap Content
  dump : Bool := false
  starts : Nat := 0
  backup : Option (List String) := none

variable {Content : Type}

abbrev Effect (Content : Type) := EStateM IoError (World Content)

/-- An io call: it throws without effect, or has its whole effect. -/
def perform (fault : Option IoError) (effect : World Content → World Content) :
    Effect Content Unit :=
  match fault with
  | some error => throw error
  | none => modify effect

/-- `.catch(() => {})`. -/
def quietly (action : Effect Content Unit) : Effect Content Unit :=
  tryCatch action fun _ => pure ()

namespace World

/-- Remove a file; one that does not exist is no error. -/
def remove (place : Place) (name : String) (world : World Content) : World Content :=
  { world with files := Function.update world.files place ((world.files place).erase name) }

def write (place : Place) (name : String) (content : Content) (world : World Content) :
    World Content :=
  { world with files := Function.update world.files place ((world.files place).insert name content) }

def removeAll (place : Place) (world : World Content) : World Content :=
  { world with files := Function.update world.files place ∅ }

/-- slapadd writes its files over those in the data directory. -/
def load (loaded : JsMap Content) (world : World Content) : World Content :=
  { world with files := Function.update world.files .dataDir (loaded ∪ world.files .dataDir) }

end World

/-! ## The calls that may throw -/

/-- The calls of one `moveFile`. -/
structure MoveFaults where
  rename : Option IoError := none
  copyFile : Option IoError := none
  rm : Option IoError := none

/-- What each io call of a run throws, if it throws.  The polls of `waitForSlapd`
are those made before its deadline; one that finds slapd ends them. -/
structure Faults where
  writeFile : Option IoError := none
  terminate : Option IoError := none
  mkdir : Option IoError := none
  readdir : Option IoError := none
  aside : String → MoveFaults := fun _ => {}
  slapadd : Option IoError := none
  chown : Option IoError := none
  spawn : Option IoError := none
  polls : List (Option IoError) := [none]
  rmSurplus : Option IoError := none
  clear : String → Option IoError := fun _ => none
  back : String → MoveFaults := fun _ => {}
  rmStash : Option IoError := none
  respawn : Option IoError := none
  repolls : List (Option IoError) := [none]
  rmDump : Option IoError := none

/-! ## Moving files -/

/-- slapd.log and auditlog.ldif are in the data directory too and are left there. -/
def isMdbFile (name : String) : Bool := name == "data.mdb" || name == "lock.mdb"

def rename (fault : Option IoError) (source target : Place) (name : String) :
    Effect Content Unit := do
  let world ← get
  match (world.files source).lookup name with
  | some content => perform fault fun world => (world.write target name content).remove source name
  | none => throw ⟨"ENOENT", "ENOENT: no such file or directory"⟩

def copyFile (fault : Option IoError) (source target : Place) (name : String) :
    Effect Content Unit := do
  let world ← get
  match (world.files source).lookup name with
  | some content => perform fault (World.write target name content)
  | none => throw ⟨"ENOENT", "ENOENT: no such file or directory"⟩

/-- Rename, or copy and unlink when the two paths are on different filesystems. -/
def moveFile (faults : MoveFaults) (source target : Place) (name : String) :
    Effect Content Unit :=
  tryCatch (rename faults.rename source target name) fun error =>
    if error.code ≠ "EXDEV" then throw error
    else do
      copyFile faults.copyFile source target name
      perform faults.rm (World.remove source name)

/-- The loop of `moveDatabaseAside`; the result is `moved`. -/
def moveEachAside (faults : Faults) : List String → Effect Content (List String)
  | [] => pure []
  | name :: names =>
      if isMdbFile name then do
        moveFile (faults.aside name) .dataDir .stash name
        let moved ← moveEachAside faults names
        return name :: moved
      else moveEachAside faults names

/-- The stash is itself a name in the data directory, but not one of a database
file. -/
def moveDatabaseAside (faults : Faults) : Effect Content (List String) := do
  perform faults.mkdir id
  perform faults.readdir id
  let world ← get
  moveEachAside faults (world.files .dataDir).keys

def restoreDatabase (faults : Faults) : List String → Effect Content Unit
  | [] => pure ()
  | name :: names => do
      quietly (perform (faults.clear name) (World.remove .dataDir name))
      quietly (moveFile (faults.back name) .stash .dataDir name)
      restoreDatabase faults names

/-! ## Stopping and starting slapd -/

/-- After a signal that was sent, the polls for the end of the process and the
final `SIGKILL` swallow what they throw. -/
def stopSlapd (faults : Faults) : Effect Content Unit :=
  match faults.terminate with
  | none => pure ()
  | some error => if error.code = "ESRCH" then pure () else throw error

def startSlapd (fault : Option IoError) : Effect Content Unit :=
  perform fault fun world => { world with starts := world.starts + 1 }

def waitForSlapd (baseDn : String) (lastErr : Option IoError) :
    List (Option IoError) → Effect Content Unit
  | [] => throw {
      message := "slapd did not answer for " ++ baseDn ++ " within 30000ms: " ++
        match lastErr with
        | some error => error.message
        | none => "null" }
  | none :: _ => pure ()
  | some error :: polls => waitForSlapd baseDn (some error) polls

/-! ## The dump -/

def isLineEnd (char : Char) : Bool := char.val ∈ [10, 13, 0x2028, 0x2029]

/-- Where a search for `/^dn:\s*\S/gm` stands. -/
inductive Scan where
  | lineStart
  | inLine
  | afterDn

def countDns : Scan → List Char → Nat
  | _, [] => 0
  | .lineStart, 'd' :: 'n' :: ':' :: text => countDns .afterDn text
  | .afterDn, char :: text =>
      if isSpace char then countDns .afterDn text else countDns .inLine text + 1
  | _, char :: text => countDns (if isLineEnd char then .lineStart else .inLine) text

def countEntries (ldif : String) : Nat := countDns .lineStart ldif.toList

/-- `/^entryUUID:/mi`. -/
def hasEntryUuid (ldif : String) : Bool :=
  (ldif.toList.splitOnP isLineEnd).any fun line =>
    (line.take 10).map Char.toLower == "entryuuid:".toList

/-! ## Seeding -/

/-- What a call of `seedFromMasterLdif` is given and finds. -/
structure Request where
  ldif : String
  baseDn : String
  /-- `findSlapdProcess` found the running slapd. -/
  running : Bool
  /-- What `dataDirFromConfig` returned or threw. -/
  dataDir : Except IoError String

structure Seeded where
  dataDir : String
  entries : Nat
  deriving DecidableEq, Repr

/-- The checks before anything is touched; the result is the data directory. -/
def checkRequest (request : Request) : Except IoError String :=
  if request.baseDn = "" then
    .error { message := "seedFromMasterLdif: baseDn is required" }
  else if request.ldif.toList.all isSpace then
    .error { message := "seedFromMasterLdif: refusing to seed from an empty dump" }
  else if countEntries request.ldif = 0 then
    .error { message := "seedFromMasterLdif: dump contains no entries" }
  else if !hasEntryUuid request.ldif then
    .error { message := "seedFromMasterLdif: dump has no entryUUID -- operational attributes were stripped, so this cannot seed a replica" }
  else if !request.running then
    .error { message := "seedFromMasterLdif: could not find the running slapd to stop" }
  else request.dataDir

/-- The body of the `try`.  A slapadd that succeeds writes `loaded`. -/
def replaceDatabase (faults : Faults) (loaded : JsMap Content) (baseDn : String) :
    Effect Content Unit := do
  stopSlapd faults
  let moved ← moveDatabaseAside faults
  modify fun world => { world with backup := some moved }
  perform faults.slapadd (World.load loaded)
  quietly (perform faults.chown id)
  startSlapd faults.spawn
  waitForSlapd baseDn none faults.polls
  quietly (perform faults.rmSurplus (World.removeAll .stash))

/-- The body of the `catch`, up to its `throw`. -/
def recover (faults : Faults) (baseDn : String) : Effect Content Unit := do
  let world ← get
  match world.backup with
  | some moved => do
      quietly (restoreDatabase faults moved)
      quietly (perform faults.rmStash (World.removeAll .stash))
  | none => pure ()
  quietly (startSlapd faults.respawn)
  quietly (waitForSlapd baseDn none faults.repolls)

def rmDump (faults : Faults) : Effect Content Unit :=
  quietly (perform faults.rmDump fun world => { world with dump := false })

/-- The `catch` with the `finally` that follows its `throw`. -/
def rejectSeeding (faults : Faults) (baseDn : String) (error : IoError) : Effect Content Unit := do
  recover faults baseDn
  rmDump faults
  throw { message := "LDAP replica seeding failed and the previous directory was restored: " ++
    error.message }

def seedFromMasterLdif (request : Request) (faults : Faults) (loaded : JsMap Content) :
    Effect Content Seeded := do
  match checkRequest request with
  | .error error => throw error
  | .ok dataDir => do
      perform faults.writeFile fun world => { world with dump := true }
      tryCatch (replaceDatabase faults loaded request.baseDn) (rejectSeeding faults request.baseDn)
      rmDump faults
      return ⟨dataDir, countEntries request.ldif⟩

end ThetaDirectory.Seeding
