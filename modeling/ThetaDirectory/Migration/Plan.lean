import ThetaDirectory.Migration.Ldif
import ThetaDirectory.Number

/-!
# Import plans

`buildPlan` of `utils/ldif_import.js`: what each entry of a file would become, beside what the
directory has already.
-/

namespace ThetaDirectory.Migration

structure Profile where
  userObjectClass : String
  usernameAttr : String
  groupObjectClasses : List String
  memberAttr : String

/-- What the directory has. -/
structure Existing where
  usernames : List String := []
  uidNumbers : List String := []
  gidNumbers : List String := []

/-- `fields`, as `USER_FIELDS` lists them. -/
structure UserFields where
  sn : String
  givenName : String
  mail : String
  mobile : String
  loginShell : String
  homeDirectory : String
  description : String
  location : String
  dateOfBirth : String
  deriving DecidableEq

structure Sudo where
  host : List String
  command : List String
  user : List String
  deriving DecidableEq

inductive Decision where
  | «import»
  | service
  | reject
  deriving DecidableEq

structure PlannedUser where
  sourceDn : String
  username : String
  uidNumber : String
  gidNumber : String
  fields : UserFields
  sshPublicKey : List String
  «sudo» : Sudo
  locked : Bool
  passwordScheme : String
  hasPassword : Bool
  userPassword : String
  warnings : List String
  blocking : List String
  decision : Decision
  deriving DecidableEq

structure PlannedGroup where
  sourceDn : String
  cn : String
  description : String
  gidNumber : String
  isPersonal : Bool
  memberAttr : String
  memberUsernames : List String
  nestedGroups : List String
  unresolved : List String
  warnings : List String
  target : String
  deriving DecidableEq

structure Skipped where
  dn : String
  reason : String
  deriving DecidableEq

structure ImportPlan where
  users : List PlannedUser
  groups : List PlannedGroup
  personalGroups : List PlannedGroup
  skipped : List Skipped

/-! ## Values of an entry -/

def lc (text : String) : String := toLowerCase text

/-- `[\w-]` -/
def isSchemeChar (char : Char) : Bool := char.isAlphanum || char == '_' || char == '-'

def passwordScheme (hash : String) : String :=
  match hash.toList with
  | '\x7b' :: rest =>
      let scheme := rest.takeWhile isSchemeChar
      if scheme ≠ [] ∧ (rest.drop scheme.length).head? = some '\x7d' then
        String.ofList (scheme.map Char.toUpper)
      else "PLAINTEXT"
  | [] => ""
  | _ => "PLAINTEXT"

def VERIFIABLE_SCHEMES : List String :=
  ["SSHA", "SHA", "SMD5", "MD5", "CRYPT", "SSHA512", "SSHA256", "CLEARTEXT", "PLAINTEXT"]

def values (entry : Entry) (name : String) : List String :=
  ((all entry name).map trim).filter (· ≠ "")

def pick (entry : Entry) (candidates : List String) : String :=
  (candidates.findSome? fun attr => (values entry attr).head?).getD ""

def OPERATIONAL : List String :=
  ["structuralobjectclass", "entryuuid", "creatorsname", "createtimestamp", "entrycsn",
    "modifiersname", "modifytimestamp", "entrydn", "subschemasubentry", "hassubordinates",
    "numsubordinates", "contextcsn", "memberof", "pwdchangedtime", "pwdhistory", "pwdfailuretime",
    "pwdgraceusetime", "objectclass", "dn"]

def USER_STRUCTURAL : List String :=
  ["uid", "cn", "uidnumber", "gidnumber", "userpassword", "sshpublickey", "pwdaccountlockedtime",
    "sudohost", "sudocommand", "sudouser", "sudorunasuser", "sudooption", "samaccountname",
    "displayname"]

/-- The attributes of `USER_FIELDS`. -/
def USER_FIELD_ATTRS : List String :=
  ["sn", "givenname", "mail", "mobile", "telephonenumber", "loginshell", "homedirectory",
    "description", "l", "dateofbirth"]

def userFields (entry : Entry) : UserFields where
  sn := pick entry ["sn"]
  givenName := pick entry ["givenname"]
  mail := pick entry ["mail"]
  mobile := pick entry ["mobile", "telephonenumber"]
  loginShell := pick entry ["loginshell"]
  homeDirectory := pick entry ["homedirectory"]
  description := pick entry ["description"]
  location := pick entry ["l"]
  dateOfBirth := pick entry ["dateofbirth"]

def unmappedAttrs (entry : Entry) : List String :=
  (entry.attrs.map Prod.fst).filter fun name =>
    !OPERATIONAL.contains name && !USER_STRUCTURAL.contains name && values entry name ≠ [] &&
      !USER_FIELD_ATTRS.contains name

/-- `/^[a-zA-Z0-9._-]+$/` -/
def isUsername (text : String) : Bool :=
  text ≠ "" && text.toList.all fun char => char.isAlphanum || char == '.' || char == '_' || char == '-'

/-! ## Users -/

/-- What earlier rows have, each with the row that had it first. -/
structure Seen where
  usernames : List (String × String)
  uidNumbers : List (String × String)
  gidNumbers : List (String × String)
  mobiles : List (String × String)

/-- `if (!seen.has(key)) seen.set(key, value)` -/
def keepFirst (seen : List (String × String)) (key value : String) : List (String × String) :=
  if (seen.lookup key).isSome then seen else seen ++ [(key, value)]

/-- `if (condition) list.push(text)` -/
def pushIf (condition : Bool) (text : String) : List String := if condition then [text] else []

/-- Is the number one of these, as numbers? -/
def numberIn (numbers : List String) (number : String) : Bool :=
  (finiteNumber number).any fun value => (numbers.filterMap finiteNumber).contains value

variable (profile : Profile) (existing : Existing)

def blockingOf (seen : Seen) (entry : Entry) : List String :=
  let username := one entry profile.usernameAttr
  let uidNumber := one entry "uidNumber"
  let gidNumber := one entry "gidNumber"
  pushIf (username = "") ("no " ++ profile.usernameAttr ++ " attribute — cannot derive a username") ++
    pushIf (username ≠ "" && !isUsername username)
      ("username \"" ++ username ++ "\" contains characters this directory does not accept") ++
    pushIf (uidNumber = "") "no uidNumber — this importer preserves ids and cannot invent one" ++
    pushIf (username ≠ "" && (seen.usernames.lookup (lc username)).isSome)
      ("duplicate username in this file (also " ++
        (seen.usernames.lookup (lc username)).getD "" ++ ")") ++
    pushIf (uidNumber ≠ "" && (seen.uidNumbers.lookup uidNumber).isSome)
      ("duplicate uidNumber " ++ uidNumber ++ " in this file (also " ++
        (seen.uidNumbers.lookup uidNumber).getD "" ++ ")") ++
    pushIf (username ≠ "" && (existing.usernames.map lc).contains (lc username))
      ("a user named \"" ++ username ++ "\" already exists in this directory") ++
    pushIf (uidNumber ≠ "" && numberIn existing.uidNumbers uidNumber)
      ("uidNumber " ++ uidNumber ++ " is already in use in this directory") ++
    pushIf (gidNumber ≠ "" && numberIn existing.gidNumbers gidNumber)
      ("gidNumber " ++ gidNumber ++ " is already in use in this directory")

def passwordWarning (hash : String) : List String :=
  let scheme := passwordScheme hash
  if hash = "" then ["no password — the account cannot be logged into until one is set"]
  else if !VERIFIABLE_SCHEMES.contains scheme then
    ["password scheme \x7b" ++ scheme ++
      "\x7d may not be verifiable by this server; logins could fail"]
  else if scheme = "MD5" then
    ["legacy MD5 password — the user will be forced to change it at first login"]
  else if scheme = "PLAINTEXT" then ["password appears to be stored unhashed at the source"]
  else []

def warningsOf (seen : Seen) (entry : Entry) : List String :=
  let username := one entry profile.usernameAttr
  let gidNumber := one entry "gidNumber"
  let cn := one entry "cn"
  let unmapped := unmappedAttrs entry
  let mobile := (userFields entry).mobile
  passwordWarning (one entry "userPassword") ++
    pushIf (cn ≠ "" && username ≠ "" && cn ≠ username)
      ("cn \"" ++ cn ++ "\" will be normalized to \"" ++ username ++
        "\" to match this directory's convention") ++
    pushIf (unmapped ≠ []) ("not migrated: " ++ ", ".intercalate unmapped) ++
    pushIf (gidNumber ≠ "" && (seen.gidNumbers.lookup gidNumber).isSome)
      ("shares primary group " ++ gidNumber ++ " with " ++
        (seen.gidNumbers.lookup gidNumber).getD "" ++
        " — no personal group is created for this account") ++
    pushIf (mobile ≠ "" && (seen.mobiles.lookup mobile).isSome)
      ("phone number " ++ mobile ++ " is already used by " ++
        (seen.mobiles.lookup mobile).getD "" ++ " — imported without a phone number")

/-- What the next rows see. -/
def Seen.next (seen : Seen) (entry : Entry) : Seen :=
  let username := one entry profile.usernameAttr
  let uidNumber := one entry "uidNumber"
  let gidNumber := one entry "gidNumber"
  let mobile := (userFields entry).mobile
  let holder := if username = "" then entry.dn else username
  { usernames :=
      if username = "" then seen.usernames else keepFirst seen.usernames (lc username) entry.dn
    uidNumbers :=
      if uidNumber = "" then seen.uidNumbers else keepFirst seen.uidNumbers uidNumber entry.dn
    gidNumbers :=
      if gidNumber = "" then seen.gidNumbers else keepFirst seen.gidNumbers gidNumber holder
    mobiles := if mobile = "" then seen.mobiles else keepFirst seen.mobiles mobile holder }

/-- The row of a user. -/
def planUser (seen : Seen) (entry : Entry) : PlannedUser :=
  let hash := one entry "userPassword"
  let fields := userFields entry
  let blocking := blockingOf profile existing seen entry
  { sourceDn := entry.dn
    username := one entry profile.usernameAttr
    uidNumber := one entry "uidNumber"
    gidNumber := one entry "gidNumber"
    fields := { fields with
      mobile := if (seen.mobiles.lookup fields.mobile).isSome then "" else fields.mobile }
    sshPublicKey := values entry "sshPublicKey"
    «sudo» := ⟨values entry "sudoHost", values entry "sudoCommand", values entry "sudoUser"⟩
    locked := one entry "pwdAccountLockedTime" ≠ ""
    passwordScheme := passwordScheme hash
    hasPassword := hash ≠ ""
    userPassword := hash
    warnings := warningsOf profile seen entry
    blocking := blocking
    decision := if blocking = [] then .«import» else .reject }

def planUsers : Seen → List Entry → List PlannedUser
  | _, [] => []
  | seen, entry :: entries =>
      planUser profile existing seen entry :: planUsers (seen.next profile entry) entries

/-! ## Groups -/

def isUser (entry : Entry) : Bool := (objectClasses entry).contains profile.userObjectClass

def isGroup (entry : Entry) : Bool :=
  profile.groupObjectClasses.any fun objectClass => (objectClasses entry).contains objectClass

variable (entries : List Entry)

def userEntries : List Entry := entries.filter (isUser profile)

/-- `dnToUsername` -/
def dnToUsername (dn : String) : Option String :=
  (((userEntries profile entries).filter fun entry => one entry profile.usernameAttr ≠ "").reverse.find?
    fun entry => lc entry.dn = lc dn).map fun entry => one entry profile.usernameAttr

/-- What a member of a group is. -/
inductive Member where
  | user (username : String)
  | nested (dn : String)
  | unresolved (value : String)

def memberOf (memberAttr value : String) : Member :=
  if memberAttr = "memberuid" then
    if (((userEntries profile entries).map fun entry => lc (one entry profile.usernameAttr)).filter
        (· ≠ "")).contains (lc value) then .user value
    else .unresolved value
  else
    match dnToUsername profile entries value with
    | some username => .user username
    | none =>
        if entries.any fun entry => lc entry.dn = lc value && isGroup profile entry then .nested value
        else .unresolved value

def planGroup (entry : Entry) : PlannedGroup :=
  let cn := if one entry "cn" ≠ "" then one entry "cn" else one entry "ou"
  let gidNumber := one entry "gidNumber"
  let memberAttr := ([profile.memberAttr, "member", "uniquemember", "memberuid"].find? fun attr =>
    all entry attr ≠ []).getD profile.memberAttr
  let members := ((all entry memberAttr).filter (· ≠ "")).map (memberOf profile entries memberAttr)
  let memberUsernames := members.filterMap fun | .user username => some username | _ => none
  let nestedGroups := members.filterMap fun | .nested dn => some dn | _ => none
  let unresolved := members.filterMap fun | .unresolved value => some value | _ => none
  { sourceDn := entry.dn
    cn := cn
    description := one entry "description"
    gidNumber := gidNumber
    isPersonal := gidNumber ≠ "" &&
      ((userEntries profile entries).map fun user => one user "gidNumber").contains gidNumber
    memberAttr := memberAttr
    memberUsernames := memberUsernames
    nestedGroups := nestedGroups
    unresolved := unresolved
    warnings :=
      pushIf (nestedGroups ≠ []) (toString nestedGroups.length ++
          " nested group member(s) not migrated — rebuild nesting after import") ++
        pushIf (unresolved ≠ []) (toString unresolved.length ++ " member(s) not found in this file")
    target := "" }

def buildPlan : ImportPlan :=
  let groups := (entries.filter fun entry => isGroup profile entry && !isUser profile entry).map
    (planGroup profile entries)
  let accounted := (userEntries profile entries ++ entries.filter (isGroup profile)).map
    fun entry => lc entry.dn
  { users := planUsers profile existing ⟨[], [], [], []⟩ (userEntries profile entries)
    groups := groups.filter fun group => !group.isPersonal
    personalGroups := groups.filter (·.isPersonal)
    skipped := (entries.filter fun entry => !accounted.contains (lc entry.dn)).map fun entry =>
      ⟨entry.dn, "not a user or group under the current mapping"⟩ }

end ThetaDirectory.Migration
