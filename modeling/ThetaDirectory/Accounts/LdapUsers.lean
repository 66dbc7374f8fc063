import Mathlib.Data.List.MinMax
import Mathlib.Order.Lattice
import ThetaDirectory.Library.Interleaving
import ThetaDirectory.Text

/-!
# Adding LDAP accounts

`addPosixGroup`, `addPosixAccount` and `addLdapUser` of `models/user_ldap.js`, and the part of
`User.add` before the account is stored.  A call goes from one LDAP operation to the next; an
operation happens, or throws and changes nothing, as the call's turn comes.
-/

namespace ThetaDirectory.Accounts

open Library

/-- The configuration, with what the LDAP client and server do to DNs and
values. -/
structure LdapConf where
  uidGidMin : Int
  uidGidReservedFloor : Int
  groupBase : String
  userBase : String
  escapeDN : String → String
  normalize : String → String
  sameValue : String → String → Bool
  hashPassword : String → String

/-- An entry below `groupBase`. -/
structure GroupEntry where
  dn : String
  cn : String
  objectclass : List String
  gidNumber : Option Int
  member : List String
  memberUid : List String
  deriving DecidableEq

/-- An entry below `userBase`. -/
structure AccountEntry where
  dn : String
  cn : String
  uid : String
  sn : String
  uidNumber : Option Int
  gidNumber : Option Int
  loginShell : Option String
  homeDirectory : Option String
  description : String
  objectclass : List String
  givenName : Option String
  mail : Option String
  mobile : Option String
  sshPublicKey : List String
  dateOfBirth : Option String
  location : Option String
  sudoHost : List String
  sudoCommand : List String
  sudoUser : List String
  userPassword : Option String
  manager : List String
  deriving DecidableEq

structure LdapDirectory where
  groups : List GroupEntry
  people : List AccountEntry
  deriving DecidableEq

/-- The `data` of a call. -/
structure NewUser where
  uid : Option String
  givenName : Option String := none
  first_name : Option String := none
  sn : Option String := none
  last_name : Option String := none
  name : Option String := none
  uidNumber : Option Int := none
  gidNumber : Option Int := none
  loginShell : Option String := none
  homeDirectory : Option String := none
  description : Option String := none
  mail : Option String := none
  mobile : Option String := none
  sshPublicKey : List String := []
  dob : Option String := none
  location : Option String := none
  sudoHost : List String := []
  sudoCommand : List String := []
  sudoUser : List String := []
  userPassword : Option String := none
  manager : List String := []

structure AddOptions where
  preserveIds : Bool := false
  preserveHash : Bool := false

structure AddError where
  name : String
  message : String
  status : Option Nat
  deriving DecidableEq

/-- The highest number below the reserved floor, plus one. -/
def nextPosixId (conf : LdapConf) (numbers : List Int) : Int :=
  (numbers.filter (· < conf.uidGidReservedFloor)).foldl max (conf.uidGidMin - 1) + 1

def LdapDirectory.uidNumbers (directory : LdapDirectory) : List Int :=
  directory.people.filterMap (·.uidNumber)

/-- `User.exists` -/
def LdapDirectory.has (conf : LdapConf) (directory : LdapDirectory)
    (field : AccountEntry → Option String) (wanted : Option String) : Bool :=
  directory.people.any fun person => (field person).any fun value =>
    wanted.any fun wanted => conf.sameValue value wanted

/-- `HASHED_PASSWORD` -/
def isHashed (password : String) : Bool :=
  match password.toList with
  | '\x7b' :: rest =>
      let scheme := rest.takeWhile fun char => char.isAlphanum || char == '-'
      scheme ≠ [] && (rest.drop scheme.length).head? == some '\x7d'
  | _ => false

/-- The start of `addLdapUser`, before anything is awaited. -/
def prepare (conf : LdapConf) (opts : AddOptions) (data : NewUser) : Except AddError NewUser :=
  let uid :=
    match truthy data.uid with
    | some uid => some uid
    | none =>
        let given := trim (data.givenName.getD "")
        let sn := trim (data.sn.getD "")
        if given = "" ∧ sn = "" then none
        else some (toLowerCase (String.ofList (given.toList.take 1) ++ sn))
  match uid with
  | none => .error ⟨"Error", "either uid, givenName, or sn is required to create a user", some 400⟩
  | some uid => .ok { data with
      uid := some uid
      loginShell := some ((truthy data.loginShell).getD "/bin/bash")
      homeDirectory := some ((truthy data.homeDirectory).getD ("/home/" ++ uid))
      userPassword := (truthy data.userPassword).map fun password =>
        if opts.preserveHash && isHashed password then password else conf.hashPassword password }

def NewUser.uidText (data : NewUser) : String := data.uid.getD "undefined"

/-- Where the personal group is added. -/
def groupDn (conf : LdapConf) (uid : String) : String :=
  conf.normalize ("cn=" ++ conf.escapeDN uid ++ "," ++ conf.groupBase)

def accountDn (conf : LdapConf) (uid : String) : String :=
  conf.normalize ("cn=" ++ conf.escapeDN uid ++ "," ++ conf.userBase)

/-- What the rollback deletes. -/
def rollbackDn (conf : LdapConf) (uid : String) : String :=
  conf.normalize ("cn=" ++ uid ++ "," ++ conf.groupBase)

def personalGroup (conf : LdapConf) (data : NewUser) : GroupEntry where
  dn := groupDn conf data.uidText
  cn := data.uidText
  objectclass := ["posixGroup", "top"]
  gidNumber := data.gidNumber
  member := []
  memberUid := []

/-- The entry of `addPosixAccount`. -/
def posixAccount (conf : LdapConf) (data : NewUser) : AccountEntry where
  dn := accountDn conf data.uidText
  cn := data.uidText
  uid := data.uidText
  sn := (((truthy data.sn).or (truthy data.last_name)).or (truthy data.name)).getD data.uidText
  uidNumber := data.uidNumber
  gidNumber := data.gidNumber
  loginShell := data.loginShell
  homeDirectory := data.homeDirectory
  description := (truthy data.description).getD " "
  objectclass := ["inetOrgPerson", "ldapPublicKey", "posixAccount", "top", "theta42Person"] ++
    if data.sudoHost = [] then [] else ["sudoRole"]
  givenName := (truthy data.givenName).or (truthy data.first_name)
  mail := truthy data.mail
  mobile := truthy data.mobile
  sshPublicKey := data.sshPublicKey
  dateOfBirth := truthy data.dob
  location := truthy data.location
  sudoHost := data.sudoHost
  sudoCommand := if data.sudoHost = [] then [] else
    if data.sudoCommand = [] then ["ALL"] else data.sudoCommand
  sudoUser := if data.sudoHost = [] then [] else
    if data.sudoUser = [] then [data.uidText] else data.sudoUser
  userPassword := truthy data.userPassword
  manager := data.manager

def alreadyExists : AddError := ⟨"EntryAlreadyExistsError", "The entry already exists.", none⟩

/-! ## A call -/

/-- The operation a call waits for. -/
inductive Adding where
  | checkMail (data : NewUser) (opts : AddOptions)
  | checkMobile (data : NewUser) (opts : AddOptions)
  | searchGroups (data : NewUser) (opts : AddOptions)
  | addGroup (data : NewUser) (opts : AddOptions)
  | searchPeople (data : NewUser) (opts : AddOptions)
  | addAccount (people : List Int) (data : NewUser) (opts : AddOptions)
  | rollback (uid : String) (error : AddError)
  | added (data : NewUser)
  | failed (error : AddError)

/-- `addLdapUser` up to its first search. -/
def addLdapUser (conf : LdapConf) (opts : AddOptions) (data : NewUser) : Adding :=
  match prepare conf opts data with
  | .error error => .rollback data.uidText error
  | .ok data => .searchGroups data opts

/-- Behind the search for groups: a group that has the preserved number is shared. -/
def chooseGid (conf : LdapConf) (groups : List GroupEntry) (data : NewUser) (opts : AddOptions) :
    Adding :=
  let numbers := (groups.filter fun group => group.objectclass.contains "posixGroup").filterMap
    (·.gidNumber)
  match opts.preserveIds, data.gidNumber with
  | true, some gidNumber =>
      if numbers.contains gidNumber then .searchPeople data opts else .addGroup data opts
  | _, _ => .addGroup { data with gidNumber := some (nextPosixId conf numbers) } opts

/-- Behind the search for people. -/
def chooseUid (conf : LdapConf) (numbers : List Int) (data : NewUser) (opts : AddOptions) : Adding :=
  match opts.preserveIds, data.uidNumber with
  | true, some uidNumber =>
      if numbers.contains uidNumber then
        .rollback data.uidText ⟨"UidNumberInUse",
          "uidNumber " ++ toString uidNumber ++ " is already in use", some 409⟩
      else .addAccount numbers data opts
  | _, _ => .addAccount numbers { data with uidNumber := some (nextPosixId conf numbers) } opts

/-- The operation a call waits for happens, or throws an error that comes from outside. -/
def Adding.turn (conf : LdapConf) (fault : Option AddError) (directory : LdapDirectory) :
    Adding → LdapDirectory × Adding
  | checkMail data opts =>
      -- A search that throws counts as one that found nothing.
      if fault = none ∧ directory.has conf (·.mail) data.mail then
        (directory, failed ⟨"EmailInUse", "Email already in use", some 409⟩)
      else
        match truthy data.mobile with
        | some _ => (directory, checkMobile data opts)
        | none => (directory, addLdapUser conf opts data)
  | checkMobile data opts =>
      if fault = none ∧ directory.has conf (·.mobile) data.mobile then
        (directory, failed ⟨"PhoneInUse", "Phone number already in use", some 409⟩)
      else (directory, addLdapUser conf opts data)
  | searchGroups data opts =>
      match fault with
      | some error => (directory, rollback data.uidText error)
      | none => (directory, chooseGid conf directory.groups data opts)
  | addGroup data opts =>
      match fault with
      | some error => (directory, rollback data.uidText error)
      | none =>
          if directory.groups.any fun group => group.dn == groupDn conf data.uidText then
            (directory, rollback data.uidText alreadyExists)
          else
            ({ directory with groups := directory.groups ++ [personalGroup conf data] },
              searchPeople data opts)
  | searchPeople data opts =>
      match fault with
      | some error => (directory, rollback data.uidText error)
      | none => (directory, chooseUid conf directory.uidNumbers data opts)
  | addAccount _ data _ =>
      match fault with
      | some error => (directory, rollback data.uidText error)
      | none =>
          if directory.people.any fun person => person.dn == accountDn conf data.uidText then
            (directory, rollback data.uidText alreadyExists)
          else ({ directory with people := directory.people ++ [posixAccount conf data] }, added data)
  | rollback uid error =>
      match fault with
      | some _ => (directory, failed error)
      | none =>
          ({ directory with
            groups := directory.groups.filter fun group => group.dn ≠ rollbackDn conf uid },
            failed error)
  | added data => (directory, added data)
  | failed error => (directory, failed error)

/-- The arguments of `User.add`. -/
structure AddCall where
  data : NewUser
  opts : AddOptions

/-- `User.add` up to its first operation. -/
def userAdd (conf : LdapConf) (call : AddCall) : Adding :=
  match truthy call.data.mail, truthy call.data.mobile with
  | some _, _ => .checkMail call.data call.opts
  | none, some _ => .checkMobile call.data call.opts
  | none, none => addLdapUser conf call.opts call.data

end ThetaDirectory.Accounts
