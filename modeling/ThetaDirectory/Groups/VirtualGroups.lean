import ThetaDirectory.Groups.Parsing
import ThetaDirectory.Library.Filter

/-!
# Searching by computed groups

`interceptVirtualGroups` and `postFilterEntries` of `utils/virtual_groups.js`:
group equalities are taken out of a search filter, the rest is left to the
server, and the entries it returns are checked with `hasPermission`.
-/

namespace ThetaDirectory.Groups

open Library

/-- The CN in front of a DN, matched by `/^cn=([^,]+)/i`; other text is its own
CN. -/
def cnOfDn (dn : String) : String :=
  match dn.toList with
  | c :: n :: '=' :: rest =>
      let cn := rest.takeWhile (· ≠ ',')
      if (c = 'c' ∨ c = 'C') ∧ (n = 'n' ∨ n = 'N') ∧ cn ≠ [] then String.ofList cn else dn
  | _ => dn

/-- A group equality taken from a filter. -/
structure VirtualGroup where
  cn : String
  parsed : ParsedGroup
  attrName : String
  originalValue : String
  deriving DecidableEq, Repr

/-- The group an equality names, if its CN parses. -/
def virtualGroup (attrName value : String) : Option VirtualGroup :=
  let attrName := toLowerCase attrName
  let cn := if attrName = "memberof" then cnOfDn value else if attrName = "cn" then value else ""
  if cn = "" then none
  else (parseGroupCn cn).map fun parsed => ⟨cn, parsed, attrName, value⟩

mutual

/-- Walk a filter: what is left of it and the groups found.  A group equality is
removed by the list it stands in; a negation is not entered. -/
def walk : Filter → Filter × List VirtualGroup
  | .and filters => (.and (walkAll filters).1, (walkAll filters).2)
  | .or filters => (.or (walkAll filters).1, (walkAll filters).2)
  | .equality attrName value => (.equality attrName value, (virtualGroup attrName value).toList)
  | .not filter => (.not filter, [])
  | .presence attrName => (.presence attrName, [])

/-- Walk the list of a conjunction or disjunction, from its end. -/
def walkAll : List Filter → List Filter × List VirtualGroup
  | [] => ([], [])
  | .equality attrName value :: filters =>
      match virtualGroup attrName value with
      | some group => ((walkAll filters).1, (walkAll filters).2 ++ [group])
      | none => (.equality attrName value :: (walkAll filters).1, (walkAll filters).2)
  | filter :: filters =>
      ((walk filter).1 :: (walkAll filters).1, (walkAll filters).2 ++ (walk filter).2)

end

/-- An empty conjunction at the top becomes a test every entry passes, and one
with a single part becomes that part. -/
def tidy : Filter → Filter
  | .and [] => .presence "objectClass"
  | .and [filter] => filter
  | filter => filter

def interceptVirtualGroups (filter : Filter) : Filter × List VirtualGroup :=
  (tidy (walk filter).1, (walk filter).2)

/-- A directory entry.  An attribute with one value and one that is absent read
as lists. -/
structure Entry where
  dn : String
  cn : Option String
  memberOf : List String
  attributes : List (String × List String)
  deriving DecidableEq, Repr

/-- The CNs of the groups an entry carries. -/
def Entry.memberOfCns (entry : Entry) : List String := entry.memberOf.map cnOfDn

/-- Add a group to the entry's list, so that the client sees what it asked for. -/
def Entry.inject (entry : Entry) (group : VirtualGroup) : Entry :=
  if entry.memberOf.contains group.originalValue then entry
  else { entry with memberOf := entry.memberOf ++ [group.originalValue] }

/-- The entry made up for a group asked for by its CN. -/
def synthesized (group : VirtualGroup) : Entry where
  dn := "cn=" ++ group.cn ++ ",ou=groups,dc=virtual"
  cn := some group.cn
  memberOf := []
  attributes := [("objectClass", ["top", "groupOfNames"]), ("member", ["cn=dummy"])]

/-- The permission a group equality stands for. -/
def holds (memberOfCns : List String) (group : VirtualGroup) : Except String Bool :=
  hasPermission memberOfCns ⟨some group.parsed.site, group.parsed.kind, group.parsed.slug⟩
    group.parsed.level

/-- Check the groups one after the other; a group that was found is added before
the next is checked. -/
def checkGroups : List VirtualGroup → Entry → Except String (Option Entry)
  | [], entry => .ok (some entry)
  | group :: groups, entry =>
      if group.attrName = "memberof" then do
        if ← holds entry.memberOfCns group then checkGroups groups (entry.inject group)
        else return none
      else checkGroups groups entry

/-- Keep or drop one entry. -/
def filterEntry (virtualGroups : List VirtualGroup) (entry : Entry) :
    Except String (Option Entry) :=
  if virtualGroups.any fun group => group.attrName == "cn" && entry.cn == some group.cn then
    .ok (some entry)
  else checkGroups virtualGroups entry

def postFilterEntries (entries : List Entry) (virtualGroups : List VirtualGroup) :
    Except String (List Entry) :=
  if virtualGroups.isEmpty then .ok entries
  else do
    let cnGroups := virtualGroups.filter fun group => group.attrName == "cn"
    let entries := cnGroups.foldl (fun entries group =>
      if entries.any fun entry => entry.cn == some group.cn then entries
      else entries ++ [synthesized group]) entries
    let kept ← entries.mapM (filterEntry virtualGroups)
    return kept.filterMap id

end ThetaDirectory.Groups
