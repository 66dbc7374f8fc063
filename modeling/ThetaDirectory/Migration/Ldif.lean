import ThetaDirectory.Library.JsonText
import ThetaDirectory.Library.Octets
import ThetaDirectory.Text

/-!
# Reading LDIF

`utils/ldif.js`.  A text is split into lines and unfolded, and the lines are read one behind the
other.
-/

namespace ThetaDirectory.Migration

open Library

structure LdifError where
  name : String
  message : String
  status : Option Nat
  deriving DecidableEq

structure Entry where
  dn : String
  attrs : List (String × List String)
  deriving DecidableEq

/-- The names that `{}` inherits. -/
def inherited : List String :=
  ["constructor", "__defineGetter__", "__defineSetter__", "hasOwnProperty", "__lookupGetter__",
    "__lookupSetter__", "isPrototypeOf", "propertyIsEnumerable", "toString", "valueOf", "__proto__",
    "toLocaleString"]

/-! ## Lines -/

/-- Every line end as `\n`. -/
def sameEnds : List Char → List Char
  | '\r' :: '\n' :: text => '\n' :: sameEnds text
  | '\r' :: text => '\n' :: sameEnds text
  | char :: text => char :: sameEnds text
  | [] => []

def unfoldStep (out : List (List Char)) (line : List Char) : List (List Char) :=
  match line, out.getLast? with
  | ' ' :: more, some last => out.dropLast ++ [last ++ more]
  | _, _ => out ++ [line]

/-- `unfold` -/
def unfoldLines (text : List Char) : List (List Char) :=
  ((sameEnds text).splitOn '\n').foldl unfoldStep []

def dropSpace : List Char → List Char
  | ' ' :: text => text
  | text => text

/-- `/^[A-Za-z0-9+/]*={0,2}$/` -/
def isBase64 (text : List Char) : Bool :=
  [[], ['='], ['=', '=']].contains (text.dropWhile Octets.isDigit64)

/-- What stands behind the colon of a line. -/
def parseValue (name : String) : List Char → Except LdifError (Option (String × String))
  | ':' :: encoded =>
      let cleaned := (dropSpace encoded).filter fun char => !isSpace char
      if isBase64 cleaned then
        .ok (some (name, String.ofList (Octets.utf8Decode (Octets.base64Decode cleaned))))
      else .error ⟨"Error", "invalid base64 in attribute \"" ++ name ++ "\"", some 400⟩
  | '<' :: _ =>
      .error ⟨"Error", "attribute \"" ++ name ++
        "\" uses a URL reference (:<), which is not supported for security reasons", some 400⟩
  | plain => .ok (some (name, String.ofList (dropSpace plain)))

def parseLine (line : List Char) : Except LdifError (Option (String × String)) :=
  match line.dropWhile (· ≠ ':') with
  | [] => .ok none
  | _ :: rest => parseValue (String.ofList (line.takeWhile (· ≠ ':'))) rest

/-- `\s*\d+\s*` -/
def isVersionNumber (text : List Char) : Bool :=
  let number := text.dropWhile isSpace
  number.takeWhile (·.isDigit) ≠ [] && (number.dropWhile (·.isDigit)).all isSpace

/-- `/^version:\s*\d+\s*$/i` -/
def isVersionLine (line : List Char) : Bool :=
  match line.dropWhile (· ≠ ':') with
  | ':' :: number =>
      (line.takeWhile (· ≠ ':')).map Char.toLower = "version".toList && isVersionNumber number
  | _ => false

/-! ## Entries -/

/-- `current.attrs[base].push(value)`, on an empty list where there is none. -/
def pushValue (attrs : List (String × List String)) (base value : String) :
    List (String × List String) :=
  match attrs with
  | [] => [(base, [value])]
  | own :: attrs =>
      if own.1 = base then (base, own.2 ++ [value]) :: attrs else own :: pushValue attrs base value

theorem forall_pushValue {holds : String → Prop} {attrs : List (String × List String)}
    {base : String} (value : String) (all : ∀ attr ∈ attrs, holds attr.1) (here : holds base) :
    ∀ attr ∈ pushValue attrs base value, holds attr.1 := by
  induction attrs with
  | nil =>
      intro attr member
      cases List.mem_singleton.mp member
      exact here
  | cons own attrs later =>
      obtain ⟨first, rest⟩ := List.forall_mem_cons.mp all
      rw [pushValue]
      split
      · exact List.forall_mem_cons.mpr ⟨here, rest⟩
      · exact List.forall_mem_cons.mpr ⟨first, later rest⟩

structure Parsing where
  entries : List Entry
  current : Option Entry

def Parsing.finish (parsing : Parsing) : Parsing :=
  ⟨parsing.entries ++ parsing.current.toList, none⟩

theorem finish_finish (parsing : Parsing) : parsing.finish.finish = parsing.finish :=
  congrArg (Parsing.mk · none) (List.append_nil _)

/-- A line that holds an attribute or a DN. -/
def Parsing.attribute (lineNo : Nat) (name value : String) (parsing : Parsing) :
    Except LdifError Parsing :=
  if name = "dn" then .ok ⟨parsing.finish.entries, some ⟨value, []⟩⟩
  else
    match parsing.current with
    | none => .ok parsing
    | some current =>
        if name = "changetype" then
          .error ⟨"Error", "line " ++ toString lineNo ++
            ": this is an LDIF change record (changetype: " ++ value ++ "), " ++
            "not a directory dump. Export with `slapcat` or `ldapsearch -LLL` instead.", some 400⟩
        else
          let base := String.ofList (name.toList.takeWhile (· ≠ ';'))
          -- An inherited property counts as values that are there, and has no `push`.
          if (current.attrs.lookup base).isNone && inherited.contains base then
            .error ⟨"TypeError", "current.attrs[base].push is not a function", none⟩
          else
            .ok ⟨parsing.entries, some { current with attrs := pushValue current.attrs base value }⟩

def Parsing.line (lineNo : Nat) (raw : List Char) (parsing : Parsing) : Except LdifError Parsing :=
  if raw = [] then .ok parsing.finish
  else if raw.head? = some '#' then .ok parsing
  else if raw = ['-'] then .ok parsing
  else if isVersionLine raw then .ok parsing
  else
    match parseLine raw with
    | .error error =>
        .error { error with message := "line " ++ toString lineNo ++ ": " ++ error.message }
    | .ok none => .ok parsing
    | .ok (some (name, value)) => parsing.attribute lineNo (toLowerCase name) value

def parseLines : Nat → List (List Char) → Parsing → Except LdifError Parsing
  | _, [], parsing => .ok parsing
  | lineNo, raw :: lines, parsing =>
      match parsing.line lineNo raw with
      | .ok next => parseLines (lineNo + 1) lines next
      | .error error => .error error

/-- `CONTROL_CHARS` -/
def isControl (char : Char) : Bool := char.toNat ≤ 0x1f || char.toNat = 0x7f

def parseLDIF (text : Option String) : Except LdifError (List Entry) :=
  match text with
  | none => .ok []
  | some text =>
      match parseLines 1 (unfoldLines text.toList) ⟨[], none⟩ with
      | .error error => .error error
      | .ok parsing =>
          let entries := parsing.finish.entries
          match entries.find? fun entry => entry.dn.toList.any isControl with
          | some entry => .error ⟨"Error", "DN contains control characters: " ++
              String.ofList (JsonText.quote (Utf16.ofString entry.dn)), some 400⟩
          | none => .ok entries

/-- The first value, or nothing. -/
def one (entry : Entry) (name : String) : String :=
  ((entry.attrs.lookup (toLowerCase name)).bind List.head?).getD ""

def all (entry : Entry) (name : String) : List String :=
  (entry.attrs.lookup (toLowerCase name)).getD []

def objectClasses (entry : Entry) : List String :=
  (all entry "objectClass").map toLowerCase

end ThetaDirectory.Migration
