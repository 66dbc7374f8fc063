import ThetaDirectory.Migration.Ldif

/-!
# Renderings of entries

The content records of LDIF: how a list of entries may be written, line by line, and how the lines
may be folded.
-/

namespace ThetaDirectory.Migration

open Library

/-! ## Folding -/

inductive LineEnd where
  | lf
  | crlf
  deriving DecidableEq

def LineEnd.text : LineEnd → List Char
  | .lf => ['\n']
  | .crlf => ['\r', '\n']

/-- A line as it stands in the text: a first piece, and further ones behind a line end and a
space. -/
structure Folded where
  first : List Char
  rest : List (LineEnd × List Char)
  last : LineEnd
  started : first = [] → rest = []

def Folded.line (folded : Folded) : List Char := folded.first ++ folded.rest.flatMap Prod.snd

def Folded.text (folded : Folded) : List Char :=
  folded.first ++ folded.rest.flatMap (fun (fold, piece) => fold.text ++ ' ' :: piece) ++
    folded.last.text

/-! ## Values -/

/-- `SAFE-STRING` -/
structure IsSafe (text : List Char) : Prop where
  all : ∀ char ∈ text, char.toNat ≤ 127 ∧ char ≠ Char.ofNat 0 ∧ char ≠ '\n' ∧ char ≠ '\r'
  first : ∀ char ∈ text.head?, char ≠ ' ' ∧ char ≠ ':' ∧ char ≠ '<'

/-- How a value is written, with the number of spaces in front of it. -/
inductive Encoding where
  | plain (fill : Nat)
  | base64 (fill : Nat)
  deriving DecidableEq

/-- What stands behind the name. -/
def Encoding.write : Encoding → String → List Char
  | .plain fill, value => ':' :: (List.replicate fill ' ' ++ value.toList)
  | .base64 fill, value =>
      ':' :: ':' :: (List.replicate fill ' ' ++
        Octets.base64Encode (Octets.utf8Encode value.toList))

def Encoding.Allowed : Encoding → String → Prop
  | .plain _, value => IsSafe value.toList
  | .base64 _, _ => True

/-! ## Lines -/

/-- The characters of attribute types. -/
def isTypeChar (char : Char) : Bool := char.isAlphanum || char == '-'

/-- An attribute name without options, in any case. -/
def IsName (base : List Char) : Prop :=
  base ≠ [] ∧ ∀ char ∈ base, isTypeChar char = true ∨ char = '.'

structure AttrLine where
  base : List Char
  options : List (List Char)
  encoding : Encoding
  value : String
  named : IsName base
  optioned : ∀ option ∈ options, option ≠ [] ∧ ∀ char ∈ option, isTypeChar char = true
  allowed : encoding.Allowed value

/-- The attribute that the line is about. -/
def AttrLine.key (line : AttrLine) : String := toLowerCase (String.ofList line.base)

/-- The name with its options. -/
def AttrLine.name (line : AttrLine) : List Char :=
  line.base ++ line.options.flatMap fun option => ';' :: option

def AttrLine.text (line : AttrLine) : List Char := line.name ++ line.encoding.write line.value

structure DnLine where
  keyword : List Char
  encoding : Encoding
  dn : String
  isDn : keyword.map Char.toLower = ['d', 'n']
  allowed : encoding.Allowed dn

def DnLine.text (line : DnLine) : List Char := line.keyword ++ line.encoding.write line.dn

structure Comment where
  text : List Char
  oneLine : ∀ char ∈ text, char ≠ '\n' ∧ char ≠ '\r'

structure VersionLine where
  keyword : List Char
  fill : Nat
  number : List Char
  isVersion : keyword.map Char.toLower = "version".toList
  isNumber : number ≠ [] ∧ ∀ char ∈ number, char.isDigit = true

def VersionLine.text (line : VersionLine) : List Char :=
  line.keyword ++ ':' :: (List.replicate line.fill ' ' ++ line.number)

/-- Between records there are comments and empty lines. -/
inductive Gap where
  | empty
  | comment (comment : Comment)

def Gap.text : Gap → List Char
  | .empty => []
  | .comment remark => '#' :: remark.text

inductive BodyLine where
  | comment (comment : Comment)
  | attr (line : AttrLine)

def BodyLine.text : BodyLine → List Char
  | .comment remark => '#' :: remark.text
  | .attr line => line.text

def BodyLine.attr? : BodyLine → Option AttrLine
  | .comment _ => none
  | .attr line => some line

/-! ## Records -/

/-- A record with the lines behind it. -/
structure Record where
  dn : DnLine
  body : List BodyLine
  gap : List Gap

def Record.attrLines (record : Record) : List AttrLine := record.body.filterMap BodyLine.attr?

def Record.lines (record : Record) : List (List Char) :=
  record.dn.text :: record.body.map BodyLine.text ++ record.gap.map Gap.text

structure Document where
  head : List Gap
  version : Option VersionLine
  gap : List Gap
  records : List Record

def Document.lines (document : Document) : List (List Char) :=
  document.head.map Gap.text ++ document.version.toList.map VersionLine.text ++
    document.gap.map Gap.text ++ document.records.flatMap Record.lines

/-- The entries that can be written. -/
structure Entry.Valid (entry : Entry) : Prop where
  dn : ∀ char ∈ entry.dn.toList, isControl char = false
  distinct : (entry.attrs.map Prod.fst).Nodup
  reserved : ∀ attr ∈ entry.attrs, attr.1 ≠ "dn" ∧ attr.1 ≠ "changetype"
  values : ∀ attr ∈ entry.attrs, attr.2 ≠ []

/-- The values that the lines give an attribute, in their order. -/
def valuesOf (key : String) (lines : List AttrLine) : List String :=
  (lines.filter (·.key = key)).map AttrLine.value

structure Record.Renders (record : Record) (entry : Entry) : Prop where
  dn : record.dn.dn = entry.dn
  known : ∀ line ∈ record.attrLines, line.key ∈ entry.attrs.map Prod.fst
  values : ∀ attr ∈ entry.attrs, valuesOf attr.1 record.attrLines = attr.2

def Document.Renders (document : Document) (entries : List Entry) : Prop :=
  List.Forall₂ Record.Renders document.records entries

/-- The text of a document, folded line by line. -/
structure Document.Text (document : Document) (text : String) : Prop where
  folds : ∃ layout : List Folded, layout.map Folded.line = document.lines ∧
    text.toList = layout.flatMap Folded.text

/-- The same DN and, in whatever order of attributes, the same values. -/
structure Entry.Same (read entry : Entry) : Prop where
  dn : read.dn = entry.dn
  attrs : ∀ name, read.attrs.lookup name = entry.attrs.lookup name

end ThetaDirectory.Migration
