import ThetaDirectory.Library.JsMap
import ThetaDirectory.Text

/-!
# Metadata values

The JSON values a resource's metadata may hold, with the JavaScript operations
the directory applies to them.  A key that is absent reads as `null`: no modelled
function tells the two apart.
-/

namespace ThetaDirectory.Catalog

open Library

inductive Json where
  | null
  | bool (value : Bool)
  | num (value : Int)
  | str (value : String)
  | arr (items : List Json)
  | obj (fields : List (String × Json))
  deriving Repr, Inhabited

namespace Json

/-- Whether a value counts as true. -/
def isTruthy : Json → Bool
  | null => false
  | bool value => value
  | num value => value != 0
  | str value => value != ""
  | arr _ | obj _ => true

mutual

/-- The conversion `String(value)`. -/
def text : Json → String
  | null => "null"
  | bool value => if value then "true" else "false"
  | num value => toString value
  | str value => value
  | arr items => ",".intercalate (texts items)
  | obj _ => "[object Object]"

/-- The texts of list elements; an element without a value prints as nothing. -/
def texts : List Json → List String
  | [] => []
  | null :: items => "" :: texts items
  | item :: items => text item :: texts items

end

/-- The elements of a list; any other value has none. -/
def items : Json → List Json
  | arr items => items
  | _ => []

def isStr (value : Json) (wanted : String) : Bool :=
  match value with
  | str found => found == wanted
  | _ => false

def isTrue : Json → Bool
  | bool value => value
  | _ => false

/-- The text of a value that is a string. -/
def str? : Json → Option String
  | str value => some value
  | _ => none

/-- The test `value?.length > 0`. -/
def isNonempty : Json → Bool
  | arr items => !items.isEmpty
  | str value => value != ""
  | _ => false

/-- A property of an object; other values have none. -/
def get (value : Json) (key : String) : Json :=
  match value with
  | obj fields => (fields.lookup key).getD .null
  | _ => .null

/-- Set a property in a list of properties, in place where it is there. -/
def setField (fields : List (String × Json)) (key : String) (value : Json) :
    List (String × Json) :=
  if fields.any (·.1 == key) then
    fields.map fun field => if field.1 == key then (key, value) else field
  else fields ++ [(key, value)]

/-- The spread `{ ...base, ...top }` of two objects; other values add nothing. -/
def spread (base top : Json) : Json :=
  let fieldsOf : Json → List (String × Json)
    | obj fields => fields
    | _ => []
  obj ((fieldsOf top).foldl (fun fields field => setField fields field.1 field.2) (fieldsOf base))

/-- The text of a property that is a nonempty string. -/
def textAt (value : Json) (key : String) : Option String := truthy (value.get key).str?

/-- The comparison `===`; lists and objects of two rows are never one. -/
def same : Json → Json → Bool
  | null, null => true
  | bool value, bool other => value == other
  | num value, num other => value == other
  | str value, str other => value == other
  | _, _ => false

/-- The values of a list in a set: each at its first place. -/
def distinct : List Json → List Json
  | [] => []
  | value :: rest => value :: (distinct rest).filter fun other => !value.same other

/-- The method `includes` of lists and strings. -/
def includes (value : Json) (wanted : String) : Bool :=
  match value with
  | arr items => items.any fun item => item.isStr wanted
  | str found => wanted.toList <:+: found.toList
  | _ => false

theorem eq_of_same {value other : Json} (equal : value.same other = true) : value = other := by
  cases value with
  | null | bool _ | num _ | str _ =>
      cases other <;> simp_all [same]
  | arr _ | obj _ => cases equal

theorem same_congr {value other : Json} (equal : value.same other = true) (wanted : Json) :
    wanted.same value = wanted.same other := by
  rw [eq_of_same equal]

theorem distinct_eq_nil {values : List Json} : distinct values = [] ↔ values = [] := by
  cases values with
  | nil => exact Iff.rfl
  | cons value rest => exact iff_of_false (List.cons_ne_nil _ _) (List.cons_ne_nil _ _)

/-- A set has the values its list has. -/
theorem any_distinct (values : List Json) (wanted : Json) :
    (distinct values).any wanted.same = values.any wanted.same := by
  induction values with
  | nil => rfl
  | cons value rest ih =>
      rw [distinct, List.any_cons, List.any_cons, ← ih, List.any_filter]
      cases equal : wanted.same value with
      | true => rfl
      | false =>
          rw [Bool.false_or, Bool.false_or]
          congr 1
          funext other
          cases dropped : value.same other with
          | false => rfl
          | true => rw [← same_congr dropped wanted, equal, Bool.and_false]

end Json

/-- The metadata of a resource. -/
abbrev Metadata := JsMap Json

namespace Metadata

/-- Read a key. -/
def field (metadata : Metadata) (key : String) : Json := (metadata.lookup key).getD .null

/-- The text of a key that holds a nonempty string. -/
def textAt (metadata : Metadata) (key : String) : Option String := truthy (metadata.field key).str?

/-- The spread `{ ...metadata, ...top }`. -/
def spread (metadata top : Metadata) : Metadata := top ∪ metadata

theorem field_insert (metadata : Metadata) (key other : String) (value : Json) :
    field (metadata.insert key value) other =
      if other = key then value else field metadata other := by
  unfold field
  rw [JsMap.lookup_insert]
  split <;> rfl

end Metadata

end ThetaDirectory.Catalog
