/-
Plain data, as tools exchange it: numbers, texts, lists and objects. A
structure is written as an object of its fields, and can be read from
that or from a list of its fields in order.
-/
namespace TypeParams

inductive Datum where
  | null
  | bool (value : Bool)
  | int (value : Int)
  /-- A number that is not written as an integer, as it is written. -/
  | decimal (text : String)
  | text (value : String)
  | list (items : List Datum)
  /-- Fields by name. Of fields with one name the first counts. -/
  | object (fields : List (String × Datum))

namespace Datum

def ofNat (n : Nat) : Datum := .int n

def ofTexts (texts : List String) : Datum := .list (texts.map .text)

def ofOption {α : Type} (encode : α → Datum) : Option α → Datum
  | none => .null
  | some a => encode a

-- ============================================================ reading

/-- A number from zero up to, and not including, the limit. -/
def nat? (limit : Nat) : Datum → Option Nat
  | .int value =>
      if 0 ≤ value ∧ value < limit then some value.toNat else none
  | _ => none

def text? : Datum → Option String
  | .text value => some value
  | _ => none

def list? : Datum → Option (List Datum)
  | .list items => some items
  | _ => none

def field? (name : String) : Datum → Option Datum
  | .object fields => (fields.find? (·.1 == name)).map (·.2)
  | _ => none

/-- The fields of a structure, in the given order. An object may lack
some and have others; a list has to be of just these. -/
def structure? (names : List String) : Datum → Option (List (Option Datum))
  | .object fields =>
      some (names.map fun name => field? name (.object fields))
  | .list items =>
      if items.length = names.length then some (items.map some) else none
  | _ => none

/-- A field that may be missing or null. -/
def optional? {α : Type} (decode : Datum → Option α) :
    Option Datum → Option (Option α)
  | none | some .null => some none
  | some datum => (decode datum).map some

end Datum

end TypeParams
