/-!
# `CommandShell.Value.Basic` — values

A value is what a text becomes once it is converted to a type, and what a command answers.

## Contents
- `Value`, with its constructors' names (`Value.kindName`) and one view for each of them.
- `Value.agrees`, equality as floating-point numbers compare.
-/

namespace CommandShell

/-- A converted argument or the answer of a command. -/
inductive Value where
  /-- An optional argument that is absent. -/
  | null
  | text (s : String)
  | int (n : Int64)
  | float (x : Float)
  | bool (b : Bool)
  | array (items : List Value)
  /-- A list of numbers of fixed length. -/
  | vector (components : List Float)

namespace Value

instance : Inhabited Value := ⟨null⟩

/-! ## Views -/

def isNull : Value → Bool
  | null => true
  | _ => false

def text? : Value → Option String
  | text s => some s
  | _ => none

def int? : Value → Option Int64
  | int n => some n
  | _ => none

/-- The floating-point number that a value holds; an integer is widened. -/
def float? : Value → Option Float
  | float x => some x
  | int n => some n.toFloat
  | _ => none

def bool? : Value → Option Bool
  | bool b => some b
  | _ => none

def array? : Value → Option (List Value)
  | array items => some items
  | _ => none

/-- The components of a vector that has exactly `size` of them. -/
def vector? (size : Nat) : Value → Option (List Float)
  | vector components => if components.length = size then some components else none
  | _ => none

/-- The kind of a value as messages name it. -/
def kindName : Value → String
  | null => "null"
  | text _ => "text"
  | int _ => "int"
  | float _ => "float"
  | bool _ => "bool"
  | array _ => "array"
  | vector _ => "vector"

/-! ## Equality -/

mutual

/-- Whether two values are of one kind and equal; floating-point numbers compare by value, so that a
    zero equals its negative and `NaN` equals nothing. -/
def agrees : Value → Value → Bool
  | null, null => true
  | text s, text t => s == t
  | int m, int n => m == n
  | float x, float y => x == y
  | bool a, bool b => a == b
  | array xs, array ys => allAgree xs ys
  | vector xs, vector ys => xs == ys
  | _, _ => false

/-- Whether two lists have equal values at equal places. -/
def allAgree : List Value → List Value → Bool
  | [], [] => true
  | x :: xs, y :: ys => agrees x y && allAgree xs ys
  | _, _ => false

end

end Value
end CommandShell
