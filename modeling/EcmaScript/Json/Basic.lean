import EcmaScript.Number.Double

/-!
# JSON values

JSON values as they are written: the members of an object keep their order, and a number
is either an integer or a double.
-/

namespace EcmaScript

/-- A JSON value. -/
inductive Json where
  | null
  | bool (b : Bool)
  /-- A number written without fraction and exponent. -/
  | integer (n : Int)
  /-- Any other finite number. -/
  | double (x : Double)
  | string (s : String)
  | array (items : List Json)
  /-- The members in the order in which they are written. -/
  | object (members : List (String × Json))
deriving Repr, Inhabited

namespace Json

/-- A natural number as a JSON integer. -/
def ofNat (n : Nat) : Json := integer n

/-- A value that may be absent, as `null` when it is. -/
def ofOption {α : Type} (encode : α → Json) : Option α → Json
  | none => null
  | some a => encode a

end Json

end EcmaScript
