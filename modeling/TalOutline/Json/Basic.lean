/-! JSON values. -/
namespace TalOutline

/-- A JSON value. A number is a mantissa times a power of ten, and members keep their order. -/
inductive Json where
  | null
  | bool (value : Bool)
  | number (mantissa exponent : Int)
  | string (text : String)
  | array (elements : List Json)
  | object (members : List (String × Json))
  deriving Repr, Inhabited

namespace Json

def nat (n : Nat) : Json := .number n 0

def member? (members : List (String × Json)) (key : String) : Option Json :=
  members.lookup key

end Json

end TalOutline
