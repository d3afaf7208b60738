/-! TOML values. A finite float is a mantissa times a power of ten, and keys keep their order. -/
namespace TalOutline.Toml

inductive Value where
  | boolean (value : Bool)
  | integer (value : Int)
  | float (mantissa exponent : Int)
  | infinite (negative : Bool)
  | nan
  | string (text : String)
  | dateTime (text : String)
  | array (elements : List Value)
  | table (entries : List (String × Value))
  deriving Repr, Inhabited

end TalOutline.Toml
