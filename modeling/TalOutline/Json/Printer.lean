import TalOutline.Json.Basic

/-! JSON text over several lines, each level indented by two spaces. -/
namespace TalOutline.Json

/-- The escape of a control character that has no letter of its own. -/
def hexEscape (c : Char) : List Char :=
  ['\\', 'u', '0', '0', Nat.digitChar (c.toNat / 16), Nat.digitChar (c.toNat % 16)]

def escapeChar (c : Char) : List Char :=
  if c = '"' then ['\\', '"']
  else if c = '\\' then ['\\', '\\']
  else if c.toNat = 8 then ['\\', 'b']
  else if c.toNat = 9 then ['\\', 't']
  else if c.toNat = 10 then ['\\', 'n']
  else if c.toNat = 12 then ['\\', 'f']
  else if c.toNat = 13 then ['\\', 'r']
  else if c.toNat < 0x20 then hexEscape c
  else [c]

def quote (text : String) : List Char :=
  '"' :: text.toList.flatMap escapeChar ++ ['"']

def intChars : Int → List Char
  | .ofNat n => Nat.toDigits 10 n
  | .negSucc n => '-' :: Nat.toDigits 10 (n + 1)

def numberChars (mantissa exponent : Int) : List Char :=
  if exponent = 0 then intChars mantissa else intChars mantissa ++ 'e' :: intChars exponent

def newline (level : Nat) : List Char :=
  '\n' :: List.replicate (2 * level) ' '

mutual

/-- The text of a value that stands at a level of nesting. -/
def pretty (level : Nat) : Json → List Char
  | .null => ['n', 'u', 'l', 'l']
  | .bool true => ['t', 'r', 'u', 'e']
  | .bool false => ['f', 'a', 'l', 's', 'e']
  | .number mantissa exponent => numberChars mantissa exponent
  | .string text => quote text
  | .array [] => ['[', ']']
  | .array (v :: vs) =>
    '[' :: newline (level + 1) ++ pretty (level + 1) v ++ prettyElements (level + 1) vs ++
      newline level ++ [']']
  | .object [] => ['\x7b', '\x7d']
  | .object ((key, v) :: members) =>
    '\x7b' :: newline (level + 1) ++ quote key ++ [':', ' '] ++ pretty (level + 1) v ++
      prettyMembers (level + 1) members ++ newline level ++ ['\x7d']

def prettyElements (level : Nat) : List Json → List Char
  | [] => []
  | v :: vs => ',' :: newline level ++ pretty level v ++ prettyElements level vs

def prettyMembers (level : Nat) : List (String × Json) → List Char
  | [] => []
  | (key, v) :: members =>
    ',' :: newline level ++ quote key ++ [':', ' '] ++ pretty level v ++ prettyMembers level members

end

end TalOutline.Json
