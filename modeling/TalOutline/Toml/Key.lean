import TalOutline.Toml.Quoted

/-! Keys of TOML, which are bare or quoted and joined by dots. -/
namespace TalOutline.Toml

def isBareChar (c : Char) : Bool :=
  c.isAlphanum || c == '-' || c == '_'

def keyPart? : List Char → Option (String × List Char)
  | [] => none
  | c :: rest =>
    if c = '"' || c = '\x27' then lineString? c rest
    else if isBareChar c then
      some (.ofList (c :: rest.takeWhile isBareChar), rest.dropWhile isBareChar)
    else none

/-- Reads the parts of a key, at most as many as the fuel. -/
def keyParts? : Nat → List Char → Option (List String × List Char)
  | 0, _ => none
  | fuel + 1, text =>
    match keyPart? (skipSpaces text) with
    | none => none
    | some (part, rest) =>
      match skipSpaces rest with
      | '.' :: more => (keyParts? fuel more).map fun (parts, rest) => (part :: parts, rest)
      | rest => some ([part], rest)

def maxKeyParts : Nat := 79

def key? (text : List Char) : Option (List String × List Char) :=
  keyParts? maxKeyParts text

end TalOutline.Toml
