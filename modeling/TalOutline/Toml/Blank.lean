/-! Spaces, newlines and comments of TOML. -/
namespace TalOutline.Toml

def isSpace (c : Char) : Bool :=
  c == ' ' || c == '\t'

/-- What a comment or a string can hold: tabs, printable ASCII and all that is not ASCII. -/
def isTextChar (c : Char) : Bool :=
  c == '\t' || (0x20 ≤ c.toNat && c.toNat ≤ 0x7E) || 0x80 ≤ c.toNat

def skipSpaces (text : List Char) : List Char :=
  text.dropWhile isSpace

def newline? : List Char → Option (List Char)
  | '\n' :: rest => some rest
  | '\r' :: '\n' :: rest => some rest
  | _ => none

def skipComment : List Char → List Char
  | '#' :: rest => rest.dropWhile isTextChar
  | text => text

/-- Past what may follow on a line: white space, a comment, and the newline unless the text ends. -/
def lineEnd? (text : List Char) : Option (List Char) :=
  match skipComment (skipSpaces text) with
  | [] => some []
  | rest => newline? rest

def skipBlankLines : List Char → List Char
  | [] => []
  | c :: rest =>
    if isSpace c || c == '\n' || (c == '\r' && rest.head? == some '\n') then skipBlankLines rest
    else c :: rest

/-- Past white space, newlines and comments. The flag tells whether the text begins in a comment. -/
def skipGap (inComment : Bool) : List Char → List Char
  | [] => []
  | c :: rest =>
    if inComment && isTextChar c then skipGap true rest
    else if isSpace c || c == '\n' || (c == '\r' && rest.head? == some '\n') then skipGap false rest
    else if c == '#' then skipGap true rest
    else c :: rest

end TalOutline.Toml
