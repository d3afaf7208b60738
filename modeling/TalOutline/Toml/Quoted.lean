import TalOutline.Toml.Blank

/-!
Quoted strings of TOML. A reader takes the text after the opening quotes and gives the string with
the text after the closing ones.
-/
namespace TalOutline.Toml

def hexDigit? (c : Char) : Option Nat :=
  if c.isDigit then some (c.toNat - '0'.toNat)
  else if 'a' ≤ c && c ≤ 'f' then some (c.toNat - 'a'.toNat + 10)
  else if 'A' ≤ c && c ≤ 'F' then some (c.toNat - 'A'.toNat + 10)
  else none

def codePoint? (count : Nat) (digits : List Char) : Option Char :=
  if digits.length = count then
    match digits.mapM hexDigit? with
    | none => none
    | some ds =>
      let n := ds.foldl (fun n d => 16 * n + d) 0
      if n.isValidChar then some (Char.ofNat n) else none
  else none

/-- The character that an escape after its backslash stands for, and how long it is. -/
def escape? : List Char → Option (Char × Nat)
  | [] => none
  | c :: rest =>
    match c with
    | 'b' => some ('\x08', 1)
    | 'f' => some ('\x0c', 1)
    | 'n' => some ('\n', 1)
    | 'r' => some ('\r', 1)
    | 't' => some ('\t', 1)
    | '\\' => some ('\\', 1)
    | '"' => some ('"', 1)
    | 'u' => (codePoint? 4 (rest.take 4)).map (·, 5)
    | 'U' => (codePoint? 8 (rest.take 8)).map (·, 9)
    | _ => none

def consRead (c : Char) (read : Option (List Char × List Char)) : Option (List Char × List Char) :=
  read.map fun (text, rest) => (c :: text, rest)

/-- Reads a string on one line, after passing over characters that an escape has taken. -/
def singleLine (quote : Char) (escapes : Bool) (skip : Nat) :
    List Char → Option (List Char × List Char)
  | [] => none
  | c :: rest =>
    match skip with
    | k + 1 => singleLine quote escapes k rest
    | 0 =>
      if c = quote then some ([], rest)
      else if escapes && c == '\\' then
        match escape? rest with
        | none => none
        | some (x, k) => consRead x (singleLine quote escapes k rest)
      else if isTextChar c then consRead c (singleLine quote escapes 0 rest)
      else none

/-- How long a backslash at the end of a line is, with the white space that it takes along. -/
def lineBreak? (text : List Char) : Option Nat :=
  (newline? (skipSpaces text)).map fun rest => text.length - (skipBlankLines rest).length

/--
Reads a string over several lines, after passing over characters already taken. One or two quotes
are part of the string; three end it, and up to two more in front of these are part of it.
-/
def multiLine (quote : Char) (escapes : Bool) (skip : Nat) :
    List Char → Option (List Char × List Char)
  | [] => none
  | c :: rest =>
    match skip with
    | k + 1 => multiLine quote escapes k rest
    | 0 =>
      if c = quote then
        let run := ((c :: rest).takeWhile (· == quote)).length
        if run < 3 then consRead c (multiLine quote escapes 0 rest)
        else
          let extra := min (run - 3) 2
          some (List.replicate extra quote, rest.drop (extra + 2))
      else if escapes && c == '\\' then
        match lineBreak? rest with
        | some k => multiLine quote escapes k rest
        | none =>
          match escape? rest with
          | none => none
          | some (x, k) => consRead x (multiLine quote escapes k rest)
      else if c = '\n' then consRead '\n' (multiLine quote escapes 0 rest)
      else if c = '\r' && rest.head? == some '\n' then
        consRead '\n' (multiLine quote escapes 1 rest)
      else if isTextChar c then consRead c (multiLine quote escapes 0 rest)
      else none

def lineString? (quote : Char) (text : List Char) : Option (String × List Char) :=
  (singleLine quote (quote == '"') 0 text).map fun (s, rest) => (.ofList s, rest)

def textString? (quote : Char) (text : List Char) : Option (String × List Char) :=
  (multiLine quote (quote == '"') 0 ((newline? text).getD text)).map fun (s, rest) =>
    (.ofList s, rest)

def string? (quote : Char) (text : List Char) : Option (String × List Char) :=
  match text with
  | a :: b :: rest => if a = quote && b = quote then textString? quote rest else lineString? quote text
  | _ => lineString? quote text

end TalOutline.Toml
