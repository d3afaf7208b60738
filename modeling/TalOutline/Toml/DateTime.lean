import TalOutline.Toml.Basic
import TalOutline.Toml.Number

/-! Dates and times of TOML. -/
namespace TalOutline.Toml

/-- Reads a number of exactly so many digits that lies between two bounds. -/
def fixedDigits? (count low high : Nat) (text : List Char) : Option (Nat × List Char) :=
  let ds := text.take count
  let n := ofDigits 10 ds
  if ds.length = count && ds.all Char.isDigit && low ≤ n && n ≤ high then some (n, text.drop count)
  else none

def expect? (c : Char) : List Char → Option (List Char)
  | [] => none
  | d :: rest => if d = c then some rest else none

def daysIn (year month : Nat) : Nat :=
  if month = 2 then
    if year % 4 = 0 && (year % 100 != 0 || year % 400 = 0) then 29 else 28
  else if month = 4 || month = 6 || month = 9 || month = 11 then 30
  else 31

def skipDate? (text : List Char) : Option (List Char) := do
  let (year, text) ← fixedDigits? 4 0 9999 text
  let text ← expect? '-' text
  let (month, text) ← fixedDigits? 2 1 12 text
  let text ← expect? '-' text
  let (_, text) ← fixedDigits? 2 1 (daysIn year month) text
  return text

def skipFraction : List Char → List Char
  | '.' :: c :: rest => if c.isDigit then rest.dropWhile Char.isDigit else '.' :: c :: rest
  | text => text

/-- Past a time of day. A minute may have a sixtieth second. -/
def skipTime? (text : List Char) : Option (List Char) := do
  let (_, text) ← fixedDigits? 2 0 23 text
  let text ← expect? ':' text
  let (_, text) ← fixedDigits? 2 0 59 text
  let text ← expect? ':' text
  let (_, text) ← fixedDigits? 2 0 60 text
  return skipFraction text

def skipHours? (text : List Char) : Option (List Char) := do
  let (_, text) ← fixedDigits? 2 0 23 text
  let text ← expect? ':' text
  let (_, text) ← fixedDigits? 2 0 59 text
  return text

def skipOffset? : List Char → Option (List Char)
  | [] => some []
  | c :: rest =>
    if c = 'Z' || c = 'z' then some rest
    else if c = '+' || c = '-' then skipHours? rest
    else some (c :: rest)

/-- Past the time after a date, if there is one. -/
def skipTimeOfDay? : List Char → Option (List Char)
  | [] => some []
  | c :: rest =>
    if c = 'T' || c = 't' || c = ' ' then
      match skipTime? rest with
      | some rest => skipOffset? rest
      | none => some (c :: rest)
    else some (c :: rest)

def dateTime? (text : List Char) : Option (Value × List Char) :=
  (((skipDate? text).bind skipTimeOfDay?).or (skipTime? text)).map fun rest =>
    (.dateTime (.ofList (text.take (text.length - rest.length))), rest)

end TalOutline.Toml
