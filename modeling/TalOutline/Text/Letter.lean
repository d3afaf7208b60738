/-! Letters up to case, fixed words and names. -/
namespace TalOutline.Text

/--
The lower-case ASCII letter a character folds to, or the character itself. Long s and the Kelvin
sign are the only characters outside ASCII whose simple case folding is an ASCII letter.
-/
def foldCase (c : Char) : Char :=
  if c = '\u017f' then 's' else if c = '\u212a' then 'k' else c.toLower

def isLetter (c : Char) : Bool :=
  (foldCase c).isLower

def isNameStart (c : Char) : Bool :=
  isLetter c || c == '^' || c == '_'

def isNameChar (c : Char) : Bool :=
  isNameStart c || c.isDigit

/-- Past a fixed lower-case word, written in any case. -/
def skipWord? : List Char → List Char → Option (List Char)
  | [], text => some text
  | _ :: _, [] => none
  | w :: word, c :: text => if foldCase c = w then skipWord? word text else none

/-- The first of several fixed words that the text starts with, and what follows it. -/
def skipOneOf? (words : List (List Char)) (text : List Char) : Option (List Char) :=
  words.findSome? (skipWord? · text)

def name? : List Char → Option (List Char)
  | [] => none
  | c :: rest => if isNameStart c then some (c :: rest.takeWhile isNameChar) else none

def skipName? : List Char → Option (List Char)
  | [] => none
  | c :: rest => if isNameStart c then some (rest.dropWhile isNameChar) else none

def sameAsciiCase (a b : List Char) : Bool :=
  a.map Char.toLower == b.map Char.toLower

end TalOutline.Text
