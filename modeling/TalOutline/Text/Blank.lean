/-! White space, as the Unicode property `White_Space` has it. -/
namespace TalOutline.Text

/-- The twenty-five white-space characters. -/
def blanks : List Char :=
  [' ', '\t', '\n', '\r', '\x0b', '\x0c', '\u0085', '\u00a0', '\u1680', '\u2000', '\u2001',
    '\u2002', '\u2003', '\u2004', '\u2005', '\u2006', '\u2007', '\u2008', '\u2009', '\u200a',
    '\u2028', '\u2029', '\u202f', '\u205f', '\u3000']

def isBlank (c : Char) : Bool :=
  blanks.contains c

theorem isBlank_iff {c : Char} : isBlank c = true ↔ c ∈ blanks :=
  List.contains_iff_mem

def trimStart (text : List Char) : List Char :=
  text.dropWhile isBlank

def trimEnd (text : List Char) : List Char :=
  (text.reverse.dropWhile isBlank).reverse

/-- Past a run of white space, which must not be empty. -/
def skipBlanks? : List Char → Option (List Char)
  | [] => none
  | c :: rest => if isBlank c then some (trimStart rest) else none

end TalOutline.Text
