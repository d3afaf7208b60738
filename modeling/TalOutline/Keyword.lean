import TalOutline.Text.Letter
import TalOutline.Text.Word

/-!
Structural keywords. A keyword is live where it is a whole word, has no caret on either side and
stands outside string literals, which is told by the number of quotes that follow it.
-/
namespace TalOutline

open Text

inductive Keyword where
  | blockBegin
  | blockEnd
  | proc
  | subproc
  | forward
  | external
  deriving DecidableEq, Repr

namespace Keyword

def all : List Keyword :=
  [.blockBegin, .blockEnd, .proc, .subproc, .forward, .external]

def letters : Keyword → List Char
  | .blockBegin => ['b', 'e', 'g', 'i', 'n']
  | .blockEnd => ['e', 'n', 'd']
  | .proc => ['p', 'r', 'o', 'c']
  | .subproc => ['s', 'u', 'b', 'p', 'r', 'o', 'c']
  | .forward => ['f', 'o', 'r', 'w', 'a', 'r', 'd']
  | .external => ['e', 'x', 't', 'e', 'r', 'n', 'a', 'l']

def text (k : Keyword) : String :=
  String.ofList k.letters

/-- The keyword that a word spells, up to the case of ASCII letters. -/
def ofWord? (word : List Char) : Option Keyword :=
  all.find? fun k => sameAsciiCase k.letters word

def isBlock (k : Keyword) : Bool :=
  k == .blockBegin || k == .blockEnd

end Keyword

inductive Linkage where
  | forward
  | external
  deriving DecidableEq, Repr

def Linkage.text : Linkage → String
  | .forward => "forward"
  | .external => "external"

def Keyword.linkage? : Keyword → Option Linkage
  | .forward => some .forward
  | .external => some .external
  | _ => none

/-- The number of double quotes is even. -/
def evenQuotes (text : List Char) : Bool :=
  text.count '"' % 2 == 0

/-- The live keyword that starts the text, whose preceding character is given. -/
def liveKeyword? (before : Option Char) (text : List Char) : Option Keyword :=
  if before.any isWord || before == some '^' then none
  else
    let after := text.dropWhile isWord
    match Keyword.ofWord? (text.takeWhile isWord) with
    | none => none
    | some k => if after.head? == some '^' || !evenQuotes after then none else some k

/-- The live keywords of a text that stands after the given character. -/
def keywordsAfter (before : Option Char) : List Char → List Keyword
  | [] => []
  | c :: rest => (liveKeyword? before (c :: rest)).toList ++ keywordsAfter (some c) rest

def keywords (code : List Char) : List Keyword :=
  keywordsAfter none code

def blockKeywords (code : List Char) : List Keyword :=
  (keywords code).filter Keyword.isBlock

def begins (code : List Char) : Nat :=
  (keywords code).count .blockBegin

def ends (code : List Char) : Nat :=
  (keywords code).count .blockEnd

/-- The linkage that the first live `forward` or `external` tells. -/
def linkage? (code : List Char) : Option Linkage :=
  (keywords code).findSome? Keyword.linkage?

end TalOutline
