import TalOutline.Json.Basic
import TalOutline.Toml.Quoted

/-!
The grammar of JSON texts. A value is a literal, a number, a string, or values in brackets with commas
between them, and white space may stand between these. The grammar says how a value may be written, not
how it is read.
-/
namespace TalOutline.Json

def isSpace (c : Char) : Bool :=
  c == ' ' || c == '\t' || c == '\n' || c == '\r'

def Space (gap : List Char) : Prop :=
  ∀ c ∈ gap, isSpace c = true

def decimal (digits : List Char) : Nat :=
  Nat.ofDigitChars 10 digits 0

def AllDigits (digits : List Char) : Prop :=
  ∀ c ∈ digits, c.isDigit = true

/-- The digits before the point: a zero stands alone. -/
inductive WholePart : List Char → Prop
  | zero : WholePart ['0']
  | positive {d : Char} {ds : List Char} (digit : d.isDigit = true) (ne_zero : d ≠ '0')
    (digits : AllDigits ds) : WholePart (d :: ds)

inductive FractionPart : List Char → List Char → Prop
  | absent : FractionPart [] []
  | present {ds : List Char} (digits : AllDigits ds) (ne_nil : ds ≠ []) : FractionPart ds ('.' :: ds)

inductive SignedDigits : Int → List Char → Prop
  | bare {ds : List Char} (digits : AllDigits ds) (ne_nil : ds ≠ []) : SignedDigits (decimal ds) ds
  | plus {ds : List Char} (digits : AllDigits ds) (ne_nil : ds ≠ []) :
    SignedDigits (decimal ds) ('+' :: ds)
  | minus {ds : List Char} (digits : AllDigits ds) (ne_nil : ds ≠ []) :
    SignedDigits (-decimal ds) ('-' :: ds)

inductive ExponentPart : Int → List Char → Prop
  | absent : ExponentPart 0 []
  | present {e : Int} {mark : Char} {s : List Char} (mark_eq : mark = 'e' ∨ mark = 'E')
    (digits : SignedDigits e s) : ExponentPart e (mark :: s)

/-- A number without a sign. The digits behind the point count for the mantissa. -/
inductive Magnitude : Nat → Int → List Char → Prop
  | mk {whole fraction s t : List Char} {e : Int} (wholePart : WholePart whole)
    (fractionPart : FractionPart fraction s) (exponentPart : ExponentPart e t) :
    Magnitude (decimal (whole ++ fraction)) (e - fraction.length) (whole ++ (s ++ t))

inductive Numeral : Int → Int → List Char → Prop
  | plain {m : Nat} {e : Int} {s : List Char} (magnitude : Magnitude m e s) : Numeral m e s
  | minus {m : Nat} {e : Int} {s : List Char} (magnitude : Magnitude m e s) : Numeral (-m) e ('-' :: s)

def shortEscapes : List (Char × Char) :=
  [('"', '"'), ('\\', '\\'), ('/', '/'), ('b', '\x08'), ('f', '\x0c'), ('n', '\n'), ('r', '\r'),
    ('t', '\t')]

/-- The code unit that four hexadecimal digits stand for. -/
def hexUnit? : List Char → Option Nat
  | [a, b, c, d] => do
    let a ← Toml.hexDigit? a
    let b ← Toml.hexDigit? b
    let c ← Toml.hexDigit? c
    let d ← Toml.hexDigit? d
    return ((a * 16 + b) * 16 + c) * 16 + d
  | _ => none

/-- A code unit that is the first half of a character beyond the basic plane. -/
def isHigh (n : Nat) : Bool :=
  0xD800 ≤ n && n < 0xDC00

def isLow (n : Nat) : Bool :=
  0xDC00 ≤ n && n < 0xE000

def ofHalves (high low : Nat) : Char :=
  .ofNat (0x10000 + (high - 0xD800) * 0x400 + (low - 0xDC00))

/-- A character of a string as it is written there: as itself or behind a backslash. -/
inductive Written : Char → List Char → Prop
  | plain {c : Char} (visible : 0x20 ≤ c.toNat) (ne_quote : c ≠ '"') (ne_backslash : c ≠ '\\') :
    Written c [c]
  | short {c letter : Char} (mem : (letter, c) ∈ shortEscapes) : Written c ['\\', letter]
  | unit {digits : List Char} {n : Nat} (hex : hexUnit? digits = some n) (not_high : isHigh n = false)
    (not_low : isLow n = false) : Written (.ofNat n) ('\\' :: 'u' :: digits)
  | halves {digits digits' : List Char} {high low : Nat} (hex : hexUnit? digits = some high)
    (isHigh : isHigh high = true) (hex' : hexUnit? digits' = some low) (isLow : isLow low = true) :
    Written (ofHalves high low) ('\\' :: 'u' :: (digits ++ '\\' :: 'u' :: digits'))

inductive AllWritten : List Char → List Char → Prop
  | nil : AllWritten [] []
  | cons {c : Char} {cs s t : List Char} (first : Written c s) (more : AllWritten cs t) :
    AllWritten (c :: cs) (s ++ t)

inductive Quoted : String → List Char → Prop
  | mk {cs s : List Char} (written : AllWritten cs s) : Quoted (.ofList cs) ('"' :: (s ++ ['"']))

section Enclosed

variable {α : Type} (Item : α → List Char → Prop) (close : Char)

/-- One item or more with commas between them, up to the closing bracket. -/
inductive Items : List α → List Char → Prop
  | last {a : α} {s gap : List Char} (item : Item a s) (space : Space gap) :
    Items [a] (s ++ (gap ++ [close]))
  | cons {a : α} {as : List α} {s before after rest : List Char} (item : Item a s)
    (space_before : Space before) (space_after : Space after) (items : Items as rest) :
    Items (a :: as) (s ++ (before ++ ',' :: (after ++ rest)))

/-- What stands behind an opening bracket: perhaps items, and the closing one. -/
inductive Enclosed : List α → List Char → Prop
  | empty {gap : List Char} (space : Space gap) : Enclosed [] (gap ++ [close])
  | items {gap s : List Char} {as : List α} (space : Space gap) (items : Items Item close as s) :
    Enclosed as (gap ++ s)

end Enclosed

inductive Member (Value : Json → List Char → Prop) : String × Json → List Char → Prop
  | mk {key : String} {v : Json} {k s before after : List Char} (quoted : Quoted key k)
    (space_before : Space before) (space_after : Space after) (value : Value v s) :
    Member Value (key, v) (k ++ (before ++ ':' :: (after ++ s)))

inductive Value : Json → List Char → Prop
  | null : Value .null ['n', 'u', 'l', 'l']
  | isTrue : Value (.bool true) ['t', 'r', 'u', 'e']
  | isFalse : Value (.bool false) ['f', 'a', 'l', 's', 'e']
  | number {m e : Int} {s : List Char} (numeral : Numeral m e s) : Value (.number m e) s
  | string {text : String} {s : List Char} (quoted : Quoted text s) : Value (.string text) s
  | array {vs : List Json} {s : List Char} (enclosed : Enclosed Value ']' vs s) :
    Value (.array vs) ('[' :: s)
  | object {members : List (String × Json)} {s : List Char}
    (enclosed : Enclosed (Member Value) '\x7d' members s) : Value (.object members) ('\x7b' :: s)

/-- A whole text: a value, perhaps with white space around it. -/
inductive Text (v : Json) : List Char → Prop
  | mk {before s after : List Char} (space_before : Space before) (value : Value v s)
    (space_after : Space after) : Text v (before ++ (s ++ after))

end TalOutline.Json
