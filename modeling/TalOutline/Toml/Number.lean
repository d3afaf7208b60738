import TalOutline.Toml.Basic
import TalOutline.Toml.Quoted

/-! Numbers of TOML. -/
namespace TalOutline.Toml

/-- Reads digits after the first, with single underscores between digits. -/
def moreDigits? (isDigit : Char → Bool) : List Char → Option (List Char × List Char)
  | [] => some ([], [])
  | c :: rest =>
    if isDigit c then consRead c (moreDigits? isDigit rest)
    else if c = '_' then
      if rest.head?.any isDigit then moreDigits? isDigit rest else none
    else some ([], c :: rest)

def digits? (isDigit : Char → Bool) : List Char → Option (List Char × List Char)
  | [] => none
  | c :: rest => if isDigit c then consRead c (moreDigits? isDigit rest) else none

def ofDigits (base : Nat) (digits : List Char) : Nat :=
  digits.foldl (fun n c => base * n + (hexDigit? c).getD 0) 0

def sign : List Char → Bool × List Char
  | '+' :: rest => (false, rest)
  | '-' :: rest => (true, rest)
  | text => (false, text)

/-- Reads decimal digits where a leading zero stands alone. -/
def plainDigits? : List Char → Option (List Char × List Char)
  | '0' :: rest => some (['0'], rest)
  | text => digits? Char.isDigit text

def signed (negative : Bool) (n : Nat) : Int :=
  if negative then -n else n

def integerValue? (n : Int) : Option Value :=
  if -9223372036854775808 ≤ n ∧ n ≤ 9223372036854775807 then some (.integer n) else none

/-- Reads an integer in the base that its second letter tells, after the two letters. -/
def based? (base : Nat) (text : List Char) : Option (Value × List Char) :=
  match digits? (fun c => (hexDigit? c).any (· < base)) text with
  | none => none
  | some (ds, rest) => (integerValue? (ofDigits base ds)).map (·, rest)

def integer? : List Char → Option (Value × List Char)
  | '0' :: 'x' :: rest => based? 16 rest
  | '0' :: 'o' :: rest => based? 8 rest
  | '0' :: 'b' :: rest => based? 2 rest
  | text =>
    let (negative, rest) := sign text
    match plainDigits? rest with
    | none => none
    | some (ds, rest) => (integerValue? (signed negative (ofDigits 10 ds))).map (·, rest)

def fraction? (text : List Char) : Option (List Char × List Char) :=
  digits? Char.isDigit text

def exponent? : List Char → Option (Int × List Char)
  | [] => none
  | c :: rest =>
    if c = 'e' || c = 'E' then
      let (negative, rest) := sign rest
      (digits? Char.isDigit rest).map fun (ds, rest) => (signed negative (ofDigits 10 ds), rest)
    else none

/--
Whether a positive decimal is too large for a float of sixty-four bits. That is so from halfway
between the largest finite float and the next power of two on.
-/
def overflows (mantissa : Nat) (exponent : Int) : Bool :=
  let digits : Int := (Nat.toDigits 10 mantissa).length
  if mantissa = 0 || digits + exponent ≤ 308 then false
  else if 310 < digits + exponent then true
  else
    let limit := Nat.pow 2 1024 - Nat.pow 2 970
    if 0 ≤ exponent then limit ≤ mantissa * Nat.pow 10 exponent.toNat
    else limit * Nat.pow 10 (-exponent).toNat ≤ mantissa

/-- The value of a float. A negative one may be too large, a positive one may not. -/
def floatValue? (negative : Bool) (mantissa : Nat) (exponent : Int) : Option Value :=
  if overflows mantissa exponent then
    if negative then some (.infinite true) else none
  else some (.float (signed negative mantissa) exponent)

def decimal? (text : List Char) : Option (Value × List Char) :=
  let (negative, rest) := sign text
  match plainDigits? rest with
  | none => none
  | some (whole, '.' :: rest) =>
    match fraction? rest with
    | none => none
    | some (part, rest) =>
      let (e, rest) := (exponent? rest).getD (0, rest)
      (floatValue? negative (ofDigits 10 (whole ++ part)) (e - part.length)).map (·, rest)
  | some (whole, rest) =>
    match exponent? rest with
    | none => none
    | some (e, rest) => (floatValue? negative (ofDigits 10 whole) e).map (·, rest)

def special? (text : List Char) : Option (Value × List Char) :=
  let (negative, rest) := sign text
  match rest with
  | 'i' :: 'n' :: 'f' :: rest => some (.infinite negative, rest)
  | 'n' :: 'a' :: 'n' :: rest => some (.nan, rest)
  | _ => none

def number? (text : List Char) : Option (Value × List Char) :=
  (decimal? text).or ((special? text).or (integer? text))

end TalOutline.Toml
