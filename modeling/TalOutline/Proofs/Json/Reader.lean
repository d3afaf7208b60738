import TalOutline.Proofs.Json.Grammar
import TalOutline.Proofs.Text.Split

/-!
A reader of JSON texts. It takes each part as far as it goes, and reads every text that is written by the
grammar as the value that it is written for. So no text is written for two values.
-/
namespace TalOutline.Json

/-! Each part of the reader gives what it has read and the text behind it. -/

def skipSpace (text : List Char) : List Char :=
  text.dropWhile isSpace

/-- Reads digits, at least one. -/
def digits? (text : List Char) : Option (List Char × List Char) :=
  if text.head?.any Char.isDigit then
    some (text.takeWhile Char.isDigit, text.dropWhile Char.isDigit)
  else none

def signedDigits? : List Char → Option (Int × List Char)
  | [] => none
  | c :: rest =>
    if c = '+' then (digits? rest).map fun (ds, rest) => (decimal ds, rest)
    else if c = '-' then (digits? rest).map fun (ds, rest) => (-decimal ds, rest)
    else (digits? (c :: rest)).map fun (ds, rest) => (decimal ds, rest)

def wholePart? (text : List Char) : Option (List Char × List Char) :=
  match digits? text with
  | none => none
  | some (ds, rest) => if ds.head? = some '0' && ds != ['0'] then none else some (ds, rest)

def fractionPart? : List Char → Option (List Char × List Char)
  | [] => some ([], [])
  | c :: rest => if c = '.' then digits? rest else some ([], c :: rest)

def exponentPart? : List Char → Option (Int × List Char)
  | [] => some (0, [])
  | c :: rest => if c = 'e' || c = 'E' then signedDigits? rest else some (0, c :: rest)

def magnitude? (text : List Char) : Option ((Nat × Int) × List Char) := do
  let (whole, text) ← wholePart? text
  let (fraction, text) ← fractionPart? text
  let (e, text) ← exponentPart? text
  return ((decimal (whole ++ fraction), e - fraction.length), text)

def numeral? : List Char → Option (Json × List Char)
  | [] => none
  | c :: rest =>
    if c = '-' then (magnitude? rest).map fun ((m, e), rest) => (.number (-m) e, rest)
    else (magnitude? (c :: rest)).map fun ((m, e), rest) => (.number m e, rest)

/-- Reads the second half of a character, which must follow its first. -/
def lowHalf? (high : Nat) : List Char → Option (Char × List Char)
  | '\\' :: 'u' :: rest =>
    match hexUnit? (rest.take 4) with
    | none => none
    | some low => if isLow low then some (ofHalves high low, rest.drop 4) else none
  | _ => none

/-- Reads a character given by its number, after the letter that tells so. -/
def unicode? (text : List Char) : Option (Char × List Char) :=
  match hexUnit? (text.take 4) with
  | none => none
  | some n =>
    if isHigh n then lowHalf? n (text.drop 4)
    else if isLow n then none
    else some (.ofNat n, text.drop 4)

/-- Reads one character of a string. -/
def char? : List Char → Option (Char × List Char)
  | [] => none
  | c :: rest =>
    if c = '\\' then
      match rest with
      | [] => none
      | letter :: rest =>
        if letter = 'u' then unicode? rest else (shortEscapes.lookup letter).map (·, rest)
    else if c = '"' || c.toNat < 0x20 then none
    else some (c, rest)

/-- Reads the characters of a string up to the closing quote. The fuel bounds their number. -/
def chars? : Nat → List Char → Option (List Char × List Char)
  | 0, _ => none
  | fuel + 1, text =>
    if text.head? = some '"' then some ([], text.tail)
    else
      match char? text with
      | none => none
      | some (c, rest) => (chars? fuel rest).map fun (cs, rest) => (c :: cs, rest)

/-- Reads a string after its opening quote. -/
def string? (text : List Char) : Option (String × List Char) :=
  (chars? text.length text).map fun (cs, rest) => (.ofList cs, rest)

section Enclosed

variable {α : Type} (item : List Char → Option (α × List Char)) (close : Char)

/-- Reads items up to the closing bracket. The fuel bounds their number. -/
def items? : Nat → List Char → Option (List α × List Char)
  | 0, _ => none
  | fuel + 1, text =>
    match item text with
    | none => none
    | some (a, rest) =>
      match skipSpace rest with
      | [] => none
      | c :: rest =>
        if c = close then some ([a], rest)
        else if c = ',' then
          (items? fuel (skipSpace rest)).map fun (as, rest) => (a :: as, rest)
        else none

/-- Reads what stands behind an opening bracket. -/
def enclosed? (text : List Char) : Option (List α × List Char) :=
  if (skipSpace text).head? = some close then some ([], (skipSpace text).tail)
  else items? item close text.length (skipSpace text)

end Enclosed

def memberAt? (value : List Char → Option (Json × List Char)) :
    List Char → Option ((String × Json) × List Char)
  | [] => none
  | c :: rest =>
    if c = '"' then do
      let (key, rest) ← string? rest
      match skipSpace rest with
      | ':' :: rest => (value (skipSpace rest)).map fun (v, rest) => ((key, v), rest)
      | _ => none
    else none

def literal? : List Char → Option (Json × List Char)
  | 'n' :: 'u' :: 'l' :: 'l' :: rest => some (.null, rest)
  | 't' :: 'r' :: 'u' :: 'e' :: rest => some (.bool true, rest)
  | 'f' :: 'a' :: 'l' :: 's' :: 'e' :: rest => some (.bool false, rest)
  | _ => none

/-- Reads a value that nests at most so deep. -/
def value? : Nat → List Char → Option (Json × List Char)
  | 0, _ => none
  | _, [] => none
  | depth + 1, c :: rest =>
    if c = '"' then (string? rest).map fun (s, rest) => (.string s, rest)
    else if c = '[' then (enclosed? (value? depth) ']' rest).map fun (vs, rest) => (.array vs, rest)
    else if c = '\x7b' then
      (enclosed? (memberAt? (value? depth)) '\x7d' rest).map fun (members, rest) =>
        (.object members, rest)
    else (literal? (c :: rest)).or (numeral? (c :: rest))

/-- Reads a whole text. No value nests deeper than its text is long. -/
def read? (text : List Char) : Option Json :=
  match value? text.length (skipSpace text) with
  | none => none
  | some (v, rest) => if rest.all isSpace then some v else none

/-! Every text of the grammar is read. What follows a part tells where it ends. -/

/-- Nothing follows, or one of the marks does. -/
def StopsAt (marks rest : List Char) : Prop :=
  ∀ c ∈ rest.head?, c ∈ marks

/-- What may follow a value inside a text. -/
def stops : List Char :=
  [' ', '\t', '\n', '\r', ',', ']', '\x7d']

theorem StopsAt.any_eq_false {marks rest : List Char} {p : Char → Bool} (h : StopsAt marks rest)
    (hmarks : marks.any p = false) : rest.head?.any p = false := by
  cases hhead : rest.head? with
  | none => rfl
  | some c => exact Bool.eq_false_iff.2 (List.any_eq_false.1 hmarks c (h c hhead))

theorem stopsAt_cons {c : Char} (rest : List Char) (h : c ∈ stops) : StopsAt stops (c :: rest) := by
  intro d hd
  rw [List.head?_cons, Option.mem_some] at hd
  rw [← hd]
  exact h

theorem mem_stops_of_isSpace {c : Char} (h : isSpace c = true) : c ∈ stops := by
  simp only [isSpace, Bool.or_eq_true, beq_iff_eq] at h
  simp only [stops, List.mem_cons]
  grind

theorem Space.stopsAt {gap rest : List Char} (hgap : Space gap) (hrest : StopsAt stops rest) :
    StopsAt stops (gap ++ rest) := by
  cases gap with
  | nil => exact hrest
  | cons c gap => exact stopsAt_cons _ (mem_stops_of_isSpace (hgap c List.mem_cons_self))

theorem Space.skipSpace {gap rest : List Char} (hgap : Space gap)
    (hrest : rest.head?.any isSpace = false) : skipSpace (gap ++ rest) = rest :=
  Text.dropWhile_run hgap hrest

section Number

variable {ds s t rest : List Char} {e : Int}

theorem ne_of_class {p : Char → Bool} {c d : Char} (hc : p c = true) (hd : p d = false) : c ≠ d := by
  intro h
  rw [h, hd] at hc
  cases hc

theorem digits?_append (hds : AllDigits ds) (hne : ds ≠ [])
    (hrest : rest.head?.any Char.isDigit = false) : digits? (ds ++ rest) = some (ds, rest) := by
  have hhead : (ds ++ rest).head?.any Char.isDigit = true := by
    cases ds with
    | nil => exact absurd rfl hne
    | cons d ds => exact hds d List.mem_cons_self
  rw [digits?, if_pos hhead, Text.takeWhile_run hds hrest, Text.dropWhile_run hds hrest]

theorem SignedDigits.reads (h : SignedDigits e s) (hrest : rest.head?.any Char.isDigit = false) :
    signedDigits? (s ++ rest) = some (e, rest) := by
  cases h with
  | bare hds hne =>
    cases s with
    | nil => exact absurd rfl hne
    | cons d ds =>
      have hdigit : d.isDigit = true := hds d List.mem_cons_self
      rw [List.cons_append, signedDigits?, if_neg (ne_of_class hdigit rfl),
        if_neg (ne_of_class hdigit rfl), ← List.cons_append, digits?_append hds hne hrest]
      rfl
  | plus hds hne =>
    rw [List.cons_append, signedDigits?, if_pos rfl, digits?_append hds hne hrest]
    rfl
  | minus hds hne =>
    rw [List.cons_append, signedDigits?, if_neg (by decide), if_pos rfl,
      digits?_append hds hne hrest]
    rfl

theorem WholePart.exists_digit (h : WholePart s) : ∃ d t, s = d :: t ∧ d.isDigit = true := by
  cases h with
  | zero => exact ⟨'0', [], rfl, rfl⟩
  | positive hdigit _ _ => exact ⟨_, _, rfl, hdigit⟩

theorem WholePart.reads (h : WholePart s) (hrest : rest.head?.any Char.isDigit = false) :
    wholePart? (s ++ rest) = some (s, rest) := by
  cases h with
  | zero =>
    have hzero : AllDigits ['0'] := by simp [AllDigits]
    rw [wholePart?, digits?_append hzero (List.cons_ne_nil _ _) hrest]
    rfl
  | positive hdigit hzero hds =>
    have hall : AllDigits (_ :: _) := List.forall_mem_cons.2 ⟨hdigit, hds⟩
    rw [wholePart?, digits?_append hall (List.cons_ne_nil _ _) hrest]
    simp [hzero]

theorem FractionPart.reads (h : FractionPart ds s) (hrest : rest.head?.any Char.isDigit = false)
    (hpoint : rest.head?.any (· == '.') = false) : fractionPart? (s ++ rest) = some (ds, rest) := by
  cases h with
  | absent =>
    cases rest with
    | nil => rfl
    | cons c rest =>
      have hc : c ≠ '.' := by simpa using hpoint
      rw [List.nil_append, fractionPart?, if_neg hc]
  | present hds hne =>
    rw [List.cons_append, fractionPart?, if_pos rfl, digits?_append hds hne hrest]

theorem FractionPart.stopsAt {marks : List Char} (h : FractionPart ds s)
    (hrest : StopsAt marks rest) : StopsAt ('.' :: marks) (s ++ rest) := by
  intro c hc
  cases h with
  | absent => exact List.mem_cons_of_mem _ (hrest c hc)
  | present _ _ =>
    rw [List.cons_append, List.head?_cons, Option.mem_some] at hc
    rw [← hc]
    exact List.mem_cons_self

theorem ExponentPart.reads (h : ExponentPart e s) (hrest : rest.head?.any Char.isDigit = false)
    (hmark : rest.head?.any (fun c => c = 'e' || c = 'E') = false) :
    exponentPart? (s ++ rest) = some (e, rest) := by
  cases h with
  | absent =>
    cases rest with
    | nil => rfl
    | cons c rest =>
      have hc : ¬(c = 'e' || c = 'E') = true := by simpa using hmark
      rw [List.nil_append, exponentPart?, if_neg hc]
  | present hmark_eq hdigits =>
    rw [List.cons_append, exponentPart?, if_pos (by simpa using hmark_eq), hdigits.reads hrest]

theorem ExponentPart.stopsAt {marks : List Char} (h : ExponentPart e s)
    (hrest : StopsAt marks rest) : StopsAt ('e' :: 'E' :: marks) (s ++ rest) := by
  intro c hc
  cases h with
  | absent => exact List.mem_cons_of_mem _ (List.mem_cons_of_mem _ (hrest c hc))
  | present hmark_eq _ =>
    rw [List.cons_append, List.head?_cons, Option.mem_some] at hc
    rw [← hc]
    simp only [List.mem_cons]
    tauto

theorem Magnitude.exists_digit {m : Nat} (h : Magnitude m e s) :
    ∃ d t, s = d :: t ∧ d.isDigit = true := by
  cases h with
  | mk hwhole _ _ =>
    obtain ⟨d, t, rfl, hd⟩ := hwhole.exists_digit
    exact ⟨d, _, rfl, hd⟩

theorem Magnitude.reads {m : Nat} (h : Magnitude m e s) (hrest : StopsAt stops rest) :
    magnitude? (s ++ rest) = some ((m, e), rest) := by
  cases h with
  | @mk whole fraction s t e hwhole hfraction hexponent =>
    -- The exponent is followed by what follows the number, the fraction by the exponent, and so on.
    have hafter := hexponent.stopsAt hrest
    have hbehind := hfraction.stopsAt hafter
    have hreads_whole := hwhole.reads (hbehind.any_eq_false (by decide))
    have hreads_fraction := hfraction.reads (hafter.any_eq_false (by decide))
      (hafter.any_eq_false (by decide))
    have hreads_exponent := hexponent.reads (hrest.any_eq_false (by decide))
      (hrest.any_eq_false (by decide))
    rw [List.append_assoc, List.append_assoc, magnitude?]
    simp only [hreads_whole, hreads_fraction, hreads_exponent, Option.bind_eq_bind,
      Option.bind_some]
    rfl

/-- A number begins with a digit or with a minus sign. -/
def startsNumeral (c : Char) : Bool :=
  c == '-' || c.isDigit

theorem Numeral.exists_first {m : Int} (h : Numeral m e s) :
    ∃ c t, s = c :: t ∧ startsNumeral c = true := by
  cases h with
  | plain hmagnitude =>
    obtain ⟨d, t, rfl, hd⟩ := hmagnitude.exists_digit
    exact ⟨d, t, rfl, by simp [startsNumeral, hd]⟩
  | minus _ => exact ⟨'-', _, rfl, rfl⟩

theorem Numeral.reads {m : Int} (h : Numeral m e s) (hrest : StopsAt stops rest) :
    numeral? (s ++ rest) = some (.number m e, rest) := by
  cases h with
  | plain hmagnitude =>
    have hreads := hmagnitude.reads hrest
    obtain ⟨d, t, rfl, hd⟩ := hmagnitude.exists_digit
    rw [List.cons_append] at hreads ⊢
    rw [numeral?, if_neg (ne_of_class hd rfl), hreads]
    rfl
  | minus hmagnitude =>
    rw [List.cons_append, numeral?, if_pos rfl, hmagnitude.reads hrest]
    rfl

end Number

section Quoted

variable {c : Char} {cs s : List Char}

theorem length_of_hexUnit? {digits : List Char} {n : Nat} (h : hexUnit? digits = some n) :
    digits.length = 4 := by
  unfold hexUnit? at h
  split at h
  · rfl
  · exact absurd h (by simp)

theorem hexUnit?_append {digits : List Char} {n : Nat} (h : hexUnit? digits = some n)
    (rest : List Char) : hexUnit? ((digits ++ rest).take 4) = some n ∧ (digits ++ rest).drop 4 = rest := by
  have hlength := length_of_hexUnit? h
  rw [← hlength, List.take_left, List.drop_left]
  exact ⟨h, rfl⟩

theorem lookup_shortEscapes {letter : Char} (h : (letter, c) ∈ shortEscapes) :
    letter ≠ 'u' ∧ shortEscapes.lookup letter = some c := by
  have hall : ∀ e ∈ shortEscapes, e.1 ≠ 'u' ∧ shortEscapes.lookup e.1 = some e.2 := by decide
  exact hall _ h

theorem Written.reads (h : Written c s) (rest : List Char) : char? (s ++ rest) = some (c, rest) := by
  cases h with
  | plain hvisible hquote hbackslash =>
    have hplain : (c = '"' || c.toNat < 0x20) = false := by simp [hquote, hvisible]
    rw [List.singleton_append, char?.eq_def]
    simp [hbackslash, hplain]
  | short hmem =>
    obtain ⟨hne, hlookup⟩ := lookup_shortEscapes hmem
    simp [char?, hne, hlookup]
  | unit hhex hhigh hlow =>
    obtain ⟨htake, hdrop⟩ := hexUnit?_append hhex rest
    simp [char?, unicode?, htake, hdrop, hhigh, hlow]
  | @halves digits digits' high low hhex hhigh hhex' hlow =>
    obtain ⟨htake, hdrop⟩ := hexUnit?_append hhex ('\\' :: 'u' :: (digits' ++ rest))
    obtain ⟨htake', hdrop'⟩ := hexUnit?_append hhex' rest
    simp [char?, unicode?, lowHalf?, htake, hdrop, hhigh, htake', hdrop', hlow]

theorem Written.exists_first (h : Written c s) : ∃ d t, s = d :: t ∧ d ≠ '"' := by
  cases h with
  | plain _ hquote _ => exact ⟨c, [], rfl, hquote⟩
  | short _ => exact ⟨'\\', _, rfl, by decide⟩
  | unit _ _ _ => exact ⟨'\\', _, rfl, by decide⟩
  | halves _ _ _ _ => exact ⟨'\\', _, rfl, by decide⟩

theorem AllWritten.reads (h : AllWritten cs s) {fuel : Nat} (hfuel : s.length < fuel)
    (rest : List Char) : chars? fuel (s ++ '"' :: rest) = some (cs, rest) := by
  induction h generalizing fuel with
  | nil =>
    cases fuel with
    | zero => exact absurd hfuel (Nat.not_lt_zero _)
    | succ fuel => rfl
  | @cons c cs s t hfirst hmore ih =>
    cases fuel with
    | zero => exact absurd hfuel (Nat.not_lt_zero _)
    | succ fuel =>
      obtain ⟨d, u, hs, hquote⟩ := hfirst.exists_first
      have hhead : ¬(s ++ (t ++ '"' :: rest)).head? = some '"' := by
        rw [hs, List.cons_append, List.head?_cons, Option.some_inj]
        exact hquote
      have hshorter : t.length < fuel := by
        rw [hs, List.length_append, List.length_cons] at hfuel
        omega
      rw [List.append_assoc, chars?, if_neg hhead, hfirst.reads]
      simp only [ih hshorter, Option.map_some]

theorem Quoted.reads {text : String} (h : Quoted text s) (rest : List Char) :
    ∃ t, s = '"' :: t ∧ string? (t ++ rest) = some (text, rest) := by
  cases h with
  | @mk cs s hwritten =>
    refine ⟨s ++ ['"'], rfl, ?_⟩
    have hfuel : s.length < (s ++ '"' :: rest).length := by
      rw [List.length_append, List.length_cons]
      omega
    rw [List.append_assoc, List.singleton_append, string?, hwritten.reads hfuel]
    rfl

end Quoted

/-- Begins with something that cannot follow a value. -/
def Opens (s : List Char) : Prop :=
  ∃ c t, s = c :: t ∧ c ∉ stops

theorem Opens.any_isSpace {s : List Char} (h : Opens s) (rest : List Char) :
    (s ++ rest).head?.any isSpace = false := by
  obtain ⟨c, t, rfl, hc⟩ := h
  apply Bool.eq_false_iff.2
  intro hspace
  exact hc (mem_stops_of_isSpace hspace)

/-- What it takes of items and of their reader for items in brackets to be read, if they are not longer
than a bound. -/
structure Reads {α : Type} (Item : α → List Char → Prop) (item : List Char → Option (α × List Char))
    (bound : Nat) : Prop where
  opens : ∀ {a s}, Item a s → Opens s
  reads : ∀ {a s rest}, Item a s → s.length ≤ bound → StopsAt stops rest →
    item (s ++ rest) = some (a, rest)

section Enclosed

variable {α : Type} {Item : α → List Char → Prop} {item : List Char → Option (α × List Char)}
  {bound : Nat} {close : Char} {as : List α} {s : List Char}

theorem Items.opens (hitem : Reads Item item bound) (h : Items Item close as s) : Opens s := by
  cases h with
  | last hfirst _ =>
    obtain ⟨c, t, rfl, hopens⟩ := hitem.opens hfirst
    exact ⟨c, _, rfl, hopens⟩
  | cons hfirst _ _ _ =>
    obtain ⟨c, t, rfl, hopens⟩ := hitem.opens hfirst
    exact ⟨c, _, rfl, hopens⟩

theorem closing (h : close = ']' ∨ close = '\x7d') :
    close ∈ stops ∧ isSpace close = false ∧ ',' ≠ close := by
  obtain rfl | rfl := h <;> decide

theorem Items.reads (hitem : Reads Item item bound) (hclose : close = ']' ∨ close = '\x7d')
    (h : Items Item close as s) (hbound : s.length ≤ bound) {fuel : Nat} (hfuel : s.length ≤ fuel)
    (rest : List Char) : items? item close fuel (s ++ rest) = some (as, rest) := by
  obtain ⟨hstops, hspace, hcomma⟩ := closing hclose
  induction h generalizing fuel with
  | @last a s gap hfirst hgap =>
    simp only [List.length_append, List.length_singleton] at hbound hfuel
    cases fuel with
    | zero => omega
    | succ fuel =>
      have hreads := hitem.reads hfirst (by omega) (hgap.stopsAt (stopsAt_cons rest hstops))
      have hskip := @Space.skipSpace gap (close :: rest) hgap hspace
      simp only [List.append_assoc, List.singleton_append, items?, hreads, hskip, if_true]
  | @cons a as s before after more hfirst hbefore hafter hmore ih =>
    simp only [List.length_append, List.length_cons] at hbound hfuel
    cases fuel with
    | zero => omega
    | succ fuel =>
      have hreads := hitem.reads hfirst (by omega)
        (hbefore.stopsAt (@stopsAt_cons ',' (after ++ (more ++ rest)) (by decide)))
      have hskip := @Space.skipSpace before (',' :: (after ++ (more ++ rest))) hbefore rfl
      have hskip' := hafter.skipSpace ((hmore.opens hitem).any_isSpace rest)
      have hreads' := @ih (by omega) fuel (by omega)
      simp only [List.append_assoc, List.cons_append, items?, hreads, hskip, hskip', hcomma, if_false,
        if_true, hreads', Option.map_some]

theorem Enclosed.reads (hitem : Reads Item item bound) (hclose : close = ']' ∨ close = '\x7d')
    (h : Enclosed Item close as s) (hbound : s.length ≤ bound) (rest : List Char) :
    enclosed? item close (s ++ rest) = some (as, rest) := by
  obtain ⟨hstops, hspace, -⟩ := closing hclose
  cases h with
  | @empty gap hgap =>
    have hskip := @Space.skipSpace gap (close :: rest) hgap hspace
    rw [List.append_assoc, List.singleton_append, enclosed?, hskip, List.head?_cons, if_pos rfl,
      List.tail_cons]
  | @items gap s as hgap hitems =>
    have hopens := hitems.opens hitem
    have hskip := hgap.skipSpace (hopens.any_isSpace rest)
    have hhead : ¬(s ++ rest).head? = some close := by
      obtain ⟨c, t, rfl, hc⟩ := hopens
      rw [List.cons_append, List.head?_cons, Option.some_inj]
      intro heq
      rw [heq] at hc
      exact hc hstops
    rw [List.length_append] at hbound
    rw [List.append_assoc, enclosed?, hskip, if_neg hhead]
    apply hitems.reads hitem hclose (by omega)
    simp only [List.length_append]
    omega

end Enclosed

theorem Value.opens {v : Json} {s : List Char} (h : Value v s) : Opens s := by
  cases h with
  | null => exact ⟨_, _, rfl, by decide⟩
  | isTrue => exact ⟨_, _, rfl, by decide⟩
  | isFalse => exact ⟨_, _, rfl, by decide⟩
  | number hnumeral =>
    have hstops : stops.any startsNumeral = false := by decide
    obtain ⟨c, t, rfl, hc⟩ := hnumeral.exists_first
    exact ⟨c, t, rfl, fun hmem => List.any_eq_false.1 hstops c hmem hc⟩
  | string hquoted =>
    obtain ⟨t, rfl, -⟩ := hquoted.reads []
    exact ⟨_, _, rfl, by decide⟩
  | array _ => exact ⟨_, _, rfl, by decide⟩
  | object _ => exact ⟨_, _, rfl, by decide⟩

theorem Member.opens {member : String × Json} {s : List Char} (h : Member Value member s) :
    Opens s := by
  cases h with
  | mk hquoted _ _ _ =>
    obtain ⟨t, rfl, -⟩ := hquoted.reads []
    exact ⟨_, _, rfl, by decide⟩

theorem Member.reads {depth : Nat} (hvalue : Reads Value (value? depth) depth) :
    Reads (Member Value) (memberAt? (value? depth)) depth where
  opens := Member.opens
  reads := by
    intro member s rest h hbound hrest
    cases h with
    | @mk key v k s before after hquoted hbefore hafter hv =>
      simp only [List.length_append, List.length_cons] at hbound
      have hreads := hvalue.reads hv (by omega) hrest
      have hskip := @Space.skipSpace before (':' :: (after ++ (s ++ rest))) hbefore rfl
      have hskip' := hafter.skipSpace (hv.opens.any_isSpace rest)
      obtain ⟨t, rfl, hstring⟩ := hquoted.reads (before ++ ':' :: (after ++ (s ++ rest)))
      simp only [List.cons_append, List.append_assoc, memberAt?, if_true, hstring,
        Option.bind_eq_bind, Option.bind_some, hskip, hskip', hreads, Option.map_some]

theorem literal?_of_ne {c : Char} (hn : c ≠ 'n') (ht : c ≠ 't') (hf : c ≠ 'f') (rest : List Char) :
    literal? (c :: rest) = none := by
  unfold literal?
  split <;> simp_all

/-- Every value is read up to where its text ends, if the depth allowed is the length of the text. -/
theorem Value.reads (depth : Nat) : Reads Value (value? depth) depth := by
  induction depth with
  | zero =>
    refine ⟨Value.opens, ?_⟩
    intro v s rest h hbound
    obtain ⟨c, t, rfl, -⟩ := h.opens
    exact absurd hbound (by simp)
  | succ depth ih =>
    refine ⟨Value.opens, ?_⟩
    intro v s rest h hbound hrest
    cases h with
    | null => rfl
    | isTrue => rfl
    | isFalse => rfl
    | number hnumeral =>
      have hreads := hnumeral.reads hrest
      obtain ⟨c, t, rfl, hc⟩ := hnumeral.exists_first
      have hliteral : literal? (c :: (t ++ rest)) = none :=
        literal?_of_ne (ne_of_class hc rfl) (ne_of_class hc rfl) (ne_of_class hc rfl) _
      rw [List.cons_append] at hreads ⊢
      rw [value?, if_neg (ne_of_class hc rfl), if_neg (ne_of_class hc rfl),
        if_neg (ne_of_class hc rfl), hliteral, hreads]
      rfl
    | string hquoted =>
      obtain ⟨t, rfl, hstring⟩ := hquoted.reads rest
      rw [List.cons_append, value?, if_pos rfl, hstring]
      rfl
    | array henclosed =>
      rw [List.length_cons] at hbound
      rw [List.cons_append, value?, if_neg (by decide), if_pos rfl,
        henclosed.reads ih (.inl rfl) (by omega)]
      rfl
    | object henclosed =>
      rw [List.length_cons] at hbound
      rw [List.cons_append, value?, if_neg (by decide), if_neg (by decide), if_pos rfl,
        henclosed.reads (Member.reads ih) (.inr rfl) (by omega)]
      rfl

/-- Every text of the grammar is read as the value that it is written for. -/
theorem Text.read? {v : Json} {text : List Char} (h : Text v text) : read? text = some v := by
  cases h with
  | @mk before s after hbefore hvalue hafter =>
    have hskip := hbefore.skipSpace (hvalue.opens.any_isSpace after)
    have hend : StopsAt stops [] := by simp [StopsAt]
    have hstops := hafter.stopsAt hend
    rw [List.append_nil] at hstops
    have hreads := (Value.reads (before ++ (s ++ after)).length).reads hvalue
      (by simp only [List.length_append]; omega) hstops
    rw [Json.read?, hskip, hreads]
    exact if_pos (List.all_eq_true.2 hafter)

/-- No text is written for two values. -/
theorem Text.unique {v w : Json} {text : List Char} (hv : Text v text) (hw : Text w text) : v = w := by
  have hread := hv.read?
  rw [hw.read?, Option.some_inj] at hread
  exact hread.symm

end TalOutline.Json
