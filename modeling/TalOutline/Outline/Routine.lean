import TalOutline.Outline.Facts

/-!
Procs and subprocs. A body is read line by line from its declaration until the block depth comes
back to zero, until a linkage tells that there is no body, or until the document ends. The lines
of a subproc do not count for the proc around it.
-/
namespace TalOutline

inductive Ending where
  | closed
  | bodyless (linkage : Linkage)
  | unfinished
  deriving DecidableEq, Repr

/-- A body that has been read: how it ended, the line after it, and the lines read. -/
structure Body where
  ending : Ending
  next : Nat
  visits : List Nat
  deriving DecidableEq, Repr

structure Subproc where
  name : String
  start : Nat
  body : Body
  deriving DecidableEq, Repr

structure Proc where
  name : String
  start : Nat
  body : Body
  subprocs : List Subproc
  deriving DecidableEq, Repr

namespace Body

def stop (ending : Ending) (n : Nat) : Body :=
  ⟨ending, n + 1, [n]⟩

def visit (lines : List Nat) (b : Body) : Body :=
  { b with visits := lines ++ b.visits }

/-- Reads the body of a subproc from a line on, at a block depth. -/
def read (depth n : Nat) : List Facts → Body
  | [] => ⟨.unfinished, n, []⟩
  | f :: rest =>
    match f.linkageAt depth with
    | some linkage => stop (.bodyless linkage) n
    | none =>
      if f.closes depth then stop .closed n
      else (read (f.depthAfter depth) (n + 1) rest).visit [n]

theorem lt_next_read (depth n : Nat) (f : Facts) (rest : List Facts) :
    n < (read depth n (f :: rest)).next := by
  induction rest generalizing f depth n with
  | nil =>
    simp only [read]
    split
    · simp [stop]
    · split <;> simp [stop, visit]
  | cons g rest ih =>
    rw [read]
    split
    · simp [stop]
    · split
      · simp [stop]
      · exact Nat.lt_of_succ_lt (ih _ _ g)

theorem next_read_le (depth n : Nat) (lines : List Facts) :
    (read depth n lines).next ≤ n + lines.length := by
  induction lines generalizing depth n with
  | nil => exact Nat.le_refl n
  | cons f rest ih =>
    rw [read]
    split
    · simp [stop]
    · split
      · simp [stop]
      · have h := ih (f.depthAfter depth) (n + 1)
        simp only [visit, List.length_cons]
        omega

end Body

namespace Subproc

/-- The last line, which for a subproc without body is its first. -/
def last (s : Subproc) : Nat :=
  match s.body.ending with
  | .bodyless _ => s.start
  | _ => s.body.next - 1

def detail (s : Subproc) : Option Linkage :=
  match s.body.ending with
  | .bodyless linkage => some linkage
  | _ => none

def item (s : Subproc) : Item :=
  ⟨s.name, .subproc, s.detail, s.start, s.last⟩

end Subproc

namespace Proc

/--
Reads the body of a proc from a line on, at a block depth, after passing over lines that an
earlier subproc has taken.
-/
def readBody (skip depth n : Nat) : List Facts → Body × List Subproc
  | [] => (⟨.unfinished, n, []⟩, [])
  | f :: rest =>
    match skip with
    | k + 1 => readBody k depth (n + 1) rest
    | 0 =>
      match f.linkageAt depth with
      | some linkage => (.stop (.bodyless linkage) n, [])
      | none =>
        match f.declares? .subproc with
        | some name =>
          let sub : Subproc := ⟨.ofList name, n, .read 0 n (f :: rest)⟩
          let later := readBody (sub.body.next - (n + 1)) depth (n + 1) rest
          (later.1.visit (n :: sub.body.visits), sub :: later.2)
        | none =>
          if f.closes depth then (.stop .closed n, [])
          else
            let later := readBody 0 (f.depthAfter depth) (n + 1) rest
            (later.1.visit [n], later.2)

/-- Lines passed over might as well not be there, but for their number. -/
theorem readBody_skip (skip depth n : Nat) (lines : List Facts) (h : skip ≤ lines.length) :
    readBody skip depth n lines = readBody 0 depth (n + skip) (lines.drop skip) := by
  induction skip generalizing n lines with
  | zero => rfl
  | succ k ih =>
    cases lines with
    | nil => simp at h
    | cons f rest =>
      rw [readBody, ih (n + 1) rest (by simpa using h), List.drop_succ_cons]
      congr 1
      omega

/-- Reads the proc that is declared on the first of the lines. -/
def read (name : String) (n : Nat) (lines : List Facts) : Proc :=
  let found := readBody 0 0 n lines
  ⟨name, n, found.1, found.2⟩

/-- The part of the body after the last subproc, if a line of it is left. -/
def mainItem? (p : Proc) : Option Item :=
  match p.subprocs.getLast? with
  | none => none
  | some sub =>
    if sub.last + 1 < p.body.next then
      some ⟨"main: " ++ p.name, .main, none, sub.last + 1, p.body.next - 1⟩
    else none

/-- The entry in the outline. A proc without body has no children and ends on its first line. -/
def tree (p : Proc) : Tree Item :=
  match p.body.ending with
  | .bodyless linkage => .leaf ⟨p.name, .proc, some linkage, p.start, p.start⟩
  | _ =>
    .node ⟨p.name, .proc, none, p.start, p.body.next - 1⟩
      ((p.subprocs.map Subproc.item ++ p.mainItem?.toList).map .leaf)

end Proc

structure Survey where
  procs : List Proc
  visits : List Nat
  deriving DecidableEq, Repr

namespace Survey

def readFrom (skip n : Nat) : List Facts → Survey
  | [] => ⟨[], []⟩
  | f :: rest =>
    match skip with
    | k + 1 => readFrom k (n + 1) rest
    | 0 =>
      match f.declares? .proc with
      | none =>
        let later := readFrom 0 (n + 1) rest
        { later with visits := n :: later.visits }
      | some name =>
        let p := Proc.read (.ofList name) n (f :: rest)
        let later := readFrom (p.body.next - (n + 1)) (n + 1) rest
        ⟨p :: later.procs, n :: p.body.visits ++ later.visits⟩

theorem readFrom_skip (skip n : Nat) (lines : List Facts) (h : skip ≤ lines.length) :
    readFrom skip n lines = readFrom 0 (n + skip) (lines.drop skip) := by
  induction skip generalizing n lines with
  | zero => rfl
  | succ k ih =>
    cases lines with
    | nil => simp at h
    | cons f rest =>
      rw [readFrom, ih (n + 1) rest (by simpa using h), List.drop_succ_cons]
      congr 1
      omega

def ofLines (lines : List Line) : Survey :=
  readFrom 0 0 (lines.map Facts.ofLine)

end Survey

end TalOutline
