import TalOutline.Report.Basic

/-!
Command lines. A subject with its input is asked for, and options may come before or after the
subject; those after it count for more.
-/
namespace TalOutline.Command

structure Request where
  subject : Subject
  input : String
  format : Format
  config : Option String
  deriving DecidableEq, Repr

inductive Asked where
  | version
  | report (request : Request)
  | misuse
  deriving DecidableEq, Repr

inductive Argument where
  | plain (text : String)
  | dashes -- after these every argument is plain
  | long (name : List Char) (value : Option String)
  | short (letter : Char) (rest : List Char)
  deriving DecidableEq, Repr

def afterEquals? : List Char → Option String
  | '=' :: rest => some (.ofList rest)
  | _ => none

/-- The sort of an argument. A single dash is plain. -/
def Argument.of (text : String) : Argument :=
  match text.toList with
  | ['-', '-'] => .dashes
  | '-' :: '-' :: rest =>
    .long (rest.takeWhile (· != '=')) (afterEquals? (rest.dropWhile (· != '=')))
  | '-' :: letter :: rest => .short letter rest
  | _ => .plain text

inductive Opt where
  | config
  | format
  deriving DecidableEq, Repr

def Opt.name : Opt → List Char
  | .config => ['c', 'o', 'n', 'f', 'i', 'g']
  | .format => ['f', 'o', 'r', 'm', 'a', 't']

def Opt.letter : Opt → Char
  | .config => 'c'
  | .format => 'f'

/-- The value attached to a letter, with or without an equals sign. -/
def attached? : List Char → Option String
  | [] => none
  | '=' :: rest => some (.ofList rest)
  | rest => some (.ofList rest)

def Opt.found? (o : Opt) : Argument → Option (Option String)
  | .long name value => if name = o.name then some value else none
  | .short letter rest => if letter = o.letter then some (attached? rest) else none
  | _ => none

def format? (name : String) : Option Format :=
  if name = "text" then some .text else if name = "json" then some .json else none

def subject? (name : String) : Option Subject :=
  if name = "folds" then some .folds else if name = "symbols" then some .symbols else none

/-- The text of an argument that can be the value of an option in front of it. -/
def plain? (arg : String) : Option String :=
  match Argument.of arg with
  | .plain text => some text
  | _ => none

def option? (opts : List Opt) (arg : String) : Option (Opt × Option String) :=
  opts.findSome? fun o => (o.found? (Argument.of arg)).map (o, ·)

structure Found where
  config : Option String := none
  format : Option Format := none
  input : Option String := none

namespace Found

/-- Takes in an option with its value, unless it has been given before or the value is empty. -/
def setOption (found : Found) (o : Opt) (value : String) : Option Found :=
  match o with
  | .config =>
    if found.config.isSome || value.isEmpty then none else some { found with config := some value }
  | .format =>
    if found.format.isSome then none else (format? value).map ({ found with format := some · })

def setInput (found : Found) (input : String) : Option Found :=
  if found.input.isSome || input.isEmpty then none else some { found with input := some input }

def request (found : Found) (subject : Subject) (config : Option String) : Asked :=
  match found.input with
  | none => .misuse
  | some input => .report ⟨subject, input, found.format.getD .text, found.config.or config⟩

end Found

inductive Expected where
  | anything
  | valueOf (o : Opt)
  | input -- whatever it looks like
  deriving DecidableEq, Repr

def readAfter : Expected → Found → List String → Option Found
  | .valueOf _, _, [] => none
  | _, found, [] => some found
  | .input, found, arg :: rest => (found.setInput arg).bind (readAfter .input · rest)
  | .valueOf o, found, arg :: rest =>
    (plain? arg).bind fun value => (found.setOption o value).bind (readAfter .anything · rest)
  | .anything, found, arg :: rest =>
    match option? [.config, .format] arg with
    | some (o, none) => readAfter (.valueOf o) found rest
    | some (o, some value) => (found.setOption o value).bind (readAfter .anything · rest)
    | none =>
      match Argument.of arg with
      | .dashes => readAfter .input found rest
      | .plain input => (found.setInput input).bind (readAfter .anything · rest)
      | _ => none

/--
Reads a command line. The flag tells whether the value of the configuration option comes next. The
version is given as soon as it is asked for.
-/
def readFrom (awaited : Bool) (found : Found) : List String → Asked
  | [] => .misuse
  | arg :: rest =>
    if awaited then
      match (plain? arg).bind (found.setOption .config) with
      | none => .misuse
      | some found => readFrom false found rest
    else
      match option? [.config] arg with
      | some (_, none) => readFrom true found rest
      | some (_, some value) =>
        match found.setOption .config value with
        | none => .misuse
        | some found => readFrom false found rest
      | none =>
        match Argument.of arg with
        | .long name none => if name = ['v', 'e', 'r', 's', 'i', 'o', 'n'] then .version else .misuse
        | .short letter _ => if letter = 'V' then .version else .misuse
        | .plain name =>
          match subject? name, readAfter .anything {} rest with
          | some subject, some after => after.request subject found.config
          | _, _ => .misuse
        | _ => .misuse

def read (args : List String) : Asked :=
  readFrom false {} args

end TalOutline.Command
