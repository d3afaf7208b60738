import TalOutline.Editor.Session

/-! Messages of an editor and the replies to them. -/
namespace TalOutline.Editor

inductive Message where
  | start (told : Start)
  | started -- the reply to the start has come
  | shutdown
  | opened (uri : String) (version : Int) (text : String)
  | changed (uri : String) (version : Int) (texts : List String)
  | closed (uri : String)
  | askFolds (uri : String)
  | askSymbols (uri : String)

inductive Reply where
  | nothing
  | offer (settings : Settings) -- what the session offers under its settings
  | ready
  | folds (answer : Option (List Fold))
  | symbols (answer : Option (List (Tree DocumentSymbol)))

def Session.handle (s : Session) : Message → Session × Reply
  | .start told => (s.configure told.settings, .offer told.settings)
  | .started => (s, .ready)
  | .shutdown => (s, .nothing)
  | .opened uri version text => (s.store uri version text, .nothing)
  | .changed uri version texts => (s.change uri version texts, .nothing)
  | .closed uri => (s.close uri, .nothing)
  | .askFolds uri =>
    let answer := s.folds uri
    (answer.2, .folds answer.1)
  | .askSymbols uri =>
    let answer := s.symbols uri
    (answer.2, .symbols answer.1)

namespace Reply

/-- A service in an offer, absent when it is off. -/
def service (flag : Bool) (key : String) : List (String × Json) :=
  if flag then [(key, .bool true)] else []

def offerJson (settings : Settings) : Json :=
  .object [
    ("capabilities", .object <|
      [("textDocumentSync", .nat 1)] ++ service settings.folding "foldingRangeProvider" ++
        service settings.symbols "documentSymbolProvider"),
    ("serverInfo", .object [("name", .string "talscan-lsp"), ("version", .string "0.1.0")])]

def readyJson : Json :=
  .object [("jsonrpc", .string "2.0"), ("method", .string "window/logMessage"),
    ("params", .object [("message", .string "talscan language server ready"), ("type", .nat 3)])]

def json : Reply → Json
  | .nothing | .folds none | .symbols none => .null
  | .offer settings => offerJson settings
  | .ready => readyJson
  | .folds (some found) => .array (found.map foldJson)
  | .symbols (some outline) => .array (symbolsJson outline)

end Reply

end TalOutline.Editor
