import TalOutline.Command.Run

/-! The command line: reads the files that it names, and prints the report. -/
namespace TalOutline.Command

/-- Whether an error code, of either sign, tells that a directory stands where a file should. -/
def tellsDirectory (code : UInt32) : Bool :=
  code == 21 || 0 - code == 21

def look (path : String) : IO Entry := do
  try
    return .file (← IO.FS.readBinFile path)
  catch e =>
    match e with
    | .inappropriateType _ code _ =>
      return if tellsDirectory code then .directory else .notDirectory
    | _ => return .missing

def lookAll (paths : List String) : IO Disk := do
  let seen ← paths.mapM fun path => return (path, ← look path)
  return fun path => (seen.lookup path).getD .missing

end TalOutline.Command

open TalOutline.Command in
def main (args : List String) : IO UInt32 := do
  let asked := read args
  let outcome := asked.outcome (← lookAll asked.paths)
  IO.print outcome.printed
  if let some message := outcome.error then IO.eprintln message
  if asked == .misuse then IO.eprintln usageText
  return outcome.code.toUInt32
