import ViewState.Console.Program
import ViewState.Hash.Blake3

/-!
The program on a real disk: what its arguments name is read, the program runs on that, its output is
printed, and the database is written back.
-/
namespace ViewState.Console

/-- The entry at a place of the disk. A directory is read with all that is below it if `deep`. -/
partial def readEntry (deep : Bool) (path : String) : IO Files.Entry := do
  let place ← IO.FS.realPath path
  let time := (← place.metadata).modified
  let modified := time.sec * 1000 + time.nsec.toNat / 1000000
  if ← place.isDir then
    let below ← if deep then place.readDir else pure #[]
    let entries ← below.toList.mapM fun e => do
      return (e.fileName, ← readEntry deep e.path.toString)
    return .directory (Assoc.ofList entries) modified
  else
    return .file (← IO.FS.readBinFile place) modified

/-- Adds to a tree what is at a place of the disk. What is there already stays, unless all that is
below it is to be read. -/
def addEntry (deep : Bool) (t : Files.Tree) (path : String) : IO Files.Tree := do
  try
    let place := (← IO.FS.realPath path).toString
    match deep, t.find place with
    | false, .ok _ => return t
    | _, _ => return t.put 0 place (← readEntry deep path)
  catch _ => return t

def addPath (deep : Bool) (t : Files.Tree) (path : String) : IO Files.Tree := do
  let names := Files.names path
  let ways := (List.range names.length).tail.map fun n => "/".intercalate (names.take n)
  addEntry deep (← (ways.filter (· ≠ "")).foldlM (addEntry false) t) path

def readTree (a : Arguments) : IO Files.Tree := do
  let working := (← IO.currentDir).toString
  let start : Files.Tree := ⟨.directory [] 0, Files.names working⟩
  let t ← addEntry false start working
  let t ← a.settings.toList.foldlM (addPath false) t
  let t ← a.database?.toList.foldlM (addPath false) t
  a.directory?.toList.foldlM (addPath true) t

def writeDatabase (files : Files.Tree) (path : String) : IO Unit := do
  if let .ok (.file content _) := files.find path then IO.FS.writeBinFile path content

end ViewState.Console

open ViewState Console in
def main (args : List String) : IO UInt32 := do
  let arguments := (Arguments.parse args).toOption
  let files ← match arguments with
    | some a => readTree a
    | none => pure .empty
  let outcome := Program.run Blake3.hash args files (UInt64.ofNat (← IO.monoMsNow))
  IO.print outcome.output
  unless outcome.complaint.isEmpty do IO.eprintln outcome.complaint
  if outcome.code = 0 then
    ((arguments.bind Arguments.database?).forM (writeDatabase outcome.files) : IO Unit)
  return outcome.code
