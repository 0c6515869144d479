import Unalias.CommandLine.Session

/-! The command line on the disk of the system. What a run can look at is taken in first: the
settings, the names of all files where targets start, and the contents of the files that are
selected. The run is computed on that, and the files that it has changed are written back. -/
namespace Unalias.Live

/-- Patterns are matched as they are, so none is too large. -/
def compiles (_ : Text) : Bool := true

def locationOf (d : Disk) (p : Path) : Location :=
  (Route.ofText ((Session.workingPath d).join p).text).trail.reverse

def nameOf (here : Location) : String := (Path.ofParts .root here).shown

/-- Whether a file can be opened for writing. Nothing is written to it. -/
def isWritable (name : String) : IO Bool := do
  try
    let _ ← IO.FS.Handle.mk name .append
    return true
  catch _ => return false

/-- A file with its contents and what can be done with it. -/
def fileAt (name : String) : IO Node := do
  let access := if ← isWritable name then Access.full else .reading
  try return .file (.ofBytes (← IO.FS.readBinFile name)) access
  catch _ => return .file (.text []) .barred

/-- Adds a folder without its entries, or a file. -/
def look (d : Disk) (p : Path) : IO Disk := do
  try
    let path ← IO.FS.realPath p.shown
    match (← path.metadata).type with
    | .dir => return { d with entries := (Node.makeFolder (locationOf d p) d.root).entries }
    | .file =>
      let x ← fileAt path.toString
      return { d with entries := (Node.set x (locationOf d p) d.root).entries }
    | _ => return d
  catch _ => return d

/-- A folder with the names of all that lies below it. Links to folders are not followed. -/
partial def outline (name : String) : IO Node := do
  try
    let mut entries := []
    for e in ← (← IO.FS.realPath name).readDir do
      let below := name ++ "/" ++ e.fileName
      match (← e.path.symlinkMetadata).type with
      | .dir => entries := Node.setEntry e.fileName.toList (← outline below) entries
      | .file | .symlink => entries := Node.setEntry e.fileName.toList (.file (.text [])) entries
      | .other => pure ()
    return .folder entries
  catch _ => return .folder []

def survey (d : Disk) (p : Path) : IO Disk := do
  let d ← look d p
  if d.isFolder p then
    let x ← outline p.shown
    return { d with entries := (Node.set x (locationOf d p) d.root).entries }
  else return d

def startOf (root : Path) (target : Text) : Path :=
  match Discovery.compileTarget root target with
  | .error _ => root
  | .ok s => s.segments.foldl (fun (p, going) segment =>
      match going, segment with
      | true, .plain name => (p.join ⟨name⟩, true)
      | _, _ => (p, false)) (s.start, true) |>.1

/-- The settings that a run may find: at the path that is named, and in the folders above. -/
def lookForSettings (o : Options) (d : Disk) : IO Disk := do
  let starts := match o.settings? with
    | some p => ((Session.workingPath d).join p).lineage
    | none => (Session.workingPath d).lineage
  let d ← starts.foldlM look d
  (starts.map (·.join Settings.fileName)).foldlM look d

/-- The disk as far as a run with these options looks at it. -/
def take (o : Options) (working : Path) : IO Disk := do
  let bare : Disk := ⟨[], []⟩
  let d ← look { bare with working := locationOf bare working } working
  let d ← lookForSettings o d
  match Settings.locate d o.settings? (Session.workingPath d) with
  | .error _ => return d
  | .ok file =>
    let root := file.parent?.getD working
    let d ← (root :: o.targets.map (startOf root)).foldlM survey d
    let d ← lookForSettings o d
    match (Session.prepare compiles o d).2 with
    | .error _ => return d
    | .ok plan => plan.files.foldlM look d

partial def readLine (input : IO.FS.Stream) (line : List UInt8) : IO (List UInt8) := do
  match (← input.read 1).toList with
  | [] => return line
  | b :: _ => if b = Terminal.newline then return line ++ [b] else readLine input (line ++ [b])

def display (threshold : Threshold) (outputs : List Output) : IO Unit := do
  for o in outputs do
    IO.print o.printed
    (← IO.getStdout).flush
    IO.eprint (o.logged threshold)

def isQuestion : Output → Bool
  | .ask _ => true
  | _ => false

/-- Shows the run up to the question, and the rest with the answer to it. -/
def converse (o : Options) (threshold : Threshold) (d : Disk) : IO Ending := do
  let silent := Session.run compiles o d []
  match silent.outputs.findIdx? isQuestion with
  | none =>
    display threshold silent.outputs
    return silent
  | some i =>
    display threshold (silent.outputs.take (i + 1))
    let answered := Session.run compiles o d (← readLine (← IO.getStdin) [])
    display threshold (answered.outputs.drop (i + 1))
    return answered

def store (old new : Disk) : IO Unit := do
  for (here, content) in new.files do
    let same := match old.root.at? here with
      | some (.file c _) => c.bytes == content.bytes
      | _ => false
    if !same then IO.FS.writeBinFile (nameOf here) content.bytes

end Unalias.Live

open Unalias in
def main (args : List String) : IO UInt32 := do
  let args := args.map String.toList
  let log? ← IO.getEnv "ALIASFIX_LOG"
  match Options.ofArguments args with
  | .error _ =>
    let e := CommandLine.run Live.compiles args log? ⟨[], []⟩ []
    IO.print e.stdout
    IO.eprint e.stderr
    return UInt32.ofNat e.code
  | .ok o =>
    let d ← Live.take o (.ofString (toString (← IO.currentDir)))
    let ending ← Live.converse o (CommandLine.threshold log? o.verbose) d
    Live.store d ending.disk
    return UInt32.ofNat ending.code
