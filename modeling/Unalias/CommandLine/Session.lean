import Unalias.CommandLine.Help
import Unalias.CommandLine.Options
import Unalias.CommandLine.Output
import Unalias.Discovery
import Unalias.Settings.Location

/-! A run of the command line on a disk. The settings are found and read, then the files, and
only then is anything changed. Where that fails, the disk stays as it is. -/
namespace Unalias

structure Plan where
  root : Path
  table : Table
  files : List Path
deriving DecidableEq

structure Ending where
  code : Nat
  outputs : List Output
  disk : Disk

namespace Session

def workingPath (d : Disk) : Path := .ofParts .root d.working

/-- Targets that are more than blanks. -/
def usableTargets (targets : List Text) : List Text := targets.filter (Text.trim · ≠ [])

def selectFiles (o : Options) (d : Disk) (root : Path) : Except Error (List Path) :=
  if usableTargets o.targets = [] then .error .noTargets
  else Discovery.discover d root (usableTargets o.targets) o.excludes

def tableNotes (compiles : Text → Bool) (file : Path) (config : Config) (excluded : List Text)
    (table : Table) : List Note :=
  let tokens := Alias.tokens excluded
  let loaded : Note := ⟨.debug, "loaded path aliases",
    [("path", file.text), ("aliases", Note.count config.aliases.length)]⟩
  let empty : Note := ⟨.warn, "no usable path aliases", [("tsconfig", file.text)]⟩
  loaded :: config.aliases.flatMap (·.notes compiles config.base tokens) ++
    (if table.rules = [] then [empty] else []) ++
    table.rules.map fun r => ⟨.debug, "alias", [("alias", r.pattern), ("target", r.folder.text)]⟩

/-- All that comes before the batch, with the notes on it. -/
def prepare (compiles : Text → Bool) (o : Options) (d : Disk) : List Note × Except Error Plan :=
  match Settings.locate d o.settings? (workingPath d) with
  | .error e => ([], .error e)
  | .ok file => match Settings.read d file with
    | .error e => ([], .error e)
    | .ok config =>
      let root := file.parent?.getD (workingPath d)
      let table := Table.build compiles config o.excludedAliases
      let notes := tableNotes compiles file config o.excludedAliases table
      match selectFiles o d root with
      | .error e => (notes, .error e)
      | .ok files =>
        let collected : Note :=
          ⟨.info, "collected target files", [("files", Note.count files.length)]⟩
        (notes ++ [collected], .ok ⟨root, table, files⟩)

/-- The answer to the one question of a batch. -/
def consent (o : Options) (input : List UInt8) (question : String) : Except Fault Bool :=
  if o.yes then .ok true else (Terminal.confirm ⟨input, "", none⟩ question).1

def run (compiles : Text → Bool) (o : Options) (d : Disk) (input : List UInt8) : Ending :=
  match prepare compiles o d with
  | (notes, .error e) => ⟨1, notes.map .log ++ [.complain e], d⟩
  | (notes, .ok plan) =>
    let outcome := Batch.run plan.table o.dryRun (consent o input) plan.files d
    let console : Console := ⟨plan.root, o.verbose, !o.yes⟩
    let seen := notes.map .log ++ outcome.events.flatMap (·.outputs console)
    match outcome.result with
    | .error e => ⟨1, seen ++ [.complain e], outcome.store⟩
    | .ok s => ⟨if s.failures = [] then 0 else 1, seen, outcome.store⟩

end Session

structure Exit where
  code : Nat
  stdout : String
  stderr : String
  disk : Disk

namespace CommandLine

/-- The log shows warnings, with the verbose option everything, and by name of a level just
what is asked for. -/
def threshold (log? : Option String) (verbose : Bool) : Threshold :=
  match log?.bind Threshold.ofName? with
  | some t => t
  | none => if verbose then Level.debug.rank else Level.warn.rank

def refuse (d : Disk) : Refusal → Exit
  | .help => ⟨0, Help.helpText, "", d⟩
  | .version => ⟨0, Help.versionText, "", d⟩
  | _ => ⟨2, "", "error: bad arguments, see --help\n", d⟩

def run (compiles : Text → Bool) (args : List Text) (log? : Option String) (d : Disk)
    (input : List UInt8) : Exit :=
  match Options.ofArguments args with
  | .error r => refuse d r
  | .ok o =>
    let ending := Session.run compiles o d input
    ⟨ending.code, String.join (ending.outputs.map Output.printed),
      String.join (ending.outputs.map (Output.logged (threshold log? o.verbose))), ending.disk⟩

end CommandLine
end Unalias
