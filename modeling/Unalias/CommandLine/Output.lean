import Unalias.Batch.Basic
import Unalias.Log
import Unalias.Terminal

/-! What a run shows: text for the user, the question, complaints, and notes for the log.
Complaints and notes share one channel. -/
namespace Unalias

inductive Output
  | print (s : String)
  | ask (question : String)
  | complain (e : Error)
  | log (n : Note)
deriving DecidableEq

namespace Output

def printed : Output → String
  | .print s => s
  | .ask question => Terminal.prompt question
  | _ => ""

def logged (threshold : Threshold) : Output → String
  | .print _ | .ask _ => ""
  | .complain e => s!"aliasfix: {e.message}\n"
  | .log n => if n.isShown threshold then n.line else ""

end Output

namespace Alias

def notes (compiles : Text → Bool) (base : Path) (tokens : List Text) (a : Alias) : List Note :=
  let several := match a.targets with
    | first :: _ :: _ =>
      [⟨.debug, "using first of several targets", [("alias", a.pattern), ("target", first)]⟩]
    | _ => []
  match a.judge compiles base tokens with
  | .excluded token =>
    [⟨.debug, "alias excluded", [("alias", a.pattern), ("token", Text.quoted token)]⟩]
  | .untargeted => [⟨.warn, "alias has no target paths, skipping", [("alias", a.pattern)]⟩]
  | .refused => several ++ [⟨.warn, "alias pattern rejected, skipping", [("alias", a.pattern),
      ("error", "Compiled regex exceeds size limit of 10485760 bytes.".toList)]⟩]
  | .kept _ => several

end Alias

namespace Replacement

def notes (file : Path) (r : Replacement) : List Note :=
  let unstemmed := if (Alias.stem r.pattern).isPrefixOf r.old then [] else
    [⟨.debug, "alias prefix not at start of literal",
      [("literal", Text.quoted r.old), ("alias", r.pattern)]⟩]
  unstemmed ++ [⟨.debug, "rewrote import",
    [("file", file.text), ("from", Text.quoted r.old), ("to", r.new)]⟩]

end Replacement

namespace Summary

def closing (s : Summary) (dryRun : Bool) : String :=
  let files := counted s.written "file"
  if dryRun then s!"dry run: would fix {s.shown}\n"
  else if s.written < s.changed then s!"found {s.shown}; wrote {files}\n"
  else s!"fixed {s.shown}\n"

end Summary

/-- How a batch is shown: the folder that paths are shown below, whether each replacement has
a line, and whether the question is put to the user at all. -/
structure Console where
  root : Path
  verbose : Bool
  asks : Bool
deriving DecidableEq

namespace Event

def outputs (console : Console) : Event → List Output
  | .fixed c =>
    let name := (Path.below console.root c.path).shown
    let imports := Summary.counted c.replacements.length "import"
    let head := s!"  {name}  ({imports})\n"
    let each := c.replacements.map fun r => .print s!"      {String.ofList r.shown}\n"
    (c.replacements.flatMap (·.notes c.path)).map .log ++
      .print head :: if console.verbose then each else []
  | .failed p f =>
    [.log ⟨.debug, "skipping file", [("path", p.text)]⟩, .complain (.file p f)]
  | .scanned s => [.log ⟨.info, "scan complete", [("files", Note.count s.scanned),
      ("changed", Note.count s.changed), ("imports", Note.count s.imports)]⟩]
  | .asked question => if console.asks then [.ask question] else []
  | .declined => [.log ⟨.info, "write declined", []⟩]
  | .wrote _ => []
  | .finished s dryRun => [.print "\n", .print (s.closing dryRun)]

end Event
end Unalias
