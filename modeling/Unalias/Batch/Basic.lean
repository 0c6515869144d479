import Unalias.Batch.Store
import Unalias.Batch.Summary
import Unalias.Change

/-! A batch of files. All files are looked at before any is written, consent is asked for once,
and only when there is something to write. A file that cannot be read or written is noted and
does not stop the others; a prompt that fails stops the batch before anything is written. -/
namespace Unalias

/-- What is seen of a batch from outside, in order. -/
inductive Event
  | fixed (change : Change)
  | failed (path : Path) (fault : Fault)
  | scanned (summary : Summary)
  | asked (question : String)
  | declined
  | wrote (path : Path)
  | finished (summary : Summary) (dryRun : Bool)
deriving DecidableEq

inductive Finding
  | unreadable (path : Path) (fault : Fault)
  | settled (path : Path)
  | changed (change : Change)
deriving DecidableEq

namespace Finding

def change? : Finding → Option Change
  | .changed c => some c
  | _ => none

def failure? : Finding → Option (Path × Fault)
  | .unreadable p f => some (p, f)
  | _ => none

def event? : Finding → Option Event
  | .unreadable p f => some (.failed p f)
  | .settled _ => none
  | .changed c => some (.fixed c)

end Finding

structure Outcome (σ : Type) where
  events : List Event
  store : σ
  result : Except Error Summary

namespace Batch

variable {σ : Type} [FileStore σ]

def examine (table : Table) (store : σ) (p : Path) : Finding :=
  match FileStore.read store p with
  | .error f => .unreadable p f
  | .ok t =>
    let c := table.change p t
    if c.replacements = [] then .settled p else .changed c

def tally (findings : List Finding) : Summary :=
  let changes := findings.filterMap Finding.change?
  { scanned := findings.length
    changed := changes.length
    imports := (changes.flatMap (·.replacements)).length
    written := 0
    failures := findings.filterMap Finding.failure? }

def question (s : Summary) : String :=
  s!"Rewrite {s.imports} import(s) in {s.changed} file(s)?"

def writeAll : List Change → σ → List Event × σ
  | [], store => ([], store)
  | c :: cs, store =>
    match FileStore.write store c.path c.content with
    | .ok next => let (events, last) := writeAll cs next; (.wrote c.path :: events, last)
    | .error f => let (events, last) := writeAll cs store; (.failed c.path f :: events, last)

def afterWrites (s : Summary) (writes : List Event) : Summary :=
  { s with
    written := (writes.filterMap fun | .wrote p => some p | _ => none).length
    failures := s.failures ++ writes.filterMap fun | .failed p f => some (p, f) | _ => none }

def run (table : Table) (dryRun : Bool) (ask : String → Except Fault Bool) (paths : List Path)
    (store : σ) : Outcome σ :=
  let findings := paths.map (examine table store)
  let changes := findings.filterMap Finding.change?
  let before := tally findings
  let seen := findings.filterMap Finding.event? ++ [.scanned before]
  if changes = [] ∨ dryRun then
    ⟨seen ++ [.finished before dryRun], store, .ok before⟩
  else
    let asked := seen ++ [.asked (question before)]
    match ask (question before) with
    | .error f => ⟨asked, store, .error (.prompt f)⟩
    | .ok false => ⟨asked ++ [.declined, .finished before false], store, .ok before⟩
    | .ok true =>
      let (writes, last) := writeAll changes store
      let after := afterWrites before writes
      ⟨asked ++ writes ++ [.finished after false], last, .ok after⟩

end Batch
end Unalias
