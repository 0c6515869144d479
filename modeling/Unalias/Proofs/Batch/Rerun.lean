import Mathlib.Data.List.Basic
import Unalias.Proofs.Batch.Report
import Unalias.Proofs.Batch.Shelf
import Unalias.Proofs.Change.Again

/-! A batch that is run again on what it left behind. A file that was changed is no longer due,
so only the files that could not be written come up once more. -/
namespace Unalias

namespace Batch

variable {κ : Type} [DecidableEq κ] [Label κ] {table : Table} {paths : List Path} {shelf : Shelf κ}

/- What is read from a path is up to what the shelf holds for it. -/
theorem read_congr {shelf' : Shelf κ} {p : Path} (same : shelf'.find? p = shelf.find? p) :
    FileStore.read shelf' p = FileStore.read shelf p := by
  rw [Shelf.read_eq, Shelf.read_eq, same]

/-- The shelf that a batch leaves behind once it has written all that it can. -/
def after (table : Table) (paths : List Path) (shelf : Shelf κ) : Shelf κ :=
  (writeAll (plan table paths shelf) shelf).2

/-- The summary of a batch that has done so. -/
def total (table : Table) (paths : List Path) (shelf : Shelf κ) : Summary :=
  afterWrites (tally (findings table paths shelf)) (writeAll (plan table paths shelf) shelf).1

theorem read_after_of_not_due {p : Path} (h : due? table shelf p = none ∨ shelf.Locks p) :
    FileStore.read (after table paths shelf) p = FileStore.read shelf p := by
  apply read_congr
  rw [after, find?_writeAll_plan]
  split
  · rename_i both
    rw [h.resolve_right both.2]
    rfl
  · rfl

theorem read_after_of_due {p : Path} {t : Text} (listed : p ∈ paths) (unlocked : ¬shelf.Locks p)
    (due : due? table shelf p = some t) :
    FileStore.read (after table paths shelf) p = .ok (table.change p t).content := by
  have held : (after table paths shelf).find? p = some (.text (table.change p t).content) := by
    rw [after, find?_writeAll_plan, if_pos ⟨⟨p, listed, rfl⟩, unlocked⟩, due]
    rfl
  rw [Shelf.read_eq, held]

/- A locked file stays due, and no other file does. -/
theorem due?_after (unmarked : table.Unmarked) {p : Path} (listed : p ∈ paths) :
    due? table (after table paths shelf) p =
      if shelf.Locks p then due? table shelf p else none := by
  by_cases locked : shelf.Locks p
  · rw [if_pos locked, due?, due?, read_after_of_not_due (.inr locked)]
  · rw [if_neg locked]
    cases due : due? table shelf p with
    | none =>
      rw [← due, due?, due?, read_after_of_not_due (.inl due)]
    | some t =>
      rw [due?, read_after_of_due listed locked due]
      exact if_pos (Table.found_content_change unmarked p t)

theorem failure?_examine_after {p : Path} (listed : p ∈ paths) :
    (examine table (after table paths shelf) p).failure? = (examine table shelf p).failure? := by
  rw [failure?_examine, failure?_examine]
  by_cases locked : shelf.Locks p
  · rw [read_after_of_not_due (.inr locked)]
  · cases due : due? table shelf p with
    | none => rw [read_after_of_not_due (.inl due)]
    | some t => rw [read_after_of_due listed locked due, (due?_eq_some_iff.mp due).1]

theorem failures_after (table : Table) (paths : List Path) (shelf : Shelf κ) :
    (findings table paths (after table paths shelf)).filterMap Finding.failure? =
      (findings table paths shelf).filterMap Finding.failure? := by
  rw [findings, findings, List.filterMap_map, List.filterMap_map]
  exact List.filterMap_congr fun p listed => failure?_examine_after listed

theorem plan_after (unmarked : table.Unmarked) :
    plan table paths (after table paths shelf) =
      (plan table paths shelf).filter (shelf.Locks ·.path) := by
  rw [plan_eq, plan_eq, List.filter_filterMap]
  refine List.filterMap_congr fun p listed => ?_
  rw [due?_after unmarked listed]
  cases due? table shelf p with
  | none => simp
  | some t =>
    have path : (table.change p t).path = p := rfl
    by_cases locked : shelf.Locks p <;> simp [locked, path, Option.filter_some]

/- Nothing can be written, and nothing is. -/
theorem writeAll_of_locked {cs : List Change} (h : ∀ c ∈ cs, shelf.Locks c.path) :
    (writeAll cs shelf).2 = shelf := by
  induction cs with
  | nil => rfl
  | cons c cs ih =>
    rw [writeAll_cons_of_locked (h c List.mem_cons_self)]
    exact ih fun d hd => h d (List.mem_cons_of_mem c hd)

theorem failed_writeAll (cs : List Change) (shelf : Shelf κ) :
    (writeAll cs shelf).1.filterMap Event.failed? =
      (cs.filter (shelf.Locks ·.path)).map fun c => (c.path, .forbidden) := by
  rw [events_writeAll, List.filterMap_map]
  induction cs with
  | nil => rfl
  | cons c cs ih =>
    by_cases locked : shelf.Locks c.path
    · rw [List.filterMap_cons_some (b := (c.path, .forbidden)) (by simp [locked, Event.failed?]),
        ih, List.filter_cons_of_pos (by simpa using locked)]
      rfl
    · rw [List.filterMap_cons_none (by simp [locked, Event.failed?]), ih,
        List.filter_cons_of_neg (by simpa using locked)]

/- However a run ends that can only change locked files, it changes none. -/
theorem store_run_of_locked {table : Table} {paths : List Path} {shelf : Shelf κ}
    (h : ∀ c ∈ plan table paths shelf, shelf.Locks c.path) (dryRun : Bool)
    (ask : String → Except Fault Bool) : (run table dryRun ask paths shelf).store = shelf := by
  rcases store_run_cases table dryRun ask paths shelf with same | ⟨-, -, wrote⟩
  · exact same
  · rw [wrote]
    exact writeAll_of_locked h

/-- The files that a run could not write, with the reasons. -/
def unwritten (o : Outcome (Shelf κ)) : List (Path × Fault) :=
  (writing o.events).filterMap Event.failed?

/-- The second run fixes once more what the first one could not write, in the same way and order,
and finds the same files unreadable. It changes no file. -/
structure Retries (first second : Outcome (Shelf κ)) : Prop where
  fixed : second.events.filterMap Event.fixed? =
    (first.events.filterMap Event.fixed?).filter (·.path ∈ (unwritten first).map (·.1))
  entries : (second.events.filterMap Event.fixed?).map (·.path) = (unwritten first).map (·.1)
  unreadable : (reading second.events).filterMap Event.failed? =
    (reading first.events).filterMap Event.failed?
  store : second.store = first.store

/-- The run finds nothing to fix, asks nothing and writes nothing. -/
structure Quiet (o : Outcome (Shelf κ)) : Prop where
  summary : ∃ s, o.result = .ok s ∧ s.changed = 0 ∧ s.imports = 0 ∧ s.written = 0
  asked : o.events.filterMap Event.asked? = []
  wrote : o.events.filterMap Event.wrote? = []

theorem quiet_of_plan_eq_nil {table : Table} {paths : List Path} {shelf : Shelf κ}
    (none : plan table paths shelf = []) (dryRun : Bool) (ask : String → Except Fault Bool) :
    Quiet (run table dryRun ask paths shelf) := by
  have changes : (findings table paths shelf).filterMap Finding.change? = [] := none
  have counts : (tally (findings table paths shelf)).changed = 0 ∧
      (tally (findings table paths shelf)).imports = 0 := by simp [tally, changes]
  obtain ⟨-, wrote, asked⟩ : (run table dryRun ask paths shelf).store = shelf ∧ _ ∧ _ :=
    unwritten_of_idle (.inl none)
  refine ⟨⟨tally (findings table paths shelf), ?_, counts.1, counts.2, rfl⟩, asked, wrote⟩
  exact congrArg Outcome.result (run_of_idle (.inl none))

section confirmed

variable {ask : String → Except Fault Bool}

/- With nothing to write there is no question, and no write either. -/
theorem run_of_confirmed (confirmed : ask (consent table paths shelf) = .ok true) :
    ∃ asks, asks.filterMap Event.failed? = [] ∧
      run table false ask paths shelf =
        ⟨looks table paths shelf ++ (asks ++ ((writeAll (plan table paths shelf) shelf).1 ++
          [.finished (total table paths shelf) false])), after table paths shelf,
          .ok (total table paths shelf)⟩ := by
  by_cases idle : plan table paths shelf = [] ∨ false = true
  · have none : plan table paths shelf = [] := idle.resolve_right Bool.false_ne_true
    have counted : total table paths shelf = tally (findings table paths shelf) := by
      rw [total, none]
      exact afterWrites_nil
    refine ⟨[], rfl, ?_⟩
    rw [run_of_idle idle, counted, after, none]
    rfl
  · refine ⟨[.asked (consent table paths shelf)], rfl, ?_⟩
    rw [run_of_agreed idle confirmed, List.append_assoc, List.append_assoc]
    rfl

theorem store_run (confirmed : ask (consent table paths shelf) = .ok true) :
    (run table false ask paths shelf).store = after table paths shelf := by
  obtain ⟨asks, -, h⟩ := run_of_confirmed confirmed
  rw [h]

theorem result_run (confirmed : ask (consent table paths shelf) = .ok true) :
    (run table false ask paths shelf).result = .ok (total table paths shelf) := by
  obtain ⟨asks, -, h⟩ := run_of_confirmed confirmed
  rw [h]

theorem unwritten_run (confirmed : ask (consent table paths shelf) = .ok true) :
    unwritten (run table false ask paths shelf) =
      ((plan table paths shelf).filter (shelf.Locks ·.path)).map
        fun c => (c.path, .forbidden) := by
  obtain ⟨asks, quiet, h⟩ := run_of_confirmed confirmed
  rw [unwritten, h, writing_looks_append, List.filterMap_cons_none rfl, List.filterMap_append,
    List.filterMap_append, failed_writeAll, quiet]
  exact List.append_nil _

theorem paths_unwritten_run (confirmed : ask (consent table paths shelf) = .ok true) :
    (unwritten (run table false ask paths shelf)).map (·.1) =
      ((plan table paths shelf).filter (shelf.Locks ·.path)).map (·.path) := by
  rw [unwritten_run confirmed, List.map_map]
  rfl

/- Of the planned changes, those that fail are the ones to locked paths. -/
theorem mem_unwritten_run_iff (confirmed : ask (consent table paths shelf) = .ok true) {c : Change}
    (planned : c ∈ plan table paths shelf) :
    c.path ∈ (unwritten (run table false ask paths shelf)).map (·.1) ↔ shelf.Locks c.path := by
  rw [paths_unwritten_run confirmed]
  constructor
  · intro h
    obtain ⟨d, hd, same⟩ := List.mem_map.mp h
    exact same ▸ of_decide_eq_true (List.mem_filter.mp hd).2
  · intro locked
    exact List.mem_map_of_mem (List.mem_filter.mpr ⟨planned, decide_eq_true locked⟩)

theorem retries_run (unmarked : table.Unmarked)
    (confirmed : ask (consent table paths shelf) = .ok true) (dryRun : Bool)
    (ask' : String → Except Fault Bool) :
    Retries (run table false ask paths shelf)
      (run table dryRun ask' paths (after table paths shelf)) := by
  refine ⟨?_, ?_, ?_, ?_⟩
  · rw [fixed_run, fixed_run, plan_after unmarked]
    exact List.filter_congr fun c hc =>
      decide_eq_decide.mpr (mem_unwritten_run_iff confirmed hc).symm
  · rw [fixed_run, plan_after unmarked, paths_unwritten_run confirmed]
  · rw [failed_reading_run, failed_reading_run, failures_after]
  · rw [store_run confirmed]
    refine store_run_of_locked (fun c hc => ?_) dryRun ask'
    rw [plan_after unmarked] at hc
    rw [after, Shelf.Locks, locked_writeAll]
    exact of_decide_eq_true (List.mem_filter.mp hc).2

end confirmed

/-- After a confirmed batch, a second one over the same files retries exactly what the first one
could not write; and if it could write all, the second one has nothing to do. -/
theorem run_again (table : Table) (unmarked : table.Unmarked) (paths : List Path) (shelf : Shelf κ)
    (ask : String → Except Fault Bool) (confirmed : ask (consent table paths shelf) = .ok true)
    (dryRun : Bool) (ask' : String → Except Fault Bool) :
    let first := run table false ask paths shelf
    let second := run table dryRun ask' paths first.store
    first.store.locked = shelf.locked ∧ Retries first second ∧
      (unwritten first = [] → Quiet second) := by
  intro first second
  have left : first.store = after table paths shelf := store_run confirmed
  refine ⟨?_, ?_, fun none => quiet_of_plan_eq_nil ?_ dryRun ask'⟩
  · rw [left]
    exact locked_writeAll _ shelf
  · have again := retries_run unmarked confirmed dryRun ask'
    rw [← left] at again
    exact again
  · rw [left, plan_after unmarked]
    exact List.map_eq_nil_iff.mp ((unwritten_run confirmed).symm.trans none)

/- One file is locked, one is listed twice, and one is not there. What is locked and what is listed
twice is written in two ways. -/
theorem run_again_locked :
    let table : Table := ⟨[⟨"@app/*".toList, ⟨"/r/app".toList⟩⟩, ⟨"*".toList, ⟨"/r/lib".toList⟩⟩]⟩
    let text := "import a from \"x import b from '@app/../y';\nimport c from 'z\"/w/'".toList
    let locked := Path.ofString "/r/web/a.ts"
    let written := Path.ofString "/r/web/b.ts"
    let shelf : Shelf (List Component) :=
      ⟨[(locked.components, .text text), (written.components, .text text)], [locked.components]⟩
    let paths :=
      [written, .ofString "/r/none.ts", .ofString "/r//web/a.ts", .ofString "/r/web/./b.ts"]
    let ask (_ : String) : Except Fault Bool := .ok true
    let first := run table false ask paths shelf
    let second := run table false ask paths first.store
    table.Unmarked ∧ ask (consent table paths shelf) = .ok true ∧
      first.store.locked = shelf.locked ∧ Retries first second ∧
      (unwritten first = [] → Quiet second) := by
  intro table text locked written shelf paths ask
  have unmarked : table.Unmarked := by simp [Table.Unmarked, table, Statement.isMark]
  exact ⟨unmarked, rfl, run_again table unmarked paths shelf ask rfl false ask⟩

end Batch
end Unalias
