import Unalias.Proofs.Batch.Report

/-! What a dry run tells of the real one. The two look at the same files before they part, and
nothing that comes later changes what was found or how it is counted. -/
namespace Unalias

namespace Batch

variable {σ : Type} [FileStore σ]

/-- A listed file that cannot be read, and why. -/
def unreadable? (store : σ) (p : Path) : Option (Path × Fault) :=
  match FileStore.read store p with
  | .error f => some (p, f)
  | .ok _ => none

/-- The dry run looks at the files just as the real one does, and its totals are those of the
real one as far as they are known without a write. -/
structure Foretells (paths : List Path) (store : σ) (dry real : Outcome σ) : Prop where
  looked : reading dry.events = reading real.events
  /- so neither a question nor a write comes before the last of them -/
  looks_only : ∀ e ∈ reading real.events, (∃ c, e = .fixed c) ∨ ∃ p f, e = .failed p f
  none_later : (writing dry.events).filterMap Event.fixed? = [] ∧
    (writing real.events).filterMap Event.fixed? = []
  unreadable : (reading real.events).filterMap Event.failed? = paths.filterMap (unreadable? store)
  totals : ∃ d, dry.result = .ok d ∧ d.failures = paths.filterMap (unreadable? store) ∧
    ∀ s, real.result = .ok s →
      d.scanned = s.scanned ∧ d.changed = s.changed ∧ d.imports = s.imports ∧
        s.failures = d.failures ++ (writing real.events).filterMap Event.failed?

section run

variable (table : Table) (dryRun : Bool) (ask : String → Except Fault Bool) (paths : List Path)
  (store : σ)

theorem failures_findings :
    (findings table paths store).filterMap Finding.failure? =
      paths.filterMap (unreadable? store) := by
  rw [findings, List.filterMap_map]
  exact congrArg (paths.filterMap ·) (funext (failure?_examine table store))

theorem reading_run :
    reading (run table dryRun ask paths store).events =
      (findings table paths store).filterMap Finding.event? := by
  obtain ⟨rest, hevents, -⟩ := exists_events_run table dryRun ask paths store
  rw [hevents, reading_looks_append]

theorem fixed_writing_run :
    (writing (run table dryRun ask paths store).events).filterMap Event.fixed? = [] := by
  obtain ⟨rest, hevents, none⟩ := exists_events_run table dryRun ask paths store
  rw [hevents, writing_looks_append, List.filterMap_cons_none rfl, none]

/- All failures, those of reading first. -/
theorem failed_run :
    (run table dryRun ask paths store).events.filterMap Event.failed? =
      paths.filterMap (unreadable? store) ++
        (writing (run table dryRun ask paths store).events).filterMap Event.failed? := by
  obtain ⟨rest, hevents, -⟩ := exists_events_run table dryRun ask paths store
  rw [hevents, writing_looks_append, List.filterMap_append, failed_looks, failures_findings,
    List.filterMap_cons_none rfl]

/-- Once all files have been looked at, these counts stay. -/
theorem counts_run {s : Summary} (h : (run table dryRun ask paths store).result = .ok s) :
    let seen := tally (findings table paths store)
    s.scanned = seen.scanned ∧ s.changed = seen.changed ∧ s.imports = seen.imports := by
  have course := course_run table dryRun ask paths store
  generalize run table dryRun ask paths store = o at course h
  cases course with
  | idle idle =>
    cases h
    exact ⟨rfl, rfl, rfl⟩
  | broken busy answer => contradiction
  | declined busy answer =>
    cases h
    exact ⟨rfl, rfl, rfl⟩
  | agreed busy answer =>
    cases h
    exact ⟨rfl, rfl, rfl⟩

end run

theorem foretells_run (table : Table) (paths : List Path) (store : σ)
    (ask ask' : String → Except Fault Bool) :
    Foretells paths store (run table true ask' paths store)
      (run table false ask paths store) := by
  refine ⟨?_, ?_, ⟨fixed_writing_run .., fixed_writing_run ..⟩, ?_, ?_⟩
  · rw [reading_run, reading_run]
  · intro e he
    rw [reading_run] at he
    obtain ⟨finding, -, hf⟩ := List.mem_filterMap.mp he
    cases finding with
    | unreadable p f => exact .inr ⟨p, f, (Option.some.inj hf).symm⟩
    | settled p => contradiction
    | changed c => exact .inl ⟨c, (Option.some.inj hf).symm⟩
  · rw [failed_reading_run, failures_findings]
  · refine ⟨tally (findings table paths store), ?_, failures_findings table paths store, ?_⟩
    · rw [run_of_idle (.inr rfl)]
    · intro s hs
      obtain ⟨scanned, changed, imports⟩ := counts_run table false ask paths store hs
      refine ⟨scanned.symm, changed.symm, imports.symm, ?_⟩
      have failures : (tally (findings table paths store)).failures =
          paths.filterMap (unreadable? store) := failures_findings table paths store
      rw [failures_run table false ask paths store hs, failed_run, failures]

/-- A dry run foretells the real run on the same store, whatever either prompt would answer. It
asks nothing and leaves the store as it was, so that a real run after it is the real run alone. -/
theorem dryRun_foretells (table : Table) (paths : List Path) (store : σ)
    (ask ask' : String → Except Fault Bool) :
    let dry := run table true ask' paths store
    let real := run table false ask paths store
    Foretells paths store dry real ∧
      dry.events.filterMap Event.asked? = [] ∧ dry.events.filterMap Event.wrote? = [] ∧
      dry.store = store ∧ run table false ask paths dry.store = real := by
  intro dry real
  obtain ⟨kept, wrote, asked⟩ : dry.store = store ∧ _ ∧ _ := unwritten_of_idle (.inr rfl)
  refine ⟨foretells_run table paths store ask ask', asked, wrote, kept, ?_⟩
  rw [kept]

end Batch
end Unalias
