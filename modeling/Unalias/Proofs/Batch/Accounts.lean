import Unalias.Proofs.Batch.DryRun

/-! The books of a batch. All that it counts can be counted again from what was seen of it, and
nothing is counted that was not seen. -/
namespace Unalias

namespace Event

def finished? : Event → Option (Summary × Bool)
  | .finished s dryRun => some (s, dryRun)
  | _ => none

/-- The file that a write was for, whether it was taken or refused. -/
def target? : Event → Option Path
  | .wrote p => some p
  | .failed p _ => some p
  | _ => none

end Event

namespace Batch

variable {σ : Type} [FileStore σ]

/-- The file can be read, and none of its statements has a rule. -/
def isSettled (table : Table) (store : σ) (p : Path) : Bool :=
  match FileStore.read store p with
  | .ok t => table.found t = []
  | .error _ => false

/-- A question was put, and the answer was no. -/
def Declined (ask : String → Except Fault Bool) (o : Outcome σ) : Prop :=
  ∃ question ∈ o.events.filterMap Event.asked?, ask question = .ok false

section writes

/- A write is taken or refused, and is seen either way. -/
theorem target_writeAll (cs : List Change) (store : σ) :
    (writeAll cs store).1.filterMap Event.target? = cs.map (·.path) := by
  induction cs generalizing store with
  | nil => rfl
  | cons c cs ih =>
    rw [writeAll]
    cases FileStore.write store c.path c.content with
    | ok next => exact congrArg (c.path :: ·) (ih next)
    | error f => exact congrArg (c.path :: ·) (ih store)

theorem length_target {writes : List Event}
    (h : ∀ e ∈ writes, (∃ p, e = .wrote p) ∨ ∃ p f, e = .failed p f) :
    (writes.filterMap Event.target?).length =
      (writes.filterMap Event.wrote?).length + (writes.filterMap Event.failed?).length := by
  induction writes with
  | nil => rfl
  | cons e writes ih =>
    have tail := ih fun d hd => h d (List.mem_cons_of_mem e hd)
    rcases h e List.mem_cons_self with ⟨p, rfl⟩ | ⟨p, f, rfl⟩
    · simp only [List.filterMap_cons, Event.target?, Event.wrote?, Event.failed?, List.length_cons]
      omega
    · simp only [List.filterMap_cons, Event.target?, Event.wrote?, Event.failed?, List.length_cons]
      omega

end writes

/- Each listed file is due, or cannot be read, or has nothing to change. -/
theorem length_eq_due_add (table : Table) (paths : List Path) (store : σ) :
    paths.length = (plan table paths store).length + (paths.filterMap (unreadable? store)).length +
      (paths.filter (isSettled table store)).length := by
  rw [plan_eq]
  induction paths with
  | nil => rfl
  | cons p paths ih =>
    rw [List.filterMap_cons, List.filterMap_cons, List.filter_cons, List.length_cons, ih]
    cases read : FileStore.read store p with
    | error f =>
      have due : due? table store p = none := by simp [due?, read]
      have unread : unreadable? store p = some (p, f) := by simp [unreadable?, read]
      have busy : isSettled table store p = false := by simp [isSettled, read]
      simp only [due, unread, busy, Option.map_none, List.length_cons, Bool.false_eq_true, if_false]
      omega
    | ok t =>
      have readable : unreadable? store p = none := by simp [unreadable?, read]
      by_cases none : table.found t = []
      · have due : due? table store p = Option.none := by simp [due?, read, none]
        have settled : isSettled table store p = true := by simp [isSettled, read, none]
        simp only [due, readable, settled, Option.map_none, List.length_cons, if_true]
        omega
      · have due : due? table store p = some t := due?_eq_some_iff.mpr ⟨read, none⟩
        have busy : isSettled table store p = false := by simp [isSettled, read, none]
        simp only [due, readable, busy, Option.map_some, List.length_cons, Bool.false_eq_true,
          if_false]
        omega

/-- What is seen of a batch that comes to a summary: the looks, then the question if there was
one, then the writes if there were any, and the end. -/
structure Told (table : Table) (dryRun : Bool) (ask : String → Except Fault Bool)
    (paths : List Path) (store : σ) (o : Outcome σ) (s : Summary) (asks writes : List Event) :
    Prop where
  events : o.events = looks table paths store ++ (asks ++ writes ++ [.finished s dryRun])
  answer : ∀ e ∈ asks, (∃ question, e = .asked question) ∨ e = .declined
  tried : ∀ e ∈ writes, (∃ p, e = .wrote p) ∨ ∃ p f, e = .failed p f
  summary : s = afterWrites (tally (findings table paths store)) writes
  idle : dryRun = true ∨ Declined ask o → writes = []
  busy : ¬(dryRun = true ∨ Declined ask o) → writes = (writeAll (plan table paths store) store).1

theorem finished_looks (table : Table) (paths : List Path) (store : σ) :
    (looks table paths store).filterMap Event.finished? = [] :=
  filterMap_looks _ table paths store (fun _ => rfl) (fun _ _ => rfl) (fun _ => rfl)

section told

variable {table : Table} {dryRun : Bool} {ask : String → Except Fault Bool} {paths : List Path}
  {store : σ} {o : Outcome σ} {s : Summary} {asks writes : List Event}

theorem not_declined_of_agreed (answer : ask (consent table paths store) = .ok true)
    (tried : ∀ e ∈ writes, (∃ p, e = .wrote p) ∨ ∃ p f, e = .failed p f)
    (events : o.events = looks table paths store ++
      ([.asked (consent table paths store)] ++ writes ++ [.finished s false])) :
    ¬Declined ask o := by
  rintro ⟨question, asked, refused⟩
  rw [events, asked_looks_append, List.filterMap_append, List.filterMap_append,
    filterMap_writes Event.asked? tried (fun _ => rfl) (fun _ _ => rfl)] at asked
  have alone : question = consent table paths store := by simpa [Event.asked?] using asked
  rw [alone, answer] at refused
  simp at refused

theorem Course.told (course : Course table dryRun ask paths store o) (h : o.result = .ok s) :
    ∃ asks writes, Told table dryRun ask paths store o s asks writes := by
  cases course with
  | idle idle =>
    cases h
    refine ⟨[], [], rfl, by simp, by simp, afterWrites_nil.symm, fun _ => rfl, fun awake => ?_⟩
    rw [idle.resolve_right fun dry => awake (.inl dry)]
    rfl
  | broken busy answer => contradiction
  | declined busy answer =>
    cases h
    have wet : dryRun = false := Bool.eq_false_iff.mpr fun dry => busy (.inr dry)
    refine ⟨[.asked (consent table paths store), .declined], [], ?_, by simp, by simp,
      afterWrites_nil.symm, fun _ => rfl, fun awake => absurd (.inr ?_) awake⟩
    · rw [wet, List.append_assoc]
      rfl
    · refine ⟨consent table paths store, ?_, answer⟩
      rw [List.append_assoc, asked_looks_append]
      exact List.mem_cons_self
  | agreed busy answer =>
    cases h
    have wet : dryRun = false := Bool.eq_false_iff.mpr fun dry => busy (.inr dry)
    have tried : ∀ e ∈ (writeAll (plan table paths store) store).1,
        (∃ p, e = .wrote p) ∨ ∃ p f, e = .failed p f := fun _ he => writeAll_events he
    refine ⟨[.asked (consent table paths store)], _, ?_, by simp, tried, rfl, ?_, fun _ => rfl⟩
    · rw [wet, List.append_assoc, List.append_assoc]
      rfl
    · rintro (dry | declined)
      · exact absurd (.inr dry) busy
      · refine absurd declined ?_
        apply not_declined_of_agreed answer tried
        rw [List.append_assoc, List.append_assoc]
        rfl

variable (told : Told table dryRun ask paths store o s asks writes)

include told

/- The question counts for nothing but itself, and neither does the end. -/
theorem Told.filterMap_later {α : Type} (g : Event → Option α)
    (asked : ∀ question, g (.asked question) = none) (declined : g .declined = none)
    (finished : ∀ s dryRun, g (.finished s dryRun) = none) :
    (asks ++ writes ++ [Event.finished s dryRun]).filterMap g = writes.filterMap g := by
  have quiet : asks.filterMap g = [] := by
    rw [List.filterMap_eq_nil_iff]
    intro e he
    rcases told.answer e he with ⟨question, rfl⟩ | rfl
    · exact asked question
    · exact declined
  rw [List.filterMap_append, List.filterMap_append, quiet, List.filterMap_cons_none (finished _ _)]
  exact List.append_nil _

theorem Told.filterMap_writing {α : Type} (g : Event → Option α)
    (asked : ∀ question, g (.asked question) = none) (declined : g .declined = none)
    (scanned : ∀ s, g (.scanned s) = none) (finished : ∀ s dryRun, g (.finished s dryRun) = none) :
    (writing o.events).filterMap g = writes.filterMap g := by
  rw [told.events, writing_looks_append, List.filterMap_cons_none (scanned _),
    told.filterMap_later g asked declined finished]

theorem Told.filterMap_events {α : Type} (g : Event → Option α)
    (asked : ∀ question, g (.asked question) = none) (declined : g .declined = none)
    (finished : ∀ s dryRun, g (.finished s dryRun) = none) :
    o.events.filterMap g = (looks table paths store).filterMap g ++ writes.filterMap g := by
  rw [told.events, List.filterMap_append, told.filterMap_later g asked declined finished]

theorem Told.fixed : o.events.filterMap Event.fixed? = plan table paths store := by
  rw [told.filterMap_events _ (fun _ => rfl) rfl (fun _ _ => rfl), fixed_looks,
    filterMap_writes _ told.tried (fun _ => rfl) (fun _ _ => rfl)]
  exact List.append_nil _

theorem Told.wrote : o.events.filterMap Event.wrote? = writes.filterMap Event.wrote? := by
  rw [told.filterMap_events _ (fun _ => rfl) rfl (fun _ _ => rfl), wrote_looks]
  rfl

theorem Told.failed : o.events.filterMap Event.failed? =
    paths.filterMap (unreadable? store) ++ writes.filterMap Event.failed? := by
  rw [told.filterMap_events _ (fun _ => rfl) rfl (fun _ _ => rfl), failed_looks, failures_findings]

theorem Told.failed_writing :
    (writing o.events).filterMap Event.failed? = writes.filterMap Event.failed? :=
  told.filterMap_writing _ (fun _ => rfl) rfl (fun _ => rfl) (fun _ _ => rfl)

theorem Told.target_writing :
    (writing o.events).filterMap Event.target? = writes.filterMap Event.target? :=
  told.filterMap_writing _ (fun _ => rfl) rfl (fun _ => rfl) (fun _ _ => rfl)

/- As many writes are tried as there are changes, if any is tried at all. -/
theorem Told.target : (dryRun = true ∨ Declined ask o → writes.filterMap Event.target? = []) ∧
    (¬(dryRun = true ∨ Declined ask o) →
      writes.filterMap Event.target? = (plan table paths store).map (·.path)) := by
  refine ⟨fun idle => ?_, fun busy => ?_⟩
  · rw [told.idle idle]
    rfl
  · rw [told.busy busy, target_writeAll]

theorem Told.refused (p : Path) (f : Fault) :
    (p, f) ∈ writes.filterMap Event.failed? ↔
      ¬(dryRun = true ∨ Declined ask o) ∧ Refused (plan table paths store) store p f := by
  by_cases idle : dryRun = true ∨ Declined ask o
  · rw [told.idle idle]
    simp [idle]
  · rw [told.busy idle, failed_mem_writeAll_iff, and_iff_right idle]

/- No event before the end says that the batch has ended. -/
theorem Told.finished : ∃ before, o.events = before ++ [.finished s dryRun] ∧
    before.filterMap Event.finished? = [] := by
  refine ⟨looks table paths store ++ (asks ++ writes), ?_, ?_⟩
  · exact told.events.trans (List.append_assoc _ _ _).symm
  · have quiet : asks.filterMap Event.finished? = [] := by
      rw [List.filterMap_eq_nil_iff]
      intro e he
      rcases told.answer e he with ⟨question, rfl⟩ | rfl
      · rfl
      · rfl
    rw [List.filterMap_append, List.filterMap_append, finished_looks, quiet,
      filterMap_writes _ told.tried (fun _ => rfl) (fun _ _ => rfl)]
    rfl

end told

/-- What a summary says of a batch, against what was seen of the batch. -/
structure Accounted (table : Table) (dryRun : Bool) (ask : String → Except Fault Bool)
    (paths : List Path) (store : σ) (o : Outcome σ) (s : Summary) : Prop where
  scanned : s.scanned = paths.length
  fixed : o.events.filterMap Event.fixed? =
    paths.filterMap fun p => (due? table store p).map (table.change p)
  entries : s.scanned = (o.events.filterMap Event.fixed?).length +
    (paths.filterMap (unreadable? store)).length + (paths.filter (isSettled table store)).length
  changed : s.changed = (o.events.filterMap Event.fixed?).length
  imports : s.imports = ((o.events.filterMap Event.fixed?).flatMap (·.replacements)).length
  failures : s.failures =
    paths.filterMap (unreadable? store) ++ (writing o.events).filterMap Event.failed?
  reported : s.failures = o.events.filterMap Event.failed?
  /- the failures after all files have been looked at are the writes that the store refuses -/
  refused : ∀ p f, (p, f) ∈ (writing o.events).filterMap Event.failed? ↔
    ¬(dryRun = true ∨ Declined ask o) ∧ Refused (o.events.filterMap Event.fixed?) store p f
  written : s.written = (o.events.filterMap Event.wrote?).length
  /- no write was even tried -/
  unwritten : dryRun = true ∨ Declined ask o →
    s.written = 0 ∧ (writing o.events).filterMap Event.target? = []
  /- each file that was fixed is written or fails, in the order of the list -/
  targets : ¬(dryRun = true ∨ Declined ask o) →
    (writing o.events).filterMap Event.target? = (o.events.filterMap Event.fixed?).map (·.path) ∧
      s.written + ((writing o.events).filterMap Event.failed?).length = s.changed
  bounds : s.written ≤ s.changed ∧ s.changed ≤ s.scanned
  finished : ∃ before, o.events = before ++ [.finished s dryRun] ∧
    before.filterMap Event.finished? = []

/-- A batch that comes to no summary has written nothing, and does not say that it has ended. -/
structure Aborted (store : σ) (o : Outcome σ) : Prop where
  store : o.store = store
  wrote : o.events.filterMap Event.wrote? = []
  finished : o.events.filterMap Event.finished? = []

section accounted

variable {table : Table} {dryRun : Bool} {ask : String → Except Fault Bool} {paths : List Path}
  {store : σ} {o : Outcome σ} {s : Summary} {asks writes : List Event}

theorem Told.accounted (told : Told table dryRun ask paths store o s asks writes) :
    Accounted table dryRun ask paths store o s := by
  have summary : s = afterWrites (tally (findings table paths store)) writes := told.summary
  have scanned : s.scanned = paths.length := by
    rw [summary]
    exact List.length_map _
  have changed : s.changed = (plan table paths store).length := by
    rw [summary]
    rfl
  have written : s.written = (writes.filterMap Event.wrote?).length := by
    rw [summary]
    rfl
  have failures : s.failures =
      paths.filterMap (unreadable? store) ++ writes.filterMap Event.failed? := by
    rw [summary, ← failures_findings table paths store]
    rfl
  have entries := length_eq_due_add table paths store
  have both := length_target told.tried
  obtain ⟨unwritten, targets⟩ := told.target
  have total (busy : ¬(dryRun = true ∨ Declined ask o)) :
      s.written + (writes.filterMap Event.failed?).length = s.changed := by
    rw [written, changed, ← both, targets busy, List.length_map]
  refine ⟨scanned, told.fixed.trans (plan_eq ..), ?_, ?_, ?_, ?_, ?_, fun p f => ?_, ?_,
    fun idle => ⟨?_, ?_⟩, fun busy => ⟨?_, ?_⟩, ⟨?_, ?_⟩, told.finished⟩
  · rw [scanned, told.fixed]
    exact entries
  · rw [changed, told.fixed]
  · rw [told.fixed, summary]
    rfl
  · rw [failures, told.failed_writing]
  · rw [failures, told.failed]
  · rw [told.failed_writing, told.fixed]
    exact told.refused p f
  · rw [written, told.wrote]
  · rw [written, told.idle idle]
    rfl
  · rw [told.target_writing]
    exact unwritten idle
  · rw [told.target_writing, told.fixed]
    exact targets busy
  · rw [told.failed_writing]
    exact total busy
  · by_cases idle : dryRun = true ∨ Declined ask o
    · rw [written, told.idle idle]
      exact Nat.zero_le _
    · have := total idle
      omega
  · omega

/- Only the course that breaks off leads to an error. -/
theorem Course.aborted {e : Error} (course : Course table dryRun ask paths store o)
    (h : o.result = .error e) :
    ∃ f question, e = .prompt f ∧ question ∈ o.events.filterMap Event.asked? ∧
      ask question = .error f ∧ Aborted store o := by
  cases course with
  | idle idle => contradiction
  | broken busy answer =>
    cases h
    refine ⟨_, consent table paths store, rfl, ?_, answer, rfl, wrote_looks_append .., ?_⟩
    · rw [asked_looks_append]
      exact List.mem_cons_self
    · rw [List.filterMap_append, finished_looks]
      rfl
  | declined busy answer => contradiction
  | agreed busy answer => contradiction

end accounted

/-- Whatever a batch counts can be counted again from its events and from the store that it began
with, if it comes to a summary. Otherwise it is the prompt that failed, and nothing was done. -/
theorem run_accounted (table : Table) (dryRun : Bool) (ask : String → Except Fault Bool)
    (paths : List Path) (store : σ) :
    let o := run table dryRun ask paths store
    (∃ s, o.result = .ok s ∧ Accounted table dryRun ask paths store o s) ∨
      ∃ f question, o.result = .error (.prompt f) ∧ question ∈ o.events.filterMap Event.asked? ∧
        ask question = .error f ∧ Aborted store o := by
  intro o
  have course : Course table dryRun ask paths store o := course_run ..
  cases h : o.result with
  | ok s =>
    obtain ⟨asks, writes, told⟩ := course.told h
    exact .inl ⟨s, rfl, told.accounted⟩
  | error e =>
    obtain ⟨f, question, rfl, asked, answer, aborted⟩ := course.aborted h
    exact .inr ⟨f, question, rfl, asked, answer, aborted⟩

end Batch
end Unalias
