import Unalias.Proofs.Batch.Plan

/-! What a batch reports: first what it finds while it reads, then what becomes of the writes. -/
namespace Unalias

namespace Event

def fixed? : Event → Option Change
  | .fixed c => some c
  | _ => none

def failed? : Event → Option (Path × Fault)
  | .failed p f => some (p, f)
  | _ => none

def isScanned : Event → Bool
  | .scanned _ => true
  | _ => false

end Event

namespace Batch

/-- The events up to where all files have been looked at. -/
def reading (events : List Event) : List Event := events.takeWhile (!·.isScanned)

/-- The events from there on: the question, the writes and the end. -/
def writing (events : List Event) : List Event := events.dropWhile (!·.isScanned)

variable {σ : Type} [FileStore σ]

section findings

variable (fs : List Finding)

theorem fixed_findings :
    (fs.filterMap Finding.event?).filterMap Event.fixed? = fs.filterMap Finding.change? := by
  rw [List.filterMap_filterMap]
  refine congrArg (fs.filterMap ·) (funext fun finding => ?_)
  cases finding <;> rfl

theorem failed_findings :
    (fs.filterMap Finding.event?).filterMap Event.failed? = fs.filterMap Finding.failure? := by
  rw [List.filterMap_filterMap]
  refine congrArg (fs.filterMap ·) (funext fun finding => ?_)
  cases finding <;> rfl

theorem not_isScanned_of_mem {e : Event} (h : e ∈ fs.filterMap Finding.event?) :
    (!e.isScanned) = true := by
  obtain ⟨finding, -, hf⟩ := List.mem_filterMap.mp h
  cases finding with
  | unreadable p f => exact Option.some.inj hf ▸ rfl
  | settled p => contradiction
  | changed c => exact Option.some.inj hf ▸ rfl

end findings

theorem failure?_examine (table : Table) (store : σ) (p : Path) :
    (examine table store p).failure? =
      match FileStore.read store p with
      | .error f => some (p, f)
      | .ok _ => none := by
  cases read : FileStore.read store p with
  | error f => simp [examine, read, Finding.failure?]
  | ok t =>
    rw [examine, read]
    dsimp only
    split <;> rfl

theorem reading_looks_append (table : Table) (paths : List Path) (store : σ) (rest : List Event) :
    reading (looks table paths store ++ rest) =
      (findings table paths store).filterMap Finding.event? := by
  rw [reading, looks, List.append_assoc,
    List.takeWhile_append_of_pos fun _ he => not_isScanned_of_mem _ he]
  exact List.append_nil _

theorem writing_looks_append (table : Table) (paths : List Path) (store : σ) (rest : List Event) :
    writing (looks table paths store ++ rest) =
      .scanned (tally (findings table paths store)) :: rest := by
  rw [writing, looks, List.append_assoc,
    List.dropWhile_append_of_pos fun _ he => not_isScanned_of_mem _ he]
  rfl

theorem writeAll_events {cs : List Change} {store : σ} {e : Event}
    (h : e ∈ (writeAll cs store).1) : (∃ p, e = .wrote p) ∨ ∃ p f, e = .failed p f := by
  induction cs generalizing store with
  | nil => cases h
  | cons c cs ih =>
    rw [writeAll] at h
    split at h
    · rcases List.mem_cons.mp h with h | h
      · exact .inl ⟨_, h⟩
      · exact ih h
    · rcases List.mem_cons.mp h with h | h
      · exact .inr ⟨_, _, h⟩
      · exact ih h

theorem filterMap_writes {α : Type} (g : Event → Option α) {writes : List Event}
    (h : ∀ e ∈ writes, (∃ p, e = .wrote p) ∨ ∃ p f, e = .failed p f)
    (wrote : ∀ p, g (.wrote p) = none) (failed : ∀ p f, g (.failed p f) = none) :
    writes.filterMap g = [] := by
  rw [List.filterMap_eq_nil_iff]
  intro e he
  rcases h e he with ⟨p, rfl⟩ | ⟨p, f, rfl⟩
  · exact wrote p
  · exact failed p f

theorem fixed_writeAll (cs : List Change) (store : σ) :
    (writeAll cs store).1.filterMap Event.fixed? = [] :=
  filterMap_writes _ (fun _ he => writeAll_events he) (fun _ => rfl) (fun _ _ => rfl)

/-- The write of one of the changes is refused, after all changes before it. -/
def Refused (cs : List Change) (store : σ) (p : Path) (f : Fault) : Prop :=
  ∃ before c after, cs = before ++ c :: after ∧ c.path = p ∧
    FileStore.write (writeAll before store).2 p c.content = .error f

theorem refused_nil (store : σ) (p : Path) (f : Fault) : ¬Refused [] store p f := by
  rintro ⟨before, c, after, h, -⟩
  simp at h

theorem refused_cons_iff {c : Change} {cs : List Change} {store : σ} {p : Path} {f : Fault} :
    Refused (c :: cs) store p f ↔
      c.path = p ∧ FileStore.write store p c.content = .error f ∨
        Refused cs (writeAll [c] store).2 p f := by
  have first (before : List Change) :
      (writeAll (c :: before) store).2 = (writeAll before (writeAll [c] store).2).2 := by
    rw [writeAll, writeAll]
    cases FileStore.write store c.path c.content <;> rfl
  constructor
  · rintro ⟨before, d, after, h, hp, hw⟩
    cases before with
    | nil =>
      obtain ⟨rfl, -⟩ := List.cons.inj h
      exact .inl ⟨hp, hw⟩
    | cons b before =>
      obtain ⟨rfl, rest⟩ := List.cons.inj h
      rw [first] at hw
      exact .inr ⟨before, d, after, rest, hp, hw⟩
  · rintro (⟨hp, hw⟩ | ⟨before, d, after, rest, hp, hw⟩)
    · exact ⟨[], c, cs, rfl, hp, hw⟩
    · rw [← first] at hw
      exact ⟨c :: before, d, after, congrArg (c :: ·) rest, hp, hw⟩

theorem failed_mem_writeAll_iff {cs : List Change} {store : σ} {p : Path} {f : Fault} :
    (p, f) ∈ (writeAll cs store).1.filterMap Event.failed? ↔ Refused cs store p f := by
  induction cs generalizing store with
  | nil => simp [writeAll, refused_nil]
  | cons c cs ih =>
    rw [refused_cons_iff, writeAll, writeAll]
    cases hw : FileStore.write store c.path c.content with
    | ok next =>
      have taken : ¬(c.path = p ∧ FileStore.write store p c.content = .error f) := by
        rintro ⟨rfl, refused⟩
        rw [hw] at refused
        contradiction
      rw [or_iff_right taken]
      exact ih
    | error g =>
      have same : c.path = p ∧ FileStore.write store p c.content = .error f ↔
          p = c.path ∧ f = g := by
        constructor
        · rintro ⟨rfl, refused⟩
          rw [hw] at refused
          exact ⟨rfl, (Except.error.inj refused).symm⟩
        · rintro ⟨rfl, rfl⟩
          exact ⟨rfl, hw⟩
      rw [same, ← Prod.mk.injEq, ← ih]
      exact List.mem_cons

section looks

variable (table : Table) (paths : List Path) (store : σ)

theorem fixed_looks :
    (looks table paths store).filterMap Event.fixed? = plan table paths store := by
  rw [looks, List.filterMap_append, fixed_findings]
  exact List.append_nil _

theorem failed_looks :
    (looks table paths store).filterMap Event.failed? =
      (findings table paths store).filterMap Finding.failure? := by
  rw [looks, List.filterMap_append, failed_findings]
  exact List.append_nil _

theorem failed_mem_looks_iff {p : Path} {f : Fault} :
    (p, f) ∈ (looks table paths store).filterMap Event.failed? ↔
      p ∈ paths ∧ FileStore.read store p = .error f := by
  rw [failed_looks, findings, List.filterMap_map, List.mem_filterMap]
  constructor
  · rintro ⟨q, listed, hq⟩
    rw [Function.comp_apply, failure?_examine] at hq
    split at hq
    · rename_i g read
      obtain ⟨rfl, rfl⟩ := Prod.mk.inj (Option.some.inj hq)
      exact ⟨listed, read⟩
    · contradiction
  · rintro ⟨listed, read⟩
    exact ⟨p, listed, by rw [Function.comp_apply, failure?_examine, read]⟩

end looks

section run

variable (table : Table) (dryRun : Bool) (ask : String → Except Fault Bool) (paths : List Path)
  (store : σ)

/- All four ways to end begin with the looks, and fix nothing after them. -/
theorem exists_events_run :
    ∃ rest, (run table dryRun ask paths store).events = looks table paths store ++ rest ∧
      rest.filterMap Event.fixed? = [] := by
  have course := course_run table dryRun ask paths store
  generalize run table dryRun ask paths store = o at course ⊢
  cases course with
  | idle idle => exact ⟨_, rfl, rfl⟩
  | broken busy answer => exact ⟨_, rfl, rfl⟩
  | declined busy answer => exact ⟨_, List.append_assoc _ _ _, rfl⟩
  | agreed busy answer =>
    refine ⟨_, (List.append_assoc _ _ _).trans (List.append_assoc _ _ _), ?_⟩
    rw [List.filterMap_append, List.filterMap_append, fixed_writeAll]
    rfl

theorem fixed_run :
    (run table dryRun ask paths store).events.filterMap Event.fixed? = plan table paths store := by
  obtain ⟨rest, hevents, hrest⟩ := exists_events_run table dryRun ask paths store
  rw [hevents, List.filterMap_append, hrest, fixed_looks]
  exact List.append_nil _

theorem failed_reading_run :
    (reading (run table dryRun ask paths store).events).filterMap Event.failed? =
      (findings table paths store).filterMap Finding.failure? := by
  obtain ⟨rest, hevents, -⟩ := exists_events_run table dryRun ask paths store
  rw [hevents, reading_looks_append, failed_findings]

/-- A summary names all failures that were reported, in the same order. -/
theorem failures_run {s : Summary} (h : (run table dryRun ask paths store).result = .ok s) :
    s.failures = (run table dryRun ask paths store).events.filterMap Event.failed? := by
  have course := course_run table dryRun ask paths store
  generalize run table dryRun ask paths store = o at course h ⊢
  cases course with
  | idle idle =>
    rw [← Except.ok.inj h, List.filterMap_append, failed_looks]
    exact (List.append_nil _).symm
  | broken busy answer => contradiction
  | declined busy answer =>
    rw [← Except.ok.inj h, List.append_assoc, List.filterMap_append, failed_looks]
    exact (List.append_nil _).symm
  | agreed busy answer =>
    rw [← Except.ok.inj h, List.append_assoc, List.append_assoc, List.filterMap_append,
      failed_looks, List.filterMap_append, List.filterMap_append]
    exact congrArg (_ ++ ·) (List.append_nil _).symm

/-- A batch breaks off over nothing but a prompt that fails. -/
theorem result_eq_error_iff {e : Error} :
    (run table dryRun ask paths store).result = .error e ↔
      ¬(plan table paths store = [] ∨ dryRun = true) ∧
        ∃ f, ask (consent table paths store) = .error f ∧ e = .prompt f := by
  have course := course_run table dryRun ask paths store
  generalize run table dryRun ask paths store = o at course ⊢
  cases course with
  | idle idle => simp [idle]
  | broken busy answer =>
    constructor
    · intro h
      exact ⟨busy, _, answer, (Except.error.inj h).symm⟩
    · rintro ⟨-, g, same, rfl⟩
      rw [Except.error.inj (answer.symm.trans same)]
  | declined busy answer => simp [answer]
  | agreed busy answer => simp [answer]

/-- All that fails in a batch: the listed files that cannot be read, and, once there is
something to write and consent to write it, the changes that are refused. -/
theorem failed_mem_run_iff {p : Path} {f : Fault} :
    (p, f) ∈ (run table dryRun ask paths store).events.filterMap Event.failed? ↔
      p ∈ paths ∧ FileStore.read store p = .error f ∨
        ¬(plan table paths store = [] ∨ dryRun = true) ∧
          ask (consent table paths store) = .ok true ∧
            Refused (plan table paths store) store p f := by
  have course := course_run table dryRun ask paths store
  generalize run table dryRun ask paths store = o at course ⊢
  cases course with
  | idle idle =>
    rw [List.filterMap_append, List.mem_append, failed_mem_looks_iff]
    simp [idle, Event.failed?]
  | broken busy answer =>
    rw [List.filterMap_append, List.mem_append, failed_mem_looks_iff]
    simp [answer, Event.failed?]
  | declined busy answer =>
    rw [List.append_assoc, List.filterMap_append, List.mem_append, failed_mem_looks_iff]
    simp [answer, Event.failed?]
  | agreed busy answer =>
    rw [List.append_assoc, List.append_assoc, List.filterMap_append, List.mem_append,
      failed_mem_looks_iff, List.filterMap_append, List.filterMap_append,
      ← failed_mem_writeAll_iff]
    simp [busy, answer, Event.failed?]

end run

end Batch
end Unalias
