import Unalias.Batch.Basic
import Unalias.Proofs.Change.Found

/-! What a batch intends to write, and the four ways in which it can end. -/
namespace Unalias

namespace Event

def wrote? : Event → Option Path
  | .wrote p => some p
  | _ => none

def asked? : Event → Option String
  | .asked question => some question
  | _ => none

end Event

namespace Batch

variable {σ : Type} [FileStore σ]

/-- The text of a file that can be read and has a statement with a rule. -/
def due? (table : Table) (store : σ) (p : Path) : Option Text :=
  match FileStore.read store p with
  | .ok t => if table.found t = [] then none else some t
  | .error _ => none

def findings (table : Table) (paths : List Path) (store : σ) : List Finding :=
  paths.map (examine table store)

/- The changes in the order of the paths, all made from the store as it was at first. -/
def plan (table : Table) (paths : List Path) (store : σ) : List Change :=
  (findings table paths store).filterMap Finding.change?

/- The events of looking at all files. -/
def looks (table : Table) (paths : List Path) (store : σ) : List Event :=
  (findings table paths store).filterMap Finding.event? ++
    [.scanned (tally (findings table paths store))]

/-- The question that is asked before anything is written. -/
def consent (table : Table) (paths : List Path) (store : σ) : String :=
  question (tally (findings table paths store))

theorem change?_examine (table : Table) (store : σ) (p : Path) :
    (examine table store p).change? = (due? table store p).map (table.change p) := by
  cases read : FileStore.read store p with
  | error f => simp [examine, due?, read, Finding.change?]
  | ok t =>
    by_cases none : table.found t = []
    · simp [examine, due?, read, Table.replacements_eq_nil_iff, none, Finding.change?]
    · simp [examine, due?, read, Table.replacements_eq_nil_iff, none, Finding.change?]

theorem plan_eq (table : Table) (paths : List Path) (store : σ) :
    plan table paths store =
      paths.filterMap fun p => (due? table store p).map (table.change p) := by
  rw [plan, findings, List.filterMap_map]
  exact congrArg (fun g => paths.filterMap g) (funext (change?_examine table store))

theorem plan_eq_nil_iff {table : Table} {paths : List Path} {store : σ} :
    plan table paths store = [] ↔ ∀ p ∈ paths, due? table store p = none := by
  simp [plan_eq]

theorem due?_eq_some_iff {table : Table} {store : σ} {p : Path} {t : Text} :
    due? table store p = some t ↔ FileStore.read store p = .ok t ∧ table.found t ≠ [] := by
  unfold due?
  cases FileStore.read store p with
  | error f => simp
  | ok u =>
    by_cases none : table.found u = []
    · simp only [none, if_true, Except.ok.injEq]
      constructor
      · intro h
        contradiction
      · rintro ⟨rfl, some⟩
        exact absurd none some
    · simp only [none, if_false, Option.some.injEq, Except.ok.injEq]
      constructor
      · rintro rfl
        exact ⟨rfl, none⟩
      · exact And.left

theorem mem_plan_iff {table : Table} {paths : List Path} {store : σ} {c : Change} :
    c ∈ plan table paths store ↔
      ∃ p ∈ paths, ∃ t, due? table store p = some t ∧ table.change p t = c := by
  simp [plan_eq, List.mem_filterMap]

theorem filterMap_looks {α : Type} (g : Event → Option α) (table : Table) (paths : List Path)
    (store : σ) (fixed : ∀ c, g (.fixed c) = none) (failed : ∀ p f, g (.failed p f) = none)
    (scanned : ∀ s, g (.scanned s) = none) : (looks table paths store).filterMap g = [] := by
  rw [List.filterMap_eq_nil_iff]
  intro e he
  rcases List.mem_append.mp he with he | he
  · obtain ⟨finding, -, hf⟩ := List.mem_filterMap.mp he
    cases finding with
    | unreadable p f => exact Option.some.inj hf ▸ failed p f
    | settled p => contradiction
    | changed c => exact Option.some.inj hf ▸ fixed c
  · exact List.mem_singleton.mp he ▸ scanned _

theorem wrote_looks (table : Table) (paths : List Path) (store : σ) :
    (looks table paths store).filterMap Event.wrote? = [] :=
  filterMap_looks _ table paths store (fun _ => rfl) (fun _ _ => rfl) (fun _ => rfl)

theorem asked_looks (table : Table) (paths : List Path) (store : σ) :
    (looks table paths store).filterMap Event.asked? = [] :=
  filterMap_looks _ table paths store (fun _ => rfl) (fun _ _ => rfl) (fun _ => rfl)

theorem wrote_looks_append (table : Table) (paths : List Path) (store : σ) (rest : List Event) :
    (looks table paths store ++ rest).filterMap Event.wrote? = rest.filterMap Event.wrote? := by
  rw [List.filterMap_append, wrote_looks, List.nil_append]

theorem asked_looks_append (table : Table) (paths : List Path) (store : σ) (rest : List Event) :
    (looks table paths store ++ rest).filterMap Event.asked? = rest.filterMap Event.asked? := by
  rw [List.filterMap_append, asked_looks, List.nil_append]

section run

variable {table : Table} {dryRun : Bool} {ask : String → Except Fault Bool} {paths : List Path}
  {store : σ}

theorem run_of_idle (idle : plan table paths store = [] ∨ dryRun = true) :
    run table dryRun ask paths store =
      ⟨looks table paths store ++ [.finished (tally (findings table paths store)) dryRun], store,
        .ok (tally (findings table paths store))⟩ := if_pos idle

theorem run_of_error {f : Fault} (busy : ¬(plan table paths store = [] ∨ dryRun = true))
    (answer : ask (consent table paths store) = .error f) :
    run table dryRun ask paths store =
      ⟨looks table paths store ++ [.asked (consent table paths store)], store,
        .error (.prompt f)⟩ := by
  refine (if_neg busy).trans ?_
  rw [← findings, ← consent, answer]
  rfl

theorem run_of_declined (busy : ¬(plan table paths store = [] ∨ dryRun = true))
    (answer : ask (consent table paths store) = .ok false) :
    run table dryRun ask paths store =
      ⟨looks table paths store ++ [.asked (consent table paths store)] ++
        [.declined, .finished (tally (findings table paths store)) false], store,
        .ok (tally (findings table paths store))⟩ := by
  refine (if_neg busy).trans ?_
  rw [← findings, ← consent, answer]
  rfl

theorem run_of_agreed (busy : ¬(plan table paths store = [] ∨ dryRun = true))
    (answer : ask (consent table paths store) = .ok true) :
    let writes := (writeAll (plan table paths store) store).1
    let after := afterWrites (tally (findings table paths store)) writes
    run table dryRun ask paths store =
      ⟨looks table paths store ++ [.asked (consent table paths store)] ++ writes ++
        [.finished after false], (writeAll (plan table paths store) store).2, .ok after⟩ := by
  refine (if_neg busy).trans ?_
  rw [← findings, ← consent, answer]
  rfl

theorem afterWrites_nil : afterWrites (tally (findings table paths store)) [] =
    tally (findings table paths store) := by
  simp [afterWrites, tally]

/-- The four ways in which a batch can end, each with all that it leaves behind. -/
inductive Course (table : Table) (dryRun : Bool) (ask : String → Except Fault Bool)
    (paths : List Path) (store : σ) : Outcome σ → Prop
  | idle (idle : plan table paths store = [] ∨ dryRun = true) :
      Course table dryRun ask paths store
        ⟨looks table paths store ++ [.finished (tally (findings table paths store)) dryRun], store,
          .ok (tally (findings table paths store))⟩
  | broken {f : Fault} (busy : ¬(plan table paths store = [] ∨ dryRun = true))
      (answer : ask (consent table paths store) = .error f) :
      Course table dryRun ask paths store
        ⟨looks table paths store ++ [.asked (consent table paths store)], store,
          .error (.prompt f)⟩
  | declined (busy : ¬(plan table paths store = [] ∨ dryRun = true))
      (answer : ask (consent table paths store) = .ok false) :
      Course table dryRun ask paths store
        ⟨looks table paths store ++ [.asked (consent table paths store)] ++
          [.declined, .finished (tally (findings table paths store)) false], store,
          .ok (tally (findings table paths store))⟩
  | agreed (busy : ¬(plan table paths store = [] ∨ dryRun = true))
      (answer : ask (consent table paths store) = .ok true) :
      Course table dryRun ask paths store
        ⟨looks table paths store ++ [.asked (consent table paths store)] ++
          (writeAll (plan table paths store) store).1 ++
          [.finished (afterWrites (tally (findings table paths store))
            (writeAll (plan table paths store) store).1) false],
          (writeAll (plan table paths store) store).2,
          .ok (afterWrites (tally (findings table paths store))
            (writeAll (plan table paths store) store).1)⟩

theorem course_run (table : Table) (dryRun : Bool) (ask : String → Except Fault Bool)
    (paths : List Path) (store : σ) :
    Course table dryRun ask paths store (run table dryRun ask paths store) := by
  by_cases idle : plan table paths store = [] ∨ dryRun = true
  · rw [run_of_idle idle]
    exact .idle idle
  · cases answer : ask (consent table paths store) with
    | error f =>
      rw [run_of_error idle answer]
      exact .broken idle answer
    | ok yes =>
      cases yes with
      | false =>
        rw [run_of_declined idle answer]
        exact .declined idle answer
      | true =>
        rw [run_of_agreed idle answer]
        exact .agreed idle answer

theorem idle_iff : (plan table paths store = [] ∨ dryRun = true) ↔
    ¬(dryRun = false ∧ ∃ p ∈ paths, (due? table store p).isSome) := by
  rw [plan_eq_nil_iff]
  cases dryRun <;> simp

theorem unwritten_of_idle (idle : plan table paths store = [] ∨ dryRun = true) :
    let outcome := run table dryRun ask paths store
    outcome.store = store ∧ outcome.events.filterMap Event.wrote? = [] ∧
      outcome.events.filterMap Event.asked? = [] := by
  intro outcome
  have h : outcome = _ := run_of_idle idle
  rw [h]
  exact ⟨rfl, wrote_looks_append .., asked_looks_append ..⟩

theorem unwritten_of_refused (busy : ¬(plan table paths store = [] ∨ dryRun = true))
    (refused : ask (consent table paths store) ≠ .ok true) :
    let outcome := run table dryRun ask paths store
    outcome.store = store ∧ outcome.events.filterMap Event.wrote? = [] ∧
      outcome.events.filterMap Event.asked? = [consent table paths store] := by
  intro outcome
  cases answer : ask (consent table paths store) with
  | error f =>
    have h : outcome = _ := run_of_error busy answer
    rw [h]
    exact ⟨rfl, wrote_looks_append .., asked_looks_append ..⟩
  | ok yes =>
    cases yes with
    | true => exact absurd answer refused
    | false =>
      have h : outcome = _ := run_of_declined busy answer
      rw [h, List.append_assoc]
      exact ⟨rfl, wrote_looks_append .., asked_looks_append ..⟩

/- A batch leaves the store as it is, or it is not idle, is agreed to and writes its plan. -/
theorem store_run_cases (table : Table) (dryRun : Bool) (ask : String → Except Fault Bool)
    (paths : List Path) (store : σ) :
    (run table dryRun ask paths store).store = store ∨
      dryRun = false ∧ ask (consent table paths store) = .ok true ∧
        (run table dryRun ask paths store).store = (writeAll (plan table paths store) store).2 := by
  have course := course_run table dryRun ask paths store
  generalize run table dryRun ask paths store = o at course ⊢
  cases course with
  | idle idle => exact .inl rfl
  | broken busy answer => exact .inl rfl
  | declined busy answer => exact .inl rfl
  | agreed busy answer =>
    exact .inr ⟨Bool.eq_false_iff.mpr fun dry => busy (.inr dry), answer, rfl⟩

end run

end Batch
end Unalias
