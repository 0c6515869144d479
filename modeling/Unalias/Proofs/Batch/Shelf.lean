import Unalias.Proofs.Batch.Plan
import Unalias.Proofs.Change.Spelled

/-! What a batch does to files in memory. The last write to a file stays; as all writes to one file
come from one text, it does not matter how often its path is listed, nor in which spellings. -/
namespace Unalias

variable {κ : Type} [DecidableEq κ] [Label κ] {shelf : Shelf κ}

namespace Shelf

variable {p q : Path}

/- A spelling of a path leads to the file that the path leads to. -/
theorem find?_congr (same : Label.of p = (Label.of q : κ)) : shelf.find? p = shelf.find? q := by
  rw [find?, find?, same]

theorem read_eq (shelf : Shelf κ) (p : Path) : FileStore.read shelf p = match shelf.find? p with
    | some (.text t) => .ok t
    | some (.binary _ _) => .error .badData
    | none => .error .absent := rfl

omit [DecidableEq κ] in
theorem locks_congr (same : Label.of p = (Label.of q : κ)) : shelf.Locks p ↔ shelf.Locks q := by
  rw [Locks, Locks, same]

end Shelf

namespace Batch

/-- A path is listed, in one spelling or another. -/
def Lists (κ : Type) [Label κ] (paths : List Path) (p : Path) : Prop :=
  ∃ q ∈ paths, Label.of q = (Label.of p : κ)

instance (paths : List Path) : DecidablePred (Lists κ paths) :=
  fun p => inferInstanceAs (Decidable (∃ q ∈ paths, Label.of q = (Label.of p : κ)))

theorem writeAll_cons_of_locked {c : Change} (h : shelf.Locks c.path) (cs : List Change) :
    writeAll (c :: cs) shelf =
      (.failed c.path .forbidden :: (writeAll cs shelf).1, (writeAll cs shelf).2) := by
  have refused : FileStore.write shelf c.path c.content = .error .forbidden := if_pos h
  rw [writeAll, refused]

theorem writeAll_cons_of_unlocked {c : Change} (h : ¬shelf.Locks c.path) (cs : List Change) :
    writeAll (c :: cs) shelf =
      (.wrote c.path :: (writeAll cs (shelf.put c.path (.text c.content))).1,
        (writeAll cs (shelf.put c.path (.text c.content))).2) := by
  have taken : FileStore.write shelf c.path c.content =
      .ok (shelf.put c.path (.text c.content)) := if_neg h
  rw [writeAll, taken]

theorem locked_writeAll (cs : List Change) (shelf : Shelf κ) :
    (writeAll cs shelf).2.locked = shelf.locked := by
  induction cs generalizing shelf with
  | nil => rfl
  | cons c cs ih =>
    by_cases h : shelf.Locks c.path
    · rw [writeAll_cons_of_locked h, ih]
    · rw [writeAll_cons_of_unlocked h, ih]
      rfl

theorem events_writeAll (cs : List Change) (shelf : Shelf κ) :
    (writeAll cs shelf).1 = cs.map fun c =>
      if shelf.Locks c.path then .failed c.path .forbidden else .wrote c.path := by
  induction cs generalizing shelf with
  | nil => rfl
  | cons c cs ih =>
    by_cases h : shelf.Locks c.path
    · rw [writeAll_cons_of_locked h, List.map_cons, if_pos h, ih]
    · rw [writeAll_cons_of_unlocked h, List.map_cons, if_neg h, ih]
      rfl

theorem find?_writeAll_of_locked {p : Path} (h : shelf.Locks p) (cs : List Change) :
    (writeAll cs shelf).2.find? p = shelf.find? p := by
  induction cs generalizing shelf with
  | nil => rfl
  | cons c cs ih =>
    by_cases hc : shelf.Locks c.path
    · rw [writeAll_cons_of_locked hc]
      exact ih h
    · have other : Label.of c.path ≠ (Label.of p : κ) :=
        fun same => hc ((Shelf.locks_congr same).mpr h)
      have kept : (shelf.put c.path (.text c.content)).find? p = shelf.find? p := by
        rw [Shelf.find?_put, if_neg other]
      rw [writeAll_cons_of_unlocked hc, ← kept]
      exact ih h

/- Of all changes of one file the last one stays. -/
theorem find?_writeAll_of_unlocked {p : Path} (h : ¬shelf.Locks p) (cs : List Change) :
    (writeAll cs shelf).2.find? p =
      ((cs.filter fun c => Label.of c.path = (Label.of p : κ)).getLast?.map
        fun c => .text c.content).or (shelf.find? p) := by
  induction cs generalizing shelf with
  | nil => rfl
  | cons c cs ih =>
    by_cases same : Label.of c.path = (Label.of p : κ)
    · have unlocked : ¬shelf.Locks c.path := mt (Shelf.locks_congr same).mp h
      have tail := @ih (shelf.put c.path (.text c.content)) h
      rw [Shelf.find?_put, if_pos same] at tail
      rw [writeAll_cons_of_unlocked unlocked, List.filter_cons_of_pos (by simpa using same),
        List.getLast?_cons]
      refine tail.trans ?_
      cases (cs.filter fun c => Label.of c.path = (Label.of p : κ)).getLast? <;> rfl
    · rw [List.filter_cons_of_neg (by simpa using same)]
      by_cases hc : shelf.Locks c.path
      · rw [writeAll_cons_of_locked hc]
        exact ih h
      · have tail := @ih (shelf.put c.path (.text c.content)) h
        rw [Shelf.find?_put, if_neg same] at tail
        rw [writeAll_cons_of_unlocked hc]
        exact tail

section plan

variable {table : Table} {p q : Path}

theorem due?_congr (same : Label.of p = (Label.of q : κ)) :
    due? table shelf p = due? table shelf q := by
  rw [due?, due?, Shelf.read_eq, Shelf.read_eq, Shelf.find?_congr same]

/- All changes of one file come to the same text. -/
theorem content_eq_of_due {t u : Text} (due : due? table shelf p = some t)
    (due' : due? table shelf q = some u) (same : Label.of p = (Label.of q : κ)) :
    (table.change p t).content = (table.change q u).content := by
  obtain rfl : t = u := Option.some.inj (due.symm.trans ((due?_congr same).trans due'))
  rw [table.change_congr (Label.components_eq same)]

theorem last_plan (table : Table) (paths : List Path) (shelf : Shelf κ) (p : Path) :
    ((plan table paths shelf).filter fun c => Label.of c.path = (Label.of p : κ)).getLast?.map
        (·.content) =
      if Lists κ paths p then (due? table shelf p).map fun t => (table.change p t).content
      else none := by
  cases last : ((plan table paths shelf).filter
      fun c => Label.of c.path = (Label.of p : κ)).getLast? with
  | none =>
    have absent := List.filter_eq_nil_iff.mp (List.getLast?_eq_none_iff.mp last)
    split
    · rename_i listed
      obtain ⟨q, listed, same⟩ := listed
      cases due : due? table shelf p with
      | none => rfl
      | some t =>
        have planned := mem_plan_iff.mpr ⟨q, listed, t, (due?_congr same).trans due, rfl⟩
        exact absurd (decide_eq_true same) (absent _ planned)
    · rfl
  | some c =>
    obtain ⟨planned, same⟩ := List.mem_filter.mp (List.mem_of_getLast? last)
    obtain ⟨q, listed, t, due, rfl⟩ := mem_plan_iff.mp planned
    have same : Label.of q = (Label.of p : κ) := of_decide_eq_true same
    have due' : due? table shelf p = some t := (due?_congr same).symm.trans due
    rw [if_pos ⟨q, listed, same⟩, due', Option.map_some, Option.map_some,
      content_eq_of_due due due' same]

theorem find?_writeAll_plan (table : Table) (paths : List Path) (shelf : Shelf κ) (p : Path) :
    (writeAll (plan table paths shelf) shelf).2.find? p =
      if Lists κ paths p ∧ ¬shelf.Locks p then
        ((due? table shelf p).map fun t => .text (table.change p t).content).or (shelf.find? p)
      else shelf.find? p := by
  by_cases h : shelf.Locks p
  · rw [find?_writeAll_of_locked h, if_neg fun both => both.2 h]
  · have last := congrArg (Option.map Content.text) (last_plan table paths shelf p)
    rw [Option.map_map] at last
    rw [find?_writeAll_of_unlocked h]
    refine (congrArg (Option.or · (shelf.find? p)) last).trans ?_
    by_cases listed : Lists κ paths p
    · rw [if_pos listed, if_pos ⟨listed, h⟩, Option.map_map]
      rfl
    · rw [if_neg listed, if_neg fun both => listed both.1]
      rfl

theorem wrote_writeAll (cs : List Change) (shelf : Shelf κ) :
    (writeAll cs shelf).1.filterMap Event.wrote? =
      (cs.map (·.path)).filter (¬shelf.Locks ·) := by
  rw [events_writeAll]
  induction cs with
  | nil => rfl
  | cons c cs ih =>
    rw [List.map_cons, List.map_cons, List.filterMap_cons, ih]
    by_cases h : shelf.Locks c.path
    · rw [if_pos h, List.filter_cons_of_neg (by simpa using h)]
      rfl
    · rw [if_neg h, List.filter_cons_of_pos (by simpa using h)]
      rfl

theorem paths_plan (table : Table) (paths : List Path) (shelf : Shelf κ) :
    (plan table paths shelf).map (·.path) = paths.filter fun p => (due? table shelf p).isSome := by
  rw [plan_eq]
  induction paths with
  | nil => rfl
  | cons p paths ih =>
    cases hd : due? table shelf p with
    | none => simpa [hd] using ih
    | some t =>
      have path : (table.change p t).path = p := rfl
      simpa [hd, path] using ih

/- The files that are written, in the order in which they are listed. -/
theorem wrote_writeAll_plan (table : Table) (paths : List Path) (shelf : Shelf κ) :
    (writeAll (plan table paths shelf) shelf).1.filterMap Event.wrote? =
      paths.filter fun p => (due? table shelf p).isSome && !shelf.Locks p := by
  rw [wrote_writeAll, paths_plan, List.filter_filter]
  refine List.filter_congr fun p _ => ?_
  rw [Bool.and_comm, decide_not]

end plan

theorem asked_writeAll (cs : List Change) (shelf : Shelf κ) :
    (writeAll cs shelf).1.filterMap Event.asked? = [] := by
  rw [events_writeAll, List.filterMap_eq_nil_iff]
  intro e he
  obtain ⟨c, -, rfl⟩ := List.mem_map.mp he
  split <;> rfl

/-- What a batch does to the files, and in which order: nothing, unless it is no dry run, some
listed file is due, and the question is answered with yes. Then the listed files that are due and
not locked are changed, each as it was when the batch began, and all others stay. A file counts as
listed, and as locked, under all spellings of its path that have its label. -/
theorem run_shelf (table : Table) (dryRun : Bool) (ask : String → Except Fault Bool)
    (paths : List Path) (shelf : Shelf κ) :
    let outcome := run table dryRun ask paths shelf
    let busy := dryRun = false ∧ ∃ p ∈ paths, (due? table shelf p).isSome
    let question := consent table paths shelf
    (¬busy → outcome.store = shelf ∧ outcome.events.filterMap Event.wrote? = [] ∧
      outcome.events.filterMap Event.asked? = []) ∧
    (busy → ask question ≠ .ok true → outcome.store = shelf ∧
      outcome.events.filterMap Event.wrote? = [] ∧
      outcome.events.filterMap Event.asked? = [question]) ∧
    (busy → ask question = .ok true →
      (∀ p, outcome.store.find? p =
        if Lists κ paths p ∧ ¬shelf.Locks p then
          match due? table shelf p with
          | some t => some (.text (table.change p t).content)
          | none => shelf.find? p
        else shelf.find? p) ∧
      outcome.store.locked = shelf.locked ∧
      ∃ before after, outcome.events = before ++ .asked question :: after ∧
        before.filterMap Event.asked? = [] ∧ before.filterMap Event.wrote? = [] ∧
        after.filterMap Event.asked? = [] ∧
        after.filterMap Event.wrote? =
          paths.filter fun p => (due? table shelf p).isSome && !shelf.Locks p) := by
  intro outcome busy question
  have stop (go : busy) : ¬(plan table paths shelf = [] ∨ dryRun = true) :=
    fun idle => idle_iff.mp idle go
  refine ⟨fun idle => unwritten_of_idle (idle_iff.mpr idle),
    fun go refused => unwritten_of_refused (stop go) refused, fun go agreed => ?_⟩
  have h : outcome = _ := run_of_agreed (stop go) agreed
  let writes := (writeAll (plan table paths shelf) shelf).1
  let summary := afterWrites (tally (findings table paths shelf)) writes
  rw [h]
  refine ⟨fun p => ?_, locked_writeAll _ shelf, looks table paths shelf,
    writes ++ [.finished summary false], ?_, asked_looks table paths shelf,
    wrote_looks table paths shelf, ?_, ?_⟩
  · rw [find?_writeAll_plan]
    cases due? table shelf p <;> rfl
  · exact (List.append_assoc _ _ _).trans (List.append_assoc _ _ _)
  · rw [List.filterMap_append, asked_writeAll]
    rfl
  · rw [List.filterMap_append, wrote_writeAll_plan]
    exact List.append_nil _

/- Both files are listed in other spellings than the one that they are kept under, and the one that
is locked is locked in all of them. -/
theorem run_shelf_respelled :
    let table : Table := ⟨[⟨"@/*".toList, ⟨"/r/src".toList⟩⟩]⟩
    let free := Path.ofString "/r/src/a.ts"
    let locked := Path.ofString "/r/src/b.ts"
    let text := "import a from '@/x';".toList
    let shelf : Shelf (List Component) :=
      ⟨[(free.components, .text text), (locked.components, .text text)], [locked.components]⟩
    let paths := [Path.ofString "/r//src/a.ts", .ofString "/r/src/./b.ts", free]
    let outcome := run table false (fun _ => .ok true) paths shelf
    outcome.store.find? free = some (.text "import a from './x';".toList) ∧
      outcome.store.find? locked = some (.text text) ∧
      outcome.events.filterMap Event.wrote? = [.ofString "/r//src/a.ts", free] := by
  intro table free locked text shelf paths outcome
  have busy : false = false ∧ ∃ p ∈ paths, (due? table shelf p).isSome :=
    ⟨rfl, _, List.mem_cons_self, by decide +kernel⟩
  obtain ⟨files, -, before, after, events, -, first, -, later⟩ :=
    (run_shelf table false (fun _ => .ok true) paths shelf).2.2 busy rfl
  have due : due? table shelf free = some text := by decide +kernel
  have content : (table.change free text).content = "import a from './x';".toList := by
    decide +kernel
  refine ⟨?_, ?_, ?_⟩
  · rw [files, if_pos (by decide +kernel), due]
    exact congrArg (fun t => some (Content.text t)) content
  · rw [files, if_neg (by decide +kernel)]
    rfl
  · rw [events, List.filterMap_append, first, List.filterMap_cons_none rfl, later]
    decide +kernel

end Batch
end Unalias
