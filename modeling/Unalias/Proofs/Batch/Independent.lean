import Unalias.Proofs.Batch.DryRun
import Unalias.Proofs.Batch.Rerun

/-! The files of a batch do not depend on each other. Neither the order in which they are listed
nor a cut of the list into two batches changes what becomes of any of them. -/
namespace Unalias

variable {κ : Type} [DecidableEq κ] [Label κ] {shelf shelf' : Shelf κ}

namespace Shelf

omit [Label κ] in
theorem setFile_comm {k l : κ} (other : k ≠ l) (c d : Content) {files : List (κ × Content)}
    (held : ∃ f ∈ files, f.1 = k) :
    setFile l d (setFile k c files) = setFile k c (setFile l d files) := by
  induction files with
  | nil => simp at held
  | cons f files ih =>
    obtain ⟨m, e⟩ := f
    by_cases hk : m = k
    · have hl : m ≠ l := fun same => other (hk.symm.trans same)
      simp [setFile, hk, hk ▸ hl]
    · have later : ∃ f ∈ files, f.1 = k := by simpa [hk] using held
      by_cases hl : m = l
      · simp [setFile, hl, hl ▸ hk]
      · simp [setFile, hk, hl, ih later]

def Holds (shelf : Shelf κ) (p : Path) : Prop := (shelf.find? p).isSome = true

theorem holds_of_read {p : Path} {t : Text} (h : FileStore.read shelf p = .ok t) :
    shelf.Holds p := by
  cases held : shelf.find? p with
  | none =>
    rw [read_eq, held] at h
    contradiction
  | some c => simp [Holds, held]

theorem Holds.put {p q : Path} (h : shelf.Holds p) (c : Content) : (shelf.put q c).Holds p := by
  rw [Holds, find?_put]
  split
  · rfl
  · exact h

/- Only a new file takes its place from the order of the writes. -/
theorem put_comm {p q : Path} (other : Label.of p ≠ (Label.of q : κ)) (held : shelf.Holds p)
    (c d : Content) : (shelf.put p c).put q d = (shelf.put q d).put p c := by
  have listed : ∃ f ∈ shelf.files, f.1 = Label.of p := by simpa [Holds, find?] using held
  exact congrArg (Shelf.mk · shelf.locked) (setFile_comm other c d listed)

/-- The shelf with the change made, if that can be. -/
def keep (shelf : Shelf κ) (c : Change) : Shelf κ :=
  if shelf.Locks c.path then shelf else shelf.put c.path (.text c.content)

theorem keep_of_locks {c : Change} (h : shelf.Locks c.path) : shelf.keep c = shelf := if_pos h

theorem keep_of_not_locks {c : Change} (h : ¬shelf.Locks c.path) :
    shelf.keep c = shelf.put c.path (.text c.content) := if_neg h

@[simp] theorem locked_keep (c : Change) : (shelf.keep c).locked = shelf.locked := by
  unfold keep
  split <;> rfl

@[simp] theorem locks_keep (c : Change) (p : Path) : (shelf.keep c).Locks p ↔ shelf.Locks p := by
  rw [Locks, Locks, locked_keep]

theorem Holds.keep {p : Path} (h : shelf.Holds p) (c : Change) : (shelf.keep c).Holds p := by
  unfold Shelf.keep
  split
  · exact h
  · exact h.put _

/- A change is known by the label of its path and by its text. -/
theorem keep_congr {c d : Change} (same : Label.of c.path = (Label.of d.path : κ))
    (content : c.content = d.content) (shelf : Shelf κ) : shelf.keep c = shelf.keep d := by
  by_cases h : shelf.Locks c.path
  · rw [keep_of_locks h, keep_of_locks ((locks_congr same).mp h)]
  · have h' := mt (locks_congr same).mpr h
    rw [keep_of_not_locks h, keep_of_not_locks h', put, put, same, content]

theorem keep_comm {c d : Change} (held : shelf.Holds c.path)
    (agree : Label.of c.path = (Label.of d.path : κ) → c.content = d.content) :
    (shelf.keep c).keep d = (shelf.keep d).keep c := by
  by_cases same : Label.of c.path = (Label.of d.path : κ)
  · have both := keep_congr same (agree same)
    rw [both, both]
  · by_cases hc : shelf.Locks c.path
    · rw [keep_of_locks hc, keep_of_locks ((locks_keep d _).mpr hc)]
    · by_cases hd : shelf.Locks d.path
      · rw [keep_of_locks hd, keep_of_locks ((locks_keep c _).mpr hd)]
      · rw [keep_of_not_locks (mt (locks_keep c _).mp hd), keep_of_not_locks hc,
          keep_of_not_locks (mt (locks_keep d _).mp hc), keep_of_not_locks hd]
        exact put_comm same held _ _

/- Changes of files that are there can be made in any order, as long as no two of them want a
different text for one file. -/
theorem foldl_keep_perm {cs ds : List Change} (perm : cs.Perm ds)
    (held : ∀ c ∈ cs, shelf.Holds c.path)
    (agree : ∀ c ∈ cs, ∀ d ∈ cs, Label.of c.path = (Label.of d.path : κ) →
      c.content = d.content) : cs.foldl keep shelf = ds.foldl keep shelf := by
  induction perm generalizing shelf with
  | nil => rfl
  | cons c perm ih =>
    exact ih (fun d hd => (held d (List.mem_cons_of_mem c hd)).keep c)
      fun d hd e he => agree d (List.mem_cons_of_mem c hd) e (List.mem_cons_of_mem c he)
  | swap c d cs =>
    have first : d ∈ d :: c :: cs := List.mem_cons_self
    have second : c ∈ d :: c :: cs := List.mem_cons_of_mem d List.mem_cons_self
    have swapped : (shelf.keep d).keep c = (shelf.keep c).keep d :=
      keep_comm (held d first) (agree d first c second)
    exact congrArg (cs.foldl keep ·) swapped
  | trans perm _ ih ih' =>
    have back {c : Change} := (perm.mem_iff (a := c)).mpr
    exact (ih held agree).trans (ih' (fun c hc => held c (back hc))
      fun c hc d hd => agree c (back hc) d (back hd))

end Shelf

namespace Summary

/-- The same totals, and the same failures in whatever order. -/
structure Same (s s' : Summary) : Prop where
  scanned : s.scanned = s'.scanned
  changed : s.changed = s'.changed
  imports : s.imports = s'.imports
  written : s.written = s'.written
  failures : s.failures.Perm s'.failures

/-- The totals of two batches taken together. -/
def join (s s' : Summary) : Summary where
  scanned := s.scanned + s'.scanned
  changed := s.changed + s'.changed
  imports := s.imports + s'.imports
  written := s.written + s'.written
  failures := s.failures ++ s'.failures

end Summary

namespace Batch

variable {table : Table} {paths paths' : List Path}

theorem store_writeAll (cs : List Change) (shelf : Shelf κ) :
    (writeAll cs shelf).2 = cs.foldl Shelf.keep shelf := by
  induction cs generalizing shelf with
  | nil => rfl
  | cons c cs ih =>
    by_cases h : shelf.Locks c.path
    · rw [writeAll_cons_of_locked h, ih, List.foldl_cons, Shelf.keep_of_locks h]
    · rw [writeAll_cons_of_unlocked h, ih, List.foldl_cons, Shelf.keep_of_not_locks h]

theorem after_eq : after table paths shelf = (plan table paths shelf).foldl Shelf.keep shelf :=
  store_writeAll _ shelf

/- The totals, from the plan and from the paths that are locked. -/
theorem total_eq (table : Table) (paths : List Path) (shelf : Shelf κ) :
    total table paths shelf =
      { scanned := paths.length
        changed := (plan table paths shelf).length
        imports := ((plan table paths shelf).flatMap (·.replacements)).length
        written := (((plan table paths shelf).map (·.path)).filter (¬shelf.Locks ·)).length
        failures := paths.filterMap (unreadable? shelf) ++
          ((plan table paths shelf).filter (shelf.Locks ·.path)).map
            fun c => (c.path, .forbidden) } := by
  rw [← wrote_writeAll, ← failed_writeAll, ← failures_findings table paths shelf,
    ← show (findings table paths shelf).length = paths.length from List.length_map _]
  rfl

section order

variable (perm : paths.Perm paths')

include perm

theorem plan_perm : (plan table paths shelf).Perm (plan table paths' shelf) := by
  rw [plan_eq, plan_eq]
  exact perm.filterMap _

/- All changes of one file come from one text, and a file that is not there is not written. -/
theorem after_perm : after table paths shelf = after table paths' shelf := by
  rw [after_eq, after_eq]
  apply Shelf.foldl_keep_perm (plan_perm perm)
  · intro c hc
    obtain ⟨p, -, t, due, rfl⟩ := mem_plan_iff.mp hc
    exact Shelf.holds_of_read (due?_eq_some_iff.mp due).1
  · intro c hc d hd
    obtain ⟨p, -, t, due, rfl⟩ := mem_plan_iff.mp hc
    obtain ⟨q, -, u, due', rfl⟩ := mem_plan_iff.mp hd
    exact content_eq_of_due due due'

theorem total_perm : (total table paths shelf).Same (total table paths' shelf) := by
  have planned : (plan table paths shelf).Perm (plan table paths' shelf) := plan_perm perm
  rw [total_eq, total_eq]
  constructor
  · exact perm.length_eq
  · exact planned.length_eq
  · exact (planned.flatMap_right _).length_eq
  · exact ((planned.map _).filter _).length_eq
  · exact (perm.filterMap _).append ((planned.filter _).map _)

end order

section split

variable {first second : List Path}

theorem plan_append : plan table (first ++ second) shelf =
    plan table first shelf ++ plan table second shelf := by
  rw [plan_eq, plan_eq, plan_eq, List.filterMap_append]

theorem plan_congr (same : ∀ p ∈ paths, shelf'.find? p = shelf.find? p) :
    plan table paths shelf' = plan table paths shelf := by
  rw [plan_eq, plan_eq]
  refine List.filterMap_congr fun p listed => ?_
  rw [due?, due?, read_congr (same p listed)]

theorem unreadable_congr (same : ∀ p ∈ paths, shelf'.find? p = shelf.find? p) :
    paths.filterMap (unreadable? shelf') = paths.filterMap (unreadable? shelf) := by
  refine List.filterMap_congr fun p listed => ?_
  rw [unreadable?, unreadable?, read_congr (same p listed)]

theorem locks_after {p : Path} : (after table paths shelf).Locks p ↔ shelf.Locks p := by
  rw [Shelf.Locks, after, locked_writeAll, ← Shelf.Locks]

theorem find?_after_of_not_lists {p : Path} (h : ¬Lists κ paths p) :
    (after table paths shelf).find? p = shelf.find? p := by
  rw [after, find?_writeAll_plan, if_neg fun both => h both.1]

variable (apart : ∀ p ∈ first, ∀ q ∈ second, Label.of p ≠ (Label.of q : κ))

include apart

/- The second batch finds its files as the first one found them. -/
theorem find?_after_of_apart :
    ∀ p ∈ second, (after table first shelf).find? p = shelf.find? p :=
  fun q listed => find?_after_of_not_lists fun ⟨p, earlier, same⟩ => apart p earlier q listed same

theorem after_append :
    after table (first ++ second) shelf = after table second (after table first shelf) := by
  rw [after_eq, after_eq, plan_congr (find?_after_of_apart apart), plan_append, List.foldl_append,
    ← after_eq]

theorem total_append :
    (total table (first ++ second) shelf).Same
      ((total table first shelf).join (total table second (after table first shelf))) := by
  rw [total_eq, total_eq, total_eq, plan_congr (find?_after_of_apart apart),
    unreadable_congr (find?_after_of_apart apart), plan_append]
  simp only [locks_after]
  constructor
  · exact List.length_append
  · exact List.length_append
  · rw [List.flatMap_append]
    exact List.length_append
  · rw [List.map_append, List.filter_append]
    exact List.length_append
  · dsimp only [Summary.join]
    rw [List.filterMap_append, List.filter_append, List.map_append, List.append_assoc,
      List.append_assoc]
    -- in the one batch, no write is refused before all files have been read
    exact (List.perm_append_comm_assoc _ _ _).append_left _

end split

/-- With consent given beforehand, the order of the list changes nothing but the order of the
failures, and two lists that share no path, under any spelling, can be done in one batch or in
two. -/
theorem run_independent (table : Table) (shelf : Shelf κ) :
    let batch (paths : List Path) (shelf : Shelf κ) :=
      run table false (fun _ => .ok true) paths shelf
    (∀ paths paths' : List Path, paths.Perm paths' →
      (batch paths shelf).store = (batch paths' shelf).store ∧
      ∃ s s', (batch paths shelf).result = .ok s ∧ (batch paths' shelf).result = .ok s' ∧
        s.Same s') ∧
    ∀ first second : List Path, (∀ p ∈ first, ∀ q ∈ second, Label.of p ≠ (Label.of q : κ)) →
      let earlier := batch first shelf
      let later := batch second earlier.store
      let whole := batch (first ++ second) shelf
      whole.store = later.store ∧
      ∃ s s₁ s₂, whole.result = .ok s ∧ earlier.result = .ok s₁ ∧ later.result = .ok s₂ ∧
        s.Same (s₁.join s₂) := by
  intro batch
  have store (paths : List Path) (shelf : Shelf κ) :
      (batch paths shelf).store = after table paths shelf := store_run rfl
  have result (paths : List Path) (shelf : Shelf κ) :
      (batch paths shelf).result = .ok (total table paths shelf) := result_run rfl
  constructor
  · intro paths paths' perm
    refine ⟨?_, _, _, result paths shelf, result paths' shelf, total_perm perm⟩
    rw [store, store, after_perm perm]
  · intro first second apart earlier later whole
    have left : earlier.store = after table first shelf := store first shelf
    refine ⟨?_, _, _, _, result _ shelf, result first shelf, result second earlier.store, ?_⟩
    · have last : later.store = after table second earlier.store := store second earlier.store
      rw [last, left, ← after_append apart]
      exact store _ shelf
    · rw [left]
      exact total_append apart

/- Two spellings of one path have to stay in one list. The file is changed once and counted
twice. -/
theorem run_independent_respelled :
    let table : Table := ⟨[⟨"@/*".toList, ⟨"/r/src".toList⟩⟩]⟩
    let text := "import a from '@/x';".toList
    let p := Path.ofString "/r/src/a.ts"
    let q := Path.ofString "/r//src/a.ts"
    let other := Path.ofString "/r/src/b.ts"
    let shelf : Shelf (List Component) :=
      ⟨[(p.components, .text text), (other.components, .text text)], [other.components]⟩
    let batch (paths : List Path) (shelf : Shelf (List Component)) :=
      run table false (fun _ => .ok true) paths shelf
    let earlier := batch [p, q] shelf
    let later := batch [other] earlier.store
    let whole := batch [p, q, other] shelf
    Label.of p = (Label.of q : List Component) ∧
      (∀ r ∈ [p, q], ∀ s ∈ [other], Label.of r ≠ (Label.of s : List Component)) ∧
      whole.store = later.store ∧
      ∃ s s₁ s₂, whole.result = .ok s ∧ earlier.result = .ok s₁ ∧ later.result = .ok s₂ ∧
        s.Same (s₁.join s₂) := by
  intro table text p q other shelf batch earlier later whole
  have apart : ∀ r ∈ [p, q], ∀ s ∈ [other], Label.of r ≠ (Label.of s : List Component) := by
    decide +kernel
  exact ⟨by decide +kernel, apart, (run_independent table shelf).2 [p, q] [other] apart⟩

end Batch
end Unalias
