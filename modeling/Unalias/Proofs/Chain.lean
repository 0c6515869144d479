import Mathlib.Data.List.Basic

/-! Steps that may fail, one after another: what is known of each step when all get through, and
which one is to blame when they do not. -/
namespace Unalias

variable {α β γ ε : Type}

theorem bind_eq_ok_iff {result : Except ε α} {next : α → Except ε β} {b : β} :
    result >>= next = .ok b ↔ ∃ a, result = .ok a ∧ next a = .ok b := by
  cases result <;> simp [bind, Except.bind]

theorem bind_eq_error_iff {result : Except ε α} {next : α → Except ε β} {e : ε} :
    result >>= next = .error e ↔ result = .error e ∨ ∃ a, result = .ok a ∧ next a = .error e := by
  cases result <;> simp [bind, Except.bind]

theorem mapError_eq_ok_iff {δ : Type} {g : ε → δ} {result : Except ε α} {a : α} :
    result.mapError g = .ok a ↔ result = .ok a := by
  cases result <;> simp [Except.mapError]

theorem mapError_eq_error_iff {δ : Type} {g : ε → δ} {result : Except ε α} {e : δ} :
    result.mapError g = .error e ↔ ∃ f, result = .error f ∧ e = g f := by
  cases result <;> simp [Except.mapError, eq_comm]

theorem map_eq_ok_iff {g : β → γ} {result : Except ε β} {c : γ} :
    result.map g = .ok c ↔ ∃ b, result = .ok b ∧ g b = c := by
  cases result <;> simp [Except.map]

theorem map_eq_error_iff {g : β → γ} {result : Except ε β} {e : ε} :
    result.map g = .error e ↔ result = .error e := by
  cases result <;> simp [Except.map]

variable {f : α → Except ε β}

theorem mapM_ok_iff {as : List α} {bs : List β} :
    as.mapM f = .ok bs ↔ as.map f = bs.map Except.ok := by
  induction as generalizing bs with
  | nil => cases bs <;> simp [pure, Except.pure]
  | cons a as ih =>
    simp only [List.mapM_cons, bind_eq_ok_iff, ih, pure, Except.pure, Except.ok.injEq]
    cases bs with
    | nil => simp
    | cons b bs => simp [and_comm]

theorem mapM_singleton_ok {a : α} {b : β} (h : f a = .ok b) : [a].mapM f = .ok [b] := by
  rw [mapM_ok_iff, List.map_singleton, h]
  rfl

theorem mapM_append_ok {as as' : List α} {bs bs' : List β} (h : as.mapM f = .ok bs)
    (h' : as'.mapM f = .ok bs') : (as ++ as').mapM f = .ok (bs ++ bs') := by
  rw [mapM_ok_iff] at *
  rw [List.map_append, List.map_append, h, h']

/- The first error is the error of the whole. -/
theorem mapM_error_iff {as : List α} {e : ε} : as.mapM f = .error e ↔
    ∃ before a after, as = before ++ a :: after ∧ (∀ x ∈ before, ∃ b, f x = .ok b) ∧
      f a = .error e := by
  induction as with
  | nil => simp [pure, Except.pure]
  | cons a as ih =>
    rw [List.mapM_cons]
    cases first : f a with
    | error e' =>
      change (Except.error e' : Except ε (List β)) = .error e ↔ _
      constructor
      · intro h
        cases Except.error.inj h
        exact ⟨[], a, as, rfl, by simp, first⟩
      · rintro ⟨before, x, after, whole, fine, h⟩
        cases before with
        | nil =>
          rw [← (List.cons.inj whole).1, first] at h
          rw [Except.error.inj h]
        | cons y before =>
          obtain ⟨b, ok⟩ := fine y List.mem_cons_self
          rw [← (List.cons.inj whole).1, first] at ok
          contradiction
    | ok b =>
      have step : (do let bs ← as.mapM f; pure (b :: bs)) = .error e ↔ as.mapM f = .error e := by
        cases as.mapM f <;> simp [bind, Except.bind, pure, Except.pure]
      refine step.trans (ih.trans ⟨?_, ?_⟩)
      · rintro ⟨before, x, after, rfl, fine, h⟩
        exact ⟨a :: before, x, after, rfl, List.forall_mem_cons.mpr ⟨⟨b, first⟩, fine⟩, h⟩
      · rintro ⟨before, x, after, whole, fine, h⟩
        cases before with
        | nil =>
          rw [← (List.cons.inj whole).1, first] at h
          contradiction
        | cons y before =>
          exact ⟨before, x, after, (List.cons.inj whole).2, (List.forall_mem_cons.mp fine).2, h⟩

theorem exists_map {g : α → β} {bs : List β} (each : ∀ b ∈ bs, ∃ a, b = g a) :
    ∃ as, bs = List.map g as := by
  induction bs with
  | nil => exact ⟨[], rfl⟩
  | cons b bs ih =>
    obtain ⟨⟨a, rfl⟩, rest⟩ := List.forall_mem_cons.mp each
    obtain ⟨as, rfl⟩ := ih rest
    exact ⟨a :: as, rfl⟩

theorem exists_mapM_ok {as : List α} (each : ∀ a ∈ as, ∃ b, f a = .ok b) :
    ∃ bs, as.mapM f = .ok bs := by
  have all : ∀ result ∈ as.map f, ∃ b, result = .ok b := by
    intro result h
    obtain ⟨a, ha, rfl⟩ := List.mem_map.mp h
    exact each a ha
  obtain ⟨bs, same⟩ := exists_map all
  exact ⟨bs, mapM_ok_iff.mpr same⟩

theorem mapM_mapError_ok_iff {δ : Type} {g : α → ε → δ} {as : List α} {bs : List β} :
    (as.mapM fun a => (f a).mapError (g a)) = .ok bs ↔ as.map f = bs.map Except.ok := by
  rw [mapM_ok_iff]
  induction as generalizing bs with
  | nil => cases bs <;> simp
  | cons a as ih =>
    cases bs with
    | nil => simp
    | cons b bs => rw [List.map_cons, List.map_cons, List.map_cons, List.map_cons, List.cons.injEq,
        List.cons.injEq, mapError_eq_ok_iff, ih]

theorem flatMap_of_mapM {g : β → List γ} {h : α → List γ} {as : List α} {bs : List β}
    (all : as.mapM f = .ok bs) (each : ∀ a b, f a = .ok b → g b = h a) :
    bs.flatMap g = as.flatMap h := by
  have mapped := mapM_ok_iff.mp all
  clear all
  induction as generalizing bs with
  | nil =>
    cases bs with
    | nil => rfl
    | cons => contradiction
  | cons a as ih =>
    cases bs with
    | nil => contradiction
    | cons b bs =>
      obtain ⟨first, rest⟩ := List.cons.inj mapped
      rw [List.flatMap_cons, List.flatMap_cons, each a b first, ih rest]

theorem exists_mapM_ok_iff {as : List α} :
    (∃ bs, as.mapM f = .ok bs) ↔ ∀ a ∈ as, ∃ b, f a = .ok b := by
  refine ⟨fun ⟨bs, all⟩ a ha => ?_, exists_mapM_ok⟩
  have mapped : f a ∈ bs.map Except.ok := mapM_ok_iff.mp all ▸ List.mem_map_of_mem ha
  obtain ⟨b, -, same⟩ := List.mem_map.mp mapped
  exact ⟨b, same.symm⟩

end Unalias
