import Unalias.Proofs.Disk.Tree

/-! Reading and writing on a disk. Where a path leads depends on the folders and on the names in
them, and not on what the files hold. -/
namespace Unalias.Disk

/-- The same folders and files stand at the same places, whatever the files hold. -/
structure Alike (d e : Disk) : Prop where
  working : e.working = d.working
  kinds : ∀ here, (e.root.at? here).map Node.isFolder = (d.root.at? here).map Node.isFolder

namespace Alike

variable {d e : Disk}

theorem refl (d : Disk) : Alike d d := ⟨rfl, fun _ => rfl⟩

theorem trans {f : Disk} (h : Alike d e) (h' : Alike e f) : Alike d f :=
  ⟨h'.working.trans h.working, fun here => (h'.kinds here).trans (h.kinds here)⟩

theorem isSome (h : Alike d e) (here : Location) :
    (e.root.at? here).isSome = (d.root.at? here).isSome := by
  rw [← Option.isSome_map (f := Node.isFolder), h.kinds, Option.isSome_map]

theorem step_eq (h : Alike d e) : e.step = d.step := by
  funext here segment
  have kinds := h.kinds here
  have below := h.isSome (here ++ [segment])
  unfold step
  cases hd : d.root.at? here with
  | none => cases he : e.root.at? here <;> simp_all
  | some x =>
    cases he : e.root.at? here with
    | none => simp_all
    | some y =>
      cases x with
      | file c access => cases y <;> simp_all [Node.isFolder]
      | folder es =>
        cases y with
        | file c access => simp_all [Node.isFolder]
        | folder fs =>
          rw [Node.at?_concat hd, Node.at?_concat he] at below
          simp only [below]

theorem locate_eq (h : Alike d e) (p : Path) : e.locate p = d.locate p := by
  have start : e.start = d.start := by
    funext a
    cases a <;> simp [Disk.start, h.working]
  simp only [locate, walk, start, h.step_eq]

end Alike

/-- The path leads to a file. -/
def Names (d : Disk) (p : Path) (here : Location) : Prop :=
  d.locate p = .ok here ∧ ∃ c access, d.root.at? here = some (.file c access)

theorem Names.look {d : Disk} {p : Path} {here : Location} (h : Names d p here) :
    ∃ c, d.root.look here = some (some c) := by
  obtain ⟨-, c, access, held⟩ := h
  refine ⟨c, ?_⟩
  rw [Node.look, held]
  rfl

theorem Alike.names {d e : Disk} (h : Alike d e) {p : Path} {here : Location}
    (hp : Names d p here) : Names e p here := by
  obtain ⟨hl, c, access, hc⟩ := hp
  refine ⟨(h.locate_eq p).trans hl, ?_⟩
  have kind := h.kinds here
  rw [hc] at kind
  cases he : e.root.at? here with
  | none => simp [he] at kind
  | some y =>
    cases y with
    | file c' access' => exact ⟨c', access', rfl⟩
    | folder es => simp [he, Node.isFolder] at kind

/- What is read from a path is the text of the file that it leads to. -/
theorem exists_of_read {d : Disk} {p : Path} {t : Text} (h : d.read p = .ok t) :
    ∃ here access, d.locate p = .ok here ∧ d.root.at? here = some (.file (.text t) access) := by
  unfold read at h
  cases located : d.locate p with
  | error f =>
    rw [located] at h
    contradiction
  | ok here =>
    rw [located] at h
    dsimp only [bind, Except.bind] at h
    split at h
    · contradiction
    · rename_i access unbarred held
      rw [← Except.ok.inj h]
      exact ⟨here, access, rfl, held⟩
    · contradiction
    · contradiction
    · contradiction

theorem walk_concat (d : Disk) (here : Location) (ss : List Text) (s : Text) :
    d.walk here (ss ++ [s]) = (d.walk here ss).bind (d.step · s) := by
  simp only [walk, List.foldlM_append, List.foldlM_cons, List.foldlM_nil]
  cases List.foldlM d.step here ss with
  | error f => rfl
  | ok mid => cases h : d.step mid s <;> simp [bind, Except.bind, h, pure, Except.pure]

/- All that a step can do, when it gets anywhere. -/
theorem step_cases {d : Disk} {here there : Location} {s : Text} (h : d.step here s = .ok there) :
    ∃ es, d.root.at? here = some (.folder es) ∧
      (there = here ∨ there = here.dropLast ∨
        there = here ++ [s] ∧ s ≠ [] ∧ s ≠ ['.'] ∧ s ≠ ['.', '.'] ∧ s.size ≤ maxNameBytes) := by
  unfold step at h
  split at h
  · rename_i es hes
    refine ⟨es, hes, ?_⟩
    split at h
    · exact .inl (Except.ok.inj h).symm
    · rename_i idle
      split at h
      · exact .inr (.inl (Except.ok.inj h).symm)
      · rename_i up
        split at h
        · contradiction
        · rename_i long
          split at h
          · simp only [Path.isIdle, Bool.or_eq_true, decide_eq_true_eq, not_or] at idle
            exact .inr (.inr ⟨(Except.ok.inj h).symm, idle.1, idle.2, up, Nat.not_lt.mp long⟩)
          · contradiction
  · contradiction

/- What stands above something is a folder. -/
theorem isFolder_dropLast {d : Disk} {here : Location} {es : List (Text × Node)}
    (h : d.root.at? here = some (.folder es)) :
    ∃ fs, d.root.at? here.dropLast = some (.folder fs) := by
  cases last : here.getLast? with
  | none =>
    rw [List.getLast?_eq_none_iff.mp last]
    exact ⟨d.entries, rfl⟩
  | some name =>
    obtain ⟨above, rfl⟩ := List.getLast?_eq_some_iff.mp last
    rw [List.dropLast_concat]
    rw [Node.at?_append] at h
    obtain ⟨x, hx, hname⟩ := Option.bind_eq_some_iff.mp h
    cases x with
    | file c access => cases hname
    | folder fs => exact ⟨fs, hx⟩

/- A path to a file ends in the name of the file, or it is the working folder's own, when that is
no folder at all. -/
theorem Names.cases {d : Disk} {p : Path} {here : Location} (h : Names d p here) :
    p.split.2 = [] ∨ ∃ ss s mid es, p.split.2 = ss ++ [s] ∧
      d.walk (d.start p.split.1) ss = .ok mid ∧ d.root.at? mid = some (.folder es) ∧
      here = mid ++ [s] ∧ s ≠ [] ∧ s ≠ ['.'] ∧ s ≠ ['.', '.'] ∧ Text.size s ≤ maxNameBytes := by
  obtain ⟨hl, c, access, hc⟩ := h
  unfold locate at hl
  split at hl
  · contradiction
  · cases last : p.split.2.getLast? with
    | none => exact .inl (List.getLast?_eq_none_iff.mp last)
    | some s =>
      obtain ⟨ss, hss⟩ := List.getLast?_eq_some_iff.mp last
      rw [hss, walk_concat] at hl
      cases hw : d.walk (d.start p.split.1) ss with
      | error f => simp [hw, Except.bind] at hl
      | ok mid =>
        rw [hw] at hl
        obtain ⟨es, hes, same | up | ⟨down, named⟩⟩ := step_cases hl
        · rw [same, hes] at hc
          cases hc
        · obtain ⟨fs, hfs⟩ := isFolder_dropLast hes
          rw [up, hfs] at hc
          cases hc
        · exact .inr ⟨ss, s, mid, es, hss, hw, hes, down, named⟩

/-- Where a path to a file can be written, it is written to that file. -/
theorem target_of_names {d : Disk} {p : Path} {here there : Location} (h : Names d p here)
    (ht : d.target p = .ok there) : there = here := by
  have some : p.text ≠ [] := by
    intro empty
    obtain ⟨hl, -⟩ := h
    rw [locate, if_pos empty] at hl
    contradiction
  rw [target, if_neg some] at ht
  rcases h.cases with none | ⟨ss, s, mid, es, hss, hw, hes, hhere, filled, dot, dots, short⟩
  · simp [none] at ht
  · have turned : p.split.2.reverse.dropWhile (· = []) = s :: ss.reverse := by
      simp [hss, filled]
    simp only [turned, dot, dots, or_self, if_false, List.reverse_reverse, hw] at ht
    simp only [bind, Except.bind, hes, throw, throwThe, MonadExceptOf.throw] at ht
    -- the slash at the end, the long name and the folder of that name are refused
    split at ht
    · contradiction
    · split at ht
      · contradiction
      · split at ht
        · contradiction
        · exact (Except.ok.inj ht).symm.trans hhere.symm

theorem root_put {d : Disk} {here : Location} {old : Content}
    (h : d.root.look here = some (some old)) (new : Content) :
    (d.put here new).root = Node.put new here d.root := by
  cases here with
  | nil => cases h
  | cons name names => rfl

/- A write puts the text at its target. -/
theorem exists_of_write {d e : Disk} {p : Path} {t : Text} (h : d.write p t = .ok e) :
    ∃ here, d.target p = .ok here ∧ e = d.put here (.text t) := by
  unfold write at h
  cases target : d.target p with
  | error f =>
    rw [target] at h
    contradiction
  | ok here =>
    rw [target] at h
    dsimp only [bind, Except.bind] at h
    split at h
    · contradiction
    · exact ⟨here, rfl, (Except.ok.inj h).symm⟩

/-- What a write does to a file that a path leads to. All else stays. -/
theorem look_write {d e : Disk} {p : Path} {here : Location} {t : Text} (h : Names d p here)
    (hw : d.write p t = .ok e) (other : Location) :
    e.root.look other =
      if other = here then some (some (.text t)) else d.root.look other := by
  obtain ⟨there, target, rfl⟩ := exists_of_write hw
  obtain ⟨c, held⟩ := h.look
  rw [target_of_names h target, root_put held]
  exact Node.look_put held _ other

theorem working_write {d e : Disk} {p : Path} {t : Text} (hw : d.write p t = .ok e) :
    e.working = d.working := by
  obtain ⟨there, -, rfl⟩ := exists_of_write hw
  rfl

theorem alike_write {d e : Disk} {p : Path} {here : Location} {t : Text} (h : Names d p here)
    (hw : d.write p t = .ok e) : Alike d e := by
  obtain ⟨c, held⟩ := h.look
  refine ⟨working_write hw, fun other => ?_⟩
  rw [Node.isFolder_at?, Node.isFolder_at?, look_write h hw]
  split
  · rename_i same
    rw [same, held]
    rfl
  · rfl

end Unalias.Disk
