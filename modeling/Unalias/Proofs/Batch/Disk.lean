import Unalias.Proofs.Batch.Report
import Unalias.Proofs.Disk.Write

/-! What a batch does to a disk. No file is made and none is removed, and a file that holds
something else afterwards holds what was made of it. -/
namespace Unalias.Batch

/-- All changes are for files that are there. -/
def Placed (cs : List Change) (d : Disk) : Prop := ∀ c ∈ cs, ∃ here, d.Names c.path here

/-- The content is what one of the changes makes of the file that stands here. -/
def Made (cs : List Change) (d : Disk) (here : Location) (new : Content) : Prop :=
  ∃ c ∈ cs, d.locate c.path = .ok here ∧ new = .text c.content

theorem Placed.tail {c : Change} {cs : List Change} {d e : Disk} (placed : Placed (c :: cs) d)
    (alike : d.Alike e) : Placed cs e := by
  intro b hb
  obtain ⟨here, names⟩ := placed b (List.mem_cons_of_mem c hb)
  exact ⟨here, alike.names names⟩

/- What one write preserves is in `Disk.alike_write` and `Disk.look_write`. Later writes meet the
disk that it leaves, where paths lead to the same places. -/
theorem writeAll_placed {cs : List Change} {d : Disk} (placed : Placed cs d) :
    d.Alike (writeAll cs d).2 ∧ ∀ here new,
      (writeAll cs d).2.root.look here = some (some new) →
        d.root.look here = some (some new) ∨ Made cs d here new := by
  induction cs generalizing d with
  | nil => exact ⟨.refl d, fun _ _ h => .inl h⟩
  | cons c cs ih =>
    obtain ⟨there, names⟩ := placed c List.mem_cons_self
    rw [writeAll]
    cases wrote : FileStore.write d c.path c.content with
    | error f =>
      obtain ⟨alike, held⟩ := ih (placed.tail (.refl d))
      refine ⟨alike, fun here new h => (held here new h).imp_right ?_⟩
      rintro ⟨b, hb, made⟩
      exact ⟨b, List.mem_cons_of_mem c hb, made⟩
    | ok next =>
      have first : d.Alike next := Disk.alike_write names wrote
      obtain ⟨alike, held⟩ := ih (placed.tail first)
      refine ⟨first.trans alike, fun here new h => ?_⟩
      rcases held here new h with same | ⟨b, hb, located, made⟩
      · rw [Disk.look_write names wrote] at same
        split at same
        · rename_i here_eq
          have made := Option.some.inj (Option.some.inj same)
          exact .inr ⟨c, List.mem_cons_self, here_eq ▸ names.1, made.symm⟩
        · exact .inl same
      · rw [first.locate_eq] at located
        exact .inr ⟨b, List.mem_cons_of_mem c hb, located, made⟩

/- What is planned for a disk is planned for files that could be read. -/
theorem placed_plan (table : Table) (paths : List Path) (d : Disk) :
    Placed (plan table paths d) d := by
  intro c planned
  obtain ⟨p, -, t, due, rfl⟩ := mem_plan_iff.mp planned
  obtain ⟨here, access, located, held⟩ := Disk.exists_of_read (due?_eq_some_iff.mp due).1
  exact ⟨here, located, _, access, held⟩

section run

variable {table : Table} {dryRun : Bool} {ask : String → Except Fault Bool} {paths : List Path}

theorem alike_run (table : Table) (dryRun : Bool) (ask : String → Except Fault Bool)
    (paths : List Path) (d : Disk) : d.Alike (run table dryRun ask paths d).store := by
  rcases store_run_cases table dryRun ask paths d with same | ⟨-, -, wrote⟩
  · rw [same]
    exact .refl d
  · rw [wrote]
    exact (writeAll_placed (placed_plan table paths d)).1

/-- A file that a batch leaves with other content was listed, by a path that leads to it, and was
due; its new content is what the rules make of its text. -/
theorem changed_run {d : Disk} {here : Location} {old new : Content}
    (before : d.root.contentAt? here = some old)
    (after : (run table dryRun ask paths d).store.root.contentAt? here = some new)
    (changed : new ≠ old) :
    ∃ p ∈ paths, ∃ t, d.locate p = .ok here ∧ old = .text t ∧ table.found t ≠ [] ∧
      new = .text (table.change p t).content := by
  rw [← Node.look_eq_file_iff] at before after
  have same_of {c : Content} (h : d.root.look here = some (some c)) : c = old :=
    Option.some.inj (Option.some.inj (h.symm.trans before))
  rcases store_run_cases table dryRun ask paths d with same | ⟨-, -, wrote⟩
  · rw [same] at after
    exact absurd (same_of after) changed
  · rw [wrote] at after
    rcases (writeAll_placed (placed_plan table paths d)).2 here new after with held | made
    · exact absurd (same_of held) changed
    · obtain ⟨c, planned, located, rfl⟩ := made
      obtain ⟨p, listed, t, due, rfl⟩ := mem_plan_iff.mp planned
      obtain ⟨read, found⟩ := due?_eq_some_iff.mp due
      obtain ⟨there, access, located', held⟩ := Disk.exists_of_read read
      cases Except.ok.inj (located'.symm.trans located)
      have text : d.root.look here = some (some (.text t)) := by
        rw [Node.look, held]
        rfl
      exact ⟨p, listed, t, located, (same_of text).symm, found, rfl⟩

end run

end Unalias.Batch
