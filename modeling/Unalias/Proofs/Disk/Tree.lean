import Unalias.Disk.Basic

/-! What stands where in a tree, and how that changes when a file is given new content. -/
namespace Unalias

namespace Node

def content? : Node → Option Content
  | .file c _ => some c
  | .folder _ => none

/-- What the file at a location holds, if there is a file. -/
def contentAt? (x : Node) (here : Location) : Option Content := (x.at? here).bind content?

/-- What stands at a location: nothing, a folder, which has no content, or a file. -/
def look (x : Node) (here : Location) : Option (Option Content) := (x.at? here).map content?

@[simp] theorem look_nil (x : Node) : x.look [] = some x.content? := rfl

theorem look_cons (x : Node) (name : Text) (names : Location) :
    x.look (name :: names) = (lookup name x.entries).bind (·.look names) := by
  simp only [look, at?]
  cases lookup name x.entries <;> rfl

theorem look_eq_file_iff {x : Node} {here : Location} {c : Content} :
    x.look here = some (some c) ↔ x.contentAt? here = some c := by
  unfold look contentAt?
  cases x.at? here with
  | none => simp
  | some y => simp

theorem isFolder_at? (x : Node) (here : Location) :
    (x.at? here).map isFolder = (x.look here).map Option.isNone := by
  unfold look
  cases x.at? here with
  | none => rfl
  | some y => cases y <;> rfl

theorem at?_append (x : Node) (here more : Location) :
    x.at? (here ++ more) = (x.at? here).bind (·.at? more) := by
  induction here generalizing x with
  | nil => rfl
  | cons name names ih =>
    simp only [List.cons_append, at?]
    cases lookup name x.entries with
    | none => rfl
    | some y => exact ih y

theorem at?_concat {x : Node} {here : Location} {es : List (Text × Node)}
    (h : x.at? here = some (.folder es)) (name : Text) :
    x.at? (here ++ [name]) = lookup name es := by
  rw [at?_append, h]
  simp only [Option.bind_some, at?, entries]
  cases lookup name es <;> rfl

theorem content?_of_lookup {x y : Node} {name : Text} (h : lookup name x.entries = some y) :
    x.content? = none := by
  cases x with
  | file c => cases h
  | folder es => rfl

/-- New content for a file that is there changes what stands at its place, and nothing else. -/
theorem look_put {x : Node} {here : Location} {old : Content} (h : x.look here = some (some old))
    (new : Content) (other : Location) :
    (put new here x).look other = if other = here then some (some new) else x.look other := by
  induction here generalizing x other with
  | nil =>
    cases x with
    | folder es => cases h
    | file c => cases other <;> rfl
  | cons name names ih =>
    rw [look_cons] at h
    obtain ⟨y, hy, hfile⟩ := Option.bind_eq_some_iff.mp h
    have shape : put new (name :: names) x =
        .folder (setEntry name (put new names y) x.entries) := by simp [put, set, hy]
    rw [shape]
    cases other with
    | nil =>
      rw [look_nil, look_nil, content?_of_lookup hy]
      rfl
    | cons n ns =>
      rw [look_cons, look_cons, entries, lookup_setEntry]
      by_cases same : name = n
      · subst same
        simp [hy, ih hfile]
      · simp [same, Ne.symm same]

end Node
end Unalias
