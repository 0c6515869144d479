import Mathlib.Data.List.Induction
import Mathlib.Data.List.Nodup
import Unalias.Proofs.Json.Grammar

/-! The members of an object, and the fields that they become. A name has its place from the member
that has it first, and its value from the member that has it last. -/
namespace Unalias.Json

variable {α β : Type}

/-- The value of the last member with this name. -/
def last? (name : Text) (members : List (Text × α)) : Option α :=
  (members.reverse.find? fun m => m.1 = name).map (·.2)

/-- Each name once, where it first occurs, with its last value. -/
def entries (members : List (Text × α)) : List (Text × α) :=
  (members.map (·.1)).eraseDups.filterMap fun name => (last? name members).map (name, ·)

namespace Tree

def member? (name : Text) : Tree → Option Tree
  | .object members => last? name members
  | _ => none

end Tree

theorem last?_append (name : Text) (members : List (Text × α)) (m : Text × α) :
    last? name (members ++ [m]) = if m.1 = name then some m.2 else last? name members := by
  rw [last?, List.reverse_append, List.reverse_singleton, List.singleton_append, List.find?_cons]
  by_cases h : m.1 = name
  · simp [h]
  · simp [h, last?]

section values

variable {name : Text} {v : Value}

theorem fieldsOf_append (members : List (Text × Value)) (m : Text × Value) :
    fieldsOf (members ++ [m]) = setField m.1 m.2 (fieldsOf members) := by
  rw [fieldsOf, List.foldl_append]
  rfl

theorem keys_setField (fields : List (Text × Value)) : (setField name v fields).map (·.1) =
    if name ∈ fields.map (·.1) then fields.map (·.1) else fields.map (·.1) ++ [name] := by
  induction fields with
  | nil => rfl
  | cons f fields ih =>
    by_cases same : f.1 = name
    · simp [setField, same]
    · rw [setField, if_neg same, List.map_cons, ih, List.map_cons]
      by_cases old : name ∈ fields.map (·.1)
      · rw [if_pos old, if_pos (List.mem_cons_of_mem _ old)]
      · rw [if_neg old, if_neg (by simpa [Ne.symm same] using old)]
        rfl

theorem find?_setField (fields : List (Text × Value)) (k : Text) :
    ((setField name v fields).find? fun f => f.1 = k).map (·.2) =
      if name = k then some v else (fields.find? fun f => f.1 = k).map (·.2) := by
  induction fields with
  | nil => by_cases h : name = k <;> simp [setField, h]
  | cons f fields ih =>
    by_cases same : f.1 = name
    · by_cases h : name = k <;> simp [setField, same, h]
    · by_cases h : f.1 = k
      · have other : name ≠ k := fun hk => same (h.trans hk.symm)
        rw [setField, if_neg same, List.find?_cons_of_pos (by simp [h]), if_neg other,
          List.find?_cons_of_pos (by simp [h])]
      · rw [setField, if_neg same, List.find?_cons_of_neg (by simp [h]), ih,
          List.find?_cons_of_neg (by simp [h])]

theorem keys_fieldsOf (members : List (Text × Value)) :
    (fieldsOf members).map (·.1) = (members.map (·.1)).eraseDups := by
  induction members using List.reverseRecOn with
  | nil => rfl
  | append_singleton members m ih =>
    rw [fieldsOf_append, keys_setField, ih, List.map_append, List.map_singleton,
      List.eraseDups_append]
    by_cases old : m.1 ∈ members.map (·.1)
    · simp [old, List.removeAll]
    · simp [old, List.removeAll, List.eraseDups_cons]

theorem nodup_fieldsOf (members : List (Text × Value)) :
    ((fieldsOf members).map (·.1)).Nodup := by
  induction members using List.reverseRecOn with
  | nil => exact List.nodup_nil
  | append_singleton members m ih =>
    rw [fieldsOf_append, keys_setField]
    split
    · exact ih
    · rename_i fresh
      rw [← List.concat_eq_append]
      exact ih.concat fresh

theorem find?_fieldsOf (members : List (Text × Value)) (k : Text) :
    ((fieldsOf members).find? fun f => f.1 = k).map (·.2) = last? k members := by
  induction members using List.reverseRecOn with
  | nil => rfl
  | append_singleton members m ih => rw [fieldsOf_append, find?_setField, ih, last?_append]

/- A list of fields with names of their own is made up again from what is found under the names. -/
theorem filterMap_find? {fields : List (Text × Value)} (h : (fields.map (·.1)).Nodup) :
    (fields.map (·.1)).filterMap (fun k =>
      ((fields.find? fun f => f.1 = k).map (·.2)).map (k, ·)) = fields := by
  induction fields with
  | nil => rfl
  | cons f fields ih =>
    obtain ⟨fresh, rest⟩ := List.nodup_cons.mp h
    have later : ∀ k ∈ fields.map (·.1), ((f :: fields).find? fun f => f.1 = k) =
        fields.find? fun f => f.1 = k := by
      intro k hk
      have other : f.1 ≠ k := by
        rintro rfl
        exact fresh hk
      rw [List.find?_cons_of_neg (by simpa using other)]
    rw [List.map_cons, List.filterMap_cons]
    simp only [List.find?_cons_of_pos, decide_true, Option.map_some]
    refine congrArg (f :: ·) (Eq.trans (List.filterMap_congr fun k hk => ?_) (ih rest))
    rw [later k hk]

theorem fieldsOf_eq_entries (members : List (Text × Value)) :
    fieldsOf members = entries members := by
  rw [← filterMap_find? (nodup_fieldsOf members), entries, keys_fieldsOf]
  refine List.filterMap_congr fun k _ => ?_
  rw [find?_fieldsOf]

end values

section trees

theorem last?_map (f : α → β) (name : Text) (members : List (Text × α)) :
    last? name (members.map fun m => (m.1, f m.2)) = (last? name members).map f := by
  rw [last?, ← List.map_reverse, List.find?_map, last?, Option.map_map, Option.map_map]
  rfl

theorem entries_map (f : α → β) (members : List (Text × α)) :
    entries (members.map fun m => (m.1, f m.2)) =
      (entries members).map fun m => (m.1, f m.2) := by
  rw [entries, List.map_map, entries, List.map_filterMap]
  refine List.filterMap_congr fun name _ => ?_
  rw [last?_map, Option.map_map, Option.map_map]
  rfl

theorem namedValues_eq (members : List (Text × Tree)) :
    Tree.namedValues members = members.map fun m => (m.1, m.2.value) := by
  induction members with
  | nil => rfl
  | cons m members ih =>
    rw [Tree.namedValues, ih]
    rfl

theorem fieldsOf_namedValues (members : List (Text × Tree)) :
    fieldsOf (Tree.namedValues members) = (entries members).map fun m => (m.1, m.2.value) := by
  rw [fieldsOf_eq_entries, namedValues_eq, entries_map]

theorem field?_value (name : Text) (w : Tree) :
    w.value.field? name = (w.member? name).map Tree.value := by
  cases w with
  | object members =>
    rw [Tree.value, Value.field?, find?_fieldsOf, namedValues_eq, last?_map]
    rfl
  | null | bool | number | string | array => rfl

end trees

end Unalias.Json
