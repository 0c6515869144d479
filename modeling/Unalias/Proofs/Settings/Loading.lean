import Unalias.Proofs.Jsonc.Plain
import Unalias.Settings.Location

/-! Settings that are written down are loaded as they were written, in whatever spelling and
layout, with whatever comments. -/
namespace Unalias

namespace Json

theorem setField_of_not_mem {name : Text} (v : Value) {fields : List (Text × Value)}
    (h : name ∉ fields.map (·.1)) : setField name v fields = fields ++ [(name, v)] := by
  induction fields with
  | nil => rfl
  | cons f fields ih =>
    obtain ⟨other, rest⟩ := not_or.mp (mt List.mem_cons.mpr h)
    rw [setField, if_neg (Ne.symm other), ih rest]
    rfl

/- Members with names of their own are the fields. -/
theorem fieldsOf_of_nodup {members : List (Text × Value)} (h : (members.map (·.1)).Nodup) :
    fieldsOf members = members := by
  have onto (fields : List (Text × Value)) (h : ((fields ++ members).map (·.1)).Nodup) :
      members.foldl (fun fields m => setField m.1 m.2 fields) fields = fields ++ members := by
    induction members generalizing fields with
    | nil => exact (List.append_nil fields).symm
    | cons m members ih =>
      have fresh : m.1 ∉ fields.map (·.1) := by
        rw [List.map_append, List.nodup_append] at h
        intro old
        exact h.2.2 _ old _ List.mem_cons_self rfl
      rw [List.foldl_cons, setField_of_not_mem m.2 fresh, ih, List.append_assoc]
      · rfl
      · exact (List.nodup_cons.mp ‹_›).2
      · rw [List.append_assoc]
        exact h
  exact onto [] h

end Json

namespace Settings

/-- The members that aliases are written as, in the order of the aliases. -/
def membersOf (aliases : List Alias) : List (Text × Json.Value) :=
  aliases.map fun a => (a.pattern, .array (a.targets.map .string))

def optionMembers (base? : Option Text) (aliases : List Alias) : List (Text × Json.Value) :=
  base?.toList.map (fun base => ("baseUrl".toList, .string base)) ++
    [("paths".toList, .object (Json.fieldsOf (membersOf aliases)))]

/-- What settings with this base folder, if they name one, and these aliases are written as. -/
def valueOf (base? : Option Text) (aliases : List Alias) : Json.Value :=
  .object (Json.fieldsOf
    [("compilerOptions".toList, .object (Json.fieldsOf (optionMembers base? aliases)))])

theorem mapM_string? (targets : List Text) :
    (targets.map Json.Value.string).mapM Json.Value.string? = some targets := by
  induction targets with
  | nil => rfl
  | cons target targets ih =>
    rw [List.map_cons, List.mapM_cons, ih]
    rfl

theorem mapM_aliasOf (aliases : List Alias) :
    (membersOf aliases).mapM (fun f => aliasOf f.1 f.2) = .ok aliases := by
  induction aliases with
  | nil => rfl
  | cons a aliases ih =>
    have first : aliasOf a.pattern (.array (a.targets.map .string)) = .ok a := by
      rw [aliasOf, mapM_string?]
    rw [membersOf, List.map_cons, List.mapM_cons, first]
    rw [membersOf] at ih
    rw [ih]
    rfl

theorem fieldsOf_optionMembers (base? : Option Text) (aliases : List Alias) :
    Json.fieldsOf (optionMembers base? aliases) = optionMembers base? aliases := by
  cases base? with
  | none => rfl
  | some base => rfl

/- All that loading looks at, when nothing is amiss. -/
theorem configOf_of_fields {folder : Path} {v options : Json.Value}
    {fields : List (Text × Json.Value)} {aliases : List Alias}
    (found : v.field? "compilerOptions".toList = some options)
    (paths : options.field? "paths".toList = some (.object fields))
    (each : fields.mapM (fun f => aliasOf f.1 f.2) = .ok aliases) :
    configOf folder v = .ok ⟨baseOf folder options, aliases⟩ := by
  simp only [configOf, member, found, paths, each, bind, Except.bind, pure, Except.pure]

theorem configOf_valueOf (folder : Path) (base? : Option Text) {aliases : List Alias}
    (distinct : (aliases.map (·.pattern)).Nodup) :
    configOf folder (valueOf base? aliases) =
      .ok ⟨base?.elim folder fun base => folder.join ⟨base⟩, aliases⟩ := by
  have names : (membersOf aliases).map (·.1) = aliases.map (·.pattern) := by
    rw [membersOf, List.map_map]
    rfl
  have listed : Json.fieldsOf (membersOf aliases) = membersOf aliases :=
    Json.fieldsOf_of_nodup (names ▸ distinct)
  have paths : (Json.Value.object (optionMembers base? aliases)).field? "paths".toList =
      some (.object (membersOf aliases)) := by
    rw [optionMembers, listed]
    cases base? <;> rfl
  have base : baseOf folder (.object (optionMembers base? aliases)) =
      base?.elim folder fun base => folder.join ⟨base⟩ := by
    cases base? <;> rfl
  rw [valueOf, fieldsOf_optionMembers, configOf_of_fields rfl paths (mapM_aliasOf aliases), base]

/-- A settings file loads as the aliases that it was written from, with their targets, in the
order written, and the base folder that it names, or its own folder where it names none. -/
theorem read_written {d : Disk} {file : Path} {sheet : Jsonc.Sheet} {base? : Option Text}
    {aliases : List Alias} (distinct : (aliases.map (·.pattern)).Nodup)
    (written : Json.Written true Json.maxLevels (valueOf base? aliases) sheet.lexemes)
    (stored : d.read file = .ok sheet.text) :
    read d file = .ok
      ⟨base?.elim (folderOf file) fun base => (folderOf file).join ⟨base⟩, aliases⟩ := by
  have loaded : ofText (folderOf file) sheet.text = .ok
      ⟨base?.elim (folderOf file) fun base => (folderOf file).join ⟨base⟩, aliases⟩ := by
    rw [ofText, Jsonc.ofText_plain written]
    exact configOf_valueOf (folderOf file) base? distinct
  rw [read, stored]
  exact congrArg (Except.mapError (Error.settings file)) loaded

/- A key whose first letter is written by its code, quotes, backslashes and slashes behind
backslashes, comments between all kinds of lexemes, and a comma before each closing mark. -/
section sample

open Json (Lexeme Spells Written)

theorem spells_compilerOptions :
    Spells "compilerOptions".toList "\\u0063ompilerOptions".toList :=
  .escaped (.code (c := 'c') (.four (v := 0) (w := 0) (x := 6) (y := 3) (.inl rfl) (.inl rfl)
    (.inl rfl) (.inl rfl))) (Json.spells_self (s := "ompilerOptions".toList) (by decide))

theorem spells_base : Spells "./".toList ".\\/".toList :=
  .plain (by decide) (by decide) (by decide) (.escaped (.short (by decide)) .nil)

theorem spells_pattern : Spells "\"//*".toList "\\\"//*".toList :=
  .escaped (.short (by decide)) (Json.spells_self (s := "//*".toList) (by decide))

theorem spells_smile : Spells ['😀'] "\\uD83D\\uDE00".toList :=
  .escaped (.pair (c := '😀') (by decide)
    (.four (v := 13) (w := 8) (x := 3) (y := 13) (.inr rfl) (.inl rfl) (.inl rfl) (.inr rfl))
    (.four (v := 13) (w := 14) (x := 0) (y := 0) (.inr rfl) (.inr rfl) (.inl rfl) (.inl rfl)))
    .nil

/-- Settings with one alias for two targets. -/
def sample : Jsonc.Sheet where
  pieces :=
    [.lexeme (.mark .objectOpen), .line " settings".toList (by decide),
      .lexeme (.quoted spells_compilerOptions), .lexeme (.mark .colon), .space ' ' rfl,
      .lexeme (.mark .objectOpen), .block "/ base ".toList (by decide),
      .lexeme (.quoted (Json.spells_self (s := "baseUrl".toList) (by decide))),
      .lexeme (.mark .colon), .lexeme (.quoted spells_base), .lexeme (.mark .comma),
      .lexeme (.quoted (Json.spells_self (s := "paths".toList) (by decide))),
      .lexeme (.mark .colon), .lexeme (.mark .objectOpen), .lexeme (.quoted spells_pattern),
      .space '\t' rfl, .lexeme (.mark .colon), .lexeme (.mark .listOpen),
      .lexeme (.quoted (Json.spells_self (s := "src/,]".toList) (by decide))),
      .lexeme (.mark .comma), .lexeme (.quoted spells_smile), .lexeme (.mark .comma),
      .block "".toList (by decide), .lexeme (.mark .listClose), .lexeme (.mark .comma),
      .line "".toList (by decide), .lexeme (.mark .objectClose), .lexeme (.mark .objectClose),
      .lexeme (.mark .objectClose), .space '\n' rfl]
  remark? := some ⟨" end".toList, by decide⟩

def sampleText : Text :=
  ("\x7b// settings\n\"\\u0063ompilerOptions\": \x7b/*/ base */\"baseUrl\":\".\\/\"," ++
    "\"paths\":\x7b\"\\\"//*\"\t:[\"src/,]\",\"\\uD83D\\uDE00\",/**/],//\n" ++
    "\x7d\x7d\x7d\n// end").toList

theorem text_sample : sample.text = sampleText := by
  decide +kernel

theorem written_sample :
    Written true Json.maxLevels
      (valueOf (some "./".toList) [⟨"\"//*".toList, ["src/,]".toList, ['😀']]⟩]) sample.lexemes := by
  have targets : Json.Row true (Written true 123) [.string "src/,]".toList, .string ['😀']] _ :=
    .some (.more (.string (Json.spells_self (by decide))) (.closed rfl (.string spells_smile)))
  have aliases : Json.Row true (Json.Member (Written true 124))
      (membersOf [⟨"\"//*".toList, ["src/,]".toList, ['😀']]⟩]) _ :=
    .some (.closed rfl (.mk spells_pattern (.array targets)))
  have options : Json.Row true (Json.Member (Written true 125)) (optionMembers (some "./".toList)
      [⟨"\"//*".toList, ["src/,]".toList, ['😀']]⟩]) _ :=
    .some (.more (.mk (Json.spells_self (by decide)) (.string spells_base))
      (.last (.mk (Json.spells_self (by decide)) (.object aliases))))
  have whole : Json.Row true (Json.Member (Written true 126)) [("compilerOptions".toList, _)] _ :=
    .some (.last (.mk spells_compilerOptions (.object options)))
  exact Json.WrittenWith.object whole

/- The sample as a file in the topmost folder. -/
theorem read_written_sample :
    read ⟨[("tsconfig.json".toList, .file (.text sampleText))], []⟩ ⟨"/tsconfig.json".toList⟩ =
      .ok ⟨⟨"/./".toList⟩, [⟨"\"//*".toList, ["src/,]".toList, ['😀']]⟩]⟩ := by
  rw [← text_sample]
  exact read_written (by decide) written_sample rfl

end sample

end Settings
end Unalias
