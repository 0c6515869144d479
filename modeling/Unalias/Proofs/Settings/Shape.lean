import Unalias.Proofs.Chain
import Unalias.Proofs.Json.Accepted
import Unalias.Proofs.Json.Members
import Unalias.Settings.Location

/-! What settings have to look like, said of the tree that their text writes. Of the aliases that
have a flaw the first is named, in the order in which their names first occur. -/
namespace Unalias.Settings

open Json (Tree Writes Spells entries)

/-- The members of the settings that lead to the aliases. -/
def Leads (w options paths : Tree) : Prop :=
  w.member? "compilerOptions".toList = some options ∧ options.member? "paths".toList = some paths

/-- The tree of a list of strings. -/
def listed (targets : List Text) : Tree := .array (targets.map .string)

def baseFrom (folder : Path) (options : Tree) : Path :=
  match options.member? "baseUrl".toList with
  | some (.string base) => folder.join ⟨base⟩
  | _ => folder

/-- The outcome is the one that settings written as this tree have, and they have no other. -/
structure Judged (folder : Path) (w : Tree) (outcome : Except Flaw Config) : Prop where
  loads : (∃ config, outcome = .ok config) ↔ ∃ options members, Leads w options (.object members) ∧
    ∀ m ∈ entries members, ∃ targets, m.2 = listed targets
  config (config : Config) : outcome = .ok config ↔ ∃ options members,
    Leads w options (.object members) ∧ config.base = baseFrom folder options ∧
      entries members = config.aliases.map fun a => (a.pattern, listed a.targets)
  noAliases : outcome = .error .noAliases ↔ ∀ options paths, ¬Leads w options paths
  aliasesNotObject : outcome = .error .aliasesNotObject ↔
    ∃ options paths, Leads w options paths ∧ ∀ members, paths ≠ .object members
  targetsNotList (name : Text) : outcome = .error (.targetsNotList name) ↔
    ∃ options members, Leads w options (.object members) ∧ ∃ before x after,
      entries members = before ++ (name, x) :: after ∧
        (∀ m ∈ before, ∃ targets, m.2 = listed targets) ∧ ∀ items, x ≠ .array items
  targetNotString (name : Text) : outcome = .error (.targetNotString name) ↔
    ∃ options members, Leads w options (.object members) ∧ ∃ before items after,
      entries members = before ++ (name, .array items) :: after ∧
        (∀ m ∈ before, ∃ targets, m.2 = listed targets) ∧ ∃ x ∈ items, ∀ s, x ≠ .string s
  notJson (problem : Json.Problem) : outcome ≠ .error (.notJson problem)

section targets

variable {name k : Text} {x : Tree}

theorem string?_value_iff {s : Text} : x.value.string? = some s ↔ x = .string s := by
  cases x <;> simp [Tree.value, Json.Value.string?]

theorem mapM_string?_values {items : List Tree} {targets : List Text} :
    (Tree.values items).mapM Json.Value.string? = some targets ↔ items = targets.map .string := by
  induction items generalizing targets with
  | nil => cases targets <;> simp [Tree.values]
  | cons y items ih =>
    rw [Tree.values, List.mapM_cons]
    simp only [Option.bind_eq_bind, Option.bind_eq_some_iff, string?_value_iff, ih]
    cases targets with
    | nil => simp
    | cons target targets => simp

theorem mapM_string?_eq_none {items : List Tree} :
    (Tree.values items).mapM Json.Value.string? = none ↔ ∃ y ∈ items, ∀ s, y ≠ .string s := by
  constructor
  · intro failed
    by_contra all
    have each (y : Tree) (hy : y ∈ items) : ∃ s, y = .string s := by
      by_contra other
      exact all ⟨y, hy, fun s h => other ⟨s, h⟩⟩
    obtain ⟨targets, same⟩ := exists_map each
    rw [mapM_string?_values.mpr same] at failed
    contradiction
  · rintro ⟨y, hy, other⟩
    cases read : (Tree.values items).mapM Json.Value.string? with
    | none => rfl
    | some targets =>
      rw [mapM_string?_values.mp read] at hy
      obtain ⟨s, -, same⟩ := List.mem_map.mp hy
      exact absurd same.symm (other s)

theorem aliasOf_ok_iff {a : Alias} :
    aliasOf name x.value = .ok a ↔ a.pattern = name ∧ x = listed a.targets := by
  cases x with
  | array items =>
    rw [Tree.value, aliasOf, listed, Tree.array.injEq, ← mapM_string?_values]
    cases (Tree.values items).mapM Json.Value.string? with
    | none => simp
    | some targets =>
      cases a
      simp [eq_comm]
  | null | bool | number | string | object => simp [Tree.value, aliasOf, listed]

theorem aliasOf_targetsNotList_iff : aliasOf name x.value = .error (.targetsNotList k) ↔
    name = k ∧ ∀ items, x ≠ .array items := by
  cases x with
  | array items =>
    rw [Tree.value, aliasOf]
    cases (Tree.values items).mapM Json.Value.string? <;> simp
  | null | bool | number | string | object => simp [Tree.value, aliasOf]

theorem aliasOf_targetNotString_iff : aliasOf name x.value = .error (.targetNotString k) ↔
    name = k ∧ ∃ items, x = .array items ∧ ∃ y ∈ items, ∀ s, y ≠ .string s := by
  cases x with
  | array items =>
    simp only [Tree.array.injEq, exists_eq_left']
    rw [← mapM_string?_eq_none, Tree.value, aliasOf]
    cases (Tree.values items).mapM Json.Value.string? <;> simp
  | null | bool | number | string | object => simp [Tree.value, aliasOf]

theorem flaw_of_aliasOf {v : Json.Value} {flaw : Flaw} (h : aliasOf name v = .error flaw) :
    flaw = .targetsNotList name ∨ flaw = .targetNotString name := by
  unfold aliasOf at h
  split at h
  · split at h
    · contradiction
    · exact .inr (Except.error.inj h).symm
  · exact .inl (Except.error.inj h).symm

end targets

section judged

variable {folder : Path} {w options paths : Tree} {members : List (Text × Tree)}

theorem member_of_some {name : String} {x : Tree} (h : w.member? name.toList = some x) :
    member name w.value = .ok x.value := by
  rw [member, Json.field?_value, h]
  rfl

theorem member_of_none {name : String} (h : w.member? name.toList = none) :
    member name w.value = .error .noAliases := by
  rw [member, Json.field?_value, h]
  rfl

theorem configOf_of_not_leads (lacks : ∀ options paths, ¬Leads w options paths) :
    configOf folder w.value = .error .noAliases := by
  cases found : w.member? "compilerOptions".toList with
  | none =>
    rw [configOf, member_of_none found]
    rfl
  | some options =>
    cases more : options.member? "paths".toList with
    | none =>
      simp only [configOf, member_of_some found, member_of_none more, bind, Except.bind]
    | some paths => exact absurd ⟨found, more⟩ (lacks options paths)

theorem configOf_of_not_object (h : Leads w options paths)
    (other : ∀ members, paths ≠ .object members) :
    configOf folder w.value = .error .aliasesNotObject := by
  simp only [configOf, member_of_some h.1, member_of_some h.2, bind, Except.bind]
  cases paths with
  | object members => exact absurd rfl (other members)
  | null | bool | number | string | array => rfl

theorem baseOf_value : baseOf folder options.value = baseFrom folder options := by
  rw [baseOf, Json.field?_value, baseFrom]
  cases options.member? "baseUrl".toList with
  | none => rfl
  | some base => cases base <;> rfl

theorem configOf_of_leads (h : Leads w options (.object members)) :
    configOf folder w.value = ((entries members).mapM fun m => aliasOf m.1 m.2.value).map
      (⟨baseFrom folder options, ·⟩) := by
  have fields : Tree.value (.object members) =
      .object ((entries members).map fun m => (m.1, m.2.value)) := by
    rw [Tree.value, Json.fieldsOf_namedValues]
  simp only [configOf, member_of_some h.1, member_of_some h.2, bind, Except.bind, fields,
    baseOf_value, List.mapM_map, Function.comp_def]
  cases (entries members).mapM fun m => aliasOf m.1 m.2.value <;> rfl

theorem Leads.unique {options' paths' : Tree} (h : Leads w options paths)
    (h' : Leads w options' paths') : options' = options ∧ paths' = paths := by
  obtain rfl := Option.some.inj (h'.1.symm.trans h.1)
  exact ⟨rfl, Option.some.inj (h'.2.symm.trans h.2)⟩

/- There is only one place where the aliases can be. -/
theorem exists_leads_iff (h : Leads w options (.object members))
    {P : Tree → List (Text × Tree) → Prop} :
    (∃ options members, Leads w options (.object members) ∧ P options members) ↔
      P options members := by
  constructor
  · rintro ⟨options', members', h', p⟩
    obtain ⟨rfl, same⟩ := h.unique h'
    rwa [← Tree.object.inj same]
  · exact fun p => ⟨options, members, h, p⟩

theorem judged_of_not_leads (lacks : ∀ options paths, ¬Leads w options paths) :
    Judged folder w (.error .noAliases) where
  loads := iff_of_false (by simp) fun ⟨options, members, h, _⟩ => lacks options _ h
  config _ := iff_of_false (by simp) fun ⟨options, members, h, _⟩ => lacks options _ h
  noAliases := iff_of_true rfl lacks
  aliasesNotObject := iff_of_false (by simp) fun ⟨options, paths, h, _⟩ => lacks options paths h
  targetsNotList _ := iff_of_false (by simp) fun ⟨options, members, h, _⟩ => lacks options _ h
  targetNotString _ := iff_of_false (by simp) fun ⟨options, members, h, _⟩ => lacks options _ h
  notJson _ := by simp

theorem judged_of_not_object (h : Leads w options paths)
    (other : ∀ members, paths ≠ .object members) : Judged folder w (.error .aliasesNotObject) := by
  have never {P : Tree → List (Text × Tree) → Prop} :
      ¬∃ options members, Leads w options (.object members) ∧ P options members :=
    fun ⟨_, members, h', _⟩ => other members (h.unique h').2.symm
  exact {
    loads := iff_of_false (by simp) never
    config := fun _ => iff_of_false (by simp) never
    noAliases := iff_of_false (by simp) fun lacks => lacks _ _ h
    aliasesNotObject := iff_of_true rfl ⟨options, paths, h, other⟩
    targetsNotList := fun _ => iff_of_false (by simp) never
    targetNotString := fun _ => iff_of_false (by simp) never
    notJson := fun _ => by simp }

/- What an alias is written as. -/
theorem mapM_aliasOf_ok_iff {members : List (Text × Tree)} {aliases : List Alias} :
    members.mapM (fun m => aliasOf m.1 m.2.value) = .ok aliases ↔
      members = aliases.map fun a => (a.pattern, listed a.targets) := by
  rw [mapM_ok_iff]
  induction members generalizing aliases with
  | nil => cases aliases <;> simp
  | cons m members ih =>
    cases aliases with
    | nil => simp
    | cons a aliases =>
      simp only [List.map_cons, List.cons.injEq, aliasOf_ok_iff, ih, @eq_comm _ a.pattern,
        Prod.ext_iff]

/- An alias that has no flaw is a list of strings. -/
theorem exists_aliasOf_iff {name : Text} {x : Tree} :
    (∃ a, aliasOf name x.value = .ok a) ↔ ∃ targets, x = listed targets := by
  constructor
  · rintro ⟨a, ok⟩
    exact ⟨a.targets, (aliasOf_ok_iff.mp ok).2⟩
  · rintro ⟨targets, same⟩
    exact ⟨⟨name, targets⟩, aliasOf_ok_iff.mpr ⟨rfl, same⟩⟩

theorem mapM_aliasOf_error_iff {members : List (Text × Tree)} {flaw : Flaw} :
    members.mapM (fun m => aliasOf m.1 m.2.value) = .error flaw ↔ ∃ before name x after,
      members = before ++ (name, x) :: after ∧ (∀ m ∈ before, ∃ targets, m.2 = listed targets) ∧
        aliasOf name x.value = .error flaw := by
  simp only [mapM_error_iff, exists_aliasOf_iff, Prod.exists]

theorem exists_aliases_iff {members : List (Text × Tree)} :
    (∃ aliases, members.mapM (fun m => aliasOf m.1 m.2.value) = .ok aliases) ↔
      ∀ m ∈ members, ∃ targets, m.2 = listed targets := by
  simp only [mapM_aliasOf_ok_iff]
  constructor
  · rintro ⟨aliases, rfl⟩ m hm
    obtain ⟨a, -, rfl⟩ := List.mem_map.mp hm
    exact ⟨a.targets, rfl⟩
  · intro each
    apply exists_map
    intro m hm
    obtain ⟨targets, same⟩ := each m hm
    exact ⟨⟨m.1, targets⟩, Prod.ext rfl same⟩

theorem flaw_of_error {members : List (Text × Tree)} {g : List Alias → Config} {flaw : Flaw}
    (h : (members.mapM fun m => aliasOf m.1 m.2.value).map g = .error flaw) :
    ∃ name, flaw = .targetsNotList name ∨ flaw = .targetNotString name := by
  obtain ⟨_, name, _, _, -, -, failed⟩ := mapM_aliasOf_error_iff.mp (map_eq_error_iff.mp h)
  exact ⟨name, flaw_of_aliasOf failed⟩

theorem judged_of_leads (h : Leads w options (.object members)) :
    Judged folder w (((entries members).mapM fun m => aliasOf m.1 m.2.value).map
      (⟨baseFrom folder options, ·⟩)) where
  loads := by
    refine .trans ?_ (exists_leads_iff h).symm
    rw [← exists_aliases_iff]
    simp [map_eq_ok_iff]
  config config := by
    obtain ⟨base, aliases⟩ := config
    refine .trans ?_ (exists_leads_iff h).symm
    rw [← mapM_aliasOf_ok_iff, map_eq_ok_iff]
    simp only [Config.mk.injEq]
    constructor
    · rintro ⟨_, loaded, rfl, rfl⟩
      exact ⟨rfl, loaded⟩
    · rintro ⟨rfl, loaded⟩
      exact ⟨aliases, loaded, rfl, rfl⟩
  noAliases := iff_of_false (fun failed => by simpa using flaw_of_error failed)
    fun lacks => lacks _ _ h
  aliasesNotObject := iff_of_false (fun failed => by simpa using flaw_of_error failed)
    fun ⟨_, _, h', other⟩ => other members (h.unique h').2
  targetsNotList name := by
    refine .trans ?_ (exists_leads_iff h).symm
    rw [map_eq_error_iff, mapM_aliasOf_error_iff]
    simp only [aliasOf_targetsNotList_iff]
    constructor
    · rintro ⟨before, _, x, after, whole, fine, rfl, other⟩
      exact ⟨before, x, after, whole, fine, other⟩
    · rintro ⟨before, x, after, whole, fine, other⟩
      exact ⟨before, name, x, after, whole, fine, rfl, other⟩
  targetNotString name := by
    refine .trans ?_ (exists_leads_iff h).symm
    rw [map_eq_error_iff, mapM_aliasOf_error_iff]
    simp only [aliasOf_targetNotString_iff]
    constructor
    · rintro ⟨before, _, _, after, whole, fine, rfl, items, rfl, other⟩
      exact ⟨before, items, after, whole, fine, other⟩
    · rintro ⟨before, items, after, whole, fine, other⟩
      exact ⟨before, name, _, after, whole, fine, rfl, items, rfl, other⟩
  notJson problem failed := by simpa using flaw_of_error failed

theorem judged_configOf (folder : Path) (w : Tree) : Judged folder w (configOf folder w.value) := by
  by_cases lacks : ∀ options paths, ¬Leads w options paths
  · rw [configOf_of_not_leads lacks]
    exact judged_of_not_leads lacks
  · obtain ⟨options, rest⟩ := not_forall.mp lacks
    obtain ⟨paths, found⟩ := not_forall.mp rest
    have h := not_not.mp found
    by_cases other : ∀ members, paths ≠ .object members
    · rw [configOf_of_not_object h other]
      exact judged_of_not_object h other
    · obtain ⟨members, same⟩ := not_forall.mp other
      obtain rfl := not_not.mp same
      rw [configOf_of_leads h]
      exact judged_of_leads h

end judged

/-- Settings whose text reads as JSON are loaded, or have the one flaw that comes first, as the tree
that the text writes says. -/
theorem read_judged {d : Disk} {file : Path} {t : Text} {v : Json.Value}
    (stored : d.read file = .ok t) (json : Json.Value.ofText (Jsonc.plain t) = .ok v) :
    ∃ w, Writes Spells (.element w) (Jsonc.plain t) ∧ v = w.value ∧ ∃ outcome,
      read d file = outcome.mapError (Error.settings file) ∧ Judged (folderOf file) w outcome := by
  obtain ⟨w, writes, rfl⟩ := Json.Value.written_of_ofText json
  refine ⟨w, writes, rfl, configOf (folderOf file) w.value, ?_, judged_configOf _ w⟩
  have loaded : ofText (folderOf file) t = configOf (folderOf file) w.value := by
    rw [ofText, json]
    rfl
  rw [read, stored, ← loaded]
  rfl

/- Members that occur twice, at two levels, and a base folder that is no string. -/
def repeatedText : Text :=
  ("\x7b\"compilerOptions\": null, // twice\n\"compilerOptions\": \x7b\"baseUrl\": [1.5], " ++
    "\"paths\": \x7b\"b\": 7, \"a\": [\"p\"], \"b\": [\"q\", \"r\"],\x7d\x7d\x7d").toList

theorem read_judged_repeated :
    let d : Disk := ⟨[("tsconfig.json".toList, .file (.text repeatedText))], []⟩
    let file : Path := ⟨"/tsconfig.json".toList⟩
    d.read file = .ok repeatedText ∧
    (∃ w, Writes Spells (.element w) (Jsonc.plain repeatedText) ∧ ∃ outcome,
      read d file = outcome.mapError (Error.settings file) ∧ Judged (folderOf file) w outcome) ∧
    read d file = .ok ⟨⟨"/".toList⟩, [⟨['b'], [['q'], ['r']]⟩, ⟨['a'], [['p']]⟩]⟩ := by
  intro d file
  have reads : (Json.Value.ofText (Jsonc.plain repeatedText)).isOk = true := by decide +kernel
  cases json : Json.Value.ofText (Jsonc.plain repeatedText) with
  | error problem =>
    rw [json] at reads
    contradiction
  | ok v =>
    have stored : d.read file = .ok repeatedText := rfl
    obtain ⟨w, writes, -, judged⟩ := read_judged stored json
    exact ⟨stored, ⟨w, writes, judged⟩, by decide +kernel⟩

end Unalias.Settings
