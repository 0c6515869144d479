import Unalias.Proofs.Json.Accepted
import Unalias.Proofs.Jsonc.Comments

/-! Which commas the second pass takes out of a text, well formed or not: just those outside of
string literals that have a closing mark as the next character other than a blank. In strict JSON
there are none, nor any comments, so the two passes give it back as it is. -/
namespace Unalias.Jsonc

open Json (Body Phrase Spaces Writes IsStrict)

/-- At this index of the text there is a comma to be left out. -/
inductive ClosingComma : Text → Nat → Prop
  | mk {before blanks after : Text} {c : Char} : Outside before → (∀ b ∈ blanks, isBlank b = true) →
      c = '\x7d' ∨ c = ']' → ClosingComma (before ++ ',' :: (blanks ++ c :: after)) before.length

section positions

theorem closes_iff {t : Text} : closes t = true ↔ ∃ blanks c after,
    t = blanks ++ c :: after ∧ (∀ b ∈ blanks, isBlank b = true) ∧ (c = '\x7d' ∨ c = ']') := by
  unfold closes
  constructor
  · intro h
    obtain ⟨c, found, closer⟩ := (Option.any_eq_true _ _).mp h
    obtain ⟨-, blanks, after, rfl, all⟩ := List.find?_eq_some_iff_append.mp found
    exact ⟨blanks, c, after, rfl, by simpa using all, by simpa using closer⟩
  · rintro ⟨blanks, c, after, rfl, all, closer⟩
    have solid : isBlank c = false := by
      rcases closer with rfl | rfl <;> rfl
    have found : (blanks ++ c :: after).find? (!isBlank ·) = some c :=
      List.find?_eq_some_iff_append.mpr ⟨by simp [solid], blanks, after, rfl, by simpa using all⟩
    simpa [found] using closer

theorem foldl_quoted {body : Text} (h : Held body) :
    body.foldl Mode.next .quoted = .quoted := by
  induction h with
  | nil => rfl
  | plain quote backslash _ ih => rw [List.foldl_cons, next_quoted_of_ne quote backslash, ih]
  | escaped _ ih => exact ih

theorem foldl_outside {before : Text} (h : Outside before) :
    before.foldl Mode.next .code = .code := by
  induction h with
  | nil => rfl
  | plain quote _ ih => rwa [List.foldl_cons, Mode.next, if_neg quote]
  | literal held _ ih =>
    rw [List.foldl_cons, List.foldl_append, List.foldl_cons]
    have opened : Mode.code.next '"' = .quoted := rfl
    rw [opened, foldl_quoted held]
    exact ih

/- A string that is begun has been closed when the text ends outside of strings. -/
theorem exists_held : ∀ {t : Text}, t.foldl Mode.next .quoted = .code →
    ∃ body rest, t = body ++ '"' :: rest ∧ Held body ∧ rest.foldl Mode.next .code = .code
  | [], h => by contradiction
  | c :: t, h => by
    by_cases quote : c = '"'
    · subst quote
      exact ⟨[], t, rfl, .nil, h⟩
    · by_cases backslash : c = '\\'
      · subst backslash
        cases t with
        | nil => contradiction
        | cons d t =>
          obtain ⟨body, rest, rfl, held, ended⟩ := exists_held (t := t) h
          exact ⟨'\\' :: d :: body, rest, rfl, .escaped held, ended⟩
      · rw [List.foldl_cons, next_quoted_of_ne quote backslash] at h
        obtain ⟨body, rest, rfl, held, ended⟩ := exists_held h
        exact ⟨c :: body, rest, rfl, .plain quote backslash held, ended⟩

theorem outside_of_foldl : ∀ {t : Text}, t.foldl Mode.next .code = .code → Outside t
  | [], _ => .nil
  | c :: t, h => by
    by_cases quote : c = '"'
    · subst quote
      obtain ⟨body, rest, rfl, held, ended⟩ := exists_held (t := t) h
      exact .literal held (outside_of_foldl ended)
    · rw [List.foldl_cons, Mode.next, if_neg quote] at h
      exact .plain quote (outside_of_foldl h)
termination_by t => t.length

theorem closingComma_iff {t : Text} {n : Nat} : ClosingComma t n ↔
    (t.take n).foldl Mode.next .code = .code ∧ t[n]? = some ',' ∧ closes (t.drop (n + 1)) = true := by
  constructor
  · rintro ⟨outside, all, closer⟩
    simp [foldl_outside outside, closes_iff.mpr ⟨_, _, _, rfl, all, closer⟩]
  · rintro ⟨ended, comma, closed⟩
    obtain ⟨long, here⟩ := List.getElem?_eq_some_iff.mp comma
    obtain ⟨blanks, c, after, rest, all, closer⟩ := closes_iff.mp closed
    have length : (t.take n).length = n := List.length_take_of_le (Nat.le_of_lt long)
    have whole : t = t.take n ++ ',' :: (blanks ++ c :: after) := by
      rw [← rest, ← here, List.getElem_cons_drop, List.take_append_drop]
    have found : ClosingComma (t.take n ++ ',' :: (blanks ++ c :: after)) (t.take n).length :=
      .mk (outside_of_foldl ended) all closer
    rwa [← whole, length] at found

instance (t : Text) (n : Nat) : Decidable (ClosingComma t n) :=
  decidable_of_iff' _ closingComma_iff

/- The induction is on the text after a prefix, which says where in the whole text it stands. -/
theorem withoutClosingCommasFrom_eq (before t : Text) :
    withoutClosingCommasFrom (before.foldl Mode.next .code) t =
      ((t.zipIdx before.length).filter fun p => ¬ClosingComma (before ++ t) p.2).map (·.1) := by
  induction t generalizing before with
  | nil => rw [withoutClosingCommasFrom]; rfl
  | cons c t ih =>
    have here : ClosingComma (before ++ c :: t) before.length ↔
        before.foldl Mode.next .code = .code ∧ c = ',' ∧ closes t = true := by
      rw [closingComma_iff]
      simp
    have later := ih (before ++ [c])
    rw [List.foldl_append, List.length_append, List.append_assoc] at later
    rw [withoutClosingCommasFrom, List.zipIdx_cons, List.filter_cons]
    by_cases struck : ClosingComma (before ++ c :: t) before.length
    · obtain ⟨code, rfl, closed⟩ := here.mp struck
      rw [if_pos ⟨code, rfl, closed⟩, if_neg (by simpa using struck)]
      rw [code] at later ⊢
      exact later
    · rw [if_neg (mt here.mpr struck), if_pos (by simpa using struck), List.map_cons]
      exact congrArg _ later

end positions

section strict

/-- Text that both passes copy, whatever comes after it. -/
def Inert (s : Text) : Prop := ∀ t,
  withoutComments (s ++ t) = s ++ withoutComments t ∧
    withoutClosingCommas (s ++ t) = s ++ withoutClosingCommas t

theorem inert_nil : Inert [] := fun _ => ⟨rfl, rfl⟩

theorem Inert.append {s t : Text} (hs : Inert s) (ht : Inert t) : Inert (s ++ t) := by
  intro u
  simp only [List.append_assoc, (hs _).1, (hs _).2, (ht u).1, (ht u).2, and_self]

theorem Inert.cons {c : Char} {t : Text} (slash : c ≠ '/') (quote : c ≠ '"') (comma : c ≠ ',')
    (h : Inert t) : Inert (c :: t) := by
  refine Inert.append (s := [c]) (fun u => ⟨?_, ?_⟩) h
  · exact withoutComments_plain slash quote u
  · exact withoutClosingCommas_plain comma quote u

theorem Inert.between {c d : Char} {t : Text} (h : Inert t)
    (first : c ≠ '/' ∧ c ≠ '"' ∧ c ≠ ',') (last : d ≠ '/' ∧ d ≠ '"' ∧ d ≠ ',') :
    Inert (c :: (t ++ [d])) :=
  (h.append (inert_nil.cons last.1 last.2.1 last.2.2)).cons first.1 first.2.1 first.2.2

/- Numbers, words and white space. -/
theorem inert_of_forall {s : Text} (h : ∀ c ∈ s, c ≠ '/' ∧ c ≠ '"' ∧ c ≠ ',') : Inert s := by
  induction s with
  | nil => exact inert_nil
  | cons c s ih =>
    obtain ⟨⟨slash, quote, comma⟩, rest⟩ := List.forall_mem_cons.mp h
    exact (ih rest).cons slash quote comma

theorem held_of_body {b : Text} (h : Body b) : Held b := by
  induction h with
  | nil => exact .nil
  | plain quote backslash _ _ ih => exact .plain quote backslash ih
  | short _ _ ih => exact .escaped ih
  | code digits _ ih => exact .escaped (held_digits digits ih)

theorem inert_literal {b : Text} (h : Body b) : Inert ('"' :: (b ++ ['"'])) := by
  have held := held_of_body h
  intro t
  refine ⟨withoutComments_literal (.closed held), ?_⟩
  simp only [List.cons_append, List.append_assoc, List.nil_append]
  rw [withoutClosingCommas_cons (by decide)]
  exact congrArg _ (withoutClosingCommasFrom_quoted held t)

theorem inert_spaces {gap : Text} (h : Spaces gap) : Inert gap :=
  inert_of_forall fun c hc => ne_of_isSpace (h c hc)

theorem ne_of_isDigit {c : Char} (h : Json.isDigit c = true) : c ≠ '/' ∧ c ≠ '"' ∧ c ≠ ',' := by
  refine ⟨?_, ?_, ?_⟩ <;> rintro rfl <;> contradiction

theorem inert_digits {t : Text} (h : ∀ c ∈ t, Json.isDigit c = true) : Inert t :=
  inert_of_forall fun c hc => ne_of_isDigit (h c hc)

theorem inert_whole {t : Text} (h : Json.Whole t) : Inert t := by
  cases h with
  | zero => exact inert_of_forall (by simp)
  | more digit _ digits => exact inert_digits (List.forall_mem_cons.mpr ⟨digit, digits⟩)

theorem inert_fraction {t : Text} (h : Json.Fraction t) : Inert t := by
  cases h with
  | none => exact inert_nil
  | some digits => exact (inert_digits digits.2).cons (by decide) (by decide) (by decide)

theorem inert_exponent {t : Text} (h : Json.Exponent t) : Inert t := by
  cases h with
  | none => exact inert_nil
  | @some e sign ds letter hs digits =>
    have signed : Inert sign := by
      rcases hs with rfl | rfl | rfl <;> exact inert_of_forall (by simp)
    have tail := signed.append (inert_digits digits.2)
    rcases letter with rfl | rfl <;> exact tail.cons (by decide) (by decide) (by decide)

theorem inert_number {t : Text} (h : Json.Number t) : Inert t := by
  obtain ⟨sign, whole, fraction, exponent⟩ := h
  have tail := (inert_whole whole).append ((inert_fraction fraction).append (inert_exponent exponent))
  rcases sign with rfl | rfl
  · exact tail
  · exact tail.cons (by decide) (by decide) (by decide)

theorem closes_spaces {gap : Text} (h : Spaces gap) (t : Text) : closes (gap ++ t) = closes t := by
  induction gap with
  | nil => rfl
  | cons c gap ih =>
    obtain ⟨space, rest⟩ := List.forall_mem_cons.mp h
    rw [← ih rest, closes, List.cons_append, List.find?_cons_of_neg]
    · rfl
    · simp [isBlank_of_isSpace space]

theorem closes_solid {c : Char} (solid : isBlank c = false) (brace : c ≠ '\x7d') (bracket : c ≠ ']')
    (t : Text) : closes (c :: t) = false := by
  rw [closes, List.find?_cons_of_pos (by simp [solid])]
  simp [brace, bracket]

theorem closes_digit {c : Char} (digit : Json.isDigit c = true) (t : Text) :
    closes (c :: t) = false := by
  simp only [Json.isDigit, Bool.and_eq_true, decide_eq_true_eq] at digit
  have low : 48 ≤ c.toNat := digit.1
  have high : c.toNat ≤ 57 := digit.2
  apply closes_solid
  · simp only [isBlank, within, blankRanges]
    simp
    omega
  · rintro rfl
    contradiction
  · rintro rfl
    contradiction

theorem closes_number {t : Text} (h : Json.Number t) (u : Text) : closes (t ++ u) = false := by
  obtain ⟨sign, whole, -, -⟩ := h
  rcases sign with rfl | rfl
  · cases whole with
    | zero => rfl
    | more digit => exact closes_digit digit _
  · rfl

variable {spells : Text → Text → Prop} {p : Phrase} {t : Text}

/- A phrase has something between itself and a closing mark. -/
theorem closes_phrase (h : Writes spells p t) (u : Text) : closes (t ++ u) = false := by
  induction h generalizing u with
  | null => rfl
  | bool b => cases b <;> rfl
  | number h => exact closes_number h u
  | string | emptyArray | array | emptyObject | object => rfl
  | element before _ _ ih =>
    rw [List.append_assoc, closes_spaces before, List.append_assoc]
    exact ih _
  | lastElement _ ih => exact ih u
  | moreElements _ _ ih =>
    rw [List.append_assoc]
    exact ih _
  | member before =>
    rw [List.append_assoc, closes_spaces before]
    rfl
  | lastMember _ ih => exact ih u
  | moreMembers _ _ ih =>
    rw [List.append_assoc]
    exact ih _

theorem inert_comma (h : Inert t) (goesOn : ∀ u, closes (t ++ u) = false) : Inert (',' :: t) := by
  refine fun u => ⟨?_, ?_⟩
  · rw [List.cons_append, withoutComments_plain (by decide) (by decide), (h u).1]
    rfl
  · rw [List.cons_append, withoutClosingCommas_comma, goesOn, (h u).2]
    rfl

theorem inert_phrase (h : Writes (fun _ b => Body b) p t) : Inert t := by
  induction h with
  | null => exact inert_of_forall (by simp)
  | bool b => cases b <;> exact inert_of_forall (by simp [toString])
  | number h => exact inert_number h
  | string body => exact inert_literal body
  | emptyArray gap => exact (inert_spaces gap).between (by decide) (by decide)
  | array _ ih => exact ih.between (by decide) (by decide)
  | emptyObject gap => exact (inert_spaces gap).between (by decide) (by decide)
  | object _ ih => exact ih.between (by decide) (by decide)
  | element before _ after ih => exact (inert_spaces before).append (ih.append (inert_spaces after))
  | lastElement _ ih => exact ih
  | moreElements _ others first rest => exact first.append (inert_comma rest (closes_phrase others))
  | @member name b w before gap t hb body hg _ ih =>
    have value : Inert (gap ++ ':' :: t) :=
      (inert_spaces hg).append (ih.cons (by decide) (by decide) (by decide))
    have named : Inert ('"' :: (b ++ '"' :: (gap ++ ':' :: t))) := by
      simpa using (inert_literal body).append value
    exact (inert_spaces hb).append named
  | lastMember _ ih => exact ih
  | moreMembers _ others first rest => exact first.append (inert_comma rest (closes_phrase others))

theorem plain_of_isStrict (h : IsStrict t) : plain t = t := by
  obtain ⟨w, writes⟩ := h
  obtain ⟨comments, commas⟩ := inert_phrase writes []
  have none : withoutComments [] = [] := rfl
  have none' : withoutClosingCommas [] = [] := rfl
  rw [List.append_nil, none, List.append_nil] at comments
  rw [List.append_nil, none', List.append_nil] at commas
  rw [plain, comments, commas]

end strict

/-- The second pass takes out the closing commas, at whatever index of the text they are, and keeps
all other characters in their order. A text of strict JSON comes through both passes unchanged. -/
theorem withoutClosingCommas_exact (t : Text) :
    withoutClosingCommas t = (t.zipIdx.filter fun p => ¬ClosingComma t p.2).map (·.1) ∧
    (IsStrict t → plain t = t) :=
  ⟨withoutClosingCommasFrom_eq [] t, plain_of_isStrict⟩

theorem withoutClosingCommas_exact_nested :
    let t := ("\x7b \"a,]\": [1, -2.5e+3, \",\\\"]\", [ ]], \"b\":" ++
      " \x7b\"//c\": null\x7d\x7d\n").toList
    IsStrict t ∧ plain t = t := by
  intro t
  have reads : (Json.Value.ofText t).isOk = true := by decide +kernel
  cases read : Json.Value.ofText t with
  | error problem =>
    rw [read] at reads
    contradiction
  | ok v =>
    obtain ⟨w, writes, -⟩ := Json.Value.written_of_ofText read
    exact ⟨writes.isStrict, (withoutClosingCommas_exact t).2 writes.isStrict⟩

end Unalias.Jsonc
