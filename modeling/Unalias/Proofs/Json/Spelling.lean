import Unalias.Json.Quoted

/-! How a string may be spelled between its quotes. Each character has several spellings, and all
of them read as that character. -/
namespace Unalias.Json

def lowerDigits : Text :=
  ['0', '1', '2', '3', '4', '5', '6', '7', '8', '9', 'a', 'b', 'c', 'd', 'e', 'f']

def upperDigits : Text :=
  ['0', '1', '2', '3', '4', '5', '6', '7', '8', '9', 'A', 'B', 'C', 'D', 'E', 'F']

/-- A hexadecimal digit for its value, in either case. -/
def HexDigit (v : Nat) (c : Char) : Prop := lowerDigits[v]? = some c ∨ upperDigits[v]? = some c

/-- Four digits for a number. -/
inductive Digits : Nat → Text → Prop
  | four {v w x y : Nat} {a b c d : Char} (ha : HexDigit v a) (hb : HexDigit w b)
      (hc : HexDigit x c) (hd : HexDigit y d) : Digits (((v * 16 + w) * 16 + x) * 16 + y) [a, b, c, d]

/-- The letter after a backslash, and the character that it stands for. -/
def shortEscapes : List (Char × Char) :=
  [('"', '"'), ('\\', '\\'), ('/', '/'), ('b', '\x08'), ('f', '\x0c'), ('n', '\n'), ('r', '\r'),
    ('t', '\t')]

def highHalf (c : Char) : Nat := 0xD800 + (c.toNat - 0x10000) / 0x400

def lowHalf (c : Char) : Nat := 0xDC00 + (c.toNat - 0x10000) % 0x400

/-- What follows a backslash in the place of a character. -/
inductive Escape : Char → Text → Prop
  | short {letter c : Char} (h : (letter, c) ∈ shortEscapes) : Escape c [letter]
  | code {c : Char} {ds : Text} (h : Digits c.toNat ds) : Escape c ('u' :: ds)
  | pair {c : Char} {high low : Text} (past : 0x10000 ≤ c.toNat)
      (hh : Digits (highHalf c) high) (hl : Digits (lowHalf c) low) :
      Escape c ('u' :: high ++ '\\' :: 'u' :: low)

/-- What stands between the quotes of a string, for the text that it spells. -/
inductive Spells : Text → Text → Prop
  | nil : Spells [] []
  | plain {c : Char} {s b : Text} (quote : c ≠ '"') (backslash : c ≠ '\\') (printed : ' ' ≤ c)
      (rest : Spells s b) : Spells (c :: s) (c :: b)
  | escaped {c : Char} {e s b : Text} (h : Escape c e) (rest : Spells s b) :
      Spells (c :: s) ('\\' :: e ++ b)

theorem hexValue?_lowerDigits :
    ∀ v, (h : v < lowerDigits.length) → hexValue? lowerDigits[v] = some v := by decide

theorem hexValue?_upperDigits :
    ∀ v, (h : v < upperDigits.length) → hexValue? upperDigits[v] = some v := by decide

theorem HexDigit.value {v : Nat} {c : Char} (h : HexDigit v c) : hexValue? c = some v := by
  rcases h with h | h
  · obtain ⟨short, rfl⟩ := List.getElem?_eq_some_iff.mp h
    exact hexValue?_lowerDigits v short
  · obtain ⟨short, rfl⟩ := List.getElem?_eq_some_iff.mp h
    exact hexValue?_upperDigits v short

theorem readHex_append {n : Nat} {ds : Text} (h : Digits n ds) (t : Text) :
    readHex (ds ++ t) = .ok (n, t) := by
  obtain ⟨ha, hb, hc, hd⟩ := h
  rename_i v w x y a b c d
  have long : ¬Text.size [a, b, c, d] < 4 := by
    have := a.utf8Size_pos
    have := b.utf8Size_pos
    have := c.utf8Size_pos
    have := d.utf8Size_pos
    simp only [Text.size_cons, Text.size_nil]
    omega
  have taken : ([a, b, c, d] ++ t).take 4 = [a, b, c, d] := rfl
  unfold readHex
  rw [taken, if_neg long]
  simp only [List.cons_append, ha.value, hb.value, hc.value, hd.value]
  rfl

/- No character has the code of half a pair. -/
theorem not_half (c : Char) : isLowHalf c.toNat = false ∧ isHighHalf c.toNat = false := by
  have valid : c.toNat < 0xD800 ∨ 0xDFFF < c.toNat ∧ c.toNat < 0x110000 := c.valid
  simp only [isLowHalf, isHighHalf, Bool.and_eq_false_iff, decide_eq_false_iff_not]
  omega

theorem readCodePoint_code {c : Char} {ds : Text} (h : Digits c.toNat ds) (t : Text) :
    readCodePoint (ds ++ t) = .ok (c, t) := by
  obtain ⟨low, high⟩ := not_half c
  simp only [readCodePoint, readHex_append h, bind, Except.bind, low, high, pure, Except.pure,
    Bool.false_eq_true, if_false, Char.ofNat_toNat]

theorem halves {c : Char} (past : 0x10000 ≤ c.toNat) :
    isLowHalf (highHalf c) = false ∧ isHighHalf (highHalf c) = true ∧
      isLowHalf (lowHalf c) = true ∧
        0x10000 + (highHalf c - 0xD800) * 0x400 + (lowHalf c - 0xDC00) = c.toNat := by
  have valid : c.toNat < 0xD800 ∨ 0xDFFF < c.toNat ∧ c.toNat < 0x110000 := c.valid
  simp only [isLowHalf, isHighHalf, Bool.and_eq_false_iff, Bool.and_eq_true,
    decide_eq_false_iff_not, decide_eq_true_eq]
  simp only [highHalf, lowHalf]
  omega

theorem readCodePoint_pair {c : Char} {high low : Text} (past : 0x10000 ≤ c.toNat)
    (hh : Digits (highHalf c) high) (hl : Digits (lowHalf c) low) (t : Text) :
    readCodePoint (high ++ '\\' :: 'u' :: (low ++ t)) = .ok (c, t) := by
  obtain ⟨notLow, isHigh, isLow, whole⟩ := halves past
  simp only [readCodePoint, readHex_append hh, readHex_append hl, readWithinPair, bind,
    Except.bind, notLow, isHigh, isLow, whole, pure, Except.pure, Bool.false_eq_true, if_false,
    if_true, Char.ofNat_toNat]

theorem readEscape_append {c : Char} {e : Text} (h : Escape c e) (t : Text) :
    readEscape (e ++ t) = .ok (c, t) := by
  cases h with
  | short h =>
    simp only [shortEscapes, List.mem_cons, Prod.mk.injEq, List.not_mem_nil, or_false] at h
    rcases h with h | h | h | h | h | h | h | h <;> obtain ⟨rfl, rfl⟩ := h <;> rfl
  | code h => exact readCodePoint_code h t
  | pair past hh hl =>
    rw [List.append_assoc]
    exact readCodePoint_pair past hh hl t

def isPlain (c : Char) : Bool := c ≠ '"' && c ≠ '\\' && ' ' ≤ c

/- Text that needs no escapes is one of its own spellings. -/
theorem spells_self {s : Text} (h : s.all isPlain = true) : Spells s s := by
  induction s with
  | nil => exact .nil
  | cons c s ih =>
    obtain ⟨first, rest⟩ := Bool.and_eq_true_iff.mp h
    simp only [isPlain, Bool.and_eq_true, decide_eq_true_eq] at first
    exact .plain first.1.1 first.1.2 first.2 (ih rest)

theorem Spells.length_le {s b : Text} (h : Spells s b) : s.length ≤ b.length := by
  induction h with
  | nil => exact Nat.le_refl 0
  | plain quote backslash printed rest ih => exact Nat.succ_le_succ ih
  | escaped h rest ih =>
    simp only [List.length_cons, List.length_append, List.cons_append]
    omega

theorem readQuotedWithin_append {s b : Text} (h : Spells s b) {n : Nat} (fuel : s.length < n)
    (t : Text) : readQuotedWithin n (b ++ '"' :: t) = .ok (s, t) := by
  induction h generalizing n with
  | nil =>
    cases n with
    | zero => contradiction
    | succ n => rfl
  | plain quote backslash printed rest ih =>
    cases n with
    | zero => contradiction
    | succ n =>
      have more := ih (Nat.lt_of_succ_lt_succ fuel)
      simp only [List.cons_append, readQuotedWithin, Char.not_lt.mpr printed, if_false, more,
        bind, Except.bind, pure, Except.pure]
  | escaped h rest ih =>
    cases n with
    | zero => contradiction
    | succ n =>
      have more := ih (Nat.lt_of_succ_lt_succ fuel)
      simp only [List.cons_append, List.append_assoc, readQuotedWithin, readEscape_append h, more,
        bind, Except.bind, pure, Except.pure]

theorem readQuoted_append {s b : Text} (h : Spells s b) (t : Text) :
    readQuoted (b ++ '"' :: t) = .ok (s, t) := by
  refine readQuotedWithin_append h ?_ t
  have := h.length_le
  simp only [List.length_append, List.length_cons]
  omega

end Unalias.Json
