import Unalias.Proofs.Chain
import Unalias.Proofs.Json.Grammar

/-! A text that is read is strict JSON, and it is read as the value of what it writes. -/
namespace Unalias.Json

variable {α : Type}

theorem not_ok_failAt {reason : Reason} {rest : Text} {a : α} : failAt reason rest ≠ .ok a :=
  fun h => nomatch h

theorem not_ok_failPast {n : Nat} {reason : Reason} {rest : Text} {a : α} :
    failPast n reason rest ≠ .ok a :=
  fun h => nomatch h

theorem exists_spaces (t : Text) : ∃ gap, Spaces gap ∧ t = gap ++ skipSpace t := by
  refine ⟨t.takeWhile isSpace, fun c hc => ?_, List.takeWhile_append_dropWhile.symm⟩
  exact List.all_eq_true.mp List.all_takeWhile c hc

section strings

/- Past `f` there are no digits. -/
theorem hexDigit_ofNat : ∀ n < 103, (hexValue? (Char.ofNat n)).all (fun v =>
    lowerDigits[v]? = some (Char.ofNat n) ∨ upperDigits[v]? = some (Char.ofNat n)) = true := by
  decide

theorem hexDigit_of_value {c : Char} {v : Nat} (h : hexValue? c = some v) : HexDigit v c := by
  have short : c.toNat < 103 := by
    have le {d : Char} (h : c ≤ d) : c.toNat ≤ d.toNat := h
    unfold hexValue? at h
    split at h
    · rename_i range
      exact Nat.lt_of_le_of_lt (le range.2) (by decide)
    · split at h
      · rename_i range
        exact Nat.lt_of_le_of_lt (le range.2) (by decide)
      · split at h
        · rename_i range
          exact Nat.lt_of_le_of_lt (le range.2) (by decide)
        · contradiction
  have table := hexDigit_ofNat c.toNat short
  rw [Char.ofNat_toNat, h, Option.all_some, decide_eq_true_eq] at table
  exact table

theorem HexDigit.lt {v : Nat} {c : Char} (h : HexDigit v c) : v < 16 := by
  rcases h with h | h
  · exact (List.getElem?_eq_some_iff.mp h).1
  · exact (List.getElem?_eq_some_iff.mp h).1

theorem Digits.lt {n : Nat} {ds : Text} (h : Digits n ds) : n < 0x10000 := by
  obtain ⟨ha, hb, hc, hd⟩ := h
  have := ha.lt
  have := hb.lt
  have := hc.lt
  have := hd.lt
  omega

theorem digits_of_readHex {t rest : Text} {n : Nat} (h : readHex t = .ok (n, rest)) :
    ∃ ds, Digits n ds ∧ t = ds ++ rest := by
  unfold readHex at h
  split at h
  · exact absurd h not_ok_failAt
  · split at h
    · rename_i a b c d u _
      split at h
      · rename_i va vb vc vd ha hb hc hd
        cases Except.ok.inj h
        exact ⟨[a, b, c, d], .four (hexDigit_of_value ha) (hexDigit_of_value hb)
          (hexDigit_of_value hc) (hexDigit_of_value hd), rfl⟩
      · exact absurd h not_ok_failPast
    · exact absurd h not_ok_failPast

theorem eq_of_readWithinPair {x : Char} {t rest : Text} (h : readWithinPair x t = .ok rest) :
    t = x :: rest := by
  cases t with
  | nil => exact absurd h not_ok_failAt
  | cons c t =>
    rw [readWithinPair] at h
    split at h
    · rename_i same
      rw [same, Except.ok.inj h]
    · exact absurd h not_ok_failPast

theorem toNat_ofNat {n : Nat} (valid : n.isValidChar) : (Char.ofNat n).toNat = n := by
  rw [Char.ofNat, dif_pos valid]
  rfl

/- A code that is no half of a pair is the code of a character. -/
theorem toNat_ofNat_of_not_half {n : Nat} (short : n < 0x10000) (low : isLowHalf n = false)
    (high : isHighHalf n = false) : (Char.ofNat n).toNat = n := by
  simp only [isLowHalf, isHighHalf, Bool.and_eq_false_iff, decide_eq_false_iff_not] at low high
  apply toNat_ofNat
  unfold Nat.isValidChar
  omega

theorem halves_ofNat {n m : Nat} {c : Char} (high : isHighHalf n = true) (low : isLowHalf m = true)
    (hc : Char.ofNat (0x10000 + (n - 0xD800) * 0x400 + (m - 0xDC00)) = c) :
    0x10000 ≤ c.toNat ∧ highHalf c = n ∧ lowHalf c = m := by
  simp only [isLowHalf, isHighHalf, Bool.and_eq_true, decide_eq_true_eq] at low high
  have code : c.toNat = 0x10000 + (n - 0xD800) * 0x400 + (m - 0xDC00) := by
    rw [← hc]
    apply toNat_ofNat
    unfold Nat.isValidChar
    omega
  rw [highHalf, lowHalf, code]
  omega

theorem escape_of_readCodePoint {t rest : Text} {c : Char} (h : readCodePoint t = .ok (c, rest)) :
    ∃ e, Escape c ('u' :: e) ∧ t = e ++ rest := by
  obtain ⟨⟨n, u⟩, first, h⟩ := bind_eq_ok_iff.mp h
  obtain ⟨ds, digits, whole⟩ := digits_of_readHex first
  dsimp only at h
  split at h
  · exact absurd h not_ok_failAt
  · rename_i low
    split at h
    · rename_i high
      obtain ⟨v, backslash, h⟩ := bind_eq_ok_iff.mp h
      obtain ⟨w, letter, h⟩ := bind_eq_ok_iff.mp h
      obtain ⟨⟨m, x⟩, second, h⟩ := bind_eq_ok_iff.mp h
      obtain ⟨ds', digits', whole'⟩ := digits_of_readHex second
      dsimp only at h
      split at h
      · rename_i low'
        obtain ⟨hc, rfl⟩ := Prod.mk.inj (Except.ok.inj h)
        obtain ⟨past, hn, hm⟩ := halves_ofNat high low' hc
        refine ⟨ds ++ '\\' :: 'u' :: ds', .pair past (hn ▸ digits) (hm ▸ digits'), ?_⟩
        rw [whole, eq_of_readWithinPair backslash, eq_of_readWithinPair letter, whole',
          List.append_assoc]
        rfl
      · exact absurd h not_ok_failAt
    · rename_i high
      obtain ⟨rfl, rfl⟩ := Prod.mk.inj (Except.ok.inj h)
      have code := toNat_ofNat_of_not_half digits.lt (Bool.eq_false_iff.mpr low)
        (Bool.eq_false_iff.mpr high)
      exact ⟨ds, .code (by rwa [code]), whole⟩

theorem escape_of_readEscape {t rest : Text} {c : Char} (h : readEscape t = .ok (c, rest)) :
    ∃ e, Escape c e ∧ t = e ++ rest := by
  unfold readEscape at h
  split at h
  case h_10 =>
    obtain ⟨e, escape, rfl⟩ := escape_of_readCodePoint h
    exact ⟨'u' :: e, escape, rfl⟩
  all_goals
    first
      | contradiction
      | obtain ⟨rfl, rfl⟩ := Prod.mk.inj (Except.ok.inj h)
        exact ⟨[_], .short (by decide), rfl⟩

theorem spells_of_readQuotedWithin {n : Nat} {t rest s : Text}
    (h : readQuotedWithin n t = .ok (s, rest)) : ∃ b, Spells s b ∧ t = b ++ '"' :: rest := by
  fun_induction readQuotedWithin n t generalizing s with
  | case1 => exact absurd h not_ok_failAt
  | case2 => exact absurd h not_ok_failAt
  | case3 =>
    cases Except.ok.inj h
    exact ⟨[], .nil, rfl⟩
  | case4 n t ih =>
    obtain ⟨⟨c, u⟩, escaped, h⟩ := bind_eq_ok_iff.mp h
    obtain ⟨⟨cs, v⟩, more, h⟩ := bind_eq_ok_iff.mp h
    cases Except.ok.inj h
    obtain ⟨e, escape, rfl⟩ := escape_of_readEscape escaped
    obtain ⟨b, spelling, rfl⟩ := ih _ more
    exact ⟨'\\' :: e ++ b, .escaped escape spelling, by simp⟩
  | case5 => exact absurd h not_ok_failAt
  | case6 n c t quote backslash printed ih =>
    obtain ⟨⟨cs, v⟩, more, h⟩ := bind_eq_ok_iff.mp h
    cases Except.ok.inj h
    obtain ⟨b, spelling, rfl⟩ := ih more
    exact ⟨c :: b, .plain quote backslash (Char.not_lt.mp printed) spelling, rfl⟩

end strings

section numbers

theorem eq_of_check {m : Magnitude} {t rest : Text} (h : m.check t = .ok rest) : t = rest := by
  unfold Magnitude.check at h
  split at h
  · exact absurd h not_ok_failAt
  · exact Except.ok.inj h

/- All digits are taken. -/
theorem digits_of_readExponentDigits {m : Magnitude} {negative : Bool} {e : Nat} {t rest : Text}
    (h : readExponentDigits m negative e t = .ok rest) :
    ∃ ds, (∀ c ∈ ds, isDigit c = true) ∧ t = ds ++ rest ∧ rest.head?.any isDigit = false := by
  fun_induction readExponentDigits m negative e t with
  | case1 e => exact ⟨[], by simp, eq_of_check h, by rw [← eq_of_check h]; rfl⟩
  | case2 e c t digit larger short ih =>
    obtain ⟨ds, digits, rfl, ended⟩ := ih h
    exact ⟨c :: ds, List.forall_mem_cons.mpr ⟨digit, digits⟩, rfl, ended⟩
  | case3 e c t digit larger long small =>
    have last := List.head?_dropWhile_not isDigit t
    rw [Except.ok.inj h] at last
    refine ⟨c :: t.takeWhile isDigit, List.forall_mem_cons.mpr ⟨digit, fun d hd => ?_⟩, ?_, ?_⟩
    · exact List.all_eq_true.mp List.all_takeWhile d hd
    · rw [← Except.ok.inj h, List.cons_append, List.takeWhile_append_dropWhile]
    · cases next : rest.head? with
      | none => rfl
      | some d => simpa [next] using last
  | case4 => exact absurd h not_ok_failAt
  | case5 e c t other =>
    rw [← eq_of_check h]
    exact ⟨[], by simp, rfl, Bool.eq_false_iff.mpr other⟩

/- After the sign there is at least one digit. -/
theorem numerals_of_unsigned {m : Magnitude} {negative : Bool} {t rest : Text}
    (h : (match t with
      | [] => failAt .endInValue []
      | c :: t => if isDigit c then readExponentDigits m negative 0 (c :: t)
        else failPast 1 .badNumber (c :: t)) = (.ok rest : Reading Text)) :
    ∃ ds, Numerals ds ∧ t = ds ++ rest := by
  split at h
  · exact absurd h not_ok_failAt
  · rename_i c t
    split at h
    · rename_i digit
      obtain ⟨ds, digits, whole, ended⟩ := digits_of_readExponentDigits h
      refine ⟨ds, ⟨?_, digits⟩, whole⟩
      rintro rfl
      rw [← List.nil_append rest, ← whole, List.head?_cons, Option.any_some, digit] at ended
      contradiction
    · exact absurd h not_ok_failPast

theorem exponent_of_readExponent {m : Magnitude} {e : Char} {t rest : Text} (he : e = 'e' ∨ e = 'E')
    (h : readExponent m t = .ok rest) : ∃ x, Exponent x ∧ e :: t = x ++ rest := by
  unfold readExponent at h
  split at h
  rename_i negative u signed
  obtain ⟨ds, digits, rfl⟩ := numerals_of_unsigned h
  split at signed <;> obtain ⟨-, rfl⟩ := Prod.mk.inj signed
  · exact ⟨e :: (['+'] ++ ds), .some he (by simp) digits, rfl⟩
  · exact ⟨e :: (['-'] ++ ds), .some he (by simp) digits, rfl⟩
  · exact ⟨e :: ([] ++ ds), .some he (by simp) digits, rfl⟩

/- What the readers of the whole part and of the fraction end with. -/
theorem exponent_of_tail {m : Magnitude} {t rest : Text}
    (h : (match t with
      | 'e' :: t => readExponent m t
      | 'E' :: t => readExponent m t
      | t => m.check t) = .ok rest) : ∃ x, Exponent x ∧ t = x ++ rest := by
  split at h
  · exact exponent_of_readExponent (.inl rfl) h
  · exact exponent_of_readExponent (.inr rfl) h
  · exact ⟨[], .none, eq_of_check h⟩

theorem digits_takeWhile (t : Text) : ∀ c ∈ t.takeWhile isDigit, isDigit c = true :=
  List.all_eq_true.mp List.all_takeWhile

theorem fraction_of_readFraction {m : Magnitude} {t rest : Text} (h : readFraction m t = .ok rest) :
    ∃ f x, Fraction f ∧ Exponent x ∧ '.' :: t = f ++ (x ++ rest) := by
  have cut : t = t.takeWhile isDigit ++ t.dropWhile isDigit :=
    List.takeWhile_append_dropWhile.symm
  unfold readFraction at h
  dsimp only at h
  split at h
  · exact absurd h not_ok_failAt
  · exact absurd h not_ok_failPast
  · rename_i more other
    obtain ⟨x, exponent, tail⟩ := exponent_of_tail h
    have some : t.takeWhile isDigit ≠ [] := by
      intro none
      cases next : t.dropWhile isDigit with
      | nil => exact other none next
      | cons c u => exact more none
    refine ⟨'.' :: t.takeWhile isDigit, x, .some ⟨some, digits_takeWhile t⟩, exponent, ?_⟩
    rw [List.cons_append, ← tail, ← cut]

theorem whole_of_readUnsigned {t rest : Text} (h : readUnsigned t = .ok rest) :
    ∃ w f x, Whole w ∧ Fraction f ∧ Exponent x ∧ t = w ++ (f ++ (x ++ rest)) := by
  have cut : t = t.takeWhile isDigit ++ t.dropWhile isDigit :=
    List.takeWhile_append_dropWhile.symm
  have digits := digits_takeWhile t
  unfold readUnsigned at h
  dsimp only at h
  split at h
  · split at h
    · exact absurd h not_ok_failAt
    · exact absurd h not_ok_failPast
  · exact absurd h not_ok_failPast
  · rename_i some single
    have whole : Whole (t.takeWhile isDigit) := by
      cases written : t.takeWhile isDigit with
      | nil => exact (some written).elim
      | cons c ds =>
        rw [written] at digits
        obtain ⟨digit, digits⟩ := List.forall_mem_cons.mp digits
        by_cases zero : c = '0'
        · subst zero
          cases ds with
          | nil => exact .zero
          | cons d ds => exact (single d ds written).elim
        · exact .more digit zero digits
    refine ⟨t.takeWhile isDigit, ?_⟩
    split at h
    · rename_i u next
      obtain ⟨f, x, fraction, exponent, tail⟩ := fraction_of_readFraction h
      exact ⟨f, x, whole, fraction, exponent, by rw [← tail, ← next, ← cut]⟩
    · rename_i u next
      obtain ⟨x, exponent, tail⟩ := exponent_of_readExponent (.inl rfl) h
      exact ⟨[], x, whole, .none, exponent, by rw [List.nil_append, ← tail, ← next, ← cut]⟩
    · rename_i u next
      obtain ⟨x, exponent, tail⟩ := exponent_of_readExponent (.inr rfl) h
      exact ⟨[], x, whole, .none, exponent, by rw [List.nil_append, ← tail, ← next, ← cut]⟩
    · refine ⟨[], [], whole, .none, .none, ?_⟩
      split at h
      · rw [← Except.ok.inj h, List.nil_append, List.nil_append, ← cut]
      · rw [← eq_of_check h, List.nil_append, List.nil_append, ← cut]

theorem number_of_readNumber {t literal rest : Text} (h : readNumber t = .ok (literal, rest)) :
    Number literal ∧ t = literal ++ rest := by
  obtain ⟨u, read, h⟩ := bind_eq_ok_iff.mp h
  obtain ⟨w, f, x, whole, fraction, exponent, unsigned⟩ := whole_of_readUnsigned read
  have signed : ∃ sign, (sign = [] ∨ sign = ['-']) ∧ t = (sign ++ (w ++ (f ++ x))) ++ u := by
    split at unsigned
    · rename_i minus
      obtain ⟨v, rfl⟩ := List.head?_eq_some_iff.mp minus
      exact ⟨['-'], .inr rfl, by simpa using unsigned⟩
    · exact ⟨[], .inl rfl, by simpa using unsigned⟩
  obtain ⟨sign, hsign, cut⟩ := signed
  have taken : t.take (t.length - u.length) = sign ++ (w ++ (f ++ x)) := by
    rw [cut, List.length_append, Nat.add_sub_cancel, List.take_left]
  obtain ⟨rfl, rfl⟩ := Prod.mk.inj (Except.ok.inj h)
  rw [taken]
  exact ⟨.mk hsign whole fraction exponent, cut⟩

end numbers

/-- What is read is the value of what is written, up to white space before it. -/
def Sound (item : Text → Reading (Value × Text)) : Prop :=
  ∀ t v rest, item t = .ok (v, rest) → ∃ w gap s,
    Spaces gap ∧ Writes Spells (.value w) s ∧ v = w.value ∧ t = gap ++ (s ++ rest)

theorem eq_of_readWord {v w : Value} {word t rest : Text} (h : readWord v word t = .ok (w, rest)) :
    w = v ∧ t = word ++ rest := by
  fun_induction readWord v word t with
  | case1 t =>
    obtain ⟨rfl, rfl⟩ := Prod.mk.inj (Except.ok.inj h)
    exact ⟨rfl, rfl⟩
  | case2 => exact absurd h not_ok_failAt
  | case3 t c cs ih =>
    obtain ⟨rfl, rfl⟩ := ih h
    exact ⟨rfl, rfl⟩
  | case4 => exact absurd h not_ok_failPast

section nested

variable {item : Text → Reading (Value × Text)} (sound : Sound item)

include sound

/- One item, with the white space on both sides of it. -/
theorem element_of_item {gap t rest : Text} {v : Value} (hg : Spaces gap)
    (h : item t = .ok (v, rest)) :
    ∃ w u, Writes Spells (.element w) u ∧ v = w.value ∧ gap ++ t = u ++ skipSpace rest := by
  obtain ⟨w, before, s, hb, writes, hv, rfl⟩ := sound _ v rest h
  obtain ⟨after, ha, cut⟩ := exists_spaces rest
  refine ⟨w, (gap ++ before) ++ (s ++ after), .element (hg.append hb) writes ha, hv, ?_⟩
  simp only [List.append_assoc, ← cut]

theorem element_of_skipped {t rest : Text} {v : Value} (h : item (skipSpace t) = .ok (v, rest)) :
    ∃ w u, Writes Spells (.element w) u ∧ v = w.value ∧ t = u ++ skipSpace rest := by
  obtain ⟨gap, spaces, cut⟩ := exists_spaces t
  rw [cut]
  exact element_of_item sound spaces h

theorem elements_of_readMoreItems {n : Nat} {t rest : Text} {vs : List Value}
    (h : readMoreItems item n t = .ok (vs, rest)) {w : Tree} {s : Text}
    (first : Writes Spells (.element w) s) : ∃ ws u, Writes Spells (.elements (w :: ws)) u ∧
      vs = Tree.values ws ∧ s ++ skipSpace t = u ++ ']' :: rest := by
  fun_induction readMoreItems item n t generalizing w s vs with
  | case1 => exact absurd h not_ok_failAt
  | case2 => exact absurd h not_ok_failAt
  | case3 n t u closed =>
    obtain ⟨rfl, rfl⟩ := Prod.mk.inj (Except.ok.inj h)
    exact ⟨[], s, .lastElement first, rfl, by rw [closed]⟩
  | case4 => exact absurd h not_ok_failAt
  | case5 => exact absurd h not_ok_failPast
  | case6 n t u comma _ _ ih =>
    obtain ⟨⟨v, x⟩, one, h⟩ := bind_eq_ok_iff.mp h
    obtain ⟨⟨vs, y⟩, more, h⟩ := bind_eq_ok_iff.mp h
    cases Except.ok.inj h
    obtain ⟨w', s', second, rfl, rfl⟩ := element_of_skipped sound one
    obtain ⟨ws, u, others, rfl, cut⟩ := ih x more second
    refine ⟨w' :: ws, s ++ ',' :: u, .moreElements first others, rfl, ?_⟩
    rw [comma, cut, List.append_assoc, List.cons_append]
  | case7 => exact absurd h not_ok_failPast

/- What stands between the brackets. -/
theorem array_of_readItems {t rest : Text} {vs : List Value}
    (h : readItems item t = .ok (vs, rest)) :
    ∃ ws u, Writes Spells (.value (.array ws)) ('[' :: (u ++ [']'])) ∧
      vs = Tree.values ws ∧ t = u ++ ']' :: rest := by
  unfold readItems at h
  split at h
  · exact absurd h not_ok_failAt
  · rename_i closed
    obtain ⟨rfl, rfl⟩ := Prod.mk.inj (Except.ok.inj h)
    obtain ⟨gap, spaces, cut⟩ := exists_spaces t
    exact ⟨[], gap, .emptyArray spaces, rfl, by rw [← closed, ← cut]⟩
  · obtain ⟨⟨v, x⟩, one, h⟩ := bind_eq_ok_iff.mp h
    obtain ⟨⟨vs, y⟩, more, h⟩ := bind_eq_ok_iff.mp h
    cases Except.ok.inj h
    obtain ⟨w, s, first, rfl, rfl⟩ := element_of_skipped sound one
    obtain ⟨ws, u, all, rfl, cut⟩ := elements_of_readMoreItems sound more first
    exact ⟨w :: ws, u, .array all, rfl, cut⟩

theorem member_of_readMember {t rest : Text} {m : Text × Value}
    (h : readMember item t = .ok (m, rest)) {gap : Text} (hg : Spaces gap) :
    ∃ w u, Writes Spells (.member (m.1, w)) u ∧ m.2 = w.value ∧
      gap ++ '"' :: t = u ++ skipSpace rest := by
  obtain ⟨⟨name, u⟩, quoted, read⟩ := bind_eq_ok_iff.mp h
  obtain ⟨b, spelling, rfl⟩ := spells_of_readQuotedWithin quoted
  obtain ⟨between, spaces, cut⟩ := exists_spaces u
  dsimp only at read
  split at read
  · exact absurd read not_ok_failAt
  · rename_i x colon
    obtain ⟨⟨v, y⟩, one, read⟩ := bind_eq_ok_iff.mp read
    cases Except.ok.inj read
    obtain ⟨w, s, writes, hv, rest⟩ := element_of_item sound .nil one
    refine ⟨w, _, .member hg spelling spaces writes, hv, ?_⟩
    rw [List.nil_append] at rest
    rw [cut, colon, rest]
    simp only [List.append_assoc, List.cons_append]
  · exact absurd read not_ok_failPast

theorem members_of_readMoreMembers {n : Nat} {t rest : Text} {ms : List (Text × Value)}
    (h : readMoreMembers item n t = .ok (ms, rest)) {m : Text × Tree} {s : Text}
    (first : Writes Spells (.member m) s) : ∃ ws u, Writes Spells (.members (m :: ws)) u ∧
      ms = Tree.namedValues ws ∧ s ++ skipSpace t = u ++ '\x7d' :: rest := by
  fun_induction readMoreMembers item n t generalizing m s ms with
  | case1 => exact absurd h not_ok_failAt
  | case2 => exact absurd h not_ok_failAt
  | case3 n t u closed =>
    obtain ⟨rfl, rfl⟩ := Prod.mk.inj (Except.ok.inj h)
    exact ⟨[], s, .lastMember first, rfl, by rw [closed]⟩
  | case4 => exact absurd h not_ok_failAt
  | case5 n t u comma x quoted ih =>
    obtain ⟨⟨⟨name, v⟩, y⟩, one, h⟩ := bind_eq_ok_iff.mp h
    obtain ⟨⟨ms, z⟩, more, h⟩ := bind_eq_ok_iff.mp h
    cases Except.ok.inj h
    obtain ⟨gap, spaces, cut⟩ := exists_spaces u
    obtain ⟨w, s', second, hv, cut'⟩ := member_of_readMember sound one spaces
    obtain ⟨ws, r, others, rfl, cut''⟩ := ih y more second
    refine ⟨(name, w) :: ws, s ++ ',' :: r, .moreMembers first others, ?_, ?_⟩
    · rw [Tree.namedValues, ← hv]
    · rw [comma, cut, quoted, cut', cut'', List.append_assoc, List.cons_append]
  | case6 => exact absurd h not_ok_failPast
  | case7 => exact absurd h not_ok_failPast
  | case8 => exact absurd h not_ok_failPast

/- What stands between the braces. -/
theorem object_of_readMembers {t rest : Text} {ms : List (Text × Value)}
    (h : readMembers item t = .ok (ms, rest)) :
    ∃ ws u, Writes Spells (.value (.object ws)) ('\x7b' :: (u ++ ['\x7d'])) ∧
      ms = Tree.namedValues ws ∧ t = u ++ '\x7d' :: rest := by
  obtain ⟨gap, spaces, cut⟩ := exists_spaces t
  unfold readMembers at h
  split at h
  · exact absurd h not_ok_failAt
  · rename_i closed
    obtain ⟨rfl, rfl⟩ := Prod.mk.inj (Except.ok.inj h)
    exact ⟨[], gap, .emptyObject spaces, rfl, by rw [← closed, ← cut]⟩
  · rename_i u quoted
    obtain ⟨⟨⟨name, v⟩, x⟩, one, h⟩ := bind_eq_ok_iff.mp h
    obtain ⟨⟨ms, y⟩, more, h⟩ := bind_eq_ok_iff.mp h
    cases Except.ok.inj h
    obtain ⟨w, s, first, hv, cut'⟩ := member_of_readMember sound one spaces
    obtain ⟨ws, r, all, rfl, cut''⟩ := members_of_readMoreMembers sound more first
    refine ⟨(name, w) :: ws, r, .object all, ?_, ?_⟩
    · rw [Tree.namedValues, ← hv]
    · rw [cut, quoted, cut', cut'']
  · exact absurd h not_ok_failPast

end nested

/- One level of nesting. -/
theorem sound_readWith {inner? : Option (Text → Reading (Value × Text))}
    (sound : ∀ item ∈ inner?, Sound item) : Sound (readWith inner?) := by
  intro t v rest h
  obtain ⟨gap, spaces, cut⟩ := exists_spaces t
  suffices ∃ w s, Writes Spells (.value w) s ∧ v = w.value ∧ skipSpace t = s ++ rest by
    obtain ⟨w, s, writes, hv, skipped⟩ := this
    exact ⟨w, gap, s, spaces, writes, hv, by rw [← skipped, ← cut]⟩
  unfold readWith at h
  split at h
  case h_1 => exact absurd h not_ok_failAt
  case h_2 u begun =>
    obtain ⟨rfl, rfl⟩ := eq_of_readWord h
    exact ⟨.null, _, .null, rfl, begun⟩
  case h_3 u begun =>
    obtain ⟨rfl, rfl⟩ := eq_of_readWord h
    exact ⟨.bool true, _, .bool true, rfl, begun⟩
  case h_4 u begun =>
    obtain ⟨rfl, rfl⟩ := eq_of_readWord h
    exact ⟨.bool false, _, .bool false, rfl, begun⟩
  case h_5 u begun =>
    obtain ⟨⟨s, x⟩, quoted, h⟩ := bind_eq_ok_iff.mp h
    cases Except.ok.inj h
    obtain ⟨b, spelling, rfl⟩ := spells_of_readQuotedWithin quoted
    exact ⟨.string s, _, .string spelling, rfl, by rw [begun]; simp⟩
  case h_6 u begun =>
    split at h
    · exact absurd h not_ok_failPast
    · obtain ⟨⟨vs, x⟩, items, h⟩ := bind_eq_ok_iff.mp h
      cases Except.ok.inj h
      obtain ⟨ws, r, writes, rfl, rfl⟩ := array_of_readItems (sound _ rfl) items
      exact ⟨.array ws, _, writes, rfl, by rw [begun]; simp⟩
  case h_7 u begun =>
    split at h
    · exact absurd h not_ok_failPast
    · obtain ⟨⟨ms, x⟩, members, h⟩ := bind_eq_ok_iff.mp h
      cases Except.ok.inj h
      obtain ⟨ws, r, writes, rfl, rfl⟩ := object_of_readMembers (sound _ rfl) members
      exact ⟨.object ws, _, writes, rfl, by rw [begun]; simp⟩
  case h_8 c u _ _ _ _ _ _ begun =>
    split at h
    · obtain ⟨⟨literal, x⟩, number, h⟩ := bind_eq_ok_iff.mp h
      cases Except.ok.inj h
      obtain ⟨written, whole⟩ := number_of_readNumber number
      exact ⟨.number literal, literal, .number written, rfl, by rw [begun, whole]⟩
    · exact absurd h not_ok_failPast

theorem sound_readValue (levels : Nat) : Sound (readValue levels) := by
  induction levels with
  | zero => exact sound_readWith (by simp)
  | succ levels ih => exact sound_readWith (by simpa using ih)

/-- Whatever text is read, it is one that the grammar has. -/
theorem Value.written_of_ofText {t : Text} {v : Value} (h : Value.ofText t = .ok v) :
    ∃ w : Tree, Writes Spells (.element w) t ∧ v = w.value := by
  cases read : readDocument t with
  | error f =>
    rw [Value.ofText, read] at h
    contradiction
  | ok v' =>
    rw [Value.ofText, read] at h
    cases Except.ok.inj h
    obtain ⟨⟨v, rest⟩, value, read⟩ := bind_eq_ok_iff.mp read
    obtain ⟨w, u, writes, hv, cut⟩ :=
      element_of_item (sound_readValue maxLevels) .nil value
    dsimp only at read
    split at read
    · rename_i ended
      cases Except.ok.inj read
      rw [List.nil_append, ended, List.append_nil] at cut
      exact ⟨w, cut ▸ writes, hv⟩
    · exact absurd read not_ok_failPast

end Unalias.Json
