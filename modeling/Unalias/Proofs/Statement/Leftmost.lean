import Unalias.Change
import Unalias.Proofs.Position
import Unalias.Proofs.Statement.Grammar

/-! Where statements stand in a text, by the grammar alone, and that the scan takes them from
the left: each time the first one that starts where the last one taken ended, or later. -/
namespace Unalias

namespace Statement

/- A word begins or ends between the two texts. -/
def isWordBoundary (before after : Text) : Bool :=
  before.getLast?.any isWordChar != after.head?.any isWordChar

/-- The statement stands in the text, with so many bytes before it. -/
def Occurs (text : Text) (start : Nat) (s : Statement) : Prop :=
  ∃ before after, text = before ++ (s.text ++ after) ∧ before.size = start ∧
    isWordBoundary before (s.text ++ after) = true ∧ s.Grammatical ∧ s.Complete after

/-- The statements taken from a position on. -/
inductive Taken (text : Text) : Nat → List (Nat × Statement) → Prop
  | done {low : Nat} : (∀ n s, Occurs text n s → n < low) → Taken text low []
  | next {low n : Nat} {s : Statement} {rest : List (Nat × Statement)} :
      Occurs text n s → low ≤ n → (∀ m u, Occurs text m u → low ≤ m → n ≤ m) →
      Taken text (n + s.text.size) rest → Taken text low ((n, s) :: rest)

theorem occurs_unique {text : Text} {start : Nat} {s u : Statement} (hs : Occurs text start s)
    (hu : Occurs text start u) : s = u := by
  obtain ⟨before, after, htext, hsize, _, hgram, hcomplete⟩ := hs
  obtain ⟨before', after', htext', hsize', _, hgram', hcomplete'⟩ := hu
  have rests := (Text.append_inj_of_size (htext.symm.trans htext') (hsize.trans hsize'.symm)).2
  have first := read?_append hgram hcomplete
  rw [rests, read?_append hgram' hcomplete'] at first
  exact (Prod.mk.inj (Option.some.inj first)).1.symm

theorem text_ne_nil (s : Statement) : s.text ≠ [] := by simp [text, head, keyword]

theorem Taken.unique {text : Text} {low : Nat} {l l' : List (Nat × Statement)}
    (h : Taken text low l) (h' : Taken text low l') : l = l' := by
  induction h generalizing l' with
  | done none =>
    cases h' with
    | done => rfl
    | next occurs above => exact absurd (none _ _ occurs) (Nat.not_lt.mpr above)
  | @next low n s rest occurs above first _ ih =>
    cases h' with
    | done none => exact absurd (none _ _ occurs) (Nat.not_lt.mpr above)
    | @next _ n' s' rest' occurs' above' first' tail' =>
      have start : n = n' := Nat.le_antisymm (first _ _ occurs' above') (first' _ _ occurs above)
      subst start
      cases occurs_unique occurs occurs'
      rw [ih tail']

/- All that stands in the text starts inside of something taken. -/
theorem Taken.covers {text : Text} {low : Nat} {l : List (Nat × Statement)} (h : Taken text low l)
    {n : Nat} {s : Statement} (occurs : Occurs text n s) (above : low ≤ n) :
    ∃ p ∈ l, p.1 ≤ n ∧ n < p.1 + p.2.text.size := by
  induction h with
  | done none => exact absurd (none n s occurs) (Nat.not_lt.mpr above)
  | @next low m u rest _ _ first _ ih =>
    by_cases inside : n < m + u.text.size
    · exact ⟨(m, u), List.mem_cons_self, first n s occurs above, inside⟩
    · obtain ⟨p, hp, hin⟩ := ih (Nat.not_lt.mp inside)
      exact ⟨p, List.mem_cons_of_mem _ hp, hin⟩

theorem Taken.occurs {text : Text} {low : Nat} {l : List (Nat × Statement)} (h : Taken text low l)
    {p : Nat × Statement} (hp : p ∈ l) : Occurs text p.1 p.2 := by
  induction h with
  | done => cases hp
  | next here _ _ _ ih =>
    rcases List.mem_cons.mp hp with hp | hp
    · exact hp ▸ here
    · exact ih hp

/- Nothing is lost when the scan moves on over a character where no statement starts. -/
theorem Taken.skip {before rest : Text} {c : Char} {l : List (Nat × Statement)}
    (none : ∀ s, ¬Occurs (before ++ c :: rest) before.size s)
    (h : Taken (before ++ c :: rest) (before.size + c.utf8Size) l) :
    Taken (before ++ c :: rest) before.size l := by
  have low : ∀ n s, Occurs (before ++ c :: rest) n s → before.size ≤ n →
      before.size + c.utf8Size ≤ n := by
    intro n s occurs above
    obtain ⟨before', after, htext, hsize, _⟩ := id occurs
    obtain ⟨e, he, hrest⟩ := Text.append_of_size_le htext (hsize ▸ above)
    cases e with
    | nil =>
      have here : n = before.size := by rw [← hsize, he, List.append_nil]
      exact absurd (here ▸ occurs) (none s)
    | cons d e =>
      have same : c = d := (List.cons.inj hrest).1
      rw [← hsize, he, Text.size_append, Text.size_cons, same]
      omega
  cases h with
  | done above =>
    refine .done fun n s occurs => ?_
    by_cases hn : before.size ≤ n
    · exact absurd (above n s occurs) (Nat.not_lt.mpr (low n s occurs hn))
    · exact Nat.not_le.mp hn
  | next occurs above first tail =>
    exact .next occurs (Nat.le_trans (Nat.le_add_right _ _) above)
      (fun m u hu hm => first m u hu (low m u hu hm)) tail

/- A statement ends in a quote or a semicolon, and so outside of words. -/
theorem getLast?_append_text (before : Text) (s : Statement) :
    (before ++ s.text).getLast?.any isWordChar = false := by
  have quote : isWordChar s.quote.char = false := by cases s.quote <;> decide
  have semicolon : isWordChar ';' = false := by decide
  cases h : s.semicolon <;> simp [text, tail, h, List.getLast?_append, quote, semicolon]

theorem head?_text_append (s : Statement) (rest : Text) : (s.text ++ rest).head? = some 'i' := rfl

theorem isWordBoundary_text (before rest : Text) (s : Statement) :
    isWordBoundary before (s.text ++ rest) = !before.getLast?.any isWordChar := by
  have letter : isWordChar 'i' = true := by decide
  rw [isWordBoundary, head?_text_append, Option.any_some, letter]
  cases before.getLast?.any isWordChar <;> rfl

/- What occurs at a position is what the reader reads there. -/
theorem occurs_iff_read? {before rest : Text} {s : Statement} :
    Occurs (before ++ rest) before.size s ↔
      before.getLast?.any isWordChar = false ∧ ∃ after, read? rest = some (s, after) := by
  constructor
  · rintro ⟨before', after, htext, hsize, boundary, grammatical, complete⟩
    obtain ⟨rfl, rfl⟩ := Text.append_inj_of_size htext hsize.symm
    rw [isWordBoundary_text, Bool.not_eq_true'] at boundary
    exact ⟨boundary, after, read?_append grammatical complete⟩
  · rintro ⟨outside, after, h⟩
    obtain ⟨rfl, grammatical, complete⟩ := read?_eq_some_iff.mp h
    refine ⟨before, after, rfl, rfl, ?_, grammatical, complete⟩
    rw [isWordBoundary_text, outside]
    rfl

theorem any_getLast?_concat (before : Text) (c : Char) :
    (before ++ [c]).getLast?.any isWordChar = isWordChar c := by simp

/- The invariant of the scan: the flag says whether a word character stands just before. -/
theorem taken_scanAfter {word : Bool} {before t : Text}
    (flag : before.getLast?.any isWordChar = word) :
    Taken (before ++ t) before.size (placed before.size (scanAfter word t)) := by
  fun_induction scanAfter word t generalizing before with
  | case1 word =>
    refine .done fun n s occurs => ?_
    obtain ⟨before', after, htext, hsize, _⟩ := occurs
    have total := congrArg Text.size htext
    have some := Text.size_pos (text_ne_nil s)
    simp only [Text.size_append, Text.size_nil] at total
    omega
  | case2 c rest s after _ _ ih =>
    have tail := ih (any_getLast?_concat before c)
    rw [List.append_assoc, Text.size_append] at tail
    refine Taken.skip (fun u occurs => ?_) tail
    rw [(occurs_iff_read?.mp occurs).1] at flag
    contradiction
  | case3 word c rest s after h _ outside ih =>
    have tail := ih (getLast?_append_text before s)
    rw [List.append_assoc, read?_text h, Text.size_append] at tail
    have here : Occurs (before ++ c :: rest) before.size s :=
      occurs_iff_read?.mpr ⟨by simpa [outside] using flag, after, h⟩
    exact .next here (Nat.le_refl _) (fun _ _ _ above => above) tail
  | case4 word c rest h ih =>
    have tail := ih (any_getLast?_concat before c)
    rw [List.append_assoc, Text.size_append] at tail
    refine Taken.skip (fun u occurs => ?_) tail
    obtain ⟨_, after, read⟩ := occurs_iff_read?.mp occurs
    rw [h] at read
    contradiction

theorem taken_scan (t : Text) : Taken t 0 (placed 0 (scan t)) :=
  @taken_scanAfter false [] t rfl

end Statement
end Unalias
