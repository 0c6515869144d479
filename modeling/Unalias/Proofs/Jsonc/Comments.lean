import Unalias.Proofs.Jsonc.Plain

/-! What is left of a text, well formed or not, without its comments. Each text is made of string
literals, comments and other characters in just one way. No slash stands right before a comment, so
what is left has no new openers, and to leave the comments out once more changes nothing. -/
namespace Unalias.Jsonc

def OpensComment (t : Text) : Prop := ['/', '/'] <+: t ∨ ['/', '*'] <+: t

/-- A string literal, and the text after it. It is closed by the first quote that is not escaped, or
goes to the end of the text. -/
inductive Literal : Text → Text → Prop
  | closed {body rest : Text} : Held body → Literal ('"' :: (body ++ ['"'])) rest
  | unclosed {body : Text} : (∀ inner rest, body = inner ++ '"' :: rest → ¬Held inner) →
      Literal ('"' :: body) []

/-- A comment, and the text after it. A comment on a line goes up to the newline, or to the end of
the text. Another is closed by the first star and slash after the star that opens it, or goes to the
end of the text. -/
inductive Comment : Text → Text → Prop
  | line {body rest : Text} : '\n' ∉ body → rest = [] ∨ rest.head? = some '\n' →
      Comment ('/' :: '/' :: body) rest
  | block {body rest : Text} : ¬['*', '/'] <:+: body →
      Comment ('/' :: '*' :: (body ++ ['*', '/'])) rest
  | unclosed {body : Text} : ¬['*', '/'] <:+: body → Comment ('/' :: '*' :: body) []

inductive Part
  | plain (c : Char)
  | literal (t : Text)
  | comment (t : Text)

namespace Part

def text : Part → Text
  | .plain c => [c]
  | .literal t => t
  | .comment t => t

def isComment : Part → Bool
  | .comment _ => true
  | _ => false

/-- The part can stand before the text, if it stands outside of literals and comments. -/
inductive Leads : Part → Text → Prop
  | plain {c : Char} {t : Text} : c ≠ '"' → ¬OpensComment (c :: t) → Leads (.plain c) t
  | literal {q t : Text} : Literal q t → Leads (.literal q) t
  | comment {q t : Text} : Comment q t → Leads (.comment q) t

end Part

/-- The parts that a text is made of, from its start on. -/
inductive Divided : List Part → Text → Prop
  | done : Divided [] []
  | part {p : Part} {ps : List Part} {t : Text} : p.Leads t → Divided ps t →
      Divided (p :: ps) (p.text ++ t)

/-- A text that ends outside of string literals. -/
inductive Outside : Text → Prop
  | nil : Outside []
  | plain {c : Char} {t : Text} : c ≠ '"' → Outside t → Outside (c :: t)
  | literal {body t : Text} : Held body → Outside t → Outside ('"' :: (body ++ '"' :: t))

/-- Somewhere outside of string literals a comment is opened. -/
def HasOpener (t : Text) : Prop :=
  ∃ before after, t = before ++ after ∧ Outside before ∧ OpensComment after

theorem opensComment_cons_iff {c : Char} {t : Text} :
    OpensComment (c :: t) ↔ c = '/' ∧ (t.head? = some '/' ∨ t.head? = some '*') := by
  cases t with
  | nil => simp [OpensComment]
  | cons d t => simp [OpensComment, ← and_or_left, @eq_comm Char '/', @eq_comm Char '*']

/- The same quote closes a string literal, however it is read. -/
theorem Held.append_inj {a b s t : Text} (ha : Held a) (hb : Held b)
    (same : a ++ '"' :: s = b ++ '"' :: t) : a = b ∧ s = t := by
  induction ha generalizing b with
  | nil =>
    cases hb with
    | nil => exact ⟨rfl, (List.cons.inj same).2⟩
    | plain quote => exact absurd (List.cons.inj same).1.symm quote
    | escaped => exact absurd (List.cons.inj same).1 (by decide)
  | plain quote backslash _ ih =>
    cases hb with
    | nil => exact absurd (List.cons.inj same).1 quote
    | plain _ _ hb =>
      obtain ⟨rfl, rest⟩ := List.cons.inj same
      obtain ⟨rfl, rfl⟩ := ih hb rest
      exact ⟨rfl, rfl⟩
    | escaped => exact absurd (List.cons.inj same).1 backslash
  | escaped _ ih =>
    cases hb with
    | nil => exact absurd (List.cons.inj same).1 (by decide)
    | plain _ backslash => exact absurd (List.cons.inj same).1.symm backslash
    | escaped hb =>
      obtain ⟨rfl, rest⟩ := List.cons.inj (List.cons.inj same).2
      obtain ⟨rfl, rfl⟩ := ih hb rest
      exact ⟨rfl, rfl⟩

section division

theorem exists_literal (t : Text) : ∃ q rest, '"' :: t = q ++ rest ∧ Literal q rest := by
  by_cases closed : ∃ body rest, t = body ++ '"' :: rest ∧ Held body
  · obtain ⟨body, rest, rfl, held⟩ := closed
    exact ⟨'"' :: (body ++ ['"']), rest, by simp, .closed held⟩
  · refine ⟨'"' :: t, [], by simp, .unclosed fun inner rest whole held => ?_⟩
    exact closed ⟨inner, rest, whole, held⟩

/- Of the places where a comment could be closed there is a first one. -/
theorem exists_closer {t : Text} (h : ['*', '/'] <:+: t) :
    ∃ body rest, t = body ++ '*' :: '/' :: rest ∧ ¬['*', '/'] <:+: body := by
  induction t with
  | nil => simp at h
  | cons c t ih =>
    by_cases first : ['*', '/'] <+: c :: t
    · obtain ⟨rest, whole⟩ := first
      exact ⟨[], rest, whole.symm, by simp⟩
    · obtain ⟨body, rest, rfl, before⟩ := ih ((List.infix_cons_iff.mp h).resolve_left first)
      refine ⟨c :: body, rest, rfl, fun early => ?_⟩
      rcases List.infix_cons_iff.mp early with early | early
      · exact first (early.trans (List.prefix_append (c :: body) _))
      · exact before early

theorem exists_lineEnd (t : Text) :
    ∃ body rest, t = body ++ rest ∧ '\n' ∉ body ∧ (rest = [] ∨ rest.head? = some '\n') := by
  induction t with
  | nil => exact ⟨[], [], rfl, by simp, .inl rfl⟩
  | cons c t ih =>
    by_cases newline : c = '\n'
    · exact ⟨[], c :: t, rfl, by simp, .inr (congrArg some newline)⟩
    · obtain ⟨body, rest, rfl, line, ends⟩ := ih
      exact ⟨c :: body, rest, rfl, by simp [line, Ne.symm newline], ends⟩

theorem exists_comment {t : Text} (opens : OpensComment t) :
    ∃ q rest, t = q ++ rest ∧ Comment q rest := by
  rcases opens with ⟨t, rfl⟩ | ⟨t, rfl⟩
  · obtain ⟨body, rest, rfl, line, ends⟩ := exists_lineEnd t
    exact ⟨'/' :: '/' :: body, rest, by simp, .line line ends⟩
  · by_cases closed : ['*', '/'] <:+: t
    · obtain ⟨body, rest, rfl, before⟩ := exists_closer closed
      exact ⟨'/' :: '*' :: (body ++ ['*', '/']), rest, by simp, .block before⟩
    · exact ⟨'/' :: '*' :: t, [], by simp, .unclosed closed⟩

theorem Comment.opens {q t : Text} (h : Comment q t) : OpensComment (q ++ t) := by
  cases h with
  | line => exact .inl ⟨_, rfl⟩
  | block => exact .inr ⟨_, rfl⟩
  | unclosed => exact .inr ⟨_, rfl⟩

theorem exists_part (c : Char) (t : Text) :
    ∃ (p : Part) (rest : Text), c :: t = p.text ++ rest ∧ p.Leads rest := by
  by_cases opens : OpensComment (c :: t)
  · obtain ⟨q, rest, whole, comment⟩ := exists_comment opens
    exact ⟨.comment q, rest, whole, .comment comment⟩
  · by_cases quote : c = '"'
    · obtain ⟨q, rest, whole, literal⟩ := exists_literal t
      exact ⟨.literal q, rest, quote ▸ whole, .literal literal⟩
    · exact ⟨.plain c, t, rfl, .plain quote opens⟩

theorem Part.Leads.text_ne_nil {p : Part} {t : Text} (h : p.Leads t) : p.text ≠ [] := by
  cases h with
  | plain => exact List.cons_ne_nil _ _
  | literal h => cases h <;> exact List.cons_ne_nil _ _
  | comment h => cases h <;> exact List.cons_ne_nil _ _

theorem exists_divided (t : Text) : ∃ ps, Divided ps t := by
  induction hn : t.length using Nat.strongRecOn generalizing t with
  | _ n ih =>
    cases t with
    | nil => exact ⟨[], .done⟩
    | cons c t =>
      obtain ⟨p, rest, whole, leads⟩ := exists_part c t
      have shorter : rest.length < n := by
        have long := List.length_pos_iff.mpr leads.text_ne_nil
        rw [← hn, whole, List.length_append]
        omega
      obtain ⟨ps, divided⟩ := ih rest.length shorter rest rfl
      exact ⟨p :: ps, whole ▸ .part leads divided⟩

end division

section unique

/- What stands before the place where a line ends can be told only in one way. -/
theorem append_inj_of_line {a b s t : Text} (ha : '\n' ∉ a) (hb : '\n' ∉ b)
    (hs : s = [] ∨ s.head? = some '\n') (ht : t = [] ∨ t.head? = some '\n')
    (same : a ++ s = b ++ t) : a = b ∧ s = t := by
  have ends {u v : Text} {c : Char} (hu : u = [] ∨ u.head? = some '\n') (whole : u = c :: v) :
      c = '\n' := by
    simpa [whole] using hu
  induction a generalizing b with
  | nil =>
    cases b with
    | nil => exact ⟨rfl, same⟩
    | cons d b => exact absurd (ends hs same) fun newline => hb (newline ▸ List.mem_cons_self)
  | cons c a ih =>
    cases b with
    | nil => exact absurd (ends ht same.symm) fun newline => ha (newline ▸ List.mem_cons_self)
    | cons d b =>
      obtain ⟨rfl, rest⟩ := List.cons.inj same
      obtain ⟨rfl, rfl⟩ := ih (mt (List.mem_cons_of_mem c) ha) (mt (List.mem_cons_of_mem c) hb) rest
      exact ⟨rfl, rfl⟩

/- Nothing without a closer in it stands before the first closer of a text that begins with one. -/
theorem eq_nil_of_closer {a s t : Text} (never : ¬['*', '/'] <:+: a)
    (same : a ++ '*' :: '/' :: s = '*' :: '/' :: t) : a = [] := by
  cases a with
  | nil => rfl
  | cons c a =>
    obtain ⟨rfl, rest⟩ := List.cons.inj same
    cases a with
    | nil => exact absurd (List.cons.inj rest).1 (by decide)
    | cons d a =>
      obtain ⟨rfl, -⟩ := List.cons.inj rest
      exact absurd ⟨[], a, rfl⟩ never

theorem append_inj_of_closer {a b s t : Text} (ha : ¬['*', '/'] <:+: a)
    (hb : ¬['*', '/'] <:+: b) (same : a ++ '*' :: '/' :: s = b ++ '*' :: '/' :: t) :
    a = b ∧ s = t := by
  induction a generalizing b with
  | nil =>
    obtain rfl := eq_nil_of_closer hb same.symm
    exact ⟨rfl, (List.cons.inj (List.cons.inj same).2).2⟩
  | cons c a ih =>
    cases b with
    | nil => exact absurd (eq_nil_of_closer ha same) (List.cons_ne_nil c a)
    | cons d b =>
      obtain ⟨rfl, rest⟩ := List.cons.inj same
      obtain ⟨rfl, rfl⟩ := ih (mt List.infix_cons ha) (mt List.infix_cons hb) rest
      exact ⟨rfl, rfl⟩

variable {q q' t t' : Text}

theorem Literal.unique (h : Literal q t) (h' : Literal q' t') (same : q ++ t = q' ++ t') :
    q = q' ∧ t = t' := by
  cases h with
  | @closed body t held =>
    cases h' with
    | @closed body' t' held' =>
      have rest : body ++ '"' :: t = body' ++ '"' :: t' := by simpa using same
      obtain ⟨rfl, rfl⟩ := held.append_inj held' rest
      exact ⟨rfl, rfl⟩
    | unclosed never => exact absurd held (never body t (by simpa using same.symm))
  | unclosed never =>
    cases h' with
    | @closed body' t' held' => exact absurd held' (never body' t' (by simpa using same))
    | unclosed => exact ⟨by simpa using same, rfl⟩

theorem Comment.unique (h : Comment q t) (h' : Comment q' t') (same : q ++ t = q' ++ t') :
    q = q' ∧ t = t' := by
  cases h with
  | @line body t line ends =>
    cases h' with
    | @line body' t' line' ends' =>
      have rest : body ++ t = body' ++ t' := by simpa using same
      obtain ⟨rfl, rfl⟩ := append_inj_of_line line line' ends ends' rest
      exact ⟨rfl, rfl⟩
    | block => simp at same
    | unclosed => simp at same
  | @block body t before =>
    cases h' with
    | line => simp at same
    | @block body' t' before' =>
      have rest : body ++ '*' :: '/' :: t = body' ++ '*' :: '/' :: t' := by simpa using same
      obtain ⟨rfl, rfl⟩ := append_inj_of_closer before before' rest
      exact ⟨rfl, rfl⟩
    | unclosed never => exact absurd ⟨body, t, by simpa using same⟩ never
  | @unclosed body never =>
    cases h' with
    | line => simp at same
    | @block body' t' => exact absurd ⟨body', t', by simpa using same.symm⟩ never
    | unclosed => exact ⟨by simpa using same, rfl⟩

theorem Literal.not_opens (h : Literal q t) : ¬OpensComment (q ++ t) := by
  cases h with
  | closed => exact fun opens => absurd (opensComment_cons_iff.mp opens).1 (by decide)
  | unclosed => exact fun opens => absurd (opensComment_cons_iff.mp opens).1 (by decide)

theorem Literal.ne_cons {c : Char} {u : Text} (h : Literal q t) (quote : c ≠ '"') :
    q ++ t ≠ c :: u := by
  cases h with
  | closed => exact fun same => quote (List.cons.inj same).1.symm
  | unclosed => exact fun same => quote (List.cons.inj same).1.symm

theorem Part.Leads.unique {p p' : Part} (h : p.Leads t) (h' : p'.Leads t')
    (same : p.text ++ t = p'.text ++ t') : p = p' ∧ t = t' := by
  cases h with
  | plain quote opens =>
    cases h' with
    | plain =>
      obtain ⟨rfl, rfl⟩ := List.cons.inj same
      exact ⟨rfl, rfl⟩
    | literal h' => exact absurd same.symm (h'.ne_cons quote)
    | comment h' => exact absurd ((congrArg OpensComment same).mpr h'.opens) opens
  | literal h =>
    cases h' with
    | plain quote => exact absurd same (h.ne_cons quote)
    | literal h' =>
      obtain ⟨rfl, rfl⟩ := h.unique h' same
      exact ⟨rfl, rfl⟩
    | comment h' => exact absurd (same ▸ h'.opens) h.not_opens
  | comment h =>
    cases h' with
    | plain _ opens => exact absurd ((congrArg OpensComment same).mp h.opens) opens
    | literal h' => exact absurd (same ▸ h.opens) h'.not_opens
    | comment h' =>
      obtain ⟨rfl, rfl⟩ := h.unique h' same
      exact ⟨rfl, rfl⟩

theorem Divided.unique {ps qs : List Part} (h : Divided ps t) (h' : Divided qs t) : ps = qs := by
  induction h generalizing qs with
  | done =>
    generalize whole : ([] : Text) = u at h'
    cases h' with
    | done => rfl
    | part leads => exact absurd (List.append_eq_nil_iff.mp whole.symm).1 leads.text_ne_nil
  | @part p ps t leads _ ih =>
    generalize whole : p.text ++ t = u at h'
    cases h' with
    | done => exact absurd (List.append_eq_nil_iff.mp whole).1 leads.text_ne_nil
    | part leads' divided' =>
      obtain ⟨rfl, rfl⟩ := leads.unique leads' whole
      rw [ih divided']

end unique

section pass

theorem withoutComments_of_not_opens {c : Char} {t : Text} (quote : c ≠ '"')
    (opens : ¬OpensComment (c :: t)) : withoutComments (c :: t) = c :: withoutComments t := by
  by_cases slash : c = '/'
  · subst slash
    rw [withoutComments, withoutCommentsFrom]
    · rfl
    · rintro u - - rfl
      exact opens (.inl ⟨u, rfl⟩)
    · rintro u - - rfl
      exact opens (.inr ⟨u, rfl⟩)
  · exact withoutComments_plain slash quote t

/- A string that is not closed goes on to the end, and nothing in it is changed. -/
theorem withoutCommentsFrom_unclosed (body : Text)
    (h : ∀ inner rest, body = inner ++ '"' :: rest → ¬Held inner) :
    withoutCommentsFrom (.kept .quoted) body = body := by
  cases body with
  | nil => rfl
  | cons c body =>
    have quote : c ≠ '"' := fun quote => h [] body (congrArg (· :: body) quote) .nil
    rw [withoutCommentsFrom_inside (by decide)]
    by_cases backslash : c = '\\'
    · subst backslash
      cases body with
      | nil => rfl
      | cons d body =>
        have later : ∀ inner rest, body = inner ++ '"' :: rest → ¬Held inner :=
          fun inner rest whole held => h ('\\' :: d :: inner) rest (by simp [whole]) (.escaped held)
        rw [withoutCommentsFrom_inside (by decide)]
        exact congrArg (fun u => _ :: _ :: u) (withoutCommentsFrom_unclosed body later)
    · have later : ∀ inner rest, body = inner ++ '"' :: rest → ¬Held inner :=
        fun inner rest whole held => h (c :: inner) rest (by simp [whole])
          (.plain quote backslash held)
      rw [next_quoted_of_ne quote backslash, withoutCommentsFrom_unclosed body later]
termination_by body.length

theorem withoutComments_literal {q t : Text} (h : Literal q t) :
    withoutComments (q ++ t) = q ++ withoutComments t := by
  cases h with
  | @closed body t held =>
    simp only [List.cons_append, List.append_assoc, List.nil_append]
    rw [withoutComments_cons (by decide)]
    exact congrArg _ (withoutCommentsFrom_quoted held t)
  | @unclosed body never =>
    rw [List.append_nil, withoutComments_cons (by decide)]
    refine congrArg _ ((withoutCommentsFrom_unclosed body never).trans ?_)
    exact (List.append_nil body).symm

theorem withoutComments_comment {q t : Text} (h : Comment q t) :
    withoutComments (q ++ t) = withoutComments t := by
  cases h with
  | @line body t line ends =>
    rcases ends with rfl | newline
    · rw [List.append_nil]
      exact withoutCommentsFrom_line_end line
    · obtain ⟨t, rfl⟩ := List.head?_eq_some_iff.mp newline
      rw [withoutComments_plain (by decide) (by decide)]
      exact withoutCommentsFrom_line line t
  | @block body t before =>
    have never : Text.contains ['*', '/'] body = false :=
      Bool.eq_false_iff.mpr (mt Text.contains_iff_infix.mp before)
    simp only [List.cons_append, List.append_assoc, List.nil_append]
    exact @withoutCommentsFrom_block false body never t
  | @unclosed body never =>
    have never : Text.contains ['*', '/'] body = false :=
      Bool.eq_false_iff.mpr (mt Text.contains_iff_infix.mp never)
    rw [List.append_nil]
    exact @withoutCommentsFrom_block_end false body never

end pass

section kept

variable {p : Part} {ps : List Part} {t : Text}

theorem Part.Leads.withoutComments_append (h : p.Leads t) :
    withoutComments (p.text ++ t) = (if p.isComment then [] else p.text) ++ withoutComments t := by
  cases h with
  | plain quote opens => exact withoutComments_of_not_opens quote opens
  | literal h => exact withoutComments_literal h
  | comment h => exact withoutComments_comment h

/- The pass takes nothing away at the start of a text but a comment. -/
theorem head?_withoutComments (slash : t.head? ≠ some '/') :
    (withoutComments t).head? = t.head? := by
  cases t with
  | nil => rfl
  | cons c t =>
    have other : c ≠ '/' := fun h => slash (congrArg some h)
    rw [withoutComments_cons other, List.head?_cons, List.head?_cons]

/- What stands after a slash that is no opener is no comment, so it stays there. -/
theorem Part.Leads.kept (h : p.Leads t) (other : p.isComment = false) :
    p.Leads (withoutComments t) := by
  cases h with
  | @plain c t quote opens =>
    refine .plain quote fun opens' => ?_
    obtain ⟨slash, next⟩ := opensComment_cons_iff.mp opens'
    have other : t.head? ≠ some '/' :=
      fun next => opens (opensComment_cons_iff.mpr ⟨slash, .inl next⟩)
    rw [head?_withoutComments other] at next
    exact opens (opensComment_cons_iff.mpr ⟨slash, next⟩)
  | literal h =>
    cases h with
    | closed held => exact .literal (.closed held)
    | unclosed never => exact .literal (.unclosed never)
  | comment => contradiction

theorem Divided.text_eq (h : Divided ps t) : t = ps.flatMap Part.text := by
  induction h with
  | done => rfl
  | part _ _ ih => rw [List.flatMap_cons, ← ih]

theorem Divided.kept (h : Divided ps t) :
    Divided (ps.filter (!·.isComment)) (withoutComments t) := by
  induction h with
  | done => exact .done
  | @part p ps t leads _ ih =>
    rw [leads.withoutComments_append]
    cases other : p.isComment with
    | true => simpa [other] using ih
    | false => simpa [other] using Divided.part (leads.kept other) ih

end kept

section openers

variable {p : Part} {ps : List Part} {t : Text}

theorem not_hasOpener_nil : ¬HasOpener [] := by
  rintro ⟨before, after, whole, -, opens⟩
  rw [(List.append_eq_nil_iff.mp whole.symm).2] at opens
  simp [OpensComment] at opens

theorem hasOpener_cons_iff {c : Char} (quote : c ≠ '"') (opens : ¬OpensComment (c :: t)) :
    HasOpener (c :: t) ↔ HasOpener t := by
  constructor
  · rintro ⟨before, after, whole, outside, opens'⟩
    cases outside with
    | nil => exact absurd (whole ▸ opens') opens
    | plain _ outside => exact ⟨_, after, (List.cons.inj whole).2, outside, opens'⟩
    | literal => exact absurd (List.cons.inj whole).1 quote
  · rintro ⟨before, after, rfl, outside, opens'⟩
    exact ⟨c :: before, after, rfl, .plain quote outside, opens'⟩

/- An opener after a quote stands after the end of the string literal. -/
theorem closed_of_hasOpener (h : HasOpener ('"' :: t)) :
    ∃ body rest, Held body ∧ t = body ++ '"' :: rest ∧ HasOpener rest := by
  obtain ⟨before, after, whole, outside, opens⟩ := h
  cases outside with
  | nil =>
    obtain rfl : '"' :: t = after := whole
    exact absurd (opensComment_cons_iff.mp opens).1 (by decide)
  | plain quote => exact absurd (List.cons.inj whole).1.symm quote
  | @literal body before held outside =>
    have rest : t = body ++ '"' :: (before ++ after) := by simpa using (List.cons.inj whole).2
    exact ⟨body, before ++ after, held, rest, before, after, rfl, outside, opens⟩

theorem hasOpener_literal_iff {q : Text} (h : Literal q t) : HasOpener (q ++ t) ↔ HasOpener t := by
  cases h with
  | @closed body t held =>
    rw [List.cons_append, List.append_assoc, List.singleton_append]
    constructor
    · intro h
      obtain ⟨body', rest, held', same, opener⟩ := closed_of_hasOpener h
      exact (held.append_inj held' same).2 ▸ opener
    · rintro ⟨before, after, rfl, outside, opens⟩
      exact ⟨'"' :: (body ++ '"' :: before), after, by simp, .literal held outside, opens⟩
  | @unclosed body never =>
    rw [List.append_nil]
    refine iff_of_false (fun h => ?_) not_hasOpener_nil
    obtain ⟨body', rest, held', same, -⟩ := closed_of_hasOpener h
    exact never body' rest same held'

theorem Part.Leads.hasOpener_append_iff (h : p.Leads t) :
    HasOpener (p.text ++ t) ↔ p.isComment = true ∨ HasOpener t := by
  cases h with
  | plain quote opens => exact (hasOpener_cons_iff quote opens).trans (by simp [isComment])
  | literal h => exact (hasOpener_literal_iff h).trans (by simp [isComment])
  | comment h => exact iff_of_true ⟨[], _, rfl, .nil, h.opens⟩ (.inl rfl)

theorem Divided.hasOpener_iff (h : Divided ps t) :
    HasOpener t ↔ ∃ p ∈ ps, p.isComment = true := by
  induction h with
  | done => simp [not_hasOpener_nil]
  | part leads _ ih => simp [leads.hasOpener_append_iff, ih]

end openers

/-- Every text is made of string literals, comments and other characters in one way, and without its
comments just the other parts are left. What is left has no opener of a comment outside of string
literals. A text with no opener stays as it is, so to leave the comments out once more changes
nothing. -/
theorem withoutComments_exact (t : Text) :
    (∃ ps, Divided ps t ∧ (∀ qs, Divided qs t → qs = ps) ∧ t = ps.flatMap Part.text ∧
      withoutComments t = (ps.filter (!·.isComment)).flatMap Part.text) ∧
    ¬HasOpener (withoutComments t) ∧
    (withoutComments t = t ↔ ¬HasOpener t) ∧
    withoutComments (withoutComments t) = withoutComments t := by
  have bare (t : Text) : ¬HasOpener (withoutComments t) := by
    obtain ⟨ps, divided⟩ := exists_divided t
    simp [divided.kept.hasOpener_iff]
  have unchanged {t : Text} (none : ¬HasOpener t) : withoutComments t = t := by
    obtain ⟨ps, divided⟩ := exists_divided t
    have all : ps.filter (!·.isComment) = ps := by
      simpa [divided.hasOpener_iff] using none
    rw [divided.kept.text_eq, all, ← divided.text_eq]
  obtain ⟨ps, divided⟩ := exists_divided t
  refine ⟨⟨ps, divided, fun qs h => h.unique divided, divided.text_eq, divided.kept.text_eq⟩,
    bare t, ⟨fun same => same ▸ bare t, unchanged⟩, unchanged (bare t)⟩

end Unalias.Jsonc
