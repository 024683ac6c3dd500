/-
  PropertyArchive.Proofs.Text.Brackets — how deep a place in a text is inside brackets.

  A text leaves open as many brackets as it opens less those that it closes
  (`openBrackets`). It is balanced where every beginning of it leaves none too many closed
  and at most `limit` open, and the whole text leaves none open (`Balanced`).
  - Balanced texts one behind the other are balanced (`Balanced.append`), and so is a
    balanced text inside a pair of brackets, where every place is inside
    (`Balanced.wrap`, `one_le_openBrackets`).
  - Behind a text that leaves nothing open a place is outside of the brackets exactly where
    it is so in the rest. So what stands outside in joined texts stands outside in one of
    them: a character (`OutsideOnly.append`), or a word without brackets of its own
    (`standsBare_or_standsBare`).
-/
import PropertyArchive.Text.Identifier

namespace PropertyArchive.Text

/-- The brackets that a text opens less those that it closes. -/
def openBrackets (t : Text) : Int := t.count '<' - t.count '>'

@[simp] theorem openBrackets_nil : openBrackets [] = 0 := rfl

@[simp] theorem openBrackets_append (a b : Text) : openBrackets (a ++ b) = openBrackets a + openBrackets b := by
  simp only [openBrackets, List.count_append]
  omega

@[simp] theorem openBrackets_open (t : Text) : openBrackets ('<' :: t) = 1 + openBrackets t := by
  simp [openBrackets]
  omega

@[simp] theorem openBrackets_close (t : Text) : openBrackets ('>' :: t) = openBrackets t - 1 := by
  simp [openBrackets]
  omega

theorem openBrackets_eq_zero {t : Text} (h : '<' ∉ t ∧ '>' ∉ t) : openBrackets t = 0 := by
  simp [openBrackets, List.count_eq_zero.2 h.1, List.count_eq_zero.2 h.2]

/-! ## Balanced texts -/

/-- At every place at least none and at most `limit` brackets are open, and at the end none. -/
structure Balanced (limit : Nat) (t : Text) : Prop where
  closed : openBrackets t = 0
  bounded : ∀ a b, t = a ++ b → 0 ≤ openBrackets a ∧ openBrackets a ≤ limit

variable {limit : Nat} {t x y : Text}

theorem balanced_of_not_mem (h : '<' ∉ t ∧ '>' ∉ t) : Balanced limit t := by
  refine ⟨openBrackets_eq_zero h, ?_⟩
  rintro a b rfl
  have ha : openBrackets a = 0 :=
    openBrackets_eq_zero ⟨fun hm => h.1 (List.mem_append_left b hm), fun hm => h.2 (List.mem_append_left b hm)⟩
  omega

theorem Balanced.append (hx : Balanced limit x) (hy : Balanced limit y) : Balanced limit (x ++ y) := by
  refine ⟨by rw [openBrackets_append, hx.closed, hy.closed]; rfl, fun a b h => ?_⟩
  rcases List.append_eq_append_iff.1 h with ⟨z, rfl, hz⟩ | ⟨z, hz, -⟩
  · rw [openBrackets_append, hx.closed, Int.zero_add]
    exact hy.bounded z b hz
  · exact hx.bounded a z hz

/-- Every place between the two brackets around a balanced text is inside. -/
theorem Balanced.one_le_openBrackets (h : Balanced limit t) {a b : Text} (he : '<' :: (t ++ ['>']) = a ++ b)
    (ha : a ≠ []) (hb : b ≠ []) : 1 ≤ openBrackets a ∧ openBrackets a ≤ limit + 1 := by
  obtain ⟨c, a, rfl⟩ := List.exists_cons_of_ne_nil ha
  rcases List.eq_nil_or_concat b with rfl | ⟨b, d, rfl⟩
  · exact absurd rfl hb
  · rw [List.concat_eq_append, List.cons_append, ← List.append_assoc] at he
    obtain ⟨rfl, ht⟩ := List.cons.inj he
    have hab := h.bounded a b (List.append_inj' ht rfl).1
    rw [openBrackets_open]
    omega

theorem Balanced.wrap (h : Balanced limit t) : Balanced (limit + 1) ('<' :: (t ++ ['>'])) := by
  have hc : openBrackets ('<' :: (t ++ ['>'])) = 0 := by simp [h.closed]
  refine ⟨hc, fun a b he => ?_⟩
  by_cases ha : a = []
  · subst ha
    simp
    omega
  by_cases hb : b = []
  · subst hb
    rw [List.append_nil] at he
    rw [← he, hc]
    omega
  · have := h.one_le_openBrackets he ha hb
    omega

/-! ## Characters outside of the brackets -/

/-- Where no bracket is open, only characters of this kind stand. -/
def OutsideOnly (p : Char → Prop) (t : Text) : Prop := ∀ a c b, t = a ++ c :: b → openBrackets a = 0 → p c

variable {p : Char → Prop}

theorem outsideOnly_of_forall (h : ∀ c ∈ t, p c) : OutsideOnly p t := by
  rintro a c b rfl -
  exact h c (by simp)

theorem OutsideOnly.append (hx : openBrackets x = 0) (px : OutsideOnly p x) (py : OutsideOnly p y) :
    OutsideOnly p (x ++ y) := by
  intro a c b h h0
  rcases List.append_eq_append_iff.1 h with ⟨z, rfl, hz⟩ | ⟨z, hz, hcb⟩
  · rw [openBrackets_append, hx, Int.zero_add] at h0
    exact py z c b hz h0
  · cases z with
    | nil =>
      rw [List.append_nil] at hz
      subst hz
      exact py [] c b hcb.symm rfl
    | cons d z =>
      cases hcb
      exact px a c z hz h0

/-- Of a bracket section only the opening bracket stands outside. -/
theorem outsideOnly_wrap (h : Balanced limit t) (hp : p '<') : OutsideOnly p ('<' :: (t ++ ['>'])) := by
  intro a c b he h0
  by_cases ha : a = []
  · subst ha
    cases he
    exact hp
  · have := h.one_le_openBrackets he ha (List.cons_ne_nil c b)
    omega

/-! ## Words outside of the brackets -/

/-- The word stands in the text, not as a part of a longer one, outside of the brackets and without
    a bracket section behind it. -/
def StandsBare (w t : Text) : Prop :=
  ∃ a b, t = a ++ w ++ b ∧ openBrackets a = 0 ∧ (∀ c ∈ a.getLast?, isIdentifierChar c = false) ∧
    ∀ c ∈ b.head?, isIdentifierChar c = false ∧ c ≠ '<'

/-- A word that does not hold a character ends behind every place where it stands. -/
theorem exists_of_append_eq_append_cons {a w z : Text} {c : Char} (hc : c ∉ w) (h : a ++ w = x ++ c :: z) :
    ∃ a', a = x ++ c :: a' ∧ z = a' ++ w := by
  rcases List.append_eq_append_iff.1 h with ⟨s, -, hs⟩ | ⟨s, rfl, hs⟩
  · exact absurd (by simp [hs]) hc
  · cases s with
    | nil =>
      rw [List.nil_append] at hs
      exact absurd (hs ▸ List.mem_cons_self) hc
    | cons d s =>
      cases hs
      exact ⟨s, rfl, rfl⟩

/-- A word without spaces stands on one side of each space outside of the brackets. -/
theorem standsBare_or_standsBare {w : Text} (hw : ' ' ∉ w) (hx : openBrackets x = 0)
    (h : StandsBare w (x ++ ' ' :: y)) : StandsBare w x ∨ StandsBare w y := by
  obtain ⟨a, b, he, h0, ha, hb⟩ := h
  rcases List.append_eq_append_iff.1 he.symm with ⟨z, rfl, rfl⟩ | ⟨z, hz, hyb⟩
  · refine .inl ⟨a, z, rfl, h0, ha, fun c hc => hb c ?_⟩
    rw [List.head?_append, Option.mem_def.1 hc]
    rfl
  cases z with
  | nil =>
    rw [List.append_nil] at hz
    exact .inl ⟨a, [], by rw [hz, List.append_nil], h0, ha, by simp⟩
  | cons d z =>
    cases hyb
    obtain ⟨a', rfl, rfl⟩ := exists_of_append_eq_append_cons hw hz
    have hs : openBrackets (' ' :: a') = openBrackets a' := by simp [openBrackets]
    rw [openBrackets_append, hx, hs, Int.zero_add] at h0
    refine .inr ⟨a', b, rfl, h0, fun c hc => ha c ?_, hb⟩
    rw [List.getLast?_append, List.getLast?_cons, Option.mem_def.1 hc]
    rfl

end PropertyArchive.Text
