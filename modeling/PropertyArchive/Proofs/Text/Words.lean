/-
  PropertyArchive.Proofs.Text.Words — the words of texts that stand one behind the other.

  No word goes on over a blank (`words_append_blank_cons`), so where two texts are apart
  (`Apart`) the words of the whole are those of the first and then those of the second
  (`words_append`). A word with gaps around it is one word more in its place
  (`words_insert`). Every text is a gap, or a gap, a first word and what stands apart from
  it (`exists_first_word`), so a text can be taken apart word by word (`induction_on_words`).
-/
import PropertyArchive.Proofs.Text.Pieces

namespace PropertyArchive.Text

def IsWord (w : Text) : Prop := w ≠ [] ∧ ∀ c ∈ w, isBlank c = false

instance (w : Text) : Decidable (IsWord w) :=
  @instDecidableAnd _ _ (inferInstanceAs (Decidable (w ≠ []))) (List.decidableBAll (isBlank · = false) w)

/-- No word goes on from the first text into the second. -/
def Apart (a b : Text) : Prop := (∀ c ∈ a.getLast?, isBlank c = true) ∨ ∀ c ∈ b.head?, isBlank c = true

instance (a b : Text) : Decidable (Apart a b) :=
  @instDecidableOr _ _ (Option.decidableForallMem a.getLast?) (Option.decidableForallMem b.head?)

variable {a b w : Text}

theorem isWord_of_mem_words {t : Text} (h : w ∈ words t) : IsWord w := by
  obtain ⟨hm, hn⟩ := List.mem_filter.1 h
  exact ⟨by simpa using hn, not_of_mem_splitOnP hm⟩

/-! ## Words of joined texts -/

theorem words_nil : words [] = [] := rfl

/-- A blank is the end of a word. -/
theorem words_append_blank_cons {c : Char} (hc : isBlank c = true) (a b : Text) :
    words (a ++ c :: b) = words a ++ words b := by
  unfold words
  rw [List.splitOnP_append_cons a b hc, List.filter_append]

theorem words_blank_cons {c : Char} (hc : isBlank c = true) (t : Text) : words (c :: t) = words t :=
  words_append_blank_cons hc [] t

theorem words_append (h : Apart a b) : words (a ++ b) = words a ++ words b := by
  rcases h with ha | hb
  · rcases List.eq_nil_or_concat a with rfl | ⟨a, c, rfl⟩
    · rfl
    · have hc : isBlank c = true := ha c (by simp)
      rw [List.concat_eq_append, List.append_assoc, List.singleton_append, words_append_blank_cons hc,
        words_append_blank_cons hc, words_nil, List.append_nil]
  · cases b with
    | nil => rw [List.append_nil, words_nil, List.append_nil]
    | cons c b =>
      have hc : isBlank c = true := hb c rfl
      rw [words_append_blank_cons hc, words_blank_cons hc]

theorem words_gap (h : IsGap a) : words a = [] := by
  induction a with
  | nil => rfl
  | cons c a ih =>
    obtain ⟨hc, ha⟩ := isGap_cons.1 h
    rw [words_blank_cons hc, ih ha]

theorem apart_of_isGap_left (h : IsGap a) (b : Text) : Apart a b := .inl fun c hc => h c (List.mem_of_getLast? hc)

theorem apart_of_isGap_right (a : Text) (h : IsGap b) : Apart a b := .inr fun c hc => h c (List.mem_of_mem_head? hc)

theorem words_gap_append (h : IsGap a) (b : Text) : words (a ++ b) = words b := by
  rw [words_append (apart_of_isGap_left h b), words_gap h, List.nil_append]

theorem words_append_gap (a : Text) (h : IsGap b) : words (a ++ b) = words a := by
  rw [words_append (apart_of_isGap_right a h), words_gap h, List.append_nil]

theorem words_word (h : IsWord w) : words w = [w] := by
  unfold words
  rw [List.splitOnP_eq_singleton h.2]
  simp [h.1]

/-- A word and the gaps around it are one word more. -/
theorem words_insert {front back : Text} (hw : IsWord w) (hf : IsGap front) (hb : IsGap back)
    (ha : Apart a (front ++ w)) (hl : Apart (w ++ back) b) :
    words (a ++ (front ++ (w ++ (back ++ b)))) = words a ++ w :: words b := by
  have hm : words (front ++ (w ++ back)) = [w] := by
    rw [words_gap_append hf, words_append_gap w hb, words_word hw]
  have hn : (front ++ w) ≠ [] := List.append_ne_nil_of_right_ne_nil front hw.1
  have hwb : w ++ back ≠ [] := List.append_ne_nil_of_left_ne_nil hw.1 back
  have h₁ : Apart a (front ++ (w ++ back)) := by
    rw [← List.append_assoc]
    refine ha.imp_right fun h => ?_
    rwa [List.head?_append_of_ne_nil _ hn]
  have h₂ : Apart (a ++ (front ++ (w ++ back))) b := by
    refine hl.imp_left fun h => ?_
    rwa [← List.append_assoc, List.getLast?_append_of_ne_nil _ hwb]
  rw [← List.append_assoc w, ← List.append_assoc front, ← List.append_assoc a, words_append h₂, words_append h₁, hm,
    List.append_assoc]
  rfl

theorem words_joinWith {ws : List Text} (h : ∀ w ∈ ws, IsWord w) : words (joinWith " " ws) = ws := by
  induction ws with
  | nil => rfl
  | cons w ws ih =>
    obtain ⟨hw, hws⟩ := List.forall_mem_cons.1 h
    cases ws with
    | nil => simpa [joinWith] using words_word hw
    | cons v ws =>
      have hj : joinWith " " (w :: v :: ws) = w ++ ' ' :: joinWith " " (v :: ws) := by
        simp [joinWith, List.intercalate_cons_cons]
      rw [hj, words_append_blank_cons (by decide), words_word hw, ih hws]
      rfl

/-! ## The first word -/

theorem words_first {gap rest : Text} (hg : IsGap gap) (hw : IsWord w) (hr : ∀ c ∈ rest.head?, isBlank c = true) :
    words (gap ++ (w ++ rest)) = w :: words rest := by
  rw [words_gap_append hg, words_append (.inr hr), words_word hw]
  rfl

/-- A text is a gap, or a gap, a word and what stands apart from it. -/
theorem exists_first_word {t : Text} (h : ¬ IsGap t) :
    ∃ gap w rest, t = gap ++ (w ++ rest) ∧ IsGap gap ∧ IsWord w ∧ ∀ c ∈ rest.head?, isBlank c = true := by
  have hg := isGap_takeWhile t
  have hh := head?_dropWhile_isBlank t
  rw [← List.takeWhile_append_dropWhile (p := isBlank) (l := t)] at h ⊢
  generalize t.takeWhile isBlank = gap at hg h ⊢
  generalize t.dropWhile isBlank = u at hh h ⊢
  cases u with
  | nil => exact absurd (by rwa [List.append_nil]) h
  | cons c u =>
    have hc : isBlank c = false := hh c rfl
    have hw : IsWord ((c :: u).takeWhile (!isBlank ·)) := by
      refine ⟨by simp [hc], fun x hx => ?_⟩
      simpa using List.mem_takeWhile_imp hx
    have hr : ∀ x ∈ ((c :: u).dropWhile (!isBlank ·)).head?, isBlank x = true := by
      intro x hx
      have hn := List.head?_dropWhile_not (!isBlank ·) (c :: u)
      rw [Option.mem_def.1 hx] at hn
      simpa using hn
    exact ⟨gap, _, _, by rw [List.takeWhile_append_dropWhile], hg, hw, hr⟩

@[elab_as_elim]
theorem induction_on_words {P : Text → Prop} (gap : ∀ t, IsGap t → P t)
    (word : ∀ gap w rest, IsGap gap → IsWord w → (∀ c ∈ rest.head?, isBlank c = true) → P rest → P (gap ++ (w ++ rest)))
    (t : Text) : P t := by
  by_cases ht : IsGap t
  · exact gap t ht
  · obtain ⟨front, w, rest, rfl, hg, hw, hr⟩ := exists_first_word ht
    exact word front w rest hg hw hr (induction_on_words gap word rest)
termination_by t.length
decreasing_by
  subst_vars
  have hl := List.length_pos_iff.2 hw.1
  simp
  omega

end PropertyArchive.Text
