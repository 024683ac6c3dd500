/-
  PropertyArchive.Proofs.Text.Trim — what trimming leaves of a text.

  A gap is a text of blanks. Every text is a gap, its trimmed text and a gap
  (`exists_eq_gap_trim_gap`), and the trimmed text neither starts nor ends with a blank
  (`isTrimmed_trim`); such a text is left as it is (`trim_eq_self`). So gaps at the ends
  never show in a trimmed text (`trim_gap_append`, `trim_append_gap`), and a trimmed text
  starts with a word exactly where the text has that word behind a gap
  (`prefix_trim_iff`).
-/
import Mathlib.Data.List.DropRight
import PropertyArchive.Text.Basic

namespace PropertyArchive.Text

def IsGap (t : Text) : Prop := ∀ c ∈ t, isBlank c = true

instance (t : Text) : Decidable (IsGap t) := List.decidableBAll (isBlank · = true) t

def IsTrimmed (t : Text) : Prop := (∀ c ∈ t.head?, isBlank c = false) ∧ ∀ c ∈ t.getLast?, isBlank c = false

/-! ## Gaps -/

theorem isGap_nil : IsGap [] := by simp [IsGap]

theorem isGap_cons {c : Char} {t : Text} : IsGap (c :: t) ↔ isBlank c = true ∧ IsGap t := by simp [IsGap]

theorem IsGap.append {a b : Text} (ha : IsGap a) (hb : IsGap b) : IsGap (a ++ b) := by
  intro c hc
  rcases List.mem_append.1 hc with hc | hc
  · exact ha c hc
  · exact hb c hc

theorem isGap_takeWhile (t : Text) : IsGap (t.takeWhile isBlank) := fun _ hc => List.mem_takeWhile_imp hc

/-- Where a text does not start with a blank, a gap in front of it is what the blanks at
    its start are. -/
theorem dropWhile_gap_append {gap t : Text} (hg : IsGap gap) (ht : ∀ c ∈ t.head?, isBlank c = false) :
    (gap ++ t).dropWhile isBlank = t := by
  rw [List.dropWhile_append_of_pos hg]
  cases t with
  | nil => rfl
  | cons c t => simp [ht c rfl]

theorem head?_dropWhile_isBlank (t : Text) : ∀ c ∈ (t.dropWhile isBlank).head?, isBlank c = false := by
  intro c hc
  have h := List.head?_dropWhile_not isBlank t
  rw [Option.mem_def.1 hc] at h
  exact h

/-- What follows a text does not change where it starts behind its blanks … -/
theorem head?_dropWhile_append {t : Text} {c : Char} (h : c ∈ (t.dropWhile isBlank).head?) (u : Text) :
    c ∈ ((t ++ u).dropWhile isBlank).head? := by
  have hn : ¬ (t.dropWhile isBlank).isEmpty := by
    intro hn
    rw [List.isEmpty_iff.1 hn] at h
    cases h
  rw [List.dropWhile_append, if_neg hn, List.head?_append, Option.mem_def.1 h]
  rfl

/-- … and a gap behind it brings no start of its own. -/
theorem head?_of_head?_dropWhile_append_gap {t gap : Text} {c : Char} (hg : IsGap gap)
    (h : c ∈ ((t ++ gap).dropWhile isBlank).head?) : c ∈ (t.dropWhile isBlank).head? := by
  rw [List.dropWhile_append] at h
  split at h
  · have hd : gap.dropWhile isBlank = [] := List.dropWhile_eq_nil_iff.2 hg
    rw [hd] at h
    cases h
  · rename_i hn
    rw [List.isEmpty_iff] at hn
    rwa [List.head?_append_of_ne_nil _ hn] at h

/-! ## The end of a text -/

theorem dropEndWhile_eq_rdropWhile (p : Char → Bool) (t : Text) : dropEndWhile p t = t.rdropWhile p := rfl

theorem dropEndWhile_eq_self {p : Char → Bool} {t : Text} (h : ∀ c ∈ t.getLast?, p c = false) :
    dropEndWhile p t = t := by
  refine (dropEndWhile_eq_rdropWhile p t).trans (List.rdropWhile_eq_self_iff.2 fun hl => ?_)
  simp [h _ (List.getLast?_eq_getLast_of_ne_nil hl)]

/-- Behind a text that does not end with such characters they are taken away. -/
theorem dropEndWhile_append {p : Char → Bool} {t u : Text} (ht : ∀ c ∈ t.getLast?, p c = false)
    (hu : ∀ c ∈ u, p c = true) : dropEndWhile p (t ++ u) = t := by
  rw [dropEndWhile, List.reverse_append, List.dropWhile_append_of_pos fun c hc => hu c (List.mem_reverse.1 hc)]
  exact dropEndWhile_eq_self ht

theorem trimEnd_append_gap {t b : Text} (h : IsGap b) : trimEnd (t ++ b) = trimEnd t := by
  simp only [trimEnd, dropEndWhile, List.reverse_append]
  rw [List.dropWhile_append_of_pos fun c hc => h c (List.mem_reverse.1 hc)]

theorem trimEnd_eq_self {t : Text} (h : ∀ c ∈ t.getLast?, isBlank c = false) : trimEnd t = t :=
  dropEndWhile_eq_self h

theorem exists_eq_trimEnd_gap (t : Text) : ∃ b, IsGap b ∧ t = trimEnd t ++ b :=
  ⟨t.rtakeWhile isBlank, fun _ hc => List.mem_rtakeWhile_imp hc, (List.rdropWhile_append_rtakeWhile).symm⟩

theorem getLast?_trimEnd (t : Text) : ∀ c ∈ (trimEnd t).getLast?, isBlank c = false := by
  intro c hc
  obtain ⟨hl, rfl⟩ := List.mem_getLast?_eq_getLast hc
  exact Bool.eq_false_iff.2 (List.rdropWhile_last_not isBlank t hl)

/-- Trimming the end keeps a word at the start. -/
theorem trimEnd_append {w t : Text} (h : ∀ c ∈ w.getLast?, isBlank c = false) : trimEnd (w ++ t) = w ++ trimEnd t := by
  obtain ⟨b, hb, e⟩ := exists_eq_trimEnd_gap t
  have hl : ∀ c ∈ (w ++ trimEnd t).getLast?, isBlank c = false := by
    intro c hc
    rw [List.getLast?_append] at hc
    cases ht : (trimEnd t).getLast? with
    | none => rw [ht] at hc; exact h c hc
    | some x => rw [ht] at hc; exact getLast?_trimEnd t c (ht ▸ hc)
  calc trimEnd (w ++ t) = trimEnd (w ++ trimEnd t ++ b) := by rw [List.append_assoc, ← e]
    _ = trimEnd (w ++ trimEnd t) := trimEnd_append_gap hb
    _ = w ++ trimEnd t := trimEnd_eq_self hl

/-- Trimming leaves a part of a text that ends with no blank. -/
theorem infix_trimEnd {a t : Text} (h : a <:+: t) (ha : ∀ c ∈ a.getLast?, isBlank c = false) : a <:+: trimEnd t := by
  obtain ⟨u, v, rfl⟩ := h
  by_cases hn : a = []
  · rw [hn]
    exact List.nil_infix
  · have hl : (u ++ a).getLast? = a.getLast? := List.getLast?_append_of_ne_nil u hn
    rw [trimEnd_append (hl ▸ ha)]
    exact ⟨u, trimEnd v, rfl⟩

/-- Blanks at the end of a text do not change where it starts. -/
theorem head?_of_head?_trimEnd {t : Text} {c : Char} (h : c ∈ (trimEnd t).head?) : c ∈ t.head? := by
  obtain ⟨b, -, e⟩ := exists_eq_trimEnd_gap t
  rw [e, List.head?_append, Option.mem_def.1 h]
  rfl

theorem head?_of_head?_dropWhile_trimEnd {t : Text} {c : Char} (h : c ∈ ((trimEnd t).dropWhile isBlank).head?) :
    c ∈ (t.dropWhile isBlank).head? := by
  obtain ⟨b, -, e⟩ := exists_eq_trimEnd_gap t
  rw [e]
  exact head?_dropWhile_append h b

/-! ## Both ends -/

theorem trim_gap_append {a t : Text} (h : IsGap a) : trim (a ++ t) = trim t := by
  rw [trim, List.dropWhile_append_of_pos h, ← trim]

theorem trim_eq_self {t : Text} (h : IsTrimmed t) : trim t = t := by
  have hd : t.dropWhile isBlank = t := by simpa using dropWhile_gap_append isGap_nil h.1
  rw [trim, hd, trimEnd_eq_self h.2]

theorem exists_eq_gap_trim_gap (t : Text) : ∃ a b, IsGap a ∧ IsGap b ∧ t = a ++ trim t ++ b := by
  obtain ⟨b, hb, e⟩ := exists_eq_trimEnd_gap (t.dropWhile isBlank)
  refine ⟨t.takeWhile isBlank, b, isGap_takeWhile t, hb, ?_⟩
  rw [trim, List.append_assoc, ← e, List.takeWhile_append_dropWhile]

theorem isTrimmed_trim (t : Text) : IsTrimmed (trim t) := by
  refine ⟨fun c hc => ?_, getLast?_trimEnd _⟩
  obtain ⟨b, hb, e⟩ := exists_eq_trimEnd_gap (t.dropWhile isBlank)
  refine head?_dropWhile_isBlank t c ?_
  rw [e, List.head?_append, ← trim, Option.mem_def.1 hc]
  rfl

theorem trim_trim (t : Text) : trim (trim t) = trim t := trim_eq_self (isTrimmed_trim t)

theorem trim_append_gap {t b : Text} (h : IsGap b) : trim (t ++ b) = trim t := by
  obtain ⟨a, b', ha, hb', e⟩ := exists_eq_gap_trim_gap t
  have hm : trim (trim t ++ (b' ++ b)) = trim t := by
    cases ht : trim t with
    | nil => rw [List.nil_append, ← List.append_nil (b' ++ b), trim_gap_append (hb'.append h)]; rfl
    | cons c m =>
      have hd : (c :: m ++ (b' ++ b)).dropWhile isBlank = c :: m ++ (b' ++ b) := by
        simp [(isTrimmed_trim t).1 c (by rw [ht]; rfl)]
      rw [trim, hd, trimEnd_append_gap (hb'.append h), trimEnd_eq_self (ht ▸ (isTrimmed_trim t).2)]
  calc trim (t ++ b) = trim (a ++ (trim t ++ (b' ++ b))) := by
        conv => lhs; rw [e]
        simp only [List.append_assoc]
    _ = trim t := by rw [trim_gap_append ha, hm]

theorem trim_trimEnd (t : Text) : trim (trimEnd t) = trim t := by
  obtain ⟨b, hb, e⟩ := exists_eq_trimEnd_gap t
  conv => rhs; rw [e]
  exact (trim_append_gap hb).symm

theorem trim_eq_nil_iff {t : Text} : trim t = [] ↔ IsGap t := by
  constructor
  · intro h
    obtain ⟨a, b, ha, hb, e⟩ := exists_eq_gap_trim_gap t
    rw [e, h, List.append_nil]
    exact ha.append hb
  · intro h
    rw [← List.append_nil t, trim_gap_append h]
    rfl

theorem mem_of_mem_trim {c : Char} {t : Text} (h : c ∈ trim t) : c ∈ t := by
  obtain ⟨a, b, -, -, e⟩ := exists_eq_gap_trim_gap t
  rw [e]
  exact List.mem_append_left _ (List.mem_append_right _ h)

theorem mem_trim {c : Char} {t : Text} (h : c ∈ t) (hc : isBlank c = false) : c ∈ trim t := by
  obtain ⟨a, b, ha, hb, e⟩ := exists_eq_gap_trim_gap t
  rw [e, List.mem_append, List.mem_append] at h
  have hn : ∀ {gap : Text}, IsGap gap → c ∉ gap := fun hg hm => by simp [hg c hm] at hc
  exact (h.resolve_right (hn hb)).resolve_left (hn ha)

/-- A trimmed text starts with a word exactly where the text has that word behind a gap. -/
theorem prefix_trim_iff {w t : Text} (hw : IsTrimmed w) (hn : w ≠ []) :
    w <+: trim t ↔ ∃ gap rest, IsGap gap ∧ t = gap ++ w ++ rest := by
  constructor
  · intro h
    obtain ⟨rest, h⟩ := h
    obtain ⟨a, b, ha, -, e⟩ := exists_eq_gap_trim_gap t
    refine ⟨a, rest ++ b, ha, ?_⟩
    rw [e, ← h]
    simp only [List.append_assoc]
  · intro h
    obtain ⟨gap, rest, hg, rfl⟩ := h
    have hd : ∀ c ∈ (w ++ rest).head?, isBlank c = false := by
      rw [List.head?_append_of_ne_nil _ hn]; exact hw.1
    rw [List.append_assoc, trim, dropWhile_gap_append hg hd, trimEnd_append hw.2]
    exact List.prefix_append _ _

end PropertyArchive.Text
