/-
  PropertyArchive.Proofs.Text.MarkerSpacing — texts that differ only in the blanks around
  their markers.

  A marker is spaced where blanks stand around it (`IsMarker`). A text is respaced where it
  has other blanks around its markers and is the same everywhere else (`Respaced`). Blanks
  and markers are loose characters, all other ones are solid: a solid character stands in
  both texts or in none, and where both are cut at one, what is in front of it and what is
  behind it are respaced too (`Respaced.cut`, `Respaced.exists_cut`). So are the trimmed texts
  (`Respaced.trim`) and the pieces between commas (`Respaced.splitOn`). A text without
  markers stays as it is (`Respaced.eq_of_not_mem`).

  Where blanks take the place of the markers, both texts have the same words
  (`Respaced.words_blankMarkers`).
-/
import Mathlib.Data.List.Forall2
import PropertyArchive.Proofs.Text.Words

namespace PropertyArchive.Text

/-! ## Markers and the blanks around them -/

def IsMarker (t : Text) : Prop := ∃ front back, IsGap front ∧ IsGap back ∧ t = front ++ '*' :: back

def isLoose (c : Char) : Bool := isBlank c || c == '*'

theorem isLoose_of_isBlank {c : Char} (h : isBlank c = true) : isLoose c = true := by
  simp [isLoose, h]

theorem isLoose_eq_false_iff {c : Char} : isLoose c = false ↔ isBlank c = false ∧ c ≠ '*' := by
  simp [isLoose]

theorem not_mem_of_isLoose {t : Text} {d : Char} (hd : isLoose d = false) (h : ∀ c ∈ t, isLoose c = true) : d ∉ t := by
  intro hm
  rw [h d hm] at hd
  cases hd

theorem ne_of_isLoose {d : Char} (hd : isLoose d = false) (c : Char) (hc : isLoose c = true) : (c != d) = true := by
  have hn : c ≠ d := by
    intro e
    rw [← e, hc] at hd
    cases hd
  simpa using hn

/-- The second text has other blanks around the markers of the first. -/
inductive Respaced : Text → Text → Prop
  | nil : Respaced [] []
  | cons (c : Char) {t u : Text} : Respaced t u → Respaced (c :: t) (c :: u)
  | marker {m n t u : Text} : IsMarker m → IsMarker n → Respaced t u → Respaced (m ++ t) (n ++ u)

/-! ## Texts cut at a character -/

theorem takeWhile_append_cons {d : Char} {a : Text} (ha : d ∉ a) (b : Text) :
    (a ++ d :: b).takeWhile (· != d) = a := by
  rw [List.takeWhile_append_of_pos fun c hc => by simpa using fun e : c = d => ha (e ▸ hc)]
  simp

theorem dropWhile_append_cons {d : Char} {a : Text} (ha : d ∉ a) (b : Text) :
    (a ++ d :: b).dropWhile (· != d) = d :: b := by
  rw [List.dropWhile_append_of_pos fun c hc => by simpa using fun e : c = d => ha (e ▸ hc)]
  simp

theorem dropWhile_marker_append {front : Text} (hf : IsGap front) (t : Text) :
    (front ++ '*' :: t).dropWhile isBlank = '*' :: t :=
  dropWhile_gap_append hf fun c hc => by cases hc; decide

/-! ## Respaced texts -/

namespace IsMarker

variable {m : Text}

theorem isLoose (h : IsMarker m) : ∀ c ∈ m, Text.isLoose c = true := by
  obtain ⟨front, back, hf, hb, rfl⟩ := h
  intro c hc
  rcases List.mem_append.1 hc with hc | hc
  · exact isLoose_of_isBlank (hf c hc)
  · rcases List.mem_cons.1 hc with rfl | hc
    · rfl
    · exact isLoose_of_isBlank (hb c hc)

theorem mem (h : IsMarker m) : '*' ∈ m := by
  obtain ⟨front, back, -, -, rfl⟩ := h
  exact List.mem_append_right front List.mem_cons_self

theorem not_mem (h : IsMarker m) {c : Char} (hc : Text.isLoose c = false) : c ∉ m :=
  not_mem_of_isLoose hc h.isLoose

theorem reverse (h : IsMarker m) : IsMarker m.reverse := by
  obtain ⟨front, back, hf, hb, rfl⟩ := h
  refine ⟨back.reverse, front.reverse, fun c hc => hb c (List.mem_reverse.1 hc),
    fun c hc => hf c (List.mem_reverse.1 hc), by simp⟩

end IsMarker

namespace Respaced

variable {t u v w : Text}

theorem refl (t : Text) : Respaced t t := by
  induction t with
  | nil => exact .nil
  | cons c t ih => exact .cons c ih

theorem symm (h : Respaced t u) : Respaced u t := by
  induction h with
  | nil => exact .nil
  | cons c _ ih => exact .cons c ih
  | marker hm hn _ ih => exact .marker hn hm ih

theorem append (h : Respaced t u) (h' : Respaced v w) : Respaced (t ++ v) (u ++ w) := by
  induction h with
  | nil => exact h'
  | cons c _ ih => exact .cons c ih
  | marker hm hn _ ih =>
    rw [List.append_assoc, List.append_assoc]
    exact .marker hm hn ih

theorem of_markers {m n : Text} (hm : IsMarker m) (hn : IsMarker n) : Respaced m n := by
  simpa using Respaced.marker hm hn .nil

theorem reverse (h : Respaced t u) : Respaced t.reverse u.reverse := by
  induction h with
  | nil => exact .nil
  | cons c _ ih =>
    rw [List.reverse_cons, List.reverse_cons]
    exact ih.append (refl [c])
  | marker hm hn _ ih =>
    rw [List.reverse_append, List.reverse_append]
    exact ih.append (of_markers hm.reverse hn.reverse)

/-- Markers and solid characters stand in both texts or in none. -/
theorem mem_iff (h : Respaced t u) {c : Char} (hc : isBlank c = false) : c ∈ t ↔ c ∈ u := by
  induction h with
  | nil => rfl
  | cons d _ ih => rw [List.mem_cons, List.mem_cons, ih]
  | @marker m n _ _ hm hn _ ih =>
    have hmn : c ∈ m ↔ c ∈ n := by
      by_cases he : c = '*'
      · subst he
        simp [hm.mem, hn.mem]
      · have hs : isLoose c = false := isLoose_eq_false_iff.2 ⟨hc, he⟩
        simp [hm.not_mem hs, hn.not_mem hs]
    rw [List.mem_append, List.mem_append, hmn, ih]

/-- Without markers nothing changes. -/
theorem eq_of_not_mem (h : Respaced t u) (ht : '*' ∉ t) : t = u := by
  induction h with
  | nil => rfl
  | cons c _ ih => rw [ih fun hm => ht (List.mem_cons_of_mem c hm)]
  | marker hm _ _ _ => exact absurd (List.mem_append_left _ hm.mem) ht

/-! ## Cutting at solid characters -/

section Cut

variable {p : Char → Bool}

theorem takeWhile (hp : ∀ c, isLoose c = true → p c = true) (h : Respaced t u) :
    Respaced (t.takeWhile p) (u.takeWhile p) := by
  induction h with
  | nil => exact .nil
  | cons c _ ih =>
    by_cases hc : p c = true
    · rw [List.takeWhile_cons_of_pos hc, List.takeWhile_cons_of_pos hc]
      exact .cons c ih
    · rw [List.takeWhile_cons_of_neg hc, List.takeWhile_cons_of_neg hc]
      exact .nil
  | marker hm hn _ ih =>
    rw [List.takeWhile_append_of_pos fun c hc => hp c (hm.isLoose c hc),
      List.takeWhile_append_of_pos fun c hc => hp c (hn.isLoose c hc)]
    exact .marker hm hn ih

theorem dropWhile (hp : ∀ c, isLoose c = true → p c = true) (h : Respaced t u) :
    Respaced (t.dropWhile p) (u.dropWhile p) := by
  induction h with
  | nil => exact .nil
  | @cons c t u h ih =>
    by_cases hc : p c = true
    · rwa [List.dropWhile_cons_of_pos hc, List.dropWhile_cons_of_pos hc]
    · rw [List.dropWhile_cons_of_neg hc, List.dropWhile_cons_of_neg hc]
      exact .cons c h
  | marker hm hn _ ih =>
    rwa [List.dropWhile_append_of_pos fun c hc => hp c (hm.isLoose c hc),
      List.dropWhile_append_of_pos fun c hc => hp c (hn.isLoose c hc)]

end Cut

section Solid

variable {d : Char} {a a' b b' : Text}

theorem of_cons (hd : isLoose d = false) (h : Respaced (d :: t) (d :: u)) : Respaced t u := by
  generalize ht : d :: t = t' at h
  generalize hu : d :: u = u' at h
  cases h with
  | nil => cases ht
  | cons c h =>
    cases ht
    cases hu
    exact h
  | @marker m n t' u' hm _ h =>
    cases m with
    | nil => exact absurd hm.mem List.not_mem_nil
    | cons c m =>
      cases ht
      exact absurd List.mem_cons_self (hm.not_mem hd)

theorem of_append_left {front : Text} (hf : ∀ c ∈ front, isLoose c = false)
    (h : Respaced (front ++ t) (front ++ u)) : Respaced t u := by
  induction front with
  | nil => exact h
  | cons c front ih =>
    obtain ⟨hc, hf⟩ := List.forall_mem_cons.1 hf
    exact ih hf (of_cons hc h)

/-- Both texts cut at the first place of a solid character. -/
theorem cut (hd : isLoose d = false) (ha : d ∉ a) (ha' : d ∉ a') (h : Respaced (a ++ d :: b) (a' ++ d :: b')) :
    Respaced a a' ∧ Respaced b b' := by
  constructor
  · have hf := h.takeWhile (ne_of_isLoose hd)
    rwa [takeWhile_append_cons ha, takeWhile_append_cons ha'] at hf
  · have hb := h.dropWhile (ne_of_isLoose hd)
    rw [dropWhile_append_cons ha, dropWhile_append_cons ha'] at hb
    exact hb.of_cons hd

/-- A text that is cut at the first place of a solid character, respaced. -/
theorem exists_cut (hd : isLoose d = false) (ha : d ∉ a) (h : Respaced (a ++ d :: b) u) :
    ∃ a' b', u = a' ++ d :: b' ∧ d ∉ a' ∧ Respaced a a' ∧ Respaced b b' := by
  have hm : d ∈ u := (h.mem_iff (isLoose_eq_false_iff.1 hd).1).1 (by simp)
  obtain ⟨a', b', rfl, ha'⟩ := List.eq_append_cons_of_mem hm
  exact ⟨a', b', rfl, ha', h.cut hd ha ha'⟩

/-- A text that is cut at the last place of a solid character, respaced. -/
theorem exists_cutLast (hd : isLoose d = false) (hb : d ∉ b) (h : Respaced (a ++ d :: b) u) :
    ∃ a' b', u = a' ++ d :: b' ∧ d ∉ b' ∧ Respaced a a' ∧ Respaced b b' := by
  have hr := h.reverse
  rw [List.reverse_append, List.reverse_cons, List.append_assoc, List.singleton_append] at hr
  obtain ⟨b', a', e, hb', hbb, haa⟩ := hr.exists_cut hd (by simpa using hb)
  refine ⟨a'.reverse, b'.reverse, ?_, by simpa using hb', by simpa using haa.reverse, by simpa using hbb.reverse⟩
  simpa using congrArg List.reverse e

theorem splitOn {t u : Text} (hd : isLoose d = false) (h : Respaced t u) :
    List.Forall₂ Respaced (t.splitOn d) (u.splitOn d) := by
  by_cases hm : d ∈ t
  · obtain ⟨a, b, rfl, ha⟩ := List.eq_append_cons_of_mem hm
    obtain ⟨a', b', rfl, ha', hf, hb⟩ := h.exists_cut hd ha
    rw [List.splitOn_append_cons_self_of_not_mem ha, List.splitOn_append_cons_self_of_not_mem ha']
    exact .cons hf (hb.splitOn hd)
  · have hn : d ∉ u := fun hu => hm ((h.mem_iff (isLoose_eq_false_iff.1 hd).1).2 hu)
    rw [List.splitOn_eq_singleton hm, List.splitOn_eq_singleton hn]
    exact .cons h .nil
termination_by t.length
decreasing_by
  subst_vars
  simp
  omega

end Solid

/-! ## Trimming -/

/-- In front of a text both lose the same blanks, or those in front of a marker. -/
theorem dropWhile_isBlank (h : Respaced t u) :
    Respaced (t.dropWhile isBlank) (u.dropWhile isBlank) ∧
      (t.dropWhile isBlank).head? = (u.dropWhile isBlank).head? := by
  induction h with
  | nil => exact ⟨.nil, rfl⟩
  | @cons c t u h ih =>
    cases hc : isBlank c with
    | true => simpa [hc] using ih
    | false => simpa [hc] using h.cons c
  | @marker m n t u hm hn h _ =>
    obtain ⟨front, back, hf, hb, rfl⟩ := hm
    obtain ⟨front', back', hf', hb', rfl⟩ := hn
    rw [List.append_assoc, List.append_assoc, List.cons_append, List.cons_append, dropWhile_marker_append hf,
      dropWhile_marker_append hf']
    refine ⟨?_, rfl⟩
    exact .marker ⟨[], back, isGap_nil, hb, rfl⟩ ⟨[], back', isGap_nil, hb', rfl⟩ h

theorem trim (h : Respaced t u) : Respaced (trim t) (trim u) :=
  h.dropWhile_isBlank.1.reverse.dropWhile_isBlank.1.reverse

end Respaced

/-! ## Words without markers -/

def blankMarkers (t : Text) : Text := t.map fun c => if c = '*' then ' ' else c

theorem blankMarkers_append (a b : Text) : blankMarkers (a ++ b) = blankMarkers a ++ blankMarkers b :=
  List.map_append

theorem blankMarkers_eq_self {t : Text} (h : '*' ∉ t) : blankMarkers t = t := by
  unfold blankMarkers
  conv => rhs; rw [← List.map_id t]
  refine List.map_congr_left fun c hc => if_neg ?_
  intro e
  exact h (e ▸ hc)

theorem isGap_blankMarkers {t : Text} (h : ∀ c ∈ t, isLoose c = true) : IsGap (blankMarkers t) := by
  intro c hc
  obtain ⟨x, hx, rfl⟩ := List.mem_map.1 hc
  by_cases he : x = '*'
  · rw [if_pos he]
    decide
  · rw [if_neg he]
    simpa [isLoose, he] using h x hx

theorem isBlank_head?_blankMarkers {t : Text} (h : ∀ c ∈ t.head?, isBlank c = true) :
    ∀ c ∈ (blankMarkers t).head?, isBlank c = true := by
  cases t with
  | nil => exact h
  | cons c t =>
    have hn : c ≠ '*' := by
      intro e
      rw [e] at h
      exact absurd (h '*' rfl) (by decide)
    intro x hx
    exact h x (by simpa [blankMarkers, hn] using hx)

/-- At a marker a word ends. -/
theorem words_append_blankMarkers {m : Text} (hm : IsMarker m) (front t : Text) :
    words (front ++ blankMarkers (m ++ t)) = words front ++ words (blankMarkers t) := by
  have hg := isGap_blankMarkers hm.isLoose
  have hn : blankMarkers m ≠ [] := by simpa [blankMarkers] using List.ne_nil_of_mem hm.mem
  have ha : Apart front (blankMarkers m ++ blankMarkers t) := by
    right
    rw [List.head?_append_of_ne_nil _ hn]
    exact fun c hc => hg c (List.mem_of_mem_head? hc)
  rw [blankMarkers_append, words_append ha, words_gap_append hg]

theorem Respaced.words_blankMarkers {t u : Text} (h : Respaced t u) :
    words (blankMarkers t) = words (blankMarkers u) := by
  -- What is read already may end with a word that goes on.
  suffices hs : ∀ front, words (front ++ blankMarkers t) = words (front ++ blankMarkers u) from hs []
  induction h with
  | nil => exact fun _ => rfl
  | cons c _ ih =>
    intro front
    have hi := ih (front ++ blankMarkers [c])
    rwa [List.append_assoc, List.append_assoc, ← blankMarkers_append, ← blankMarkers_append] at hi
  | marker hm hn _ ih =>
    intro front
    have hi : words (blankMarkers _) = words (blankMarkers _) := ih []
    rw [words_append_blankMarkers hm, words_append_blankMarkers hn, hi]

/-- A search that stops at every word with a marker finds the same word where the markers are
    blanks, unless the word that it stops at has one. -/
theorem find?_words_blankMarkers {p : Text → Bool} (hp : ∀ w, '*' ∈ w → p w = true) (t : Text)
    (h : '*' ∉ ((words t).find? p).getD []) : (words (blankMarkers t)).find? p = (words t).find? p := by
  induction t using induction_on_words with
  | gap t ht =>
    have hn : '*' ∉ t := fun hm => absurd (ht _ hm) (by decide)
    rw [blankMarkers_eq_self hn]
  | word gap w rest hg hw hr ih =>
    rw [words_first hg hw hr] at h ⊢
    by_cases hm : '*' ∈ w
    · rw [List.find?_cons_of_pos (hp w hm)] at h
      exact absurd hm h
    · have hgap : blankMarkers gap = gap := blankMarkers_eq_self fun hs => absurd (hg _ hs) (by decide)
      rw [blankMarkers_append, blankMarkers_append, hgap, blankMarkers_eq_self hm,
        words_first hg hw (isBlank_head?_blankMarkers hr)]
      by_cases hpw : p w = true
      · rw [List.find?_cons_of_pos hpw, List.find?_cons_of_pos hpw]
      · rw [List.find?_cons_of_neg hpw] at h ⊢
        rw [List.find?_cons_of_neg hpw]
        exact ih h

end PropertyArchive.Text
