/-
  PropertyArchive.Proofs.ObjectType.Arguments — how a written list of generic arguments is
  cut into its arguments again.

  A text is uncut from a depth on where the cut at the commas passes over it as over a
  single character, whatever stands behind it (`Uncut`). From depth one on commas are
  passed over too (`uncut_comma`), and a bracket section is uncut at every depth where its
  inside is so from depth one on (`Uncut.wrap`). So arguments that are uncut come back from
  their list with a space in front of all but the first (`cutArguments_joinWith`), and what
  stands around an argument is taken away (`bareArgument_spaced`).
-/
import PropertyArchive.ObjectType
import PropertyArchive.Proofs.Text.Pieces

namespace PropertyArchive.ObjectType

open Text

/-! ## Texts that are not cut -/

/-- With at least `floor` brackets open the cut passes over the text and leaves the depth as it was. -/
def Uncut (floor : Nat) (t : Text) : Prop :=
  ∀ depth after, floor ≤ depth → cutArguments depth (t ++ after) = (cutArguments depth after).modifyHead (t ++ ·)

variable {floor : Nat} {t u : Text}

theorem uncut_nil : Uncut floor [] := by
  intro depth after _
  rw [List.nil_append]
  cases cutArguments depth after <;> rfl

theorem Uncut.append (ht : Uncut floor t) (hu : Uncut floor u) : Uncut floor (t ++ u) := by
  intro depth after hd
  rw [List.append_assoc, ht depth _ hd, hu depth _ hd, List.modifyHead_modifyHead]
  congr 1
  funext x
  exact (List.append_assoc t u x).symm

theorem Uncut.mono (h : Uncut 0 t) : Uncut floor t := fun depth after _ => h depth after (Nat.zero_le depth)

theorem uncut_singleton {c : Char} (hc : c ≠ ',') (ho : c ≠ '<') (hk : c ≠ '>') : Uncut floor [c] := by
  intro depth after _
  simp [cutArguments, hc, ho, hk]

theorem uncut_of_forall (h : ∀ c ∈ t, c ≠ ',' ∧ c ≠ '<' ∧ c ≠ '>') : Uncut floor t := by
  induction t with
  | nil => exact uncut_nil
  | cons c t ih =>
    obtain ⟨⟨hc, ho, hk⟩, ht⟩ := List.forall_mem_cons.1 h
    exact (uncut_singleton hc ho hk).append (ih ht)

/-- Inside brackets a comma cuts nothing. -/
theorem uncut_comma : Uncut 1 [','] := by
  intro depth after hd
  have hn : depth ≠ 0 := by omega
  simp [cutArguments, hn]

theorem Uncut.wrap (h : Uncut 1 t) : Uncut floor ('<' :: (t ++ ['>'])) := by
  intro depth after _
  have ho : ∀ after, cutArguments depth ('<' :: after) = (cutArguments (depth + 1) after).modifyHead ('<' :: ·) :=
    fun _ => rfl
  have hk : cutArguments (depth + 1) ('>' :: after) = (cutArguments depth after).modifyHead ('>' :: ·) := rfl
  rw [List.cons_append, List.append_assoc, List.singleton_append, ho, h _ _ (Nat.le_add_left 1 depth), hk,
    List.modifyHead_modifyHead, List.modifyHead_modifyHead]
  congr 1
  funext x
  simp

theorem uncut_joinWith {pieces : List Text} (h : ∀ piece ∈ pieces, Uncut 1 piece) : Uncut 1 (joinWith ", " pieces) := by
  by_cases hn : pieces = []
  · rw [hn]
    exact uncut_nil
  · refine joinWith_induction hn h fun piece hp t ht => ?_
    have hgap : Uncut 1 ", ".toList := uncut_comma.append (uncut_singleton (by decide) (by decide) (by decide))
    exact (h piece hp).append (hgap.append ht)

/-! ## Cutting a list of arguments -/

theorem cutArguments_eq_singleton (h : Uncut 0 t) : cutArguments 0 t = [t] := by
  have hc := h 0 [] (Nat.le_refl 0)
  rwa [List.append_nil, cutArguments, List.modifyHead_cons, List.append_nil] at hc

/-- The arguments of a list, each but the first with the space that stands behind its comma. -/
theorem cutArguments_joinWith {first : Text} {others : List Text} (hf : Uncut 0 first)
    (ho : ∀ piece ∈ others, Uncut 0 piece) :
    cutArguments 0 (joinWith ", " (first :: others)) = first :: others.map (' ' :: ·) := by
  have hc : ∀ after, cutArguments 0 (',' :: after) = [] :: cutArguments 0 after := fun _ => rfl
  have hs : ∀ after, cutArguments 0 (' ' :: after) = (cutArguments 0 after).modifyHead (' ' :: ·) := fun _ => rfl
  induction others generalizing first with
  | nil => simpa [joinWith] using cutArguments_eq_singleton hf
  | cons second others ih =>
    obtain ⟨hsecond, ho⟩ := List.forall_mem_cons.1 ho
    have hj : joinWith ", " (first :: second :: others) = first ++ (',' :: ' ' :: joinWith ", " (second :: others)) := by
      simp [joinWith, List.intercalate_cons_cons]
    rw [hj, hf 0 _ (Nat.le_refl 0), hc, hs, ih hsecond ho]
    simp

/-! ## What stands around an argument -/

def spacedMarkers (depth : Nat) : Text := if depth = 0 then [] else ' ' :: List.replicate depth '*'

theorem mem_spacedMarkers {depth : Nat} {c : Char} (h : c ∈ spacedMarkers depth) : c = '*' ∨ c = ' ' := by
  unfold spacedMarkers at h
  split at h
  · cases h
  · rcases List.mem_cons.1 h with h | h
    · exact .inr h
    · exact .inl (List.eq_of_mem_replicate h)

/-- Of an argument with blanks in front and markers behind only the argument is left. -/
theorem bareArgument_spaced {gap : Text} (hg : IsGap gap) (ht : IsTrimmed t) (hn : t ≠ [])
    (hm : ∀ c ∈ t.getLast?, c ≠ '*') (depth : Nat) : bareArgument (gap ++ (t ++ spacedMarkers depth)) = t := by
  have htrim : trim (t ++ spacedMarkers depth) = t ++ spacedMarkers depth := by
    refine trim_eq_self ⟨?_, ?_⟩
    · rw [List.head?_append_of_ne_nil _ hn]
      exact ht.1
    · intro c hc
      unfold spacedMarkers at hc
      split at hc
      · rw [List.append_nil] at hc
        exact ht.2 c hc
      · rename_i hd
        obtain ⟨depth, rfl⟩ := Nat.exists_eq_succ_of_ne_zero hd
        rw [List.replicate_succ', ← List.cons_append, ← List.append_assoc, List.getLast?_concat] at hc
        cases hc
        decide
  have hlast : ∀ c ∈ t.getLast?, (c == '*' || c == ' ') = false := by
    intro c hc
    have hb : c ≠ ' ' := by
      rintro rfl
      exact absurd (ht.2 _ hc) (by decide)
    simp [hm c hc, hb]
  have hall : ∀ c ∈ spacedMarkers depth, (c == '*' || c == ' ') = true := by
    intro c hc
    rcases mem_spacedMarkers hc with rfl | rfl <;> decide
  rw [bareArgument, trim_gap_append hg, htrim, dropEndWhile_append hlast hall, trim_eq_self ht]

end PropertyArchive.ObjectType
