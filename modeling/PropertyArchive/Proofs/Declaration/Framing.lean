/-
  PropertyArchive.Proofs.Declaration.Framing — the frame of a line, or what is wrong
  with it.

  `FrameFault` says, stage by stage, what can be wrong before any token is looked at: each
  fault holds only where the stages before it passed. Every line has a frame without a
  block marker or a fault (`frames_or_fault`), and reading the frame gives what holds
  (`ofLine_of_frames`, `ofLine_of_fault`); so `ofLine_eq_ok_iff` and
  `ofLine_eq_error_iff` say exactly when a frame is read and which fault wins.
-/
import PropertyArchive.Proofs.Declaration.Grammar
import PropertyArchive.Proofs.Outcome

namespace PropertyArchive.DeclarationFrame

open Text

inductive FrameFault (line : Text) : Refusal → Prop
  | empty : IsGap line → FrameFault line .empty
  | missingKeyword : ¬ IsGap line → (¬ ∃ rest, Opens line rest) → FrameFault line .missingKeyword
  | unterminatedAttributes {gap inside : Text} : Opens line (gap ++ '(' :: inside) → IsGap gap → ')' ∉ inside →
      FrameFault line .unterminatedAttributes
  | trailingInput {rest body after : Text} {attributes : Option Text} : Opens line rest →
      Modifies rest attributes (body ++ ';' :: after) → ';' ∉ body → trim after ≠ [] → ¬ comment <+: trim after →
      FrameFault line (.trailingInput (trim after))
  | blockType {frame : DeclarationFrame} : Frames line frame → '^' ∈ frame.body → FrameFault line .blockType

/-! ## The modifier section -/

theorem takeUntil?_append {d : Char} {before a b : Text} (h : d ∉ a) :
    (Cursor.mk before (a ++ d :: b)).takeUntil? d = some (a, ⟨before ++ (a ++ [d]), b⟩) := by
  simp [Cursor.takeUntil?, cutAt_eq_some_iff.2 ⟨rfl, h⟩]

theorem takeUntil?_eq_none {d : Char} {before t : Text} (h : d ∉ t) : (Cursor.mk before t).takeUntil? d = none := by
  simp [Cursor.takeUntil?, cutAt_eq_none_iff.2 h]

theorem skipBlanks_gap_append (before : Text) {gap t : Text} (hg : IsGap gap) (ht : ∀ c ∈ t.head?, isBlank c = false) :
    ∃ before', (Cursor.mk before (gap ++ t)).skipBlanks = ⟨before', t⟩ := by
  refine ⟨before ++ (gap ++ t).takeWhile isBlank, ?_⟩
  simp [Cursor.skipBlanks, Cursor.takeWhile, dropWhile_gap_append hg ht]

theorem readAttributes_of_modifies (before : Text) {rest remainder : Text} {attributes : Option Text}
    (h : Modifies rest attributes remainder) :
    ∃ before', readAttributes (Cursor.mk before rest).skipBlanks = .ok (attributes, ⟨before', remainder⟩) := by
  cases h with
  | absent hg hr =>
    obtain ⟨before', hs⟩ := skipBlanks_gap_append before hg fun c hc => (hr c hc).1
    refine ⟨before', ?_⟩
    rw [hs]
    cases remainder with
    | nil => rfl
    | cons c remainder => simp [readAttributes, Cursor.takeChar?, (hr c rfl).2]
  | @present gap inside _ hg hi =>
    have hp : ∀ c ∈ ('(' :: (inside ++ ')' :: remainder)).head?, isBlank c = false := fun c hc => by cases hc; decide
    obtain ⟨before', hs⟩ := skipBlanks_gap_append before hg hp
    refine ⟨before' ++ ['('] ++ (inside ++ [')']), ?_⟩
    rw [hs]
    simp only [readAttributes, Cursor.takeChar?, if_true, takeUntil?_append hi]

theorem readAttributes_unclosed {before gap inside : Text} (hg : IsGap gap) (hi : ')' ∉ inside) :
    readAttributes (Cursor.mk before (gap ++ '(' :: inside)).skipBlanks = .error .unterminatedAttributes := by
  have hp : ∀ c ∈ ('(' :: inside).head?, isBlank c = false := fun c hc => by cases hc; decide
  obtain ⟨before', hs⟩ := skipBlanks_gap_append before hg hp
  rw [hs]
  simp only [readAttributes, Cursor.takeChar?, if_true, takeUntil?_eq_none hi]

theorem modifies_or_unclosed (rest : Text) : (∃ attributes remainder, Modifies rest attributes remainder) ∨
    ∃ gap inside, rest = gap ++ '(' :: inside ∧ IsGap gap ∧ ')' ∉ inside := by
  have hg := isGap_takeWhile rest
  have hb := head?_dropWhile_isBlank rest
  rw [← List.takeWhile_append_dropWhile (p := isBlank) (l := rest)]
  revert hg hb
  generalize rest.takeWhile isBlank = gap, rest.dropWhile isBlank = t
  intro hg hb
  by_cases hp : t.head? = some '('
  · obtain ⟨inside, rfl⟩ : ∃ inside, t = '(' :: inside := by
      cases t with
      | nil => cases hp
      | cons c t => cases hp; exact ⟨t, rfl⟩
    by_cases hc : ')' ∈ inside
    · obtain ⟨a, remainder, rfl, ha⟩ := List.eq_append_cons_of_mem hc
      exact .inl ⟨_, _, .present hg ha⟩
    · exact .inr ⟨gap, inside, rfl, hg, hc⟩
  · exact .inl ⟨none, t, .absent hg fun c hc => ⟨hb c hc, fun e => hp (e ▸ hc)⟩⟩

/-! ## The terminator -/

theorem isTrimmed_comment : IsTrimmed comment := by
  constructor <;> intro c hc <;> cases hc <;> decide

theorem comment_prefix_trim_iff {t : Text} :
    comment <+: trim t ↔ ∃ gap words, IsGap gap ∧ t = gap ++ comment ++ words :=
  prefix_trim_iff isTrimmed_comment (by decide)

theorem readBody_of_ends {before remainder body : Text} (h : Ends remainder body) :
    readBody (Cursor.mk before remainder) = .ok body := by
  cases h with
  | unterminated hb => simp only [readBody, takeUntil?_eq_none hb]
  | terminated hb hg => simp only [readBody, takeUntil?_append hb, trim_eq_nil_iff.2 hg, true_or, if_true]
  | @commented _ gap words hb hg =>
    have hc : comment <+: trim (gap ++ comment ++ words) := comment_prefix_trim_iff.2 ⟨gap, words, hg, rfl⟩
    simp only [readBody, takeUntil?_append hb, hc, or_true, if_true]

theorem readBody_trailing {before body after : Text} (hb : ';' ∉ body) (hn : trim after ≠ [])
    (hc : ¬ comment <+: trim after) :
    readBody (Cursor.mk before (body ++ ';' :: after)) = .error (.trailingInput (trim after)) := by
  simp only [readBody, takeUntil?_append hb, hn, hc, or_self, if_false]

theorem ends_or_trailing (remainder : Text) : (∃ body, Ends remainder body) ∨
    ∃ body after, remainder = body ++ ';' :: after ∧ ';' ∉ body ∧ trim after ≠ [] ∧ ¬ comment <+: trim after := by
  by_cases ht : ';' ∈ remainder
  · obtain ⟨body, after, rfl, hb⟩ := List.eq_append_cons_of_mem ht
    by_cases hn : trim after = []
    · exact .inl ⟨body, .terminated hb (trim_eq_nil_iff.1 hn)⟩
    by_cases hc : comment <+: trim after
    · obtain ⟨gap, words, hg, rfl⟩ := comment_prefix_trim_iff.1 hc
      exact .inl ⟨body, .commented hb hg⟩
    · exact .inr ⟨body, after, rfl, hb, hn, hc⟩
  · exact .inl ⟨remainder, .unterminated ht⟩

/-! ## The whole frame -/

/-- Behind the keyword the frame is the modifier section and then the body. -/
theorem ofLine_of_opens {line rest : Text} (h : Opens line rest) :
    ofLine line = (do
      let (attributes, after) ← readAttributes (Cursor.mk Declaration.keyword rest).skipBlanks
      let body ← readBody after
      if '^' ∈ body then .error .blockType else .ok ⟨attributes, body⟩) := by
  obtain ⟨ht, hr⟩ := h
  have hk : Declaration.keyword.isPrefixOf? (Declaration.keyword ++ rest) = some rest :=
    List.isPrefixOf?_eq_some_iff_append_eq.2 rfl
  have hn : (Cursor.ofText (Declaration.keyword ++ rest)).isEmpty = false := rfl
  have hi : (rest.head?.any isIdentifierChar) = false := by
    cases hh : rest.head? with
    | none => rfl
    | some c => simpa using hr c hh
  have hc : (Cursor.ofText (Declaration.keyword ++ rest)).takeKeyword? Declaration.keyword =
      some ⟨Declaration.keyword, rest⟩ := by
    simp [Cursor.takeKeyword?, Cursor.ofText, hk, hi]
  simp only [ofLine, ht, hn, hc, Bool.false_eq_true, if_false]

theorem ofLine_empty {line : Text} (h : IsGap line) : ofLine line = .error .empty := by
  simp only [ofLine, trim_eq_nil_iff.2 h]
  rfl

theorem ofLine_missingKeyword {line : Text} (hg : ¬ IsGap line) (h : ¬ ∃ rest, Opens line rest) :
    ofLine line = .error .missingKeyword := by
  have hn : (Cursor.ofText (trim line)).isEmpty = false := by
    simpa [Cursor.isEmpty, Cursor.text, Cursor.ofText] using fun ht => hg (trim_eq_nil_iff.1 ht)
  have hk : (Cursor.ofText (trim line)).takeKeyword? Declaration.keyword = none := by
    simp only [Cursor.takeKeyword?, Cursor.ofText]
    cases hp : Declaration.keyword.isPrefixOf? (trim line) with
    | none => rfl
    | some rest =>
      have he := List.isPrefixOf?_eq_some_iff_append_eq.1 hp
      cases hi : rest.head?.any isIdentifierChar with
      | true => simp [hi]
      | false =>
        refine absurd ⟨rest, he.symm, fun c hc => ?_⟩ h
        simpa [Option.mem_def.1 hc] using hi
  simp only [ofLine, hn, hk, Bool.false_eq_true, if_false]

/-- Behind the modifier section only the body is left to read. -/
theorem ofLine_of_modifies {line rest remainder : Text} {attributes : Option Text} (ho : Opens line rest)
    (hm : Modifies rest attributes remainder) :
    ∃ before, ofLine line = readBody (Cursor.mk before remainder) >>= fun body =>
      if '^' ∈ body then .error .blockType else .ok ⟨attributes, body⟩ := by
  obtain ⟨before, ha⟩ := readAttributes_of_modifies Declaration.keyword hm
  refine ⟨before, ?_⟩
  rw [ofLine_of_opens ho, ha]
  rfl

theorem ofLine_of_frames {line : Text} {frame : DeclarationFrame} (h : Frames line frame) (hb : '^' ∉ frame.body) :
    ofLine line = .ok frame := by
  obtain ⟨rest, remainder, ho, hm, he⟩ := h
  obtain ⟨before, hl⟩ := ofLine_of_modifies ho hm
  rw [hl, readBody_of_ends he]
  exact if_neg hb

theorem ofLine_of_fault {line : Text} {e : Refusal} (h : FrameFault line e) : ofLine line = .error e := by
  cases h with
  | empty hg => exact ofLine_empty hg
  | missingKeyword hg hk => exact ofLine_missingKeyword hg hk
  | unterminatedAttributes ho hg hi =>
    rw [ofLine_of_opens ho, readAttributes_unclosed hg hi]
    rfl
  | trailingInput ho hm hb hn hc =>
    obtain ⟨before, hl⟩ := ofLine_of_modifies ho hm
    rw [hl, readBody_trailing hb hn hc]
    rfl
  | blockType hf hb =>
    obtain ⟨rest, remainder, ho, hm, he⟩ := hf
    obtain ⟨before, hl⟩ := ofLine_of_modifies ho hm
    rw [hl, readBody_of_ends he]
    exact if_pos hb

/-- Every line has a frame without a block marker, or a fault. -/
theorem frames_or_fault (line : Text) :
    (∃ frame, Frames line frame ∧ '^' ∉ frame.body) ∨ ∃ e, FrameFault line e := by
  by_cases hg : IsGap line
  · exact .inr ⟨_, .empty hg⟩
  by_cases ho : ∃ rest, Opens line rest
  · obtain ⟨rest, ho⟩ := ho
    rcases modifies_or_unclosed rest with ⟨attributes, remainder, hm⟩ | ⟨gap, inside, rfl, hgap, hi⟩
    · rcases ends_or_trailing remainder with ⟨body, he⟩ | ⟨body, after, rfl, hb, hn, hc⟩
      · have hf : Frames line ⟨attributes, body⟩ := ⟨rest, remainder, ho, hm, he⟩
        by_cases hb : '^' ∈ body
        · exact .inr ⟨_, .blockType hf hb⟩
        · exact .inl ⟨_, hf, hb⟩
      · exact .inr ⟨_, .trailingInput ho hm hb hn hc⟩
    · exact .inr ⟨_, .unterminatedAttributes ho hgap hi⟩
  · exact .inr ⟨_, .missingKeyword hg ho⟩

theorem ofLine_eq_ok_iff (line : Text) (frame : DeclarationFrame) :
    ofLine line = .ok frame ↔ Frames line frame ∧ '^' ∉ frame.body := by
  have ht := frames_or_fault line
  exact Outcome.eq_ok_iff_of_total (fun _ h => ofLine_of_frames h.1 h.2) (fun _ => ofLine_of_fault) ht frame

theorem ofLine_eq_error_iff (line : Text) (e : Refusal) : ofLine line = .error e ↔ FrameFault line e := by
  have ht := frames_or_fault line
  exact Outcome.eq_error_iff_of_total (fun _ h => ofLine_of_frames h.1 h.2) (fun _ => ofLine_of_fault) ht e

end PropertyArchive.DeclarationFrame
