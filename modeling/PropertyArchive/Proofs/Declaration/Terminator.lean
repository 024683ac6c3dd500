/-
  PropertyArchive.Proofs.Declaration.Terminator — a terminator and what stands behind it.

  A line without a terminator is a body in a surround without an ending
  (`Surround.exists_encloses`), and text behind a terminator is an ending of that surround
  (`Surround.line_endWith`). A result looks at the ending once, before the body, and at
  nothing in it but whether it is blank or starts a comment (`Surround.parse_line_append`).

  `ending_immaterial`: so blanks and comments behind a terminator make no difference to any
  line, refused ones included, and whatever else stands there is the reason why the line is
  refused.
-/
import PropertyArchive.Proofs.Declaration.Surround

namespace PropertyArchive

open Text

namespace Surround

variable {s : Surround} {body : Text}

theorem onBoundary_endWith (hs : s.ending = none) (h : s.OnBoundary body) (after : Text) :
    (s.endWith after).OnBoundary body := by
  intro c hc
  have hl : (s.endWith after).modifiersText ++ (body ++ (s.endWith after).endingText) =
      s.modifiersText ++ (body ++ s.endingText) ++ ';' :: after := by
    rw [endingText_eq_nil hs]
    simp [endWith, modifiersText, endingText]
  rw [hl, List.head?_append, Option.mem_def, Option.or_eq_some_iff] at hc
  rcases hc with hc | ⟨-, hc⟩
  · exact h c hc
  · cases hc
    decide

/-- Text behind a terminator refuses the line, or makes no difference. -/
theorem parse_line_append (hs : s.ending = none) (hk : s.OnBoundary body) (ht : s.Takes body) (after : Text) :
    Declaration.parse (s.line body ++ ';' :: after) =
      if trim after = [] ∨ DeclarationFrame.comment <+: trim after then Declaration.parse (s.line body)
      else .error (.trailingInput (trim after)) := by
  have hk' : (s.endWith after).OnBoundary body := onBoundary_endWith hs hk after
  have ht' : (s.endWith after).Takes body := ⟨ht.no_terminator, ht.no_modifiers⟩
  have ha : (s.endWith after).attributes = s.attributes := rfl
  rw [← line_endWith hs, parse_line hk' ht', parse_line hk ht, read, read, ha, trailingFault?_endWith,
    trailingFault?_eq_none hs]
  by_cases hc : trim after = [] ∨ DeclarationFrame.comment <+: trim after
  · rw [if_pos hc, if_pos hc]
  · rw [if_neg hc, if_neg hc]

end Surround

namespace Declaration

open DeclarationFrame

/-- Where a line has no terminator, blanks or a comment behind one make no difference to its
    result, and anything else is the reason why the line is refused. -/
theorem ending_immaterial {line rest remainder : Text} {attributes : Option Text} (ho : Opens line rest)
    (hm : Modifies rest attributes remainder) (ht : ';' ∉ remainder) :
    (∀ gap, IsGap gap → parse (line ++ ';' :: gap) = parse line ∧
      ∀ words, parse (line ++ ';' :: (gap ++ comment ++ words)) = parse line) ∧
    ∀ after, trim after ≠ [] → ¬ comment <+: trim after →
      parse (line ++ ';' :: after) = .error (.trailingInput (trim after)) := by
  obtain ⟨s, front, back, hs, -, h⟩ := Surround.exists_encloses ho hm
  have hp := Surround.parse_line_append hs h.onBoundary (h.takes ht)
  rw [← h.line_eq] at hp
  refine ⟨fun gap hg => ⟨?blanks, fun words => ?comment⟩, fun after hn hc => ?other⟩
  case blanks => rw [hp, if_pos (.inl (trim_eq_nil_iff.2 hg))]
  case comment => rw [hp, if_pos (.inr (comment_prefix_trim_iff.2 ⟨gap, words, hg, rfl⟩))]
  case other => rw [hp, if_neg (not_or.2 ⟨hn, hc⟩)]

/-- A terminator in the modifier section of a line that is refused, and a comment that looks
    like a line. -/
theorem ending_immaterial_of_crowded_comment :
    let line : Text := " @property (getter=a;b) NSArray<^> *x"
    Opens line " (getter=a;b) NSArray<^> *x" ∧
      Modifies " (getter=a;b) NSArray<^> *x" (some "getter=a;b") " NSArray<^> *x" ∧ ';' ∉ " NSArray<^> *x".toList ∧
      parse (line ++ ("; \t// @property (a) ^x; y" : Text)) = parse line ∧
      parse (line ++ ("; @property (a) ^x; // y" : Text)) = .error (.trailingInput "@property (a) ^x; // y") := by
  intro line
  have ho : Opens line " (getter=a;b) NSArray<^> *x" := ⟨by decide +kernel, fun c hc => by cases hc; decide⟩
  have hm : Modifies " (getter=a;b) NSArray<^> *x" (some "getter=a;b") " NSArray<^> *x" :=
    @Modifies.present [' '] "getter=a;b" " NSArray<^> *x" (by decide) (by decide)
  have ht : ';' ∉ " NSArray<^> *x".toList := by decide
  obtain ⟨hgap, htrailing⟩ := ending_immaterial ho hm ht
  exact ⟨ho, hm, ht, (hgap " \t" (by decide)).2 " @property (a) ^x; y",
    htrailing " @property (a) ^x; // y" (by decide +kernel) (by decide +kernel)⟩

end Declaration

end PropertyArchive
