/-
  PropertyArchive.Proofs.Declaration.LeftmostFault — a refused body is refused for the first
  character that nothing behind it can mend.

  A text is viable where some text behind it makes it a body of tokens (`Viable`). The
  scanner either passes over a text or stops at one of its characters (`passes_or_stops`).
  - A text that it passes over is viable: from every place where a scan can stand, the
    brackets that are still open can be closed (`exists_scan_eq_ok`).
  - A text with a character at which it stops is not viable, whatever follows.
  - How many brackets are open is what the text in front leaves open (`Moves.depth`,
    `Passes.depth_eq`), so the reason depends on that number and on the character
    (`step_eq_error_fault`), not on how the scanner came there.

  `scan_refuses_leftmost`: a body is refused exactly where it is `Faulty`, and nothing
  behind the first fault changes the reason.
-/
import PropertyArchive.Proofs.Declaration.Scanning
import PropertyArchive.Proofs.Text.Brackets

namespace PropertyArchive

open Text

namespace Token

/-- Some text behind it makes it a body of tokens. -/
def Viable (t : Text) : Prop := ∃ after ts, scan (t ++ after) = .ok ts

/-- Why a character cannot stand behind a text that leaves `opened` brackets open. -/
def fault (opened : Int) (c : Char) : Refusal :=
  match c with
  | '<' => if opened = maxDepth then .nestingLimit maxDepth else .unbalancedGenerics
  | '>' => .unbalancedGenerics
  | '(' => .functionPointer
  | ')' => .functionPointer
  | '[' => .arrayDeclarator
  | ']' => .arrayDeclarator
  | ',' => .multipleDeclarators
  | '^' => .blockType
  | c => .unexpectedCharacter c

inductive Faulty : Text → Refusal → Prop
  /-- It ends inside a bracket section. -/
  | unclosed {body : Text} : Viable body → 0 < openBrackets body → Faulty body .unbalancedGenerics
  /-- A character takes away what was still viable in front of it. -/
  | misplaced {before rest : Text} {c : Char} : Viable before → ¬ Viable (before ++ [c]) →
      Faulty (before ++ c :: rest) (fault (openBrackets before) c)

end Token

namespace ScanState

/-! ## Passing over a text -/

/-- No character of the text is refused: the scanner completes `done` and stands at the last
    place behind it. -/
inductive Passes : ScanState → Text → List Token → ScanState → Prop
  | nil {s : ScanState} : Passes s [] [] s
  | cons {s s' last : ScanState} {c : Char} {t : Text} {done more : List Token} : s.step c = .ok (done, s') →
      Passes s' t more last → Passes s (c :: t) (done ++ more) last

theorem scan_append_of_passes {s last : ScanState} {t : Text} {done : List Token} (h : Passes s t done last)
    (after : Text) : s.scan (t ++ after) = (last.scan after).map (done ++ ·) := by
  induction h with
  | nil => rw [List.nil_append]; cases scan _ after <;> rfl
  | cons hs _ ih =>
    rw [List.cons_append, scan_cons_of_step hs, ih]
    cases scan _ after with
    | error e => rfl
    | ok ts => simp [Except.map]

theorem scan_of_passes {s last : ScanState} {t : Text} {done : List Token} (h : Passes s t done last) :
    s.scan t = last.finish.map (done ++ ·) := by
  have hf := scan_append_of_passes h []
  rwa [List.append_nil] at hf

/-- The scanner passes over a text, or stops at one of its characters. -/
theorem passes_or_stops (s : ScanState) (t : Text) : (∃ done last, Passes s t done last) ∨
    ∃ before c rest done last e, t = before ++ c :: rest ∧ Passes s before done last ∧ last.step c = .error e := by
  induction t generalizing s with
  | nil => exact .inl ⟨[], s, .nil⟩
  | cons c t ih =>
    cases hs : s.step c with
    | error e => exact .inr ⟨[], c, t, [], s, e, rfl, .nil, hs⟩
    | ok r =>
      obtain ⟨done, s'⟩ := r
      rcases ih s' with ⟨more, last, hp⟩ | ⟨before, d, rest, more, last, e, rfl, hp, he⟩
      · exact .inl ⟨done ++ more, last, .cons hs hp⟩
      · exact .inr ⟨c :: before, d, rest, done ++ more, last, e, rfl, .cons hs hp, he⟩

theorem scan_of_stop {s last : ScanState} {before : Text} {c : Char} {done : List Token} {e : Refusal}
    (h : Passes s before done last) (he : last.step c = .error e) (rest : Text) :
    s.scan (before ++ c :: rest) = .error e := by
  rw [scan_append_of_passes h, scan_cons_of_step_error he]
  rfl

theorem Passes.wellFormed {s last : ScanState} {t : Text} {done : List Token} (h : Passes s t done last)
    (hw : s.WellFormed) : last.WellFormed := by
  induction h with
  | nil => exact hw
  | cons hs _ ih => exact ih ((moves_of_step hs).wellFormed hw)

/-! ## Open brackets -/

theorem openBrackets_singleton {c : Char} (ho : c ≠ '<') (hk : c ≠ '>') : openBrackets [c] = 0 :=
  openBrackets_eq_zero ⟨by simpa using ho.symm, by simpa using hk.symm⟩

theorem openBrackets_of_isGenericsChar {c : Char} (h : isGenericsChar c = true) : openBrackets [c] = 0 :=
  openBrackets_singleton (ne_of_isGenericsChar h).1 (ne_of_isGenericsChar h).2

theorem WellFormed.depth_le {s : ScanState} (hw : s.WellFormed) : s.depth ≤ Token.maxDepth := by
  cases s with
  | between | inName _ | afterName _ => exact Nat.zero_le _
  | inGenerics name read depth => exact hw.2.2

/-- A character opens and closes for the scanner what it opens and closes in the text. -/
theorem Moves.depth {s s' : ScanState} {c : Char} {done : List Token} (h : Moves s c done s') (hw : s.WellFormed) :
    (s'.depth : Int) = s.depth + openBrackets [c] := by
  cases h with
  | skip hc | leave hc | wait hc =>
    rw [openBrackets_of_isGenericsChar (Token.isGenericsChar_of_isBlank hc)]
    rfl
  | start hc | more hc | startNext hc =>
    rw [openBrackets_of_isGenericsChar (Token.isGenericsChar_of_isIdentifierChar hc)]
    rfl
  | mark | markAtOnce | markLater | openAtOnce | openLater | closeOuter => rfl
  | openInner _ => rfl
  | @closeInner name read depth hd =>
    obtain ⟨-, h1, -⟩ := hw
    show ((depth - 1 : Nat) : Int) = depth + -1
    omega
  | keep hc =>
    rw [openBrackets_of_isGenericsChar hc, Int.add_zero]
    rfl

theorem Passes.depth_eq {s last : ScanState} {t : Text} {done : List Token} (h : Passes s t done last)
    (hw : s.WellFormed) : (last.depth : Int) = s.depth + openBrackets t := by
  induction h with
  | nil => simp
  | @cons s s' last c t _ _ hs _ ih =>
    have hm := moves_of_step hs
    have hc : openBrackets (c :: t) = openBrackets [c] + openBrackets t := openBrackets_append [c] t
    rw [ih (hm.wellFormed hw), hm.depth hw, hc, Int.add_assoc]

theorem depth_of_passes {last : ScanState} {t : Text} {done : List Token} (h : Passes between t done last) :
    (last.depth : Int) = openBrackets t := by
  have hd := h.depth_eq trivial
  rwa [depth, Int.natCast_zero, Int.zero_add] at hd

theorem refusal_eq_fault {opened : Int} {c : Char} (h : c = '<' → opened ≠ Token.maxDepth) :
    refusal c = Token.fault opened c := by
  unfold Token.fault
  split
  · rw [if_neg (h rfl)]
    decide
  all_goals simp_all [refusal]

/-- The reason for stopping at a character. -/
theorem step_eq_error_fault {s : ScanState} {c : Char} {e : Refusal} (hw : s.WellFormed) (h : s.step c = .error e) :
    e = Token.fault s.depth c := by
  rcases step_eq_error h with ⟨rfl, hz⟩ | ⟨rfl, rfl, hm⟩
  · refine refusal_eq_fault fun hc => ?_
    rw [hz hc]
    decide
  · have hd : (s.depth : Int) = Token.maxDepth := Int.ofNat_inj.2 (Nat.le_antisymm hw.depth_le hm)
    rw [hd]
    rfl

/-! ## Viable places -/

/-- From every place where a scan can stand it can be brought to its end. -/
theorem exists_scan_eq_ok {s : ScanState} (hw : s.WellFormed) : ∃ t ts, s.scan t = .ok ts := by
  cases s with
  | between => exact ⟨[], [], rfl⟩
  | inName read => exact ⟨[], _, rfl⟩
  | afterName name => exact ⟨[], _, rfl⟩
  | inGenerics name read depth =>
    obtain ⟨-, h1, -⟩ := hw
    -- One closing bracket for each that is open.
    induction depth, h1 using Nat.le_induction generalizing read with
    | base => exact ⟨['>'], _, rfl⟩
    | succ depth hd ih =>
      obtain ⟨t, ts, ht⟩ := ih ('>' :: read)
      have hs : (inGenerics name read (depth + 1)).step '>' = .ok ([], inGenerics name ('>' :: read) depth) := by
        have hn : depth ≠ 0 := by omega
        simp [step, hn]
      exact ⟨'>' :: t, ts, by rw [scan_cons_of_silent_step hs, ht]⟩

theorem viable_of_passes {last : ScanState} {t : Text} {done : List Token} (h : Passes between t done last) :
    Token.Viable t := by
  obtain ⟨after, ts, hs⟩ := exists_scan_eq_ok (h.wellFormed trivial)
  exact ⟨after, done ++ ts, by rw [Token.scan, scan_append_of_passes h, hs]; rfl⟩

theorem not_viable_of_stop {last : ScanState} {before : Text} {c : Char} {done : List Token} {e : Refusal}
    (h : Passes between before done last) (he : last.step c = .error e) (rest : Text) :
    ¬ Token.Viable (before ++ c :: rest) := by
  rintro ⟨after, ts, hs⟩
  rw [Token.scan, List.append_assoc, List.cons_append, scan_of_stop h he] at hs
  cases hs

/-- The viable texts are those that the scanner passes over. -/
theorem viable_iff_passes {t : Text} : Token.Viable t ↔ ∃ done last, Passes between t done last := by
  constructor
  · intro h
    rcases passes_or_stops between t with hp | ⟨before, c, rest, done, last, e, rfl, hp, he⟩
    · exact hp
    · exact absurd h (not_viable_of_stop hp he rest)
  · rintro ⟨done, last, hp⟩
    exact viable_of_passes hp

end ScanState

namespace Token

open ScanState

/-! ## The first fault -/

theorem scan_of_unclosed {body : Text} (hv : Viable body) (ho : 0 < openBrackets body) :
    scan body = .error .unbalancedGenerics := by
  obtain ⟨done, last, hp⟩ := viable_iff_passes.1 hv
  have hd := depth_of_passes hp
  rw [scan, scan_of_passes hp]
  cases last with
  | between | inName _ | afterName _ =>
    simp only [depth] at hd
    omega
  | inGenerics name read depth => rfl

/-- Whatever stands behind it, the first character that takes viability away is the reason. -/
theorem scan_of_misplaced {before : Text} {c : Char} (hv : Viable before) (hn : ¬ Viable (before ++ [c])) (rest : Text) :
    scan (before ++ c :: rest) = .error (fault (openBrackets before) c) := by
  obtain ⟨done, last, hp⟩ := viable_iff_passes.1 hv
  cases hs : last.step c with
  | ok r =>
    -- A character that the scanner accepts would have kept the text viable.
    obtain ⟨more, s'⟩ := r
    obtain ⟨after, ts, ha⟩ := exists_scan_eq_ok ((moves_of_step hs).wellFormed (hp.wellFormed trivial))
    refine absurd ⟨after, done ++ (more ++ ts), ?_⟩ hn
    rw [scan, List.append_assoc, scan_append_of_passes hp, List.singleton_append, scan_cons_of_step hs, ha]
    rfl
  | error e =>
    rw [scan, scan_of_stop hp hs, step_eq_error_fault (hp.wellFormed trivial) hs, depth_of_passes hp]

theorem scan_of_faulty {body : Text} {e : Refusal} (h : Faulty body e) : scan body = .error e := by
  cases h with
  | unclosed hv ho => exact scan_of_unclosed hv ho
  | misplaced hv hn => exact scan_of_misplaced hv hn _

theorem faulty_of_scan {body : Text} {e : Refusal} (h : scan body = .error e) : Faulty body e := by
  rcases passes_or_stops between body with ⟨done, last, hp⟩ | ⟨before, c, rest, done, last, e', rfl, hp, he⟩
  · have hd := depth_of_passes hp
    have hw := hp.wellFormed trivial
    rw [scan, scan_of_passes hp] at h
    cases last with
    | between | inName _ | afterName _ => cases h
    | inGenerics name read depth =>
      cases h
      have h1 : 1 ≤ depth := hw.2.1
      simp only [ScanState.depth] at hd
      exact .unclosed (viable_of_passes hp) (by omega)
  · have hf : Faulty (before ++ c :: rest) (fault (openBrackets before) c) :=
      .misplaced (viable_of_passes hp) (not_viable_of_stop hp he [])
    rw [scan_of_faulty hf] at h
    cases h
    exact hf

/-- A body is refused for its first fault: it ends inside a bracket section, or it has a
    character that no text behind it can mend. What stands behind that character makes no
    difference. -/
theorem scan_refuses_leftmost (body : Text) (e : Refusal) :
    (scan body = .error e ↔ Faulty body e) ∧
      ∀ before c, Viable before → ¬ Viable (before ++ [c]) →
        ∀ rest, scan (before ++ c :: rest) = .error (fault (openBrackets before) c) :=
  ⟨⟨faulty_of_scan, scan_of_faulty⟩, fun _ _ hv hn rest => scan_of_misplaced hv hn rest⟩

-- The comma is legal inside of the brackets and the first fault outside of them.
example : scan "id <A, B> c, d[2]" = .error .multipleDeclarators := by decide +kernel

end Token

end PropertyArchive
