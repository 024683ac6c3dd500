/-
  PropertyArchive.Proofs.Declaration.Surround — what stands around the body of a line, and
  what of it counts.

  A surround is the blanks in front of the keyword, the modifier section and the text from
  the terminator on; with a body it makes a line (`Surround.line`). Of the body only its
  tokens count, or why it has none: blanks at its ends are lost with those of the line or
  behind the modifier section, and no scan sees them (`ScanState.scan_gap_append`,
  `ScanState.scan_append_gap`). `parse_line`: the result of a line is the result of its body
  (`Surround.read`), where the keyword is a word of its own and the body neither holds a
  terminator nor starts a modifier section.

  The other way round, every line that opens with the keyword is a body in a surround
  (`exists_encloses`), and one with a frame is the body of its frame in a surround without a
  fault (`exists_encloses_of_frames`).
-/
import PropertyArchive.Proofs.Declaration.Recognition

namespace PropertyArchive

open Text

/-! ## Blanks at the ends of a body -/

namespace ScanState

/-- Blanks behind a text complete what its end completes. -/
theorem scan_gap {gap : Text} (hg : IsGap gap) (s : ScanState) : s.scan gap = s.finish := by
  induction gap generalizing s with
  | nil => rfl
  | cons c gap ih =>
    obtain ⟨hc, hg⟩ := isGap_cons.1 hg
    have hi : isIdentifierChar c = false := not_isIdentifierChar_of_isBlank hc
    cases s with
    | between => rw [scan_cons_of_silent_step (step_between_blank hc), ih hg]
    | inName read =>
      have hs : (inName read).step c = .ok ([], afterName read.reverse) := by simp [step, hi, hc]
      rw [scan_cons_of_silent_step hs, ih hg]
      rfl
    | afterName name => rw [scan_cons_of_silent_step (step_afterName_blank hc), ih hg]
    | inGenerics name read depth =>
      have hin : isGenericsChar c = true := Token.isGenericsChar_of_isBlank hc
      obtain ⟨ho, hk⟩ := ne_of_isGenericsChar hin
      have hs : (inGenerics name read depth).step c = .ok ([], inGenerics name (c :: read) depth) := by
        simp [step, ho, hk, hin]
      rw [scan_cons_of_silent_step hs, ih hg]
      rfl

theorem scan_append_gap {gap : Text} (hg : IsGap gap) (s : ScanState) (t : Text) : s.scan (t ++ gap) = s.scan t := by
  induction t generalizing s with
  | nil => exact scan_gap hg s
  | cons c t ih =>
    cases hs : s.step c with
    | error e => rw [List.cons_append, scan_cons_of_step_error hs, scan_cons_of_step_error hs]
    | ok r =>
      obtain ⟨done, s'⟩ := r
      rw [List.cons_append, scan_cons_of_step hs, scan_cons_of_step hs, ih]

theorem scan_gap_append {gap : Text} (hg : IsGap gap) (t : Text) : between.scan (gap ++ t) = between.scan t := by
  induction gap with
  | nil => rfl
  | cons c gap ih =>
    obtain ⟨hc, hg⟩ := isGap_cons.1 hg
    rw [List.cons_append, scan_cons_of_silent_step (step_between_blank hc), ih hg]

end ScanState

/-- The text is the body without some of the blanks at its ends. -/
def Pares (body t : Text) : Prop := ∃ front back, IsGap front ∧ IsGap back ∧ body = front ++ (t ++ back)

namespace Pares

variable {body t : Text}

theorem scan_eq (h : Pares body t) : Token.scan t = Token.scan body := by
  obtain ⟨front, back, hf, hb, rfl⟩ := h
  rw [Token.scan, Token.scan, ScanState.scan_gap_append hf, ScanState.scan_append_gap hb]

theorem mem_iff (h : Pares body t) {c : Char} (hc : isBlank c = false) : c ∈ t ↔ c ∈ body := by
  obtain ⟨front, back, hf, hb, rfl⟩ := h
  have hnf : c ∉ front := fun hm => by rw [hf c hm] at hc; cases hc
  have hnb : c ∉ back := fun hm => by rw [hb c hm] at hc; cases hc
  simp [hnf, hnb]

end Pares

/-! ## Lines -/

structure Surround where
  /-- The blanks in front of the keyword. -/
  lead : Text
  /-- The blanks in front of the modifier section, and the inside of the section. -/
  modifiers : Option (Text × Text)
  /-- The text behind the terminator. -/
  ending : Option Text
  isGap_lead : IsGap lead
  isGap_modifiers : ∀ m ∈ modifiers, IsGap m.1
  closed_modifiers : ∀ m ∈ modifiers, ')' ∉ m.2

namespace Surround

variable (s : Surround)

def modifiersText : Text := s.modifiers.elim [] fun m => m.1 ++ '(' :: (m.2 ++ [')'])

def endingText : Text := s.ending.elim [] (';' :: ·)

def line (body : Text) : Text :=
  s.lead ++ (Declaration.keyword ++ (s.modifiersText ++ (body ++ s.endingText)))

def attributes : Option Text := s.modifiers.map fun m => trim m.2

/-- The keyword is not the start of a longer word. -/
def OnBoundary (body : Text) : Prop :=
  ∀ c ∈ (s.modifiersText ++ (body ++ s.endingText)).head?, isIdentifierChar c = false

/-- The body neither holds a terminator nor starts a modifier section. -/
structure Takes (body : Text) : Prop where
  no_terminator : ';' ∉ body
  no_modifiers : s.modifiers = none → ∀ c ∈ (body.dropWhile isBlank).head?, c ≠ '('

def trailingFault? : Option Refusal :=
  s.ending.bind fun after =>
    if trim after = [] ∨ DeclarationFrame.comment <+: trim after then none else some (.trailingInput (trim after))

/-- The result of a body: what stands behind the terminator is looked at first. -/
def read (body : Text) : Except Refusal Declaration :=
  match s.trailingFault? with
  | some e => .error e
  | none => if '^' ∈ body then .error .blockType else Token.scan body >>= Declaration.ofTokens s.attributes

variable {s} {body : Text}

theorem endingText_eq_nil (hs : s.ending = none) : s.endingText = [] := by rw [endingText, hs, Option.elim_none]

theorem trailingFault?_eq_none (hs : s.ending = none) : s.trailingFault? = none := by
  rw [trailingFault?, hs, Option.bind_none]

/-- Tokens hold no character that ends a body or starts a modifier section. -/
theorem Takes.of_spells {ts : List Token} (h : Token.Spells body ts) : s.Takes body := by
  refine ⟨h.not_mem (by decide), fun _ c hc => ?_⟩
  rintro rfl
  have hm := (List.dropWhile_sublist isBlank).subset (List.mem_of_mem_head? hc)
  exact h.not_mem (by decide) hm

theorem trimEnd_modifiersText_append (t : Text) : trimEnd (s.modifiersText ++ t) = s.modifiersText ++ trimEnd t := by
  refine trimEnd_append fun c hc => ?_
  unfold modifiersText at hc
  cases hm : s.modifiers with
  | none =>
    rw [hm] at hc
    cases hc
  | some m =>
    have hl : (m.1 ++ '(' :: (m.2 ++ [')'])).getLast? = some ')' := by simp [List.getLast?_cons]
    rw [hm, Option.elim_some, hl] at hc
    cases hc
    decide

theorem opens_line (hk : s.OnBoundary body) : DeclarationFrame.Opens (s.line body)
    (s.modifiersText ++ trimEnd (body ++ s.endingText)) := by
  constructor
  · have hs : ∀ c ∈ (Declaration.keyword ++ (s.modifiersText ++ (body ++ s.endingText))).head?, isBlank c = false :=
      fun c hc => by cases hc; decide
    have hd := dropWhile_gap_append isGap_nil hs
    rw [line, trim_gap_append s.isGap_lead, trim, ← List.nil_append (Declaration.keyword ++ _), hd,
      trimEnd_append fun c hc => by cases hc; decide, trimEnd_modifiersText_append]
  · intro c hc
    rw [← trimEnd_modifiersText_append] at hc
    exact hk c (head?_of_head?_trimEnd hc)

/-- Behind the modifier section, or the blanks of the keyword, the rest of the line is left. -/
theorem exists_modifies {t : Text} (ht : s.modifiers = none → ∀ c ∈ (t.dropWhile isBlank).head?, c ≠ '(') :
    ∃ gap remainder, IsGap gap ∧ trimEnd t = gap ++ remainder ∧
      DeclarationFrame.Modifies (s.modifiersText ++ trimEnd t) s.attributes remainder := by
  cases hm : s.modifiers with
  | none =>
    refine ⟨(trimEnd t).takeWhile isBlank, (trimEnd t).dropWhile isBlank, isGap_takeWhile _,
      List.takeWhile_append_dropWhile.symm, ?_⟩
    have hh : ∀ c ∈ ((trimEnd t).dropWhile isBlank).head?, isBlank c = false ∧ c ≠ '(' :=
      fun c hc => ⟨head?_dropWhile_isBlank _ c hc, ht hm c (head?_of_head?_dropWhile_trimEnd hc)⟩
    have ha := DeclarationFrame.Modifies.absent (isGap_takeWhile (trimEnd t)) hh
    rw [List.takeWhile_append_dropWhile] at ha
    simpa [modifiersText, attributes, hm] using ha
  | some m =>
    refine ⟨[], trimEnd t, isGap_nil, rfl, ?_⟩
    simpa [modifiersText, attributes, hm] using
      DeclarationFrame.Modifies.present (s.isGap_modifiers m hm) (s.closed_modifiers m hm)

/-- A gap in front of a body with a terminator ends within the body. -/
theorem exists_eq_append_of_gap {gap remainder after : Text} (hg : IsGap gap)
    (h : body ++ ';' :: after = gap ++ remainder) : ∃ t, body = gap ++ t ∧ remainder = t ++ ';' :: after := by
  rcases List.append_eq_append_iff.1 h with ⟨z, rfl, hz⟩ | ⟨z, rfl, hz⟩
  · cases z with
    | nil => exact ⟨[], by simp, by simpa using hz.symm⟩
    | cons c z =>
      cases hz
      exact absurd (hg ';' (by simp)) (by decide)
  · exact ⟨z, rfl, hz⟩

theorem head?_dropWhile_body {c : Char} {after : Text} (hb : ∀ c ∈ (body.dropWhile isBlank).head?, c ≠ '(')
    (hc : c ∈ ((body ++ ';' :: after).dropWhile isBlank).head?) : c ≠ '(' := by
  rw [List.dropWhile_append] at hc
  split at hc
  · cases hc
    decide
  · rename_i hn
    rw [List.isEmpty_iff] at hn
    rw [List.head?_append_of_ne_nil _ hn] at hc
    exact hb c hc

/-- A line whose body ends it has that body as its frame, but for blanks. -/
theorem exists_frames_of_unterminated (hk : s.OnBoundary body) (ht : s.Takes body) (he : s.ending = none) :
    ∃ t, Pares body t ∧ DeclarationFrame.Frames (s.line body) ⟨s.attributes, t⟩ := by
  have ho := opens_line hk
  have hz : body ++ s.endingText = body := by rw [endingText_eq_nil he, List.append_nil]
  rw [hz] at ho
  obtain ⟨gap, remainder, hg, hr, hm⟩ := exists_modifies ht.no_modifiers
  obtain ⟨back, hb, e⟩ := exists_eq_trimEnd_gap body
  have hp : Pares body remainder := ⟨gap, back, hg, hb, by rw [← List.append_assoc, ← hr, ← e]⟩
  have hn : ';' ∉ remainder := fun hc => ht.no_terminator ((hp.mem_iff (by decide)).1 hc)
  exact ⟨remainder, hp, _, remainder, ho, hm, .unterminated hn⟩

/-- A line with a terminator, up to what stands behind it. -/
theorem exists_modifies_of_terminated (hk : s.OnBoundary body) (ht : s.Takes body) {after : Text}
    (he : s.ending = some after) :
    ∃ rest t, Pares body t ∧ ';' ∉ t ∧ DeclarationFrame.Opens (s.line body) rest ∧
      DeclarationFrame.Modifies rest s.attributes (t ++ ';' :: trimEnd after) := by
  have ho := opens_line hk
  have hz : body ++ s.endingText = body ++ ';' :: after := by simp [endingText, he]
  rw [hz] at ho
  have hh : s.modifiers = none → ∀ c ∈ ((body ++ ';' :: after).dropWhile isBlank).head?, c ≠ '(' :=
    fun hm c hc => head?_dropWhile_body (ht.no_modifiers hm) hc
  obtain ⟨gap, remainder, hg, hr, hm⟩ := exists_modifies hh
  have ha : trimEnd (body ++ ';' :: after) = body ++ ';' :: trimEnd after := by
    have hl : ∀ c ∈ (body ++ [';']).getLast?, isBlank c = false := by
      intro c hc
      rw [List.getLast?_concat] at hc
      cases hc
      decide
    simpa using trimEnd_append (t := after) hl
  obtain ⟨t, rfl, rfl⟩ := exists_eq_append_of_gap hg (ha.symm.trans hr)
  have hp : Pares (gap ++ t) t := ⟨gap, [], hg, isGap_nil, by rw [List.append_nil]⟩
  exact ⟨_, t, hp, fun hc => ht.no_terminator (List.mem_append_right _ hc), ho, hm⟩

/-- A line without a fault behind its terminator has its body as its frame, but for blanks. -/
theorem exists_frames (hk : s.OnBoundary body) (ht : s.Takes body) (hf : s.trailingFault? = none) :
    ∃ t, Pares body t ∧ DeclarationFrame.Frames (s.line body) ⟨s.attributes, t⟩ := by
  cases he : s.ending with
  | none => exact exists_frames_of_unterminated hk ht he
  | some after =>
    obtain ⟨rest, t, hp, hn, ho, hm⟩ := exists_modifies_of_terminated hk ht he
    have ha : trim after = [] ∨ DeclarationFrame.comment <+: trim after := by
      by_contra ha
      simp [trailingFault?, he, ha] at hf
    rw [← trim_trimEnd] at ha
    refine ⟨t, hp, rest, _, ho, hm, ?_⟩
    rcases ha with ha | ha
    · exact .terminated hn (trim_eq_nil_iff.1 ha)
    · obtain ⟨gap, words, hg, e⟩ := DeclarationFrame.comment_prefix_trim_iff.1 ha
      show DeclarationFrame.Ends (t ++ ';' :: trimEnd after) t
      rw [e]
      exact .commented hn hg

theorem parse_of_trailingFault (hk : s.OnBoundary body) (ht : s.Takes body) {e : Refusal}
    (hf : s.trailingFault? = some e) : Declaration.parse (s.line body) = .error e := by
  cases he : s.ending with
  | none =>
    rw [trailingFault?_eq_none he] at hf
    cases hf
  | some after =>
    obtain ⟨rest, t, -, hn, ho, hm⟩ := exists_modifies_of_terminated hk ht he
    simp only [trailingFault?, he, Option.bind_some] at hf
    split at hf
    · cases hf
    · rename_i ha
      cases hf
      rw [← trim_trimEnd] at ha ⊢
      exact Declaration.parse_of_fault
        (.trailingInput ho hm hn (fun h => ha (.inl h)) (fun h => ha (.inr h)))

/-- The result of a line is the result of its body. -/
theorem parse_line (hk : s.OnBoundary body) (ht : s.Takes body) : Declaration.parse (s.line body) = s.read body := by
  unfold read
  cases hf : s.trailingFault? with
  | some e => exact parse_of_trailingFault hk ht hf
  | none =>
    obtain ⟨t, hp, hfr⟩ := exists_frames hk ht hf
    by_cases hb : '^' ∈ t
    · have hbody : '^' ∈ body := (hp.mem_iff (by decide)).1 hb
      simp only [hbody, if_true]
      exact Declaration.parse_of_fault (.blockType hfr hb)
    · have hbody : '^' ∉ body := fun h => hb ((hp.mem_iff (by decide)).2 h)
      simp only [hbody, if_false]
      rw [Declaration.parse_of_frames hfr hb, hp.scan_eq]

/-! ## Lines that open with the keyword -/

def endWith (s : Surround) (after : Text) : Surround := { s with ending := some after }

theorem trailingFault?_endWith (s : Surround) (after : Text) : (s.endWith after).trailingFault? =
    if trim after = [] ∨ DeclarationFrame.comment <+: trim after then none else some (.trailingInput (trim after)) := rfl

theorem line_endWith (hs : s.ending = none) (body after : Text) :
    (s.endWith after).line body = s.line body ++ ';' :: after := by
  have hm : (s.endWith after).modifiersText = s.modifiersText := rfl
  have ha : (s.endWith after).endingText = ';' :: after := rfl
  unfold line
  rw [endingText_eq_nil hs, hm, ha]
  simp [endWith]

variable {front back line : Text}

/-- The line is the surround and the body in it, with blanks at the ends of the body. -/
structure Encloses (s : Surround) (front body back line : Text) : Prop where
  isGap_front : IsGap front
  isGap_back : IsGap back
  line_eq : line = s.line (front ++ (body ++ back))
  onBoundary : s.OnBoundary (front ++ (body ++ back))
  no_modifiers : s.modifiers = none → ∀ c ∈ (body.dropWhile isBlank).head?, c ≠ '('

theorem Encloses.pares (h : s.Encloses front body back line) : Pares (front ++ (body ++ back)) body :=
  ⟨front, back, h.isGap_front, h.isGap_back, rfl⟩

theorem Encloses.takes (h : s.Encloses front body back line) (ht : ';' ∉ body) : s.Takes (front ++ (body ++ back)) where
  no_terminator := fun hm => ht ((h.pares.mem_iff (by decide)).2 hm)
  no_modifiers := by
    intro hm c hc
    rw [List.dropWhile_append_of_pos h.isGap_front] at hc
    exact h.no_modifiers hm c (head?_of_head?_dropWhile_append_gap h.isGap_back hc)

/-- Every line that opens with the keyword, and whose modifier section is closed where there is one,
    is its remainder in a surround. -/
theorem exists_encloses {rest remainder : Text} {attributes : Option Text} (ho : DeclarationFrame.Opens line rest)
    (hm : DeclarationFrame.Modifies rest attributes remainder) :
    ∃ (s : Surround) (front back : Text), s.ending = none ∧ s.attributes = attributes ∧
      s.Encloses front remainder back line := by
  obtain ⟨lead, back, hl, hb, e⟩ := exists_eq_gap_trim_gap line
  obtain ⟨ht, hr⟩ := ho
  rw [ht] at e
  have hrest : ∀ c ∈ (rest ++ back).head?, isIdentifierChar c = false := by
    intro c hc
    rw [List.head?_append, Option.mem_def, Option.or_eq_some_iff] at hc
    rcases hc with hc | ⟨-, hc⟩
    · exact hr c hc
    · exact not_isIdentifierChar_of_isBlank (hb c (List.mem_of_mem_head? hc))
  cases hm with
  | @absent gap remainder hg hh =>
    refine ⟨⟨lead, none, none, hl, by simp, by simp⟩, gap, back, rfl, rfl, hg, hb, ?_, ?_, fun _ c hc => ?_⟩
    · simpa [Surround.line, modifiersText, endingText] using e
    · simpa [OnBoundary, modifiersText, endingText] using hrest
    · have hd : remainder.dropWhile isBlank = remainder := dropWhile_gap_append isGap_nil fun c hc => (hh c hc).1
      rw [hd] at hc
      exact (hh c hc).2
  | @present gap inside remainder hg hi =>
    refine ⟨⟨lead, some (gap, inside), none, hl, by simpa using hg, by simpa using hi⟩, [], back, rfl, rfl, isGap_nil,
      hb, ?_, ?_, fun hn => by cases hn⟩
    · simpa [Surround.line, modifiersText, endingText] using e
    · simpa [OnBoundary, modifiersText, endingText] using hrest

/-- A terminator in the body is the one of the surround, with what stands behind it. -/
theorem Encloses.endWith {after : Text} (h : s.Encloses front (body ++ ';' :: after) back line) (hs : s.ending = none) :
    (s.endWith (after ++ back)).Encloses front body [] line where
  isGap_front := h.isGap_front
  isGap_back := isGap_nil
  line_eq := by
    rw [h.line_eq, line_endWith hs]
    simp [Surround.line, endingText, hs]
  onBoundary := by
    have hb := h.onBoundary
    simpa [OnBoundary, modifiersText, endingText, hs, Surround.endWith] using hb
  no_modifiers := fun hm c hc => h.no_modifiers hm c (head?_dropWhile_append hc _)

/-- Every line with a frame is its body in a surround that has no fault. -/
theorem exists_encloses_of_frames {frame : DeclarationFrame} (h : DeclarationFrame.Frames line frame) :
    ∃ (s : Surround) (front back : Text), s.attributes = frame.attributes ∧ s.trailingFault? = none ∧
      s.Encloses front frame.body back line := by
  obtain ⟨attributes, body⟩ := frame
  obtain ⟨rest, remainder, ho, hm, he⟩ := h
  obtain ⟨s, front, back, hs, ha, henc⟩ := exists_encloses ho hm
  cases he with
  | unterminated _ => exact ⟨s, front, back, ha, trailingFault?_eq_none hs, henc⟩
  | @terminated _ gap _ hg =>
    have ht : trim (gap ++ back) = [] := trim_eq_nil_iff.2 (hg.append henc.isGap_back)
    refine ⟨s.endWith (gap ++ back), front, [], ha, ?_, henc.endWith hs⟩
    rw [trailingFault?_endWith, if_pos (.inl ht)]
  | @commented _ gap words _ hg =>
    have hc : DeclarationFrame.comment <+: trim (gap ++ DeclarationFrame.comment ++ words ++ back) :=
      DeclarationFrame.comment_prefix_trim_iff.2 ⟨gap, words ++ back, hg, List.append_assoc ..⟩
    refine ⟨s.endWith (gap ++ DeclarationFrame.comment ++ words ++ back), front, [], ha, ?_, henc.endWith hs⟩
    rw [trailingFault?_endWith, if_pos (.inr hc)]

end Surround

end PropertyArchive
