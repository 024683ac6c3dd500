/-
  PropertyArchive.Proofs.Declaration.BracketLoop — counting brackets by hand is safe.

  The invariant of the two loops (`Stands`): the scanner, which reads a character at a time,
  has passed over the same text. Between tokens it has completed those of the loop, or will
  with the next one (`ScanState.Apart`); in a section it counts the same brackets. The number of
  open brackets is what the part of the section that was read leaves open, and behind every
  beginning of that part at least one is open (`SectionRead`). So a bracket is there to be
  closed, and a section ends with the first bracket that closes all (`shortestBalanced`).

  Each turn has a result, keeps the invariant and takes some text, or it ends with the answer
  of the scanner (`Stands.exists_turn`); a run is then as safe as its turns (`Stands.after`,
  `Stands.shortens`, `Stands.exists_end`). `bracket_loop_safe` puts this together for every body.
-/
import PropertyArchive.Proofs.Declaration.LeftmostFault
import PropertyArchive.Proofs.Declaration.TokenLoop

namespace PropertyArchive

open Text

/-! ## What was read of a section -/

structure SectionRead (read : Text) (depth : Nat) : Prop where
  opens : read.head? = some '<'
  depth_eq : (depth : Int) = openBrackets read
  inside : ∀ front, front <+: read → front ≠ [] → 1 ≤ openBrackets front ∧ openBrackets front ≤ Token.maxDepth

/-- The shortest beginning of `t` that is not empty and closes all brackets that it opens. -/
structure ShortestBalanced (t taken : Text) : Prop where
  isPrefix : taken <+: t
  ne_nil : taken ≠ []
  balanced : Balanced Token.maxDepth taken
  shortest : ∀ other, other <+: t → other ≠ [] → openBrackets other = 0 → taken <+: other

namespace SectionRead

variable {read : Text} {depth depth' : Nat} {c : Char}

theorem first : SectionRead ['<'] 1 := by
  refine ⟨rfl, rfl, fun front hf hn => ?_⟩
  rcases List.prefix_concat_iff.1 (show front <+: [] ++ ['<'] from hf) with rfl | hf
  · decide
  · exact absurd (List.prefix_nil.1 hf) hn

theorem ne_nil (h : SectionRead read depth) : read ≠ [] := by
  rintro rfl
  cases h.opens

theorem one_le (h : SectionRead read depth) : 1 ≤ depth := by
  have hi := (h.inside read (List.prefix_refl read) h.ne_nil).1
  rw [← h.depth_eq] at hi
  omega

theorem le_maxDepth (h : SectionRead read depth) : depth ≤ Token.maxDepth := by
  have hi := (h.inside read (List.prefix_refl read) h.ne_nil).2
  rw [← h.depth_eq] at hi
  omega

/-- One character more, as long as a bracket stays open. -/
theorem concat (h : SectionRead read depth) (hd : (depth' : Int) = depth + openBrackets [c]) (h1 : 1 ≤ depth')
    (hm : depth' ≤ Token.maxDepth) : SectionRead (read ++ [c]) depth' := by
  have hopen : (depth' : Int) = openBrackets (read ++ [c]) := by rw [openBrackets_append, ← h.depth_eq, hd]
  refine ⟨?_, hopen, fun front hf hn => ?_⟩
  · rw [List.head?_append, h.opens]
    rfl
  · rcases List.prefix_concat_iff.1 hf with rfl | hf
    · rw [← hopen]
      omega
    · exact h.inside front hf hn

/-- With the bracket that closes the first one the section is complete. -/
theorem shortestBalanced (h : SectionRead read 1) (rest : Text) :
    ShortestBalanced (read ++ '>' :: rest) (read ++ ['>']) := by
  have hclosed : openBrackets (read ++ ['>']) = 0 := by
    rw [openBrackets_append, ← h.depth_eq]
    rfl
  have hbegins : read ++ ['>'] <+: read ++ '>' :: rest := ⟨rest, by simp⟩
  refine ⟨hbegins, by simp, ⟨hclosed, fun a b hab => ?_⟩, fun other ho hn hz => ?_⟩
  · by_cases ha : a = []
    · subst ha
      exact ⟨Int.le_refl 0, Int.natCast_nonneg _⟩
    · rcases List.prefix_concat_iff.1 ⟨b, hab.symm⟩ with rfl | ha'
      · rw [hclosed]
        exact ⟨Int.le_refl 0, Int.natCast_nonneg _⟩
      · have hi := h.inside a ha' ha
        omega
  · rcases List.prefix_or_prefix_of_prefix hbegins ho with hp | hp
    · exact hp
    · rcases List.prefix_concat_iff.1 hp with rfl | hp
      · exact List.prefix_refl _
      · -- Behind every shorter beginning a bracket is open.
        have hi := (h.inside other hp hn).1
        omega

end SectionRead

/-! ## Where the scanner stands meanwhile -/

namespace ScanState

variable {s s' last : ScanState} {t : Text} {done more : List Token} {c : Char}

theorem Passes.append (h : Passes s t done s') {u : Text} (h' : Passes s' u more last) :
    Passes s (t ++ u) (done ++ more) last := by
  induction h with
  | nil => exact h'
  | cons hs _ ih =>
    rw [List.cons_append, List.append_assoc]
    exact .cons hs (ih h')

theorem passes_of_step (h : s.step c = .ok (done, s')) : Passes s [c] done s' := by
  simpa using Passes.cons h .nil

/-- The unread text does not go on with the word that was read last. -/
def Apart : ScanState → Text → Prop
  | between, _ => True
  | inName _, t => (∀ c ∈ t.head?, isIdentifierChar c = false) ∧ ∀ c ∈ (t.dropWhile isBlank).head?, c ≠ '<'
  | afterName _, t => ∀ c ∈ (t.dropWhile isBlank).head?, c ≠ '<'
  | inGenerics _ _ _, _ => False

/-- Blanks complete nothing and keep what follows apart. -/
theorem Apart.passes_gap {gap : Text} (hg : IsGap gap) (h : s.Apart (gap ++ t)) :
    ∃ s', Passes s gap [] s' ∧ s'.finish = s.finish ∧ s'.Apart t := by
  induction gap generalizing s with
  | nil => exact ⟨s, .nil, rfl, h⟩
  | cons c gap ih =>
    obtain ⟨hc, hg⟩ := isGap_cons.1 hg
    have hstep : ∃ s', s.step c = .ok ([], s') ∧ s'.finish = s.finish ∧ s'.Apart (gap ++ t) := by
      cases s with
      | between => exact ⟨between, step_between_blank hc, rfl, trivial⟩
      | inName read =>
        have hi := not_isIdentifierChar_of_isBlank hc
        refine ⟨afterName read.reverse, by simp [step, hi, hc], rfl, ?_⟩
        simpa [Apart, hc] using h.2
      | afterName name => exact ⟨afterName name, step_afterName_blank hc, rfl, by simpa [Apart, hc] using h⟩
      | inGenerics => exact h.elim
    obtain ⟨s₁, hs₁, hf₁, ha₁⟩ := hstep
    obtain ⟨s', hp, hf, ha⟩ := ih hg ha₁
    exact ⟨s', .cons hs₁ hp, hf.trans hf₁, ha⟩

/-- A token completes the word in front of it. -/
theorem Apart.step_eq (h : s.Apart (c :: t)) (hb : isBlank c = false) : ∃ w, s.finish = .ok w ∧
    s.step c =
      if c = '*' then .ok (w ++ [.pointer], between)
      else if isIdentifierChar c then .ok (w, inName [c])
      else .error (refusal c) := by
  cases s with
  | between => exact ⟨[], rfl, by simp [step, hb]⟩
  | inName read =>
    have hi : isIdentifierChar c = false := h.1 c rfl
    have hl : c ≠ '<' := h.2 c (by simp [hb])
    exact ⟨_, rfl, by simp [step, hi, hb, hl]⟩
  | afterName name =>
    have hl : c ≠ '<' := h c (by simp [hb])
    exact ⟨_, rfl, by simp [step, hb, hl]⟩
  | inGenerics => exact h.elim

theorem passes_more {name : Text} (h : ∀ c ∈ name, isIdentifierChar c = true) (read : Text) :
    Passes (inName read) name [] (inName (name.reverse ++ read)) := by
  induction name generalizing read with
  | nil => exact .nil
  | cons c name ih =>
    obtain ⟨hc, hn⟩ := List.forall_mem_cons.1 h
    have hs : (inName read).step c = .ok ([], inName (c :: read)) := by simp [step, hc]
    have hp := Passes.cons hs (ih hn (c :: read))
    simpa using hp

theorem passes_wait {gap : Text} (hg : IsGap gap) (name : Text) : Passes (afterName name) gap [] (afterName name) := by
  induction gap with
  | nil => exact .nil
  | cons c gap ih =>
    obtain ⟨hc, hg⟩ := isGap_cons.1 hg
    exact .cons (step_afterName_blank hc) (ih hg)

/-- Behind a name and the blanks after it, where a bracket section may still follow. -/
inductive BehindName (name : Text) : Text → ScanState → Prop where
  | atOnce : BehindName name [] (inName name.reverse)
  | later {gap : Text} : BehindName name gap (afterName name)

theorem exists_passes_gap {gap : Text} (hg : IsGap gap) (name : Text) :
    ∃ s, Passes (inName name.reverse) gap [] s ∧ BehindName name gap s := by
  cases gap with
  | nil => exact ⟨_, .nil, .atOnce⟩
  | cons c gap =>
    obtain ⟨hc, hg⟩ := isGap_cons.1 hg
    have hi := not_isIdentifierChar_of_isBlank hc
    have hs : (inName name.reverse).step c = .ok ([], afterName name) := by simp [step, hi, hc]
    exact ⟨_, .cons hs (passes_wait hg name), .later⟩

theorem Apart.passes_word {name gap : Text} (hn : Token.IsName name) (hg : IsGap gap) {w : List Token}
    (hw : s.finish = .ok w) (h : s.Apart (name ++ t)) : ∃ s', Passes s (name ++ gap) w s' ∧ BehindName name gap s' := by
  obtain ⟨c, name, rfl⟩ := List.exists_cons_of_ne_nil hn.1
  obtain ⟨hc, hr⟩ := List.forall_mem_cons.1 hn.2
  obtain ⟨w', hw', hs⟩ := h.step_eq (isBlank_eq_false_of_isIdentifierChar hc)
  obtain rfl : w = w' := Except.ok.inj (hw.symm.trans hw')
  have hm : c ≠ '*' := ne_of_isIdentifierChar hc (by decide)
  rw [if_neg hm, if_pos hc] at hs
  have hname : Passes s (c :: name) w (inName (c :: name).reverse) := by
    have hp := Passes.cons hs (passes_more hr [c])
    simpa using hp
  obtain ⟨s', hp, hb⟩ := exists_passes_gap hg (c :: name)
  have hp' := hname.append hp
  rw [List.append_nil] at hp'
  exact ⟨s', hp', hb⟩

namespace BehindName

variable {name gap : Text}

theorem finish_eq (h : BehindName name gap s) : s.finish = .ok [.word name []] := by
  cases h with
  | atOnce => simp [finish]
  | later => rfl

theorem step_open (h : BehindName name gap s) : s.step '<' = .ok ([], inGenerics name ['<'] 1) := by
  cases h with
  | atOnce =>
    have hi : isIdentifierChar '<' = false := by decide
    have hb : isBlank '<' = false := by decide
    simp [step, hi, hb]
  | later => rfl

theorem apart (h : BehindName name gap s) (hl : ∀ x ∈ (gap ++ t).head?, isIdentifierChar x = false)
    (ht : ∀ x ∈ t.head?, isBlank x = false ∧ x ≠ '<') : s.Apart t := by
  have hd : t.dropWhile isBlank = t := dropWhile_gap_append isGap_nil fun x hx => (ht x hx).1
  have ho : ∀ x ∈ (t.dropWhile isBlank).head?, x ≠ '<' := by
    rw [hd]
    exact fun x hx => (ht x hx).2
  cases h with
  | atOnce => exact ⟨hl, ho⟩
  | later => exact ho

end BehindName

end ScanState

/-! ## The invariant of the loops -/

/-- Where the reading of `body` can stand, and where the scanner stands behind the same text. -/
inductive Stands (body : Text) : LoopPlace → Prop where
  /-- The scanner completes the last word with the next token. -/
  | atToken {c : Cursor} {done w : List Token} {s : ScanState} : c.text = body →
      ScanState.Passes .between c.before done s → s.finish = .ok w → s.Apart c.rest →
      Stands body (.atToken (done ++ w) c.offset)
  /-- In front of the first bracket of a section. -/
  | atSection {c : Cursor} {tokens : List Token} {name : Text} {s : ScanState} : c.text = body →
      ScanState.Passes .between c.before tokens s → s.step '<' = .ok ([], .inGenerics name ['<'] 1) →
      c.rest.head? = some '<' → Stands body (.inBrackets tokens name c.rest 0 c.offset)
  /-- Behind it both count the same brackets. -/
  | inSection {c : Cursor} {tokens : List Token} {name front read : Text} {depth : Nat} : c.text = body →
      c.before = front ++ read → SectionRead read depth →
      ScanState.Passes .between c.before tokens (.inGenerics name read.reverse depth) →
      Stands body (.inBrackets tokens name (read ++ c.rest) depth c.offset)

/-- What a turn from `p` leads to: it takes some text and stands again, or it ends with the answer of
    the scanner. -/
inductive Turn.Leads (body : Text) (p : LoopPlace) : Turn → Prop where
  | goesOn {q : LoopPlace} {taken rest : Text} : Stands body q → taken ≠ [] →
      p.cursor.rest? = some (taken ++ rest) → q.cursor.rest? = some rest → Leads body p (.goesOn q)
  | ends : Leads body p (.ends (Token.scan body))

namespace Stands

variable {body : Text} {p : LoopPlace}

theorem start (body : Text) : Stands body (.start body) :=
  @atToken body (.ofText body) [] [] .between rfl .nil rfl trivial

/-- Behind text that was taken. -/
theorem leads {c c' : Cursor} {q : LoopPlace} {taken : Text} (ht : c.Took taken c') (hn : taken ≠ [])
    (hp : p.cursor = c.offset) (hq : q.cursor = c'.offset) (h : Stands body q) : Turn.Leads body p (.goesOn q) := by
  have hpr : p.cursor.rest? = some (taken ++ c'.rest) := by rw [hp, c.rest?_offset, ht.rest]
  have hqr : q.cursor.rest? = some c'.rest := by rw [hq, c'.rest?_offset]
  exact .goesOn h hn hpr hqr

/-- With every token completed the scanner stands between tokens. -/
theorem between {c : Cursor} {tokens : List Token} (hc : c.text = body)
    (hp : ScanState.Passes .between c.before tokens .between) : Stands body (.atToken tokens c.offset) := by
  have h := Stands.atToken (w := []) hc hp rfl trivial
  rwa [List.append_nil] at h

section AtToken

variable {c : Cursor} {done w : List Token} {s : ScanState} {gap rest : Text} {x : Char}

/-- In front of the next token, behind the blanks. -/
theorem exists_behind_gap (hp : ScanState.Passes .between c.before done s) (hw : s.finish = .ok w)
    (ha : s.Apart c.rest) (hg : IsGap gap) (hr : c.rest = gap ++ rest) :
    ∃ s', ScanState.Passes .between (c.before ++ gap) done s' ∧ s'.finish = .ok w ∧ s'.Apart rest := by
  rw [hr] at ha
  obtain ⟨s', hp', hf, ha'⟩ := ha.passes_gap hg
  have hpp := hp.append hp'
  rw [List.append_nil] at hpp
  exact ⟨s', hpp, hf.trans hw, ha'⟩

/-- The scanner does the same in the token loop. -/
theorem leads_of_tokenTurn (hc : c.text = body) (hp : ScanState.Passes .between c.before done s)
    (hw : s.finish = .ok w) (ha : s.Apart c.rest) {turn : Turn} (ht : TokenTurn (done ++ w) c turn) :
    turn.Leads body (.atToken (done ++ w) c.offset) := by
  cases ht with
  | finished hg =>
    obtain ⟨s', hp', hw', -⟩ := exists_behind_gap hp hw ha hg (List.append_nil _).symm
    have hs : Token.scan body = .ok (done ++ w) := by
      rw [← hc, Token.scan, Cursor.text, ScanState.scan_of_passes hp', hw']
      rfl
    exact hs ▸ .ends
  | @marker gap c' hg htook =>
    have hr : c.rest = gap ++ '*' :: c'.rest := by simpa using htook.rest
    obtain ⟨s', hp', hw', ha'⟩ := exists_behind_gap hp hw ha hg hr
    obtain ⟨v, hv, hs⟩ := ha'.step_eq (by decide)
    obtain rfl : w = v := Except.ok.inj (hw'.symm.trans hv)
    have hpp := hp'.append (ScanState.passes_of_step hs)
    refine leads htook (by simp) rfl rfl (between (htook.text.trans hc) ?_)
    rw [htook.before]
    simpa using hpp
  | @bare gap name gap' c' hg hn hg' htook hlong hnext =>
    have hr : c.rest = gap ++ (name ++ (gap' ++ c'.rest)) := by simpa using htook.rest
    obtain ⟨s', hp', hw', ha'⟩ := exists_behind_gap hp hw ha hg hr
    obtain ⟨last, hl, hb⟩ := ha'.passes_word hn hg' hw'
    have hpp := hp'.append hl
    refine leads htook (by simp [hn.1]) rfl rfl (.atToken (htook.text.trans hc) ?_ hb.finish_eq (hb.apart hlong hnext))
    rw [htook.before]
    simpa using hpp
  | @opens gap name gap' c' hg hn hg' htook hopen =>
    have hr : c.rest = gap ++ (name ++ (gap' ++ c'.rest)) := by simpa using htook.rest
    obtain ⟨s', hp', hw', ha'⟩ := exists_behind_gap hp hw ha hg hr
    obtain ⟨last, hl, hb⟩ := ha'.passes_word hn hg' hw'
    have hpp := hp'.append hl
    refine leads htook (by simp [hn.1]) rfl rfl (.atSection (htook.text.trans hc) ?_ hb.step_open hopen)
    rw [htook.before]
    simpa using hpp
  | @refused gap rest x hg hr hb hm hi =>
    obtain ⟨s', hp', hw', ha'⟩ := exists_behind_gap hp hw ha hg hr
    obtain ⟨v, -, hs⟩ := ha'.step_eq hb
    rw [if_neg hm, hi, if_neg Bool.false_ne_true] at hs
    have hscan : Token.scan body = .error (ScanState.refusal x) := by
      rw [← hc, Token.scan, Cursor.text, hr, ← List.append_assoc, ScanState.scan_of_stop hp' hs]
    exact hscan ▸ .ends

end AtToken

section InBrackets

variable {c : Cursor} {tokens : List Token} {name start : Text} {turn : Turn}

/-- The first turn in a section takes its first bracket. -/
theorem leads_of_first (hc : c.text = body) {s : ScanState} (hp : ScanState.Passes .between c.before tokens s)
    (hs : s.step '<' = .ok ([], .inGenerics name ['<'] 1)) (ho : c.rest.head? = some '<')
    (ht : BracketTurn tokens name c.rest 0 c turn) : turn.Leads body (.inBrackets tokens name c.rest 0 c.offset) := by
  cases ht with
  | unclosed hr => rw [hr] at ho; cases ho
  | tooDeep _ hd => cases hd
  | @opens c' htook _ =>
    have hpp := hp.append (ScanState.passes_of_step hs)
    rw [List.append_nil, ← htook.before] at hpp
    refine leads htook (by simp) rfl rfl ?_
    rw [htook.rest]
    exact .inSection (htook.text.trans hc) htook.before .first hpp
  | closes _ hd => cases hd
  | completes _ hd _ => cases hd
  | keeps htook hx =>
    rw [htook.rest] at ho
    cases ho
    cases hx
  | refused hr hx _ _ =>
    rw [hr] at ho
    cases ho
    exact absurd rfl hx

variable {front read : Text} {depth : Nat}

/-- A character more of the section, and its bracket counted. -/
theorem leads_of_step (hc : c.text = body) (hf : c.before = front ++ read)
    (hp : ScanState.Passes .between c.before tokens (.inGenerics name read.reverse depth)) {x : Char} {c' : Cursor}
    {depth' : Nat} (ht : c.Took [x] c') (hsec : SectionRead (read ++ [x]) depth')
    (hs : (ScanState.inGenerics name read.reverse depth).step x = .ok ([], .inGenerics name (x :: read.reverse) depth')) :
    Turn.Leads body (.inBrackets tokens name (read ++ c.rest) depth c.offset)
      (.goesOn (.inBrackets tokens name (read ++ c.rest) depth' c'.offset)) := by
  have hpp := hp.append (ScanState.passes_of_step hs)
  have hrev : x :: read.reverse = (read ++ [x]).reverse := by simp
  rw [List.append_nil, ← ht.before, hrev] at hpp
  have hstart : read ++ c.rest = (read ++ [x]) ++ c'.rest := by rw [ht.rest, List.append_assoc]
  have hbefore : c'.before = front ++ (read ++ [x]) := by rw [ht.before, hf, List.append_assoc]
  refine leads ht (by simp) rfl rfl ?_
  rw [hstart]
  exact .inSection (ht.text.trans hc) hbefore hsec hpp

/-- A character that the scanner refuses. -/
theorem leads_of_refusal (hc : c.text = body) {s : ScanState} (hp : ScanState.Passes .between c.before tokens s)
    {x : Char} {rest : Text} (hr : c.rest = x :: rest) {e : Refusal} (hs : s.step x = .error e) :
    Turn.Leads body p (.ends (.error e)) := by
  have hscan : Token.scan body = .error e := by
    rw [← hc, Token.scan, Cursor.text, hr, ScanState.scan_of_stop hp hs]
  exact hscan ▸ .ends

/-- In a section the scanner does the same with each character. -/
theorem leads_of_bracketTurn (hc : c.text = body) (hf : c.before = front ++ read) (hsec : SectionRead read depth)
    (hp : ScanState.Passes .between c.before tokens (.inGenerics name read.reverse depth))
    (ht : BracketTurn tokens name (read ++ c.rest) depth c turn) :
    turn.Leads body (.inBrackets tokens name (read ++ c.rest) depth c.offset) := by
  have h1 := hsec.one_le
  have hm := hsec.le_maxDepth
  cases ht with
  | unclosed hr =>
    have hscan : Token.scan body = .error .unbalancedGenerics := by
      rw [← hc, Token.scan, Cursor.text, hr, List.append_nil, ScanState.scan_of_passes hp]
      rfl
    exact hscan ▸ .ends
  | tooDeep hr hd => exact leads_of_refusal hc hp hr (by simp [ScanState.step, Nat.not_lt.2 hd])
  | opens htook hd =>
    have hnext : SectionRead (read ++ ['<']) (depth + 1) := hsec.concat rfl (by omega) hd
    exact leads_of_step hc hf hp htook hnext (by simp [ScanState.step, hd])
  | closes htook hd =>
    have hn : depth ≠ 1 := by omega
    have hk : openBrackets ['>'] = -1 := rfl
    have hnext : SectionRead (read ++ ['>']) (depth - 1) := hsec.concat (by omega) (by omega) (by omega)
    exact leads_of_step hc hf hp htook hnext (by simp [ScanState.step, hn])
  | @completes taken c' htook hd hstart =>
    subst hd
    obtain rfl : read ++ ['>'] = taken := by
      rw [htook.rest, ← List.append_assoc] at hstart
      exact List.append_cancel_right hstart
    have hs : (ScanState.inGenerics name read.reverse 1).step '>' = .ok ([.word name (read ++ ['>'])], .between) := by
      simp [ScanState.step]
    have hpp := hp.append (ScanState.passes_of_step hs)
    rw [← htook.before] at hpp
    exact leads htook (by simp) rfl rfl (between (htook.text.trans hc) hpp)
  | @keeps x c' htook hx =>
    obtain ⟨ho, hk⟩ := ScanState.ne_of_isGenericsChar hx
    have h0 : openBrackets [x] = 0 := ScanState.openBrackets_of_isGenericsChar hx
    have hnext : SectionRead (read ++ [x]) depth := hsec.concat (by omega) h1 hm
    exact leads_of_step hc hf hp htook hnext (by simp [ScanState.step, ho, hk, hx])
  | refused hr ho hk hx => exact leads_of_refusal hc hp hr (by simp [ScanState.step, ho, hk, hx])

end InBrackets

/-- Each turn has a result, keeps the invariant and takes some text, or ends with the answer. -/
theorem exists_turn (h : Stands body p) : ∃ turn, p.turn? = some turn ∧ turn.Leads body p := by
  cases h with
  | @atToken c done w s hc hp hw ha =>
    obtain ⟨turn, he, ht⟩ := LoopPlace.readToken?_offset (done ++ w) c
    exact ⟨turn, he, leads_of_tokenTurn hc hp hw ha ht⟩
  | @atSection c tokens name s hc hp hs ho =>
    have hd : c.rest.head? = some '>' → 1 ≤ 0 := by
      rw [ho]
      intro e
      cases e
    obtain ⟨turn, he, ht⟩ := LoopPlace.readBracket?_offset tokens name [] hd
    exact ⟨turn, he, leads_of_first hc hp hs ho ht⟩
  | @inSection c tokens name front read depth hc hf hsec hp =>
    obtain ⟨turn, he, ht⟩ := LoopPlace.readBracket?_offset tokens name read fun _ => hsec.one_le
    exact ⟨turn, he, leads_of_bracketTurn hc hf hsec hp ht⟩

variable {q : LoopPlace} {n : Nat}

/-- A run of at least one turn goes on from the place that its first turn leads to. -/
theorem exists_next (h : Stands body p) (hq : p.after? (n + 1) = some q) :
    ∃ p' taken rest, Stands body p' ∧ p'.after? n = some q ∧
      taken ≠ [] ∧ p.cursor.rest? = some (taken ++ rest) ∧ p'.cursor.rest? = some rest := by
  obtain ⟨turn, ht, hl⟩ := h.exists_turn
  rw [LoopPlace.after?, ht] at hq
  cases hl with
  | goesOn hs hn hp hr => exact ⟨_, _, _, hs, hq, hn, hp, hr⟩
  | ends => cases hq

/-- The run, from what each turn does. -/
theorem after (h : Stands body p) (hq : p.after? n = some q) : Stands body q := by
  induction n generalizing p with
  | zero => cases hq; exact h
  | succ n ih =>
    obtain ⟨p', _, _, hs, hq', -⟩ := h.exists_next hq
    exact ih hs hq'

/-- Every turn shortens the unread text, so later places have less of it. -/
theorem shortens (h : Stands body p) (hq : p.after? (n + 1) = some q) :
    ∃ taken rest, taken ≠ [] ∧ p.cursor.rest? = some (taken ++ rest) ∧ q.cursor.rest? = some rest := by
  induction n generalizing p with
  | zero =>
    obtain ⟨p', taken, rest, -, hq', hn, hp, hr⟩ := h.exists_next hq
    cases hq'
    exact ⟨taken, rest, hn, hp, hr⟩
  | succ n ih =>
    obtain ⟨p', taken, rest, hs, hq', hn, hp, hr⟩ := h.exists_next hq
    obtain ⟨taken', rest', -, hp', hr'⟩ := ih hs hq'
    obtain rfl := Option.some.inj (hr.symm.trans hp')
    exact ⟨taken ++ taken', rest', by simp [hn], by rw [hp, List.append_assoc], hr'⟩

theorem exists_cursor (h : Stands body p) : ∃ c : Cursor, c.text = body ∧ p.cursor = c.offset := by
  cases h with
  | atToken hc | atSection hc | inSection hc => exact ⟨_, hc, rfl⟩

/-- The loops come to their end, for each turn leaves less to read. -/
theorem exists_end {p : LoopPlace} {rest : Text} (h : Stands body p) (hr : p.cursor.rest? = some rest) :
    ∃ n q, p.after? n = some q ∧ q.turn? = some (.ends (Token.scan body)) := by
  obtain ⟨turn, ht, hl⟩ := h.exists_turn
  cases hl with
  | ends => exact ⟨0, p, rfl, ht⟩
  | @goesOn p' taken rest' hs hn hp hr' =>
    have hlt : rest'.length < rest.length := by
      obtain rfl := Option.some.inj (hr.symm.trans hp)
      have := List.length_pos_iff.2 hn
      rw [List.length_append]
      omega
    obtain ⟨n, q, hq, he⟩ := hs.exists_end hr'
    exact ⟨n + 1, q, by rw [LoopPlace.after?, ht]; exact hq, he⟩
termination_by rest.length

end Stands

/-! ## The loops are safe -/

structure CutsSection (start taken rest : Text) : Prop where
  whole : start = taken ++ rest
  shortest : ShortestBalanced start taken
  /-- The difference is no negative number, and the length of the section. -/
  length : byteLength rest ≤ byteLength start ∧ byteLength start - byteLength rest = byteLength taken
  boundary : String.Pos.Raw.IsValid (String.ofList start) ⟨byteLength start - byteLength rest⟩

/-- What holds at a turn of the bracket loop: `front` was read in front of the section, `read` of the
    section, and `rest` is unread. -/
structure CountsBrackets (body : Text) (tokens : List Token) (name start : Text) (depth : Nat) (cursor : OffsetCursor)
    (front read rest : Text) : Prop where
  begins : body = front ++ start ∧ start.head? = some '<'
  consumed : start = read ++ rest ∧ cursor.rest? = some rest
  counter : (depth : Int) = read.count '<' - read.count '>'
  closing : rest.head? = some '>' → 1 ≤ depth ∧ depth ≤ Token.maxDepth
  /-- Behind the first bracket the scanner counts the same. -/
  scanner : read ≠ [] → ScanState.Passes .between (front ++ read) tokens (.inGenerics name read.reverse depth)
  completes : ∀ tokens' cursor', (LoopPlace.inBrackets tokens name start depth cursor).turn? =
      some (.goesOn (.atToken tokens' cursor')) →
    ∃ taken after, tokens' = tokens ++ [.word name taken] ∧ cursor'.rest? = some after ∧ CutsSection start taken after

structure SafeAt (body : Text) (p : LoopPlace) : Prop where
  /-- No difference is negative, and no cut is inside of a character. -/
  total : ∃ turn, p.turn? = some turn
  boundary : String.Pos.Raw.IsValid (String.ofList body) ⟨p.cursor.position⟩
  /-- Behind one turn or more there is less to read. -/
  shortens : ∀ n q, p.after? (n + 1) = some q →
    ∃ taken rest, taken ≠ [] ∧ p.cursor.rest? = some (taken ++ rest) ∧ q.cursor.rest? = some rest
  brackets : ∀ tokens name start depth cursor, p = .inBrackets tokens name start depth cursor →
    ∃ front read rest, CountsBrackets body tokens name start depth cursor front read rest

theorem cutsSection {read : Text} (h : SectionRead read 1) (rest : Text) :
    CutsSection (read ++ '>' :: rest) (read ++ ['>']) rest := by
  have he : read ++ '>' :: rest = (read ++ ['>']) ++ rest := by simp
  obtain ⟨hle, hs⟩ := LoopPlace.splitBytes?_difference (read ++ ['>']) rest
  rw [← he] at hle hs
  refine ⟨he, h.shortestBalanced rest, ⟨hle, (splitBytes?_eq_some_iff.1 hs).2.symm⟩, ?_⟩
  rw [← isSome_splitBytes?, hs]
  rfl

namespace Stands

variable {body : Text} {p : LoopPlace}

theorem countsBrackets {tokens : List Token} {name start : Text} {depth : Nat} {cursor : OffsetCursor}
    (h : Stands body (.inBrackets tokens name start depth cursor)) :
    ∃ front read rest, CountsBrackets body tokens name start depth cursor front read rest := by
  generalize hp : LoopPlace.inBrackets tokens name start depth cursor = p at h
  cases h with
  | atToken => cases hp
  | @atSection c _ _ s hc _ _ ho =>
    cases hp
    have hk : c.rest.head? ≠ some '>' := by
      rw [ho]
      simp
    refine ⟨c.before, [], c.rest, ?_⟩
    exact
      { begins := ⟨hc.symm, ho⟩
        consumed := ⟨rfl, c.rest?_offset⟩
        counter := rfl
        closing := fun h => absurd h hk
        scanner := fun h => absurd rfl h
        completes := fun tokens' cursor' ht => by
          obtain ⟨turn, hturn, hb⟩ := LoopPlace.readBracket?_offset tokens name [] fun h => absurd h hk
          obtain rfl := Option.some.inj (hturn.symm.trans ht)
          obtain ⟨_, _, _, hd, -⟩ := hb.of_atToken
          cases hd }
  | @inSection c _ _ front read depth hc hf hsec hpass =>
    cases hp
    refine ⟨front, read, c.rest, ?_⟩
    exact
      { begins := by
          refine ⟨?_, ?_⟩
          · rw [← hc, Cursor.text, hf, List.append_assoc]
          · rw [List.head?_append, hsec.opens]
            rfl
        consumed := ⟨rfl, c.rest?_offset⟩
        counter := hsec.depth_eq
        closing := fun _ => ⟨hsec.one_le, hsec.le_maxDepth⟩
        scanner := fun _ => hf ▸ hpass
        completes := fun tokens' cursor' ht => by
          obtain ⟨turn, hturn, hb⟩ := LoopPlace.readBracket?_offset tokens name read fun _ => hsec.one_le
          obtain rfl := Option.some.inj (hturn.symm.trans ht)
          obtain ⟨taken, c', htook, rfl, hstart, rfl, rfl⟩ := hb.of_atToken
          have hr : c.rest = '>' :: c'.rest := htook.rest
          obtain rfl : read ++ ['>'] = taken := by
            rw [hr, List.append_cons] at hstart
            exact List.append_cancel_right hstart
          exact ⟨_, c'.rest, rfl, c'.rest?_offset, hr ▸ cutsSection hsec c'.rest⟩ }

theorem safeAt (h : Stands body p) : SafeAt body p where
  total := by
    obtain ⟨turn, ht, -⟩ := h.exists_turn
    exact ⟨turn, ht⟩
  boundary := by
    obtain ⟨c, rfl, hp⟩ := h.exists_cursor
    rw [hp]
    exact c.isValid_offset
  shortens _ _ hq := h.shortens hq
  brackets _ _ _ _ _ hp := (hp ▸ h).countsBrackets

end Stands

/-- Whatever the body, the loops end with the answer of the scanner, and every turn until then is
    safe. -/
theorem bracket_loop_safe (body : Text) :
    (∃ n p, (LoopPlace.start body).after? n = some p ∧ p.turn? = some (.ends (Token.scan body))) ∧
      ∀ n p, (LoopPlace.start body).after? n = some p → SafeAt body p := by
  have hstart := Stands.start body
  refine ⟨hstart.exists_end (Cursor.rest?_offset (.ofText body)), fun n p hn => ?_⟩
  exact (hstart.after hn).safeAt

/-- In front of the first of two closing brackets, between which a blank of three bytes stands. -/
theorem bracket_loop_safe_wide_blank :
    let body : Text := "id <A<B>\u3000*>x*"
    let p : LoopPlace := .inBrackets [] "id" "<A<B>\u3000*>x*" 2 ⟨body, 7⟩
    (LoopPlace.start body).after? 5 = some p ∧ SafeAt body p ∧
      p.after? 4 = some (.atToken [.word "id" "<A<B>\u3000*>"] ⟨body, 13⟩) := by
  intro body p
  have hp : (LoopPlace.start body).after? 5 = some p := by rfl
  exact ⟨hp, (bracket_loop_safe body).2 5 p hp, by rfl⟩

end PropertyArchive
