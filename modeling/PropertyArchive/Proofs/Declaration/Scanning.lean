/-
  PropertyArchive.Proofs.Declaration.Scanning — the scanner finds exactly the tokens that
  a body spells.

  - What one character can do is said once (`ScanState.Moves`, `moves_of_step`); it keeps
    every place of the scanner well formed (`Moves.wellFormed`): a name is never empty and
    between one and `Token.maxDepth` brackets are open in a bracket section.
  - Forward: the scanner passes over a marker, a bare word and a word with a bracket
    section whatever comes behind them (`scan_pointer`, `scan_bare`, `scan_generic`).
  - Backward: what the unread text says from where the scanner stands (`ScanState.Reads`)
    is carried over one character (`Moves.reads`), and so over a whole run
    (`reads_of_scan`).
  - `scan_eq_ok_iff`: the scanner gives the tokens exactly where the body spells them.
    Scanned tokens are well formed (`Token.WellFormed`), and among those the annotating
    ones are the bare annotation words (`filter_not_isAnnotating`).
  - Without block markers a scan is refused for one of six reasons
    (`isScanRefusal_of_scan`).
-/
import PropertyArchive.Proofs.Declaration.Grammar

namespace PropertyArchive

open Text

/-! ## Kinds of characters -/

theorem isBlank_eq_false_of_isIdentifierChar {c : Char} (h : isIdentifierChar c = true) : isBlank c = false := by
  cases hb : isBlank c with
  | false => rfl
  | true => rw [not_isIdentifierChar_of_isBlank hb] at h; cases h

theorem ne_of_isIdentifierChar {c d : Char} (h : isIdentifierChar c = true) (hd : isIdentifierChar d = false) :
    c ≠ d := by
  intro e
  rw [← e, h] at hd
  cases hd

theorem isDigit_eq_true_iff {c : Char} (h : isIdentifierChar c = true) :
    c.isDigit = true ↔ isIdentifierStart c = false := by
  constructor
  · intro hd
    cases hs : isIdentifierStart c with
    | false => rfl
    | true =>
      exfalso
      simp only [Char.isDigit_iff_toNat, Char.reduceToNat] at hd
      simp only [isIdentifierStart, Bool.or_eq_true, beq_iff_eq, isAlpha_iff_toNat] at hs
      rcases hs with hs | rfl
      · omega
      · exact absurd hd (by decide)
  · intro hs
    simp only [isIdentifierStart, Bool.or_eq_false_iff] at hs
    simp only [isIdentifierChar, Char.isAlphanum, hs.1, hs.2, Bool.false_or, Bool.or_false] at h
    exact h

namespace ScanState

theorem ne_of_isGenericsChar {c : Char} (h : isGenericsChar c = true) : c ≠ '<' ∧ c ≠ '>' := by
  constructor
  · rintro rfl
    exact absurd h (by decide)
  · rintro rfl
    exact absurd h (by decide)

/-! ## What one character can do -/

inductive Moves : ScanState → Char → List Token → ScanState → Prop
  | skip {c : Char} : isBlank c = true → Moves between c [] between
  | mark : Moves between '*' [.pointer] between
  | start {c : Char} : isIdentifierChar c = true → Moves between c [] (inName [c])
  | more {c : Char} {read : Text} : isIdentifierChar c = true → Moves (inName read) c [] (inName (c :: read))
  | leave {c : Char} {read : Text} : isBlank c = true → Moves (inName read) c [] (afterName read.reverse)
  | openAtOnce {read : Text} : Moves (inName read) '<' [] (inGenerics read.reverse ['<'] 1)
  | markAtOnce {read : Text} : Moves (inName read) '*' [.word read.reverse [], .pointer] between
  | wait {c : Char} {name : Text} : isBlank c = true → Moves (afterName name) c [] (afterName name)
  | openLater {name : Text} : Moves (afterName name) '<' [] (inGenerics name ['<'] 1)
  | markLater {name : Text} : Moves (afterName name) '*' [.word name [], .pointer] between
  | startNext {c : Char} {name : Text} : isIdentifierChar c = true →
      Moves (afterName name) c [.word name []] (inName [c])
  | openInner {name read : Text} {depth : Nat} : depth < Token.maxDepth →
      Moves (inGenerics name read depth) '<' [] (inGenerics name ('<' :: read) (depth + 1))
  | closeInner {name read : Text} {depth : Nat} : depth ≠ 1 →
      Moves (inGenerics name read depth) '>' [] (inGenerics name ('>' :: read) (depth - 1))
  | closeOuter {name read : Text} :
      Moves (inGenerics name read 1) '>' [.word name ('>' :: read).reverse] between
  | keep {c : Char} {name read : Text} {depth : Nat} : isGenericsChar c = true →
      Moves (inGenerics name read depth) c [] (inGenerics name (c :: read) depth)

theorem moves_of_step {s s' : ScanState} {c : Char} {done : List Token} (h : s.step c = .ok (done, s')) :
    Moves s c done s' := by
  cases s with
  | between =>
    simp only [step] at h
    split at h
    · cases h; exact .skip ‹_›
    · split at h
      · subst c; cases h; exact .mark
      · split at h
        · cases h; exact .start ‹_›
        · cases h
  | inName read =>
    simp only [step] at h
    split at h
    · cases h; exact .more ‹_›
    · split at h
      · cases h; exact .leave ‹_›
      · split at h
        · subst c; cases h; exact .openAtOnce
        · split at h
          · subst c; cases h; exact .markAtOnce
          · cases h
  | afterName name =>
    simp only [step] at h
    split at h
    · cases h; exact .wait ‹_›
    · split at h
      · subst c; cases h; exact .openLater
      · split at h
        · subst c; cases h; exact .markLater
        · split at h
          · cases h; exact .startNext ‹_›
          · cases h
  | inGenerics name read depth =>
    simp only [step] at h
    split at h
    · split at h
      · subst c; cases h; exact .openInner ‹_›
      · cases h
    · split at h
      · split at h
        · subst c; subst depth; cases h; exact .closeOuter
        · subst c; cases h; exact .closeInner ‹_›
      · split at h
        · cases h; exact .keep ‹_›
        · cases h

def WellFormed : ScanState → Prop
  | between => True
  | inName read => Token.IsName read.reverse
  | afterName name => Token.IsName name
  | inGenerics name _ depth => Token.IsName name ∧ 1 ≤ depth ∧ depth ≤ Token.maxDepth

theorem isName_singleton {c : Char} (h : isIdentifierChar c = true) : Token.IsName [c] := by
  simp [Token.IsName, h]

theorem Moves.wellFormed {s s' : ScanState} {c : Char} {done : List Token} (h : Moves s c done s') (hw : s.WellFormed) :
    s'.WellFormed := by
  cases h with
  | skip | mark | markAtOnce | markLater | closeOuter => trivial
  | start hc | startNext hc => exact isName_singleton hc
  | more hc =>
    refine ⟨by simp, fun x hx => ?_⟩
    rcases List.mem_cons.1 (List.mem_reverse.1 hx) with rfl | hx
    · exact hc
    · exact hw.2 x (List.mem_reverse.2 hx)
  | leave _ | wait _ => exact hw
  | openAtOnce | openLater => exact ⟨hw, Nat.le_refl _, by decide⟩
  | openInner hd => exact ⟨hw.1, by omega, hd⟩
  | closeInner hd =>
    obtain ⟨hn, h1, hm⟩ := hw
    exact ⟨hn, by omega, by omega⟩
  | keep _ => exact hw

/-! ## Passing over a token -/

theorem scan_cons_of_step {s s' : ScanState} {c : Char} {done : List Token} (h : s.step c = .ok (done, s')) (t : Text) :
    s.scan (c :: t) = (s'.scan t).map (done ++ ·) := by
  simp only [scan, h]

theorem scan_cons_of_silent_step {s s' : ScanState} {c : Char} (h : s.step c = .ok ([], s')) (t : Text) :
    s.scan (c :: t) = s'.scan t := by
  rw [scan_cons_of_step h]
  cases s'.scan t <;> rfl

theorem scan_cons_of_step_error {s : ScanState} {c : Char} {e : Refusal} (h : s.step c = .error e) (t : Text) :
    s.scan (c :: t) = .error e := by
  simp only [scan, h]

theorem step_between_blank {c : Char} (h : isBlank c = true) : between.step c = .ok ([], between) := by simp [step, h]

theorem step_between_name {c : Char} (h : isIdentifierChar c = true) : between.step c = .ok ([], inName [c]) := by
  have hb := isBlank_eq_false_of_isIdentifierChar h
  have hm : c ≠ '*' := ne_of_isIdentifierChar h (by decide)
  simp [step, h, hb, hm]

theorem step_afterName_blank {c : Char} {name : Text} (h : isBlank c = true) :
    (afterName name).step c = .ok ([], afterName name) := by simp [step, h]

theorem scan_pointer (t : Text) : between.scan ('*' :: t) = (between.scan t).map (.pointer :: ·) := by
  have hs : between.step '*' = .ok ([.pointer], between) := by decide
  rw [scan_cons_of_step hs]
  rfl

theorem scan_more {read name : Text} (h : ∀ c ∈ name, isIdentifierChar c = true) (t : Text) :
    (inName read).scan (name ++ t) = (inName (name.reverse ++ read)).scan t := by
  induction name generalizing read with
  | nil => rfl
  | cons c name ih =>
    have hs : (inName read).step c = .ok ([], inName (c :: read)) := by simp [step, h c List.mem_cons_self]
    rw [List.cons_append, scan_cons_of_silent_step hs, ih fun x hx => h x (List.mem_cons_of_mem _ hx)]
    simp

theorem scan_name {name : Text} (h : Token.IsName name) (t : Text) :
    between.scan (name ++ t) = (inName name.reverse).scan t := by
  cases name with
  | nil => exact absurd rfl h.1
  | cons c name =>
    rw [List.cons_append, scan_cons_of_silent_step (step_between_name (h.2 c List.mem_cons_self)),
      scan_more fun x hx => h.2 x (List.mem_cons_of_mem _ hx)]
    simp

/-- Behind a name and a gap the scanner goes on as between tokens, unless a bracket
    section follows. -/
theorem scan_afterName (name : Text) {t : Text} (h : ∀ c ∈ (t.dropWhile isBlank).head?, c ≠ '<') :
    (afterName name).scan t = (between.scan t).map (.word name [] :: ·) := by
  induction t with
  | nil => rfl
  | cons c t ih =>
    cases hb : isBlank c with
    | true =>
      rw [scan_cons_of_silent_step (step_afterName_blank hb), scan_cons_of_silent_step (step_between_blank hb)]
      exact ih (by simpa [hb] using h)
    | false =>
      have hl : c ≠ '<' := h c (by simp [hb])
      by_cases hm : c = '*'
      · subst hm
        have hs : (afterName name).step '*' = .ok ([.word name [], .pointer], between) := rfl
        rw [scan_cons_of_step hs, scan_pointer]
        cases between.scan t <;> rfl
      · cases hc : isIdentifierChar c with
        | true =>
          have hs : (afterName name).step c = .ok ([.word name []], inName [c]) := by simp [step, hb, hl, hm, hc]
          rw [scan_cons_of_step hs, scan_cons_of_silent_step (step_between_name hc)]
          rfl
        | false =>
          have hs : (afterName name).step c = .error (refusal c) := by simp [step, hb, hl, hm, hc]
          have hs' : between.step c = .error (refusal c) := by simp [step, hb, hm, hc]
          rw [scan_cons_of_step_error hs, scan_cons_of_step_error hs']
          rfl

/-- At the end of a name it makes no difference whether a gap follows. -/
theorem scan_inName (read : Text) {t : Text} (h : ∀ c ∈ t.head?, isIdentifierChar c = false) :
    (inName read).scan t = (afterName read.reverse).scan t := by
  cases t with
  | nil => rfl
  | cons c t =>
    have hc : isIdentifierChar c = false := h c rfl
    have hs : (inName read).step c = (afterName read.reverse).step c := by simp [step, hc]
    simp only [scan, hs]

theorem scan_bare {name t : Text} (hn : Token.IsName name) (ht : ∀ c ∈ t.head?, isIdentifierChar c = false)
    (hl : ∀ c ∈ (t.dropWhile isBlank).head?, c ≠ '<') :
    between.scan (name ++ t) = (between.scan t).map (.word name [] :: ·) := by
  rw [scan_name hn, scan_inName _ ht, List.reverse_reverse, scan_afterName name hl]

theorem scan_wait {name gap : Text} (h : IsGap gap) (t : Text) :
    (afterName name).scan (gap ++ t) = (afterName name).scan t := by
  induction gap with
  | nil => rfl
  | cons c gap ih =>
    obtain ⟨hc, hg⟩ := isGap_cons.1 h
    rw [List.cons_append, scan_cons_of_silent_step (step_afterName_blank hc), ih hg]

/-- The inside of brackets is taken as it is, and leaves the depth as it was. -/
theorem scan_nested {limit : Nat} {inner : Text} (h : Token.Nested limit inner) {name read : Text} {depth : Nat}
    (h1 : 1 ≤ depth) (hm : depth + limit ≤ Token.maxDepth) (t : Text) :
    (inGenerics name read depth).scan (inner ++ t) = (inGenerics name (inner.reverse ++ read) depth).scan t := by
  induction h generalizing read depth t with
  | nil => rfl
  | @char limit c inner hc _ ih =>
    obtain ⟨ho, hk⟩ := ne_of_isGenericsChar hc
    have hs : (inGenerics name read depth).step c = .ok ([], inGenerics name (c :: read) depth) := by
      simp [step, ho, hk, hc]
    rw [List.cons_append, scan_cons_of_silent_step hs, ih h1 hm]
    simp
  | @group limit inner rest _ _ ihi ihr =>
    have hd : depth < Token.maxDepth := by omega
    have h0 : depth ≠ 0 := by omega
    have ho : (inGenerics name read depth).step '<' = .ok ([], inGenerics name ('<' :: read) (depth + 1)) := by
      simp [step, hd]
    have hk : (inGenerics name (inner.reverse ++ '<' :: read) (depth + 1)).step '>' =
        .ok ([], inGenerics name ('>' :: (inner.reverse ++ '<' :: read)) depth) := by
      simp [step, h0]
    rw [List.cons_append, scan_cons_of_silent_step ho, List.append_assoc, ihi (by omega) (by omega),
      List.cons_append, scan_cons_of_silent_step hk, ihr h1 hm]
    simp

theorem head?_gap_append_of_ne_nil {gap : Text} (hn : gap ≠ []) (hg : IsGap gap) (t : Text) :
    ∀ c ∈ (gap ++ t).head?, isIdentifierChar c = false := by
  intro c hc
  rw [List.head?_append_of_ne_nil gap hn] at hc
  exact not_isIdentifierChar_of_isBlank (hg c (List.mem_of_mem_head? hc))

theorem head?_gap_append {gap t : Text} (hg : IsGap gap) (ht : ∀ c ∈ t.head?, isIdentifierChar c = false) :
    ∀ c ∈ (gap ++ t).head?, isIdentifierChar c = false := by
  by_cases hn : gap = []
  · rw [hn]
    exact ht
  · exact head?_gap_append_of_ne_nil hn hg t

theorem scan_generic {name gap generics : Text} (hn : Token.IsName name) (hg : IsGap gap)
    (hb : Token.IsGenerics generics) (t : Text) :
    between.scan (name ++ (gap ++ (generics ++ t))) = (between.scan t).map (.word name generics :: ·) := by
  obtain ⟨inner, hi, rfl⟩ := hb
  have hh : ∀ c ∈ (gap ++ '<' :: (inner ++ ['>'] ++ t)).head?, isIdentifierChar c = false :=
    head?_gap_append hg fun c hc => by cases hc; decide
  have ho : (afterName name).step '<' = .ok ([], inGenerics name ['<'] 1) := rfl
  have hk : (inGenerics name (inner.reverse ++ ['<']) 1).step '>' =
      .ok ([.word name ('<' :: (inner ++ ['>']))], between) := by
    simp [step]
  rw [List.cons_append, scan_name hn, scan_inName _ hh, List.reverse_reverse, scan_wait hg,
    scan_cons_of_silent_step ho, List.append_assoc, scan_nested hi (Nat.le_refl 1) (by decide), List.singleton_append,
    scan_cons_of_step hk]
  rfl

/-! ## What the unread text says -/

/-- The text goes on to the bracket that closes the outermost of `depth` open ones. -/
inductive Closes : Nat → Text → Prop
  | last {inner : Text} : Token.Nested (Token.maxDepth - 1) inner → Closes 1 (inner ++ ['>'])
  | outer {depth : Nat} {inner t : Text} : Token.Nested (Token.maxDepth - (depth + 2)) inner → Closes (depth + 1) t →
      Closes (depth + 2) (inner ++ '>' :: t)

theorem Closes.char {depth : Nat} {c : Char} {t : Text} (hc : isGenericsChar c = true) (h : Closes depth t) :
    Closes depth (c :: t) := by
  cases h with
  | @last inner hi => exact @Closes.last (c :: inner) (.char hc hi)
  | @outer depth inner t hi ht => exact @Closes.outer depth (c :: inner) t (.char hc hi) ht

/-- An opening bracket and the text up to its match join the text in front of the next
    closing bracket. -/
theorem Closes.openBracket {depth : Nat} {t : Text} (h1 : 1 ≤ depth) (hm : depth < Token.maxDepth)
    (h : Closes (depth + 1) t) : Closes depth ('<' :: t) := by
  cases h with
  | last => omega
  | @outer depth inner t hi ht =>
    have hl : Token.maxDepth - (depth + 1) = Token.maxDepth - (depth + 2) + 1 := by omega
    cases ht with
    | @last rest hr =>
      have hg : Token.Nested (Token.maxDepth - 1) ('<' :: (inner ++ '>' :: rest)) := by
        rw [hl] at hr ⊢; exact .group hi hr
      simpa using Closes.last hg
    | @outer depth rest t hr ht =>
      have hg : Token.Nested (Token.maxDepth - (depth + 2)) ('<' :: (inner ++ '>' :: rest)) := by
        rw [hl] at hr ⊢; exact .group hi hr
      simpa using Closes.outer hg ht

theorem Closes.isGenerics {t : Text} (h : Closes 1 t) : Token.IsGenerics ('<' :: t) := by
  cases h with
  | last hi => exact ⟨_, hi, rfl⟩

/-- What tokens the unread text spells, from where the scanner stands. -/
def Reads : ScanState → Text → List Token → Prop
  | between, t, ts => Token.Spells t ts
  | inName read, t, ts => Token.Spells (read.reverse ++ t) ts
  | afterName name, t, ts => ∀ gap, gap ≠ [] → IsGap gap → Token.Spells (name ++ (gap ++ t)) ts
  | inGenerics name read depth, t, ts =>
    ∃ close rest others, t = close ++ rest ∧ Closes depth close ∧
      ts = .word name (read.reverse ++ close) :: others ∧ Token.Spells rest others

theorem spells_gap {gap t : Text} {ts : List Token} (hg : IsGap gap) (h : Token.Spells t ts) :
    Token.Spells (gap ++ t) ts := by
  induction gap with
  | nil => exact h
  | cons c gap ih =>
    obtain ⟨hc, hg⟩ := isGap_cons.1 hg
    exact .blank hc (ih hg)

/-- One character carries what the unread text says back to where the scanner stood. -/
theorem Moves.reads {s s' : ScanState} {c : Char} {done ts : List Token} {t : Text} (h : Moves s c done s')
    (hw : s.WellFormed) (hr : s'.Reads t ts) : s.Reads (c :: t) (done ++ ts) := by
  cases h with
  | skip hc => exact .blank hc hr
  | mark => exact .pointer hr
  | start hc => exact hr
  | more hc => simpa [Reads] using hr
  | leave hc => simpa [Reads] using hr [c] (by simp) (by simp [IsGap, hc])
  | openAtOnce =>
    obtain ⟨close, rest, others, rfl, hcl, rfl, hs⟩ := hr
    simpa [Reads] using Token.Spells.generic hw isGap_nil hcl.isGenerics hs
  | markAtOnce => exact .bare hw (fun c hc => by cases hc; decide) (.pointer hr)
  | wait hc =>
    intro gap hn hg
    simpa using hr (gap ++ [c]) (by simp) (hg.append (by simp [IsGap, hc]))
  | openLater =>
    obtain ⟨close, rest, others, rfl, hcl, rfl, hs⟩ := hr
    intro gap _ hg
    simpa using Token.Spells.generic hw hg hcl.isGenerics hs
  | markLater =>
    intro gap hn hg
    exact .bare hw (head?_gap_append_of_ne_nil hn hg _) (spells_gap hg (.pointer hr))
  | startNext hc =>
    intro gap hn hg
    exact .bare hw (head?_gap_append_of_ne_nil hn hg _) (spells_gap hg hr)
  | openInner hd =>
    obtain ⟨close, rest, others, rfl, hcl, rfl, hs⟩ := hr
    exact ⟨'<' :: close, rest, others, rfl, hcl.openBracket hw.2.1 hd, by simp, hs⟩
  | @closeInner name read depth hd =>
    obtain ⟨close, rest, others, rfl, hcl, rfl, hs⟩ := hr
    obtain ⟨-, h1, -⟩ := hw
    obtain ⟨k, rfl⟩ : ∃ k, depth = k + 2 := ⟨depth - 2, by omega⟩
    exact ⟨'>' :: close, rest, others, rfl, @Closes.outer k [] close .nil hcl, by simp, hs⟩
  | closeOuter => exact ⟨['>'], t, ts, rfl, .last .nil, by simp, hr⟩
  | keep hc =>
    obtain ⟨close, rest, others, rfl, hcl, rfl, hs⟩ := hr
    exact ⟨_ :: close, rest, others, rfl, hcl.char hc, by simp, hs⟩

theorem reads_of_finish {s : ScanState} {ts : List Token} (hw : s.WellFormed) (h : s.finish = .ok ts) :
    s.Reads [] ts := by
  cases s with
  | between => cases h; exact .nil
  | inName read => cases h; exact .bare hw (by simp) .nil
  | afterName name =>
    cases h
    intro gap hn hg
    exact .bare hw (head?_gap_append_of_ne_nil hn hg _) (spells_gap hg .nil)
  | inGenerics name read depth => cases h

/-- A scan that ends well says what the unread text spells. -/
theorem reads_of_scan {t : Text} {s : ScanState} {ts : List Token} (hw : s.WellFormed) (h : s.scan t = .ok ts) :
    s.Reads t ts := by
  induction t generalizing s ts with
  | nil => exact reads_of_finish hw h
  | cons c t ih =>
    cases hs : s.step c with
    | error e => rw [scan_cons_of_step_error hs] at h; cases h
    | ok r =>
      obtain ⟨done, s'⟩ := r
      rw [scan_cons_of_step hs] at h
      have hm := moves_of_step hs
      cases ho : s'.scan t with
      | error e => rw [ho] at h; cases h
      | ok others =>
        rw [ho] at h
        cases h
        exact hm.reads hw (ih (hm.wellFormed hw) ho)

/-! ## Refusals of the scanner -/

inductive IsScanRefusal : Refusal → Prop
  | functionPointer : IsScanRefusal .functionPointer
  | arrayDeclarator : IsScanRefusal .arrayDeclarator
  | multipleDeclarators : IsScanRefusal .multipleDeclarators
  | unbalancedGenerics : IsScanRefusal .unbalancedGenerics
  | nestingLimit : IsScanRefusal (.nestingLimit Token.maxDepth)
  | unexpectedCharacter (c : Char) : IsScanRefusal (.unexpectedCharacter c)

theorem isScanRefusal_refusal {c : Char} (h : c ≠ '^') : IsScanRefusal (refusal c) := by
  unfold refusal
  rw [if_neg h]
  split
  · exact .functionPointer
  · split
    · exact .arrayDeclarator
    · split
      · exact .multipleDeclarators
      · split
        · exact .unbalancedGenerics
        · exact .unexpectedCharacter c

def depth : ScanState → Nat
  | between => 0
  | inName _ => 0
  | afterName _ => 0
  | inGenerics _ _ depth => depth

/-- A character is refused for what it is, or for opening a bracket too many. -/
theorem step_eq_error {s : ScanState} {c : Char} {e : Refusal} (h : s.step c = .error e) :
    (e = refusal c ∧ (c = '<' → s.depth = 0)) ∨
      (e = .nestingLimit Token.maxDepth ∧ c = '<' ∧ Token.maxDepth ≤ s.depth) := by
  cases s with
  | between | inName | afterName =>
    simp only [step] at h
    repeat' split at h
    all_goals cases h
    exact .inl ⟨rfl, fun _ => rfl⟩
  | inGenerics name read depth =>
    simp only [step] at h
    split at h
    · rename_i hc
      split at h
      · cases h
      · rename_i hd
        cases h
        exact .inr ⟨rfl, hc, Nat.le_of_not_lt hd⟩
    · rename_i hc
      repeat' split at h
      all_goals cases h
      exact .inl ⟨rfl, fun e => absurd e hc⟩

theorem isScanRefusal_of_scan {t : Text} {s : ScanState} {e : Refusal} (hb : '^' ∉ t) (h : s.scan t = .error e) :
    IsScanRefusal e := by
  induction t generalizing s with
  | nil => cases s <;> cases h; exact .unbalancedGenerics
  | cons c t ih =>
    obtain ⟨hc, ht⟩ := List.ne_and_not_mem_of_not_mem_cons hb
    cases hs : s.step c with
    | error e' =>
      rw [scan_cons_of_step_error hs] at h
      cases h
      rcases step_eq_error hs with ⟨rfl, -⟩ | ⟨rfl, -⟩
      · exact isScanRefusal_refusal hc.symm
      · exact .nestingLimit
    | ok r =>
      obtain ⟨done, s'⟩ := r
      rw [scan_cons_of_step hs] at h
      cases ho : s'.scan t with
      | error e' => rw [ho] at h; cases h; exact ih ht ho
      | ok others => rw [ho] at h; cases h

end ScanState

namespace Token

/-! ## Scanning is spelling -/

theorem head?_append_of_isName {name : Text} (h : IsName name) (t : Text) :
    ∀ c ∈ (name ++ t).head?, isIdentifierChar c = true := by
  intro c hc
  rw [List.head?_append_of_ne_nil name h.1] at hc
  exact h.2 c (List.mem_of_mem_head? hc)

theorem head?_dropWhile_append_of_isName {name : Text} (h : IsName name) (t : Text) :
    ∀ c ∈ ((name ++ t).dropWhile isBlank).head?, isIdentifierChar c = true := by
  have hb : ∀ c ∈ (name ++ t).head?, isBlank c = false :=
    fun c hc => isBlank_eq_false_of_isIdentifierChar (head?_append_of_isName h t c hc)
  have hd : (name ++ t).dropWhile isBlank = name ++ t := dropWhile_gap_append isGap_nil hb
  rw [hd]
  exact head?_append_of_isName h t

/-- No token starts with a bracket. -/
theorem Spells.head?_ne {t : Text} {ts : List Token} (h : Spells t ts) :
    ∀ c ∈ (t.dropWhile isBlank).head?, c ≠ '<' := by
  induction h with
  | nil => simp
  | blank hc _ ih => simpa [hc] using ih
  | pointer _ => intro c hc; cases hc; decide
  | bare hn _ _ => exact fun c hc => ne_of_isIdentifierChar (head?_dropWhile_append_of_isName hn _ c hc) (by decide)
  | generic hn _ _ _ =>
    exact fun c hc => ne_of_isIdentifierChar (head?_dropWhile_append_of_isName hn _ c hc) (by decide)

theorem scan_of_spells {t : Text} {ts : List Token} (h : Spells t ts) : ScanState.between.scan t = .ok ts := by
  induction h with
  | nil => rfl
  | blank hc _ ih => rw [ScanState.scan_cons_of_silent_step (ScanState.step_between_blank hc), ih]
  | pointer _ ih => rw [ScanState.scan_pointer, ih]; rfl
  | bare hn ht hs ih => rw [ScanState.scan_bare hn ht hs.head?_ne, ih]; rfl
  | generic hn hg hb _ ih => rw [ScanState.scan_generic hn hg hb, ih]; rfl

/-- The scanner gives the tokens exactly where the body spells them. -/
theorem scan_eq_ok_iff {body : Text} {ts : List Token} : scan body = .ok ts ↔ Spells body ts :=
  ⟨ScanState.reads_of_scan trivial, scan_of_spells⟩

/-! ## Spelled tokens -/

def WellFormed : Token → Prop
  | word name generics => IsName name ∧ (generics = [] ∨ IsGenerics generics)
  | pointer => True

theorem Spells.wellFormed {t : Text} {ts : List Token} (h : Spells t ts) : ∀ x ∈ ts, x.WellFormed := by
  induction h with
  | nil => simp
  | blank _ _ ih => exact ih
  | pointer _ ih => exact List.forall_mem_cons.2 ⟨trivial, ih⟩
  | bare hn _ _ ih => exact List.forall_mem_cons.2 ⟨⟨hn, .inl rfl⟩, ih⟩
  | generic hn _ hb _ ih => exact List.forall_mem_cons.2 ⟨⟨hn, .inr hb⟩, ih⟩

theorem mem_of_isGenerics {t : Text} (h : IsGenerics t) : '<' ∈ t := by
  obtain ⟨inner, -, rfl⟩ := h
  exact List.mem_cons_self

/-- A word with a bracket section is never an annotation word. -/
theorem isAnnotating_iff {t : Token} (h : t.WellFormed) : t.isAnnotating = true ↔ t ∈ annotations := by
  have hl : ∀ w ∈ annotationWords, '<' ∉ w := by decide
  cases t with
  | pointer => simp [isAnnotating, annotations]
  | word name generics =>
    simp only [isAnnotating, annotations, decide_eq_true_eq, List.mem_map, word.injEq]
    constructor
    · intro hm
      rcases h.2 with rfl | hg
      · exact ⟨name, by simpa using hm, rfl, rfl⟩
      · exact absurd (List.mem_append_right name (mem_of_isGenerics hg)) (hl _ hm)
    · intro h
      obtain ⟨w, hw, rfl, rfl⟩ := h
      simpa using hw

theorem filter_not_isAnnotating {ts : List Token} (h : ∀ t ∈ ts, t.WellFormed) :
    ts.filter (!·.isAnnotating) = dropAnnotations ts := by
  refine List.filter_congr fun t ht => ?_
  have hi := isAnnotating_iff (h t ht)
  cases ha : t.isAnnotating with
  | true => simp [hi.1 ha]
  | false =>
    have hn : t ∉ annotations := fun hm => by rw [hi.2 hm] at ha; cases ha
    simp [hn]

def IsGenericsText (t : Text) : Prop := ∀ c ∈ t, ScanState.isGenericsChar c = true ∨ c = '<' ∨ c = '>'

theorem Nested.isGenericsText {limit : Nat} {t : Text} (h : Nested limit t) : IsGenericsText t := by
  induction h with
  | nil => simp [IsGenericsText]
  | char hc _ ih => exact List.forall_mem_cons.2 ⟨.inl hc, ih⟩
  | group _ _ ihi ihr =>
    refine List.forall_mem_cons.2 ⟨.inr (.inl rfl), fun c hc => ?_⟩
    rcases List.mem_append.1 hc with hc | hc
    · exact ihi c hc
    · exact List.forall_mem_cons.2 ⟨.inr (.inr rfl), ihr⟩ c hc

theorem IsGenerics.isGenericsText {t : Text} (h : IsGenerics t) : IsGenericsText t := by
  obtain ⟨inner, hi, rfl⟩ := h
  refine List.forall_mem_cons.2 ⟨.inr (.inl rfl), fun c hc => ?_⟩
  rcases List.mem_append.1 hc with hc | hc
  · exact hi.isGenericsText c hc
  · exact .inr (.inr (List.mem_singleton.1 hc))

theorem isGenericsChar_of_isBlank {c : Char} (h : isBlank c = true) : ScanState.isGenericsChar c = true := by
  simp [ScanState.isGenericsChar, h]

theorem isGenericsChar_of_isIdentifierChar {c : Char} (h : isIdentifierChar c = true) :
    ScanState.isGenericsChar c = true := by
  simp [ScanState.isGenericsChar, h]

/-- A body of tokens has no other characters either. -/
theorem Spells.isGenericsText {t : Text} {ts : List Token} (h : Spells t ts) : IsGenericsText t := by
  induction h with
  | nil => simp [IsGenericsText]
  | blank hc _ ih => exact List.forall_mem_cons.2 ⟨.inl (isGenericsChar_of_isBlank hc), ih⟩
  | pointer _ ih => exact List.forall_mem_cons.2 ⟨.inl (by decide), ih⟩
  | bare hn _ _ ih =>
    exact List.forall_mem_append.2 ⟨fun c hc => .inl (isGenericsChar_of_isIdentifierChar (hn.2 c hc)), ih⟩
  | generic hn hg hb _ ih =>
    refine List.forall_mem_append.2 ⟨fun c hc => .inl (isGenericsChar_of_isIdentifierChar (hn.2 c hc)), ?_⟩
    refine List.forall_mem_append.2 ⟨fun c hc => .inl (isGenericsChar_of_isBlank (hg c hc)), ?_⟩
    exact List.forall_mem_append.2 ⟨hb.isGenericsText, ih⟩

theorem Spells.not_mem {t : Text} {ts : List Token} (h : Spells t ts) {d : Char}
    (hd : ScanState.isGenericsChar d = false ∧ d ≠ '<' ∧ d ≠ '>') : d ∉ t := by
  intro hm
  rcases h.isGenericsText d hm with h | h | h
  · rw [hd.1] at h; cases h
  · exact hd.2.1 h
  · exact hd.2.2 h

end Token

end PropertyArchive
