/-
  PropertyArchive.Proofs.Declaration.Assembly — the declaration of a token sequence, or
  what is wrong with it.

  A token does not fit behind others where it is a word behind a marker, or a word that
  starts with a digit (`Misfit`). The fault of a type is its leftmost misfit
  (`FirstMisfit`), whichever of the two it is; `TokenFault` adds the faults of the last
  token, which come first, and the missing type, which comes last. Tokens without
  annotation words either make a declaration (`ofBareTokens_eq_ok_iff`) or have a fault
  (`ofBareTokens_eq_error_iff`).
-/
import PropertyArchive.Proofs.Declaration.Scanning
import PropertyArchive.Proofs.Outcome

namespace PropertyArchive.Declaration

open Text Outcome

/-! ## Misfits -/

/-- A word of a type that cannot stand behind the tokens `before`. -/
inductive Misfit (before : List Token) : Token → Refusal → Prop
  | behindMarker {name generics : Text} : .pointer ∈ before → Misfit before (.word name generics) .misplacedPointer
  | startsWithDigit {name generics : Text} : .pointer ∉ before → (∃ c ∈ name.head?, c.isDigit = true) →
      Misfit before (.word name generics) (.invalidType (name ++ generics))

def Fits (ts : List Token) : Prop := ∀ before t after e, ts = before ++ t :: after → ¬ Misfit before t e

/-- The leftmost misfit of `ts`, which stand behind `front`. -/
def FirstMisfitBehind (front ts : List Token) (e : Refusal) : Prop :=
  ∃ before t after, ts = before ++ t :: after ∧ Fits (front ++ before) ∧ Misfit (front ++ before) t e

def FirstMisfit (ts : List Token) (e : Refusal) : Prop :=
  ∃ before t after, ts = before ++ t :: after ∧ Fits before ∧ Misfit before t e

inductive TokenFault : List Token → Refusal → Prop
  | noToken : TokenFault [] .missingName
  | markerLast {ts : List Token} : TokenFault (ts ++ [.pointer]) .missingName
  | invalidName {ts : List Token} {name generics : Text} : isIdentifier (name ++ generics) = false →
      TokenFault (ts ++ [.word name generics]) (.invalidName (name ++ generics))
  | misfit {ts : List Token} {name generics : Text} {e : Refusal} : isIdentifier (name ++ generics) = true →
      FirstMisfit ts e → TokenFault (ts ++ [.word name generics]) e
  | missingType {ts : List Token} {name generics : Text} : isIdentifier (name ++ generics) = true →
      (∀ t ∈ ts, t = .pointer) → TokenFault (ts ++ [.word name generics]) .missingType

theorem fits_nil : Fits [] := by
  intro before t after e h
  cases before <;> cases h

theorem fits_append_singleton {ts : List Token} {t : Token} (h : Fits ts) (ht : ∀ e, ¬ Misfit ts t e) :
    Fits (ts ++ [t]) := by
  intro before x after e he
  rcases List.eq_nil_or_concat after with rfl | ⟨after, y, rfl⟩
  · obtain ⟨rfl, hx⟩ := List.append_inj' he rfl
    cases hx
    exact ht e
  · rw [List.concat_eq_append, ← List.cons_append, ← List.append_assoc] at he
    exact h before x after e (List.append_inj' he rfl).1

theorem firstMisfitBehind_nil {front : List Token} {e : Refusal} : ¬ FirstMisfitBehind front [] e := by
  intro h
  obtain ⟨before, t, after, h, -⟩ := h
  cases before <;> cases h

/-- A misfit at the front is the leftmost one. -/
theorem firstMisfitBehind_cons_of_misfit {front ts : List Token} {t : Token} {e e' : Refusal} (hf : Fits front)
    (ht : Misfit front t e) : FirstMisfitBehind front (t :: ts) e' ↔ Misfit front t e' := by
  constructor
  · intro h
    obtain ⟨before, x, after, h, hb, hx⟩ := h
    cases before with
    | nil =>
      cases h
      rwa [List.append_nil] at hx
    | cons y before =>
      cases h
      exact absurd ht (hb front t before e (by simp))
  · intro h
    exact ⟨[], t, ts, rfl, by rwa [List.append_nil], by rwa [List.append_nil]⟩

/-- Behind a token that fits the search goes on. -/
theorem firstMisfitBehind_cons_of_fits {front ts : List Token} {t : Token} {e : Refusal}
    (ht : ∀ e, ¬ Misfit front t e) :
    FirstMisfitBehind front (t :: ts) e ↔ FirstMisfitBehind (front ++ [t]) ts e := by
  constructor
  · intro h
    obtain ⟨before, x, after, h, hb, hx⟩ := h
    cases before with
    | nil =>
      cases h
      rw [List.append_nil] at hx
      exact absurd hx (ht e)
    | cons y before =>
      cases h
      exact ⟨before, x, after, rfl, by simpa using hb, by simpa using hx⟩
  · intro h
    obtain ⟨before, x, after, rfl, hb, hx⟩ := h
    exact ⟨t :: before, x, after, rfl, by simpa using hb, by simpa using hx⟩

/-! ## Reading a type -/

theorem countMarkers_eq_ok_iff {ts : List Token} {n : Nat} :
    countMarkers ts = .ok n ↔ ts = List.replicate n .pointer := by
  induction ts generalizing n with
  | nil => cases n <;> simp [countMarkers, List.replicate_succ]
  | cons t ts ih =>
    cases t with
    | word name generics => cases n <;> simp [countMarkers, List.replicate_succ]
    | pointer =>
      rw [countMarkers, map_eq_ok_iff]
      cases n with
      | zero => simp
      | succ n => simp [List.replicate_succ, ih]

theorem countMarkers_eq_error_iff {front ts : List Token} {e : Refusal} (hp : .pointer ∈ front) (hf : Fits front) :
    countMarkers ts = .error e ↔ FirstMisfitBehind front ts e := by
  induction ts generalizing front with
  | nil =>
    have hn : ¬ FirstMisfitBehind front [] e := firstMisfitBehind_nil
    simp [countMarkers, hn]
  | cons t ts ih =>
    cases t with
    | word name generics =>
      rw [firstMisfitBehind_cons_of_misfit hf (.behindMarker hp), countMarkers]
      constructor
      · intro h; cases h; exact .behindMarker hp
      · intro h
        cases h with
        | behindMarker => rfl
        | startsWithDigit hn => exact absurd hp hn
    | pointer =>
      have ht : ∀ e, ¬ Misfit front .pointer e := fun e h => by cases h
      rw [firstMisfitBehind_cons_of_fits ht, countMarkers, map_eq_error_iff]
      exact ih (List.mem_append_left _ hp) (fits_append_singleton hf ht)

theorem starts_iff {w : TypeWord} : w.1.head?.any isIdentifierStart = true ↔ w.Starts := by
  cases h : w.1.head? <;> simp [TypeWord.Starts, h]

/-- The first character of a name is a digit or may start an identifier. -/
theorem not_starts_iff {name : Text} (generics : Text) (h : Token.IsName name) :
    ¬ TypeWord.Starts (name, generics) ↔ ∃ c ∈ name.head?, c.isDigit = true := by
  cases name with
  | nil => exact absurd rfl h.1
  | cons c name =>
    have hd := isDigit_eq_true_iff (h.2 c List.mem_cons_self)
    simp [TypeWord.Starts, hd]

/-- Words and markers behind them that start with a word. -/
theorem word_cons_eq_iff {words : List TypeWord} {depth : Nat} {name generics : Text} {ts : List Token} :
    .word name generics :: ts = words.map TypeWord.token ++ List.replicate depth .pointer ↔
      ∃ others, words = (name, generics) :: others ∧
        ts = others.map TypeWord.token ++ List.replicate depth .pointer := by
  cases words with
  | nil => cases depth <;> simp [List.replicate_succ]
  | cons w words =>
    obtain ⟨n, g⟩ := w
    simp [TypeWord.token, eq_comm, and_assoc]

/-- Words and markers behind them that start with a marker. -/
theorem pointer_cons_eq_iff {words : List TypeWord} {depth : Nat} {ts : List Token} :
    .pointer :: ts = words.map TypeWord.token ++ List.replicate depth .pointer ↔
      words = [] ∧ ∃ n, depth = n + 1 ∧ ts = List.replicate n .pointer := by
  cases words with
  | nil => cases depth <;> simp [List.replicate_succ]
  | cons w words => simp [TypeWord.token]

theorem readType_eq_ok_iff {ts : List Token} {texts : List Text} {depth : Nat} :
    readType ts = .ok (texts, depth) ↔ ∃ words : List TypeWord,
      ts = words.map TypeWord.token ++ List.replicate depth .pointer ∧ texts = words.map TypeWord.text ∧
        ∀ w ∈ words, w.Starts := by
  induction ts generalizing texts depth with
  | nil =>
    refine ⟨fun h => ?_, fun h => ?_⟩
    · cases h
      exact ⟨[], rfl, rfl, by simp⟩
    · obtain ⟨words, h, rfl, -⟩ := h
      obtain ⟨hw, hd⟩ := List.append_eq_nil_iff.1 h.symm
      rw [List.map_eq_nil_iff.1 hw, (List.replicate_eq_nil_iff _).1 hd]
      rfl
  | cons t ts ih =>
    cases t with
    | word name generics =>
      by_cases hst : TypeWord.Starts (name, generics)
      · rw [readType, if_pos (starts_iff.2 hst), map_eq_ok_iff]
        refine ⟨fun h => ?_, fun h => ?_⟩
        · obtain ⟨⟨others, n⟩, hr, he⟩ := h
          cases he
          obtain ⟨words, hts, rfl, hw⟩ := ih.1 hr
          exact ⟨(name, generics) :: words, word_cons_eq_iff.2 ⟨words, rfl, hts⟩, rfl, List.forall_mem_cons.2 ⟨hst, hw⟩⟩
        · obtain ⟨words, hts, rfl, hw⟩ := h
          obtain ⟨others, rfl, hrest⟩ := word_cons_eq_iff.1 hts
          exact ⟨(others.map TypeWord.text, depth), ih.2 ⟨others, hrest, rfl, (List.forall_mem_cons.1 hw).2⟩, rfl⟩
      · rw [readType, if_neg fun h => hst (starts_iff.1 h)]
        refine ⟨fun h => ?_, fun h => ?_⟩
        · cases h
        · obtain ⟨words, hts, -, hw⟩ := h
          obtain ⟨others, rfl, -⟩ := word_cons_eq_iff.1 hts
          exact absurd (hw _ List.mem_cons_self) hst
    | pointer =>
      rw [readType, map_eq_ok_iff]
      refine ⟨fun h => ?_, fun h => ?_⟩
      · obtain ⟨n, hc, he⟩ := h
        cases he
        exact ⟨[], pointer_cons_eq_iff.2 ⟨rfl, n, rfl, countMarkers_eq_ok_iff.1 hc⟩, rfl, by simp⟩
      · obtain ⟨words, hts, rfl, -⟩ := h
        obtain ⟨rfl, n, rfl, hrest⟩ := pointer_cons_eq_iff.1 hts
        exact ⟨n, countMarkers_eq_ok_iff.2 hrest, rfl⟩

theorem readType_eq_error_iff {front ts : List Token} {e : Refusal} (hw : ∀ t ∈ ts, t.WellFormed)
    (hp : .pointer ∉ front) (hf : Fits front) : readType ts = .error e ↔ FirstMisfitBehind front ts e := by
  induction ts generalizing front with
  | nil =>
    have hn : ¬ FirstMisfitBehind front [] e := firstMisfitBehind_nil
    simp [readType, hn]
  | cons t ts ih =>
    obtain ⟨ht, hts⟩ := List.forall_mem_cons.1 hw
    cases t with
    | word name generics =>
      have hd := not_starts_iff generics ht.1
      by_cases hst : TypeWord.Starts (name, generics)
      · have hm : ∀ e, ¬ Misfit front (.word name generics) e := by
          intro e h
          cases h with
          | behindMarker h => exact hp h
          | startsWithDigit _ h => exact hd.2 h hst
        have hn : .pointer ∉ front ++ [.word name generics] := by simp [hp]
        rw [firstMisfitBehind_cons_of_fits hm, readType, if_pos (starts_iff.2 hst), map_eq_error_iff]
        exact ih hts hn (fits_append_singleton hf hm)
      · rw [firstMisfitBehind_cons_of_misfit hf (.startsWithDigit hp (hd.1 hst)), readType,
          if_neg fun h => hst (starts_iff.1 h)]
        constructor
        · intro h; cases h; exact .startsWithDigit hp (hd.1 hst)
        · intro h
          cases h with
          | behindMarker h => exact absurd h hp
          | startsWithDigit => rfl
    | pointer =>
      have hm : ∀ e, ¬ Misfit front .pointer e := fun e h => by cases h
      rw [firstMisfitBehind_cons_of_fits hm, readType, map_eq_error_iff]
      exact countMarkers_eq_error_iff (List.mem_append_right _ List.mem_cons_self) (fits_append_singleton hf hm)

/-! ## The last token -/

/-- A word with a bracket section is no identifier. -/
theorem eq_nil_of_isIdentifier {name generics : Text} (h : (Token.word name generics).WellFormed)
    (hi : isIdentifier (name ++ generics) = true) : generics = [] := by
  rcases h.2 with hg | hg
  · exact hg
  · have hc := List.all_eq_true.1 (all_isIdentifierChar hi) '<' (List.mem_append_right _ (Token.mem_of_isGenerics hg))
    exact absurd hc (by decide)

/-- Behind a type that can be read stands the value of its parts. -/
theorem ofBareTokens_of_assembles {attributes : Option Text} {ts : List Token} {d : Declaration}
    (h : Assembles attributes ts d) : ofBareTokens attributes ts = .ok d := by
  obtain ⟨words, depth, name, rfl, hn, hw, hi, rfl⟩ := h
  have hr : readType (words.map TypeWord.token ++ List.replicate depth .pointer) =
      .ok (words.map TypeWord.text, depth) :=
    readType_eq_ok_iff.2 ⟨words, rfl, rfl, hw⟩
  have hm : words.map TypeWord.text ≠ [] := fun h => hn (List.map_eq_nil_iff.1 h)
  simp only [ofBareTokens, partTokens, ← List.append_assoc, List.getLast?_concat, List.dropLast_concat, hr,
    List.append_nil, hi, if_true]
  show (if _ then _ else _) = _
  rw [if_neg hm]
  rfl

theorem ofBareTokens_of_fault {attributes : Option Text} {ts : List Token} {e : Refusal} (hw : ∀ t ∈ ts, t.WellFormed)
    (h : TokenFault ts e) : ofBareTokens attributes ts = .error e := by
  cases h with
  | noToken => rfl
  | markerLast => simp only [ofBareTokens, List.getLast?_concat]
  | invalidName hi => simp only [ofBareTokens, List.getLast?_concat, hi, Bool.false_eq_true, if_false]
  | @misfit ts name generics _ hi hm =>
    have hts : ∀ t ∈ ts, t.WellFormed := fun t ht => hw t (List.mem_append_left _ ht)
    have hr : readType ts = .error e := (readType_eq_error_iff hts List.not_mem_nil fits_nil).2 hm
    simp only [ofBareTokens, List.getLast?_concat, List.dropLast_concat, hi, if_true, hr]
    rfl
  | @missingType ts name generics hi hp =>
    have hr : readType ts = .ok ([], ts.length) :=
      readType_eq_ok_iff.2 ⟨[], List.eq_replicate_of_mem hp, rfl, by simp⟩
    simp only [ofBareTokens, List.getLast?_concat, List.dropLast_concat, hi, if_true, hr]
    rfl

/-- Scanned tokens without annotation words make a declaration or have a fault. -/
theorem assembles_or_fault (attributes : Option Text) {ts : List Token} (hw : ∀ t ∈ ts, t.WellFormed) :
    (∃ d, Assembles attributes ts d) ∨ ∃ e, TokenFault ts e := by
  rcases List.eq_nil_or_concat ts with rfl | ⟨ts, last, rfl⟩
  · exact .inr ⟨_, .noToken⟩
  rw [List.concat_eq_append] at hw ⊢
  have hts : ∀ t ∈ ts, t.WellFormed := fun t ht => hw t (List.mem_append_left _ ht)
  cases last with
  | pointer => exact .inr ⟨_, .markerLast⟩
  | word name generics =>
    cases hi : isIdentifier (name ++ generics) with
    | false => exact .inr ⟨_, .invalidName hi⟩
    | true =>
      obtain rfl := eq_nil_of_isIdentifier (hw _ (List.mem_append_right _ List.mem_cons_self)) hi
      cases hr : readType ts with
      | error e => exact .inr ⟨e, .misfit hi ((readType_eq_error_iff hts List.not_mem_nil fits_nil).1 hr)⟩
      | ok r =>
        obtain ⟨texts, depth⟩ := r
        obtain ⟨words, rfl, -, hs⟩ := readType_eq_ok_iff.1 hr
        by_cases hn : words = []
        · subst hn
          exact .inr ⟨_, .missingType hi fun t ht => List.eq_of_mem_replicate ht⟩
        · exact .inl ⟨_, words, depth, name, by simp [partTokens], hn, hs, by simpa using hi, rfl⟩

theorem ofBareTokens_eq_ok_iff {attributes : Option Text} {ts : List Token} (hw : ∀ t ∈ ts, t.WellFormed)
    (d : Declaration) : ofBareTokens attributes ts = .ok d ↔ Assembles attributes ts d :=
  eq_ok_iff_of_total (fun _ => ofBareTokens_of_assembles) (fun _ => ofBareTokens_of_fault hw)
    (assembles_or_fault attributes hw) d

theorem ofBareTokens_eq_error_iff {attributes : Option Text} {ts : List Token} (hw : ∀ t ∈ ts, t.WellFormed)
    (e : Refusal) : ofBareTokens attributes ts = .error e ↔ TokenFault ts e :=
  eq_error_iff_of_total (fun _ => ofBareTokens_of_assembles) (fun _ => ofBareTokens_of_fault hw)
    (assembles_or_fault attributes hw) e

end PropertyArchive.Declaration
