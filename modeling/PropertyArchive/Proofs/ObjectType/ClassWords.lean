/-
  PropertyArchive.Proofs.ObjectType.ClassWords — the words of a type that can name its
  class, and which of them does.

  The class words of a type are its words without the bracket sections and without the class
  qualifiers (`classWords`). Of a type that was read these are the names of its words
  (`classWords_joinWith`). The base name is looked for in front of the first bracket alone:
  in the names up to the first one that carries a bracket section (`words_beforeGenerics`),
  which are a beginning of all names (`leading_prefix`). So it is the first class word,
  unless every name up to there is a qualifier; then there is none (`baseName_eq_iff`).
-/
import PropertyArchive.Proofs.Declaration.Scanning
import PropertyArchive.Proofs.ObjectType.BaseName

namespace PropertyArchive.ObjectType

open Text Declaration

/-! ## Class words -/

/-- The text outside of the brackets, where `depth` of them are open. -/
def outside (depth : Nat) : Text → Text
  | [] => []
  | c :: t =>
    if c = '<' then outside (depth + 1) t
    else if c = '>' then outside (depth - 1) t
    else if depth = 0 then c :: outside 0 t
    else outside depth t

/-- The words of a type without its bracket sections and without the class qualifiers. -/
def classWords (t : Text) : List Text := (words (outside 0 t)).filter (· ∉ classQualifiers)

/-- In front of the first bracket stand qualifiers only. -/
def HidesName (t : Text) : Prop := ∀ w ∈ words (beforeGenerics t), w ∈ classQualifiers

instance (t : Text) : Decidable (HidesName t) := List.decidableBAll (· ∈ classQualifiers) _

theorem outside_name_append {name : Text} (h : Token.IsName name) (t : Text) :
    outside 0 (name ++ t) = name ++ outside 0 t := by
  obtain ⟨-, h⟩ := h
  induction name with
  | nil => rfl
  | cons c name ih =>
    obtain ⟨hc, hname⟩ := List.forall_mem_cons.1 h
    have ho : c ≠ '<' := ne_of_isIdentifierChar hc (by decide)
    have hk : c ≠ '>' := ne_of_isIdentifierChar hc (by decide)
    simp [outside, ho, hk, ih hname]

/-- The inside of brackets is passed over. -/
theorem outside_nested {limit : Nat} {inner : Text} (h : Token.Nested limit inner) {depth : Nat} (hd : depth ≠ 0)
    (t : Text) : outside depth (inner ++ t) = outside depth t := by
  induction h generalizing depth t with
  | nil => rfl
  | @char limit c inner hc _ ih =>
    obtain ⟨ho, hk⟩ := ScanState.ne_of_isGenericsChar hc
    simp [outside, ho, hk, hd, ih hd]
  | @group limit inner rest _ _ ihi ihr =>
    have hn : depth + 1 ≠ 0 := by omega
    simp [outside, ihi hn, ihr hd]

theorem outside_generics_append {generics : Text} (h : generics = [] ∨ Token.IsGenerics generics) (t : Text) :
    outside 0 (generics ++ t) = outside 0 t := by
  rcases h with rfl | ⟨inner, hi, rfl⟩
  · rfl
  · have hn : (1 : Nat) ≠ 0 := by decide
    simp [outside, outside_nested hi hn]

theorem outside_text_append {w : TypeWord} (h : w.token.WellFormed) (t : Text) :
    outside 0 (w.text ++ t) = w.1 ++ outside 0 t := by
  unfold TypeWord.text
  rw [List.append_assoc, outside_name_append h.1, outside_generics_append h.2]

/-! ## The names of a type that was read -/

variable {ws : List TypeWord}

theorem joinWith_text_cons (w v : TypeWord) (ws : List TypeWord) :
    joinWith " " ((w :: v :: ws).map TypeWord.text) = w.text ++ ' ' :: joinWith " " ((v :: ws).map TypeWord.text) := by
  simp [joinWith, List.intercalate_cons_cons]

theorem outside_joinWith (h : ∀ w ∈ ws, w.token.WellFormed) :
    outside 0 (joinWith " " (ws.map TypeWord.text)) = joinWith " " (ws.map (·.1)) := by
  induction ws with
  | nil => rfl
  | cons w ws ih =>
    obtain ⟨hw, hws⟩ := List.forall_mem_cons.1 h
    cases ws with
    | nil =>
      have ho := outside_text_append hw []
      simpa [joinWith, outside] using ho
    | cons v ws =>
      have hs : ∀ t, outside 0 (' ' :: t) = ' ' :: outside 0 t := fun t => rfl
      rw [joinWith_text_cons, outside_text_append hw, hs, ih hws]
      simp [joinWith, List.intercalate_cons_cons]

theorem isWord_of_isName {name : Text} (h : Token.IsName name) : IsWord name :=
  ⟨h.1, fun c hc => isBlank_eq_false_of_isIdentifierChar (h.2 c hc)⟩

theorem classWords_joinWith (h : ∀ w ∈ ws, w.token.WellFormed) :
    classWords (joinWith " " (ws.map TypeWord.text)) = (ws.map (·.1)).filter (· ∉ classQualifiers) := by
  have hn : ∀ name ∈ ws.map (·.1), IsWord name := by
    intro name hm
    obtain ⟨w, hw, rfl⟩ := List.mem_map.1 hm
    exact isWord_of_isName (h w hw).1
  unfold classWords
  rw [outside_joinWith h, words_joinWith hn]

def leading : List TypeWord → List Text
  | [] => []
  | (name, []) :: ws => name :: leading ws
  | (name, _ :: _) :: _ => [name]

theorem leading_prefix (ws : List TypeWord) : leading ws <+: ws.map (·.1) := by
  induction ws with
  | nil => exact List.prefix_refl _
  | cons w ws ih =>
    obtain ⟨name, generics⟩ := w
    cases generics with
    | nil => exact (List.prefix_cons_inj name).2 ih
    | cons c generics => exact ⟨ws.map (·.1), rfl⟩

theorem beforeGenerics_text_append {w : TypeWord} (h : w.token.WellFormed) (t : Text) :
    beforeGenerics (w.text ++ t) = if w.2 = [] then w.1 ++ beforeGenerics t else w.1 := by
  obtain ⟨name, generics⟩ := w
  have hn : '<' ∉ name := fun hm => ne_of_isIdentifierChar (h.1.2 _ hm) (by decide) rfl
  unfold TypeWord.text
  rw [List.append_assoc, beforeGenerics_append_of_not_mem hn]
  rcases h.2 with hg | ⟨inner, -, hg⟩
  · have hg : generics = [] := hg
    simp [hg]
  · have hg : generics = '<' :: (inner ++ ['>']) := hg
    simp [hg, beforeGenerics]

theorem words_beforeGenerics (h : ∀ w ∈ ws, w.token.WellFormed) :
    words (beforeGenerics (joinWith " " (ws.map TypeWord.text))) = leading ws := by
  induction ws with
  | nil => rfl
  | cons w ws ih =>
    obtain ⟨hw, hws⟩ := List.forall_mem_cons.1 h
    have hword : words w.1 = [w.1] := words_word (isWord_of_isName hw.1)
    obtain ⟨name, generics⟩ := w
    cases ws with
    | nil =>
      have hb := beforeGenerics_text_append hw []
      rw [List.append_nil] at hb
      have hj : joinWith " " ([(name, generics)].map TypeWord.text) = TypeWord.text (name, generics) := by
        simp [joinWith]
      rw [hj, hb]
      cases generics with
      | nil => simpa [leading, beforeGenerics] using hword
      | cons c generics => simpa [leading] using hword
    | cons v ws =>
      have hs : ∀ t, beforeGenerics (' ' :: t) = ' ' :: beforeGenerics t := fun t => rfl
      rw [joinWith_text_cons, beforeGenerics_text_append hw, hs]
      cases generics with
      | nil =>
        rw [if_pos rfl, words_append_blank_cons (by decide), hword, ih hws]
        rfl
      | cons c generics =>
        rw [if_neg (List.cons_ne_nil c generics), hword]
        rfl

/-- The base name is the first class word, where a name in front of the first bracket is no
    qualifier. -/
theorem baseName_eq_iff {t name : Text} (ht : t = joinWith " " (ws.map TypeWord.text))
    (h : ∀ w ∈ ws, w.token.WellFormed) (hn : name ≠ []) :
    baseName t = name ↔ ¬ HidesName t ∧ (classWords t).head? = some name := by
  subst ht
  have hb := words_beforeGenerics h
  obtain ⟨others, hp⟩ := leading_prefix ws
  have hc : (classWords (joinWith " " (ws.map TypeWord.text))).head? =
      ((leading ws).find? (· ∉ classQualifiers)).or (others.find? (· ∉ classQualifiers)) := by
    rw [classWords_joinWith h, List.head?_filter, ← hp, List.find?_append]
  unfold HidesName baseName
  rw [hb, hc]
  cases hf : (leading ws).find? (· ∉ classQualifiers) with
  | none =>
    have hq : ∀ w ∈ leading ws, w ∈ classQualifiers := by simpa using hf
    constructor
    · intro e
      exact absurd e.symm hn
    · intro e
      exact absurd hq e.1
  | some w =>
    have hq : ¬ ∀ w ∈ leading ws, w ∈ classQualifiers := by
      intro hq
      have hw := hq w (List.mem_of_find?_eq_some hf)
      have hw' := List.find?_some hf
      simp [hw] at hw'
    simp [hq]

end PropertyArchive.ObjectType
