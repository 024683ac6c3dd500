/-
  PropertyArchive.Proofs.Declaration.WellFormed — what every declaration that was read
  looks like.

  A type is words with a space between neighbours, each a name with a whole bracket
  section or none. What holds of each word and passes over a space holds of the type
  (`Text.joinWith_induction`): its brackets match and nest at most `Token.maxDepth` deep,
  outside of them stand neither markers nor commas nor annotation words, and it ends with
  no blank. `IsTypeName` says so without the words, and `Declaration.WellFormed` says what
  the parts of a declaration are and how they belong together.

  `wellFormed_of_parse`: whatever line a declaration was read from, it is well formed. So
  nothing that is made of a declaration has to check its parts again.
-/
import PropertyArchive.Proofs.Declaration.Recognition
import PropertyArchive.Proofs.Declaration.RoundTrip
import PropertyArchive.Proofs.Text.Brackets
import PropertyArchive.Proofs.Text.Pieces

namespace PropertyArchive

open Text

/-! ## Bracket sections -/

theorem Token.IsName.brackets_not_mem {name : Text} (h : Token.IsName name) : '<' ∉ name ∧ '>' ∉ name :=
  ⟨fun hm => absurd (h.2 _ hm) (by decide), fun hm => absurd (h.2 _ hm) (by decide)⟩

theorem Token.Nested.balanced {limit : Nat} {t : Text} (h : Token.Nested limit t) : Balanced limit t := by
  induction h with
  | nil => exact balanced_of_not_mem (by simp)
  | @char limit c t hc _ ih =>
    obtain ⟨ho, hk⟩ := ScanState.ne_of_isGenericsChar hc
    exact (balanced_of_not_mem (t := [c]) (by simp [ho.symm, hk.symm])).append ih
  | @group limit inner t _ _ ihi iht =>
    have hw := ihi.wrap.append iht
    simpa using hw

/-! ## Words of a type -/

namespace Declaration.TypeWord

variable {w : TypeWord}

/-- Where a word has a bracket section, this is a balanced text between two brackets. -/
theorem generics_eq (h : w.token.WellFormed) :
    w.2 = [] ∨ ∃ inner, Balanced (Token.maxDepth - 1) inner ∧ w.2 = '<' :: (inner ++ ['>']) := by
  rcases h.2 with hg | ⟨inner, hn, hg⟩
  · exact .inl hg
  · exact .inr ⟨inner, hn.balanced, hg⟩

theorem balanced_text (h : w.token.WellFormed) : Balanced Token.maxDepth w.text := by
  refine (balanced_of_not_mem h.1.brackets_not_mem).append ?_
  rcases generics_eq h with hg | ⟨inner, hb, hg⟩
  · rw [hg]
    exact balanced_of_not_mem (by simp)
  · rw [hg]
    exact hb.wrap

def IsPlain (c : Char) : Prop := c ≠ '*' ∧ c ≠ ','

theorem isPlain_of_isIdentifierChar {c : Char} (h : isIdentifierChar c = true) : IsPlain c :=
  ⟨ne_of_isIdentifierChar h (by decide), ne_of_isIdentifierChar h (by decide)⟩

theorem outsideOnly_text (h : w.token.WellFormed) : OutsideOnly IsPlain w.text := by
  have hn : OutsideOnly IsPlain w.1 := outsideOnly_of_forall fun c hc => isPlain_of_isIdentifierChar (h.1.2 c hc)
  refine hn.append (openBrackets_eq_zero h.1.brackets_not_mem) ?_
  rcases generics_eq h with hg | ⟨inner, hb, hg⟩
  · rw [hg]
    exact outsideOnly_of_forall (by simp)
  · rw [hg]
    exact outsideOnly_wrap hb ⟨by decide, by decide⟩

/-- No word stands bare in a name with a bracket section. -/
theorem not_standsBare_generic {name inner x : Text} {limit : Nat} (hn : Token.IsName name) (hb : Balanced limit inner)
    (hx : Token.IsName x) : ¬ StandsBare x (name ++ '<' :: (inner ++ ['>'])) := by
  rintro ⟨a, b, he, h0, -, hh⟩
  have hhead : b.head? ≠ some '<' := fun e => (hh _ e).2 rfl
  rcases List.append_eq_append_iff.1 he.symm with ⟨z, hz, rfl⟩ | ⟨z, hz, hzb⟩
  · cases z with
    | nil => exact hhead rfl
    | cons c z =>
      have hc : isIdentifierChar c = true := hn.2 c (by simp [hz])
      rw [(hh c rfl).1] at hc
      cases hc
  · cases z with
    | nil => exact hhead (by rw [← List.nil_append b, ← hzb]; rfl)
    | cons c z =>
      obtain ⟨rfl, -⟩ := List.cons.inj hzb
      obtain ⟨a', rfl, rfl⟩ := exists_of_append_eq_append_cons hx.brackets_not_mem.1 hz
      -- The word would begin behind the opening bracket and before the closing one.
      have hin := hb.one_le_openBrackets (a := '<' :: a') (b := x ++ b) (by simpa using hzb)
        (List.cons_ne_nil _ _) (by simp [hx.1])
      rw [openBrackets_append, openBrackets_eq_zero hn.brackets_not_mem] at h0
      omega

/-- In a name only the name itself stands bare. -/
theorem eq_of_standsBare_name {name x : Text} (hn : Token.IsName name) (h : StandsBare x name) : x = name := by
  obtain ⟨a, b, rfl, -, ha, hb⟩ := h
  have hl : a = [] := by
    rcases List.eq_nil_or_concat a with rfl | ⟨a, c, rfl⟩
    · rfl
    · have hc : isIdentifierChar c = true := hn.2 c (by simp)
      rw [ha c (by simp)] at hc
      cases hc
  have hr : b = [] := by
    cases b with
    | nil => rfl
    | cons c b =>
      have hc : isIdentifierChar c = true := hn.2 c (by simp)
      rw [(hb c rfl).1] at hc
      cases hc
  rw [hl, hr, List.nil_append, List.append_nil]

theorem token_eq_of_standsBare (h : w.token.WellFormed) {x : Text} (hx : Token.IsName x) (hs : StandsBare x w.text) :
    w.token = .word x [] := by
  obtain ⟨name, generics⟩ := w
  rcases generics_eq h with rfl | ⟨inner, hb, rfl⟩
  · have hs : StandsBare x (name ++ []) := hs
    rw [List.append_nil] at hs
    rw [eq_of_standsBare_name h.1 hs]
    rfl
  · exact absurd hs (not_standsBare_generic h.1 hb hx)

/-- A word ends with an identifier character or with the bracket that closes its section. -/
theorem isBlank_getLast?_text (h : w.token.WellFormed) : ∀ c ∈ w.text.getLast?, isBlank c = false := by
  intro c hc
  obtain ⟨name, generics⟩ := w
  rcases generics_eq h with rfl | ⟨inner, -, rfl⟩
  · have hm : c ∈ name := by simpa [text] using List.mem_of_getLast? hc
    exact isBlank_eq_false_of_isIdentifierChar (h.1.2 c hm)
  · rw [text, ← List.cons_append, ← List.append_assoc, List.getLast?_concat] at hc
    cases hc
    decide

end Declaration.TypeWord

/-! ## Types -/

structure IsTypeName (t : Text) : Prop where
  starts : ∃ c ∈ t.head?, isIdentifierStart c = true
  trimmed : IsTrimmed t
  unpunctuated : ∀ c ∈ (";^()[]" : Text), c ∉ t
  balanced : Balanced Token.maxDepth t
  plain : OutsideOnly (fun c => c ≠ '*' ∧ c ≠ ',') t
  unannotated : ∀ w ∈ Token.annotationWords, ¬ StandsBare w t

theorem Token.isName_of_mem_annotationWords : ∀ w ∈ Token.annotationWords, Token.IsName w := by
  intro w hw
  have h : Token.annotationWords.all fun w => !w.isEmpty && w.all isIdentifierChar := by decide
  have h := List.all_eq_true.1 h w hw
  rw [Bool.and_eq_true, List.all_eq_true] at h
  exact ⟨by simpa using h.1, h.2⟩

namespace Declaration

variable {words : List TypeWord}

theorem joinWith_text_induction {P : Text → Prop} (hn : words ≠ []) (last : ∀ w ∈ words, P w.text)
    (join : ∀ w ∈ words, ∀ t, P t → P (w.text ++ ' ' :: t)) : P (joinWith " " (words.map TypeWord.text)) := by
  refine joinWith_induction (by simpa using hn) ?_ ?_
  · intro t ht
    obtain ⟨w, hw, rfl⟩ := List.mem_map.1 ht
    exact last w hw
  · intro t ht
    obtain ⟨w, hw, rfl⟩ := List.mem_map.1 ht
    exact join w hw

theorem exists_isIdentifierStart_typeName (hn : words ≠ []) (hs : ∀ w ∈ words, w.Starts) :
    ∃ c ∈ (joinWith " " (words.map TypeWord.text)).head?, isIdentifierStart c = true := by
  cases words with
  | nil => exact absurd rfl hn
  | cons w words =>
    obtain ⟨c, hc, hcs⟩ := hs w List.mem_cons_self
    obtain ⟨rest, hr⟩ := exists_joinWith_eq w words
    refine ⟨c, ?_, hcs⟩
    rw [hr, List.head?_append, Option.mem_def.1 hc]
    rfl

theorem isBlank_getLast?_typeName (hn : words ≠ []) (hw : ∀ w ∈ words, w.token.WellFormed) :
    ∀ c ∈ (joinWith " " (words.map TypeWord.text)).getLast?, isBlank c = false := by
  have h := joinWith_text_induction (P := fun t => t ≠ [] ∧ ∀ c ∈ t.getLast?, isBlank c = false) hn ?_ ?_
  · exact h.2
  · intro w hm
    exact ⟨List.append_ne_nil_of_left_ne_nil (hw w hm).1.1 _, TypeWord.isBlank_getLast?_text (hw w hm)⟩
  · rintro w - t ⟨ht, hl⟩
    refine ⟨by simp, fun c hc => hl c ?_⟩
    obtain ⟨d, hd⟩ := Option.ne_none_iff_exists'.1 (mt List.getLast?_eq_none_iff.1 ht)
    rw [List.getLast?_append, List.getLast?_cons, hd] at hc
    rw [hd]
    exact hc

/-- The brackets of a type nest as deep as those of its words. -/
theorem balanced_typeName {limit : Nat} (hn : words ≠ []) (hw : ∀ w ∈ words, Balanced limit w.text) :
    Balanced limit (joinWith " " (words.map TypeWord.text)) :=
  joinWith_text_induction hn hw fun w hm _ ht =>
    (hw w hm).append ((balanced_of_not_mem (t := [' ']) (by decide)).append ht)

theorem isTypeName_of_words (hn : words ≠ []) (hw : ∀ w ∈ words, w.token.WellFormed) (hs : ∀ w ∈ words, w.Starts)
    (ha : ∀ w ∈ words, w.token ∉ Token.annotations) : IsTypeName (joinWith " " (words.map TypeWord.text)) where
  starts := exists_isIdentifierStart_typeName hn hs
  trimmed := by
    refine ⟨fun c hc => ?_, isBlank_getLast?_typeName hn hw⟩
    obtain ⟨d, hd, hds⟩ := exists_isIdentifierStart_typeName hn hs
    cases Option.mem_unique hc hd
    exact isBlank_eq_false_of_isIdentifierChar (isIdentifierChar_of_isIdentifierStart hds)
  unpunctuated := by
    intro c hc hm
    have hp : (";^()[]" : Text).all fun c => !ScanState.isGenericsChar c && c != '<' && c != '>' := by decide
    have hp := List.all_eq_true.1 hp c hc
    have hsp := spells_typeName_space hw hn (.blank (by decide) .nil)
    exact hsp.not_mem (by simpa [and_assoc] using hp) (List.mem_append_left _ hm)
  balanced := balanced_typeName hn fun w hm => TypeWord.balanced_text (hw w hm)
  plain := joinWith_text_induction hn (fun w hm => TypeWord.outsideOnly_text (hw w hm)) fun w hm t ht =>
    (TypeWord.outsideOnly_text (hw w hm)).append (TypeWord.balanced_text (hw w hm)).closed
      ((outsideOnly_of_forall (t := [' ']) (by simp)).append rfl ht)
  unannotated := by
    intro x hx
    have hname := Token.isName_of_mem_annotationWords x hx
    have hspace : ' ' ∉ x := fun hm => absurd (hname.2 _ hm) (by decide)
    refine joinWith_text_induction (P := fun t => ¬ StandsBare x t) hn ?_ ?_
    · intro w hm h
      have ht := TypeWord.token_eq_of_standsBare (hw w hm) hname h
      exact ha w hm (ht ▸ List.mem_map_of_mem hx)
    · intro w hm t ht h
      rcases standsBare_or_standsBare hspace (TypeWord.balanced_text (hw w hm)).closed h with h | h
      · have hw := TypeWord.token_eq_of_standsBare (hw w hm) hname h
        exact ha w hm (hw ▸ List.mem_map_of_mem hx)
      · exact ht h

/-! ## Declarations -/

structure WellFormed (d : Declaration) : Prop where
  isIdentifier_name : isIdentifier d.name = true
  name_not_mem : d.name ∉ Token.annotationWords
  isTypeName : IsTypeName d.typeName
  attributes : ∀ a ∈ d.attributes, IsTrimmed a ∧ ')' ∉ a
  objectClass_eq : d.objectClass = if d.pointerDepth = 1 then ObjectType.resolve? d.typeName else none
  object_of_objectClass : d.objectClass.isSome → d.isPointer = true ∧ d.kind = .object
  /-- What the constructor of a declaration takes for granted. -/
  nonempty : d.typeName ≠ [] ∧ d.name ≠ []
  pointer : d.objectClass = none ∨ 0 < d.pointerDepth

/-- What is left without annotation words holds none. -/
theorem not_mem_annotations {ts us : List Token} (h : Token.dropAnnotations ts = us) :
    ∀ t ∈ us, t ∉ Token.annotations := by
  intro t ht
  rw [← h] at ht
  simpa using (List.mem_filter.1 ht).2

/-- Every declaration that is read is well formed. -/
theorem wellFormed_of_parse {line : Text} {d : Declaration} (h : parse line = .ok d) : d.WellFormed := by
  have hclass := objectClass_of_parse h
  have hobject : ∀ c, d.objectClass = some c → d.isPointer = true ∧ d.kind = .object :=
    fun c hc => ⟨isPointer_of_objectClass h hc, kind_of_objectClass h hc⟩
  obtain ⟨frame, ts, ⟨rest, remainder, -, hm, -⟩, hs, words, depth, name, ht, hn, hw, hi, rfl⟩ := declares_of_parse h
  have hwf : ∀ t ∈ partTokens words depth name, t.WellFormed := ht ▸ wellFormed_dropAnnotations hs
  have hna : ∀ t ∈ partTokens words depth name, t ∉ Token.annotations := not_mem_annotations ht
  have hword : ∀ w ∈ words, w.token ∈ partTokens words depth name :=
    fun w hw => List.mem_append_left _ (List.mem_map_of_mem hw)
  have hname : .word name [] ∈ partTokens words depth name :=
    List.mem_append_right _ (List.mem_append_right _ List.mem_cons_self)
  have htype : IsTypeName (joinWith " " (words.map TypeWord.text)) :=
    isTypeName_of_words hn (fun w hm => hwf _ (hword w hm)) hw fun w hm => hna _ (hword w hm)
  exact {
    isIdentifier_name := hi
    name_not_mem := fun hm => hna _ hname (List.mem_map_of_mem hm)
    isTypeName := htype
    attributes := by
      intro a ha
      have ha : frame.attributes = some a := ha
      rw [ha] at hm
      exact (attributes_of_modifies hm).symm
    objectClass_eq := hclass
    object_of_objectClass := by
      intro hc
      obtain ⟨c, hc⟩ := Option.isSome_iff_exists.1 hc
      exact hobject c hc
    nonempty := by
      obtain ⟨c, hc, -⟩ := htype.starts
      exact ⟨List.ne_nil_of_mem (List.mem_of_mem_head? hc), (isName_of_isIdentifier hi).1⟩
    pointer := by
      rcases Option.eq_none_or_eq_some (ofParts frame.attributes words depth name).objectClass with hc | ⟨c, hc⟩
      · exact .inl hc
      · exact .inr (of_decide_eq_true (hobject c hc).1) }

/-- A type of two words with nested brackets, annotations around it, and a modifier section. -/
theorem wellFormed_nested_generics :
    let d : Declaration :=
      ⟨"NSDictionary<id,NSSet<A *>> const", "m", some "copy", some ⟨"NSDictionary", .secureCollection⟩, 1⟩
    parse "@property ( copy )__weak NSDictionary <id,NSSet<A *>>const* _Nullable m" = .ok d ∧ d.WellFormed := by
  intro d
  have h : parse "@property ( copy )__weak NSDictionary <id,NSSet<A *>>const* _Nullable m" = .ok d := by
    decide +kernel
  exact ⟨h, wellFormed_of_parse h⟩

end Declaration

end PropertyArchive
