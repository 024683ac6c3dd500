/-
  PropertyArchive.Proofs.Declaration.RoundTrip — the canonical text of a declaration is
  read back as that declaration.

  What a line declares (`Declares`) fixes its parts: words that are each a name with a
  whole bracket section or none, a trimmed modifier section that does not close itself,
  and no annotation word among the tokens. Written with single spaces the parts spell the
  same tokens again (`spells_declarator`), and the frame of the canonical text holds them
  (`frames_render`); so the canonical text declares what the line declares
  (`declares_render`), and reading it gives the same declaration, in all its fields
  (`parse_render_of_parse`). Beside its own punctuation it has only characters of the line
  (`mem_render`).
-/
import PropertyArchive.Proofs.Declaration.Recognition
import PropertyArchive.Proofs.Text.Pieces

namespace PropertyArchive.Declaration

open Text

/-! ## Tokens with single spaces -/

theorem spells_word_space {w : TypeWord} (hw : w.token.WellFormed) {t : Text} {ts : List Token}
    (h : Token.Spells (' ' :: t) ts) : Token.Spells (w.text ++ ' ' :: t) (w.token :: ts) := by
  obtain ⟨name, generics⟩ := w
  obtain ⟨hn, hg⟩ := hw
  rcases hg with hg | hg
  · subst hg
    have hs : ∀ c ∈ (' ' :: t).head?, isIdentifierChar c = false := fun c hc => by cases hc; decide
    simpa [TypeWord.text, TypeWord.token] using Token.Spells.bare hn hs h
  · simpa [TypeWord.text, TypeWord.token] using Token.Spells.generic hn isGap_nil hg h

theorem spells_typeName_space {words : List TypeWord} (hw : ∀ w ∈ words, w.token.WellFormed) (hn : words ≠ [])
    {t : Text} {ts : List Token} (h : Token.Spells (' ' :: t) ts) :
    Token.Spells (joinWith " " (words.map TypeWord.text) ++ ' ' :: t) (words.map TypeWord.token ++ ts) := by
  induction words with
  | nil => exact absurd rfl hn
  | cons w words ih =>
    obtain ⟨hw1, hws⟩ := List.forall_mem_cons.1 hw
    cases words with
    | nil => simpa [joinWith] using spells_word_space hw1 h
    | cons w' words =>
      have ih := ih hws (List.cons_ne_nil _ _)
      have hs := spells_word_space hw1 (.blank (by decide) ih)
      have hj : joinWith " " ((w :: w' :: words).map TypeWord.text) =
          w.text ++ ' ' :: joinWith " " ((w' :: words).map TypeWord.text) := by
        simp only [joinWith, List.map_cons, List.intercalate_cons_cons, List.append_assoc]
        rfl
      rw [hj, List.append_assoc, List.cons_append]
      exact hs

theorem spells_markers {t : Text} {ts : List Token} (n : Nat) (h : Token.Spells t ts) :
    Token.Spells (List.replicate n '*' ++ t) (List.replicate n .pointer ++ ts) := by
  induction n with
  | zero => exact h
  | succ n ih => exact .pointer ih

theorem isName_of_isIdentifier {name : Text} (h : isIdentifier name = true) : Token.IsName name := by
  refine ⟨?_, List.all_eq_true.1 (all_isIdentifierChar h)⟩
  intro e
  subst e
  cases h

theorem spells_name {name : Text} (h : isIdentifier name = true) : Token.Spells name [.word name []] := by
  simpa using Token.Spells.bare (isName_of_isIdentifier h) (t := []) (by simp) .nil

def declarator (d : Declaration) : Text := d.typeName ++ (" " ++ (d.markers ++ d.name))

theorem spells_declarator {attributes : Option Text} {words : List TypeWord} {depth : Nat} {name : Text}
    (hw : ∀ w ∈ words, w.token.WellFormed) (hn : words ≠ []) (hi : isIdentifier name = true) :
    Token.Spells (ofParts attributes words depth name).declarator (partTokens words depth name) :=
  spells_typeName_space hw hn (.blank (by decide) (spells_markers depth (spells_name hi)))

/-- A type starts with the name of its first word. -/
theorem exists_joinWith_eq (w : TypeWord) (words : List TypeWord) :
    ∃ rest, joinWith " " ((w :: words).map TypeWord.text) = w.1 ++ rest := by
  cases words with
  | nil => exact ⟨w.2, by simp [joinWith, TypeWord.text]⟩
  | cons w' words =>
    refine ⟨w.2 ++ (" " ++ joinWith " " ((w' :: words).map TypeWord.text)), ?_⟩
    simp only [joinWith, List.map_cons, List.intercalate_cons_cons, TypeWord.text, List.append_assoc]

theorem head?_declarator {attributes : Option Text} {words : List TypeWord} {depth : Nat} {name : Text}
    (hw : ∀ w ∈ words, w.token.WellFormed) (hn : words ≠ []) (t : Text) :
    ∀ c ∈ ((ofParts attributes words depth name).declarator ++ t).head?, isIdentifierChar c = true := by
  cases words with
  | nil => exact absurd rfl hn
  | cons w words =>
    have hname : Token.IsName w.1 := (hw w List.mem_cons_self).1
    obtain ⟨rest, hr⟩ := exists_joinWith_eq w words
    simp only [declarator, ofParts, hr, List.append_assoc]
    exact Token.head?_append_of_isName hname _

/-! ## The frame of the canonical text -/

/-- A modifier section is trimmed and does not close itself. -/
theorem attributes_of_modifies {rest remainder a : Text} (h : DeclarationFrame.Modifies rest (some a) remainder) :
    ')' ∉ a ∧ IsTrimmed a := by
  cases h with
  | present hg hi => exact ⟨fun hm => hi (mem_of_mem_trim hm), isTrimmed_trim _⟩

theorem render_eq (d : Declaration) :
    d.render = keyword ++ ' ' :: (renderAttributes d.attributes ++ (d.declarator ++ [';'])) := by
  simp only [render, declarator, List.append_assoc]
  rfl

theorem isTrimmed_render (d : Declaration) : IsTrimmed d.render := by
  have hk : keyword = '@' :: "property".toList := rfl
  rw [render_eq]
  constructor
  · intro c hc
    rw [hk] at hc
    cases hc
    decide
  · intro c hc
    rw [← List.cons_append, ← List.append_assoc, ← List.append_assoc, List.getLast?_concat] at hc
    cases hc
    decide

theorem opens_render (d : Declaration) :
    DeclarationFrame.Opens d.render (' ' :: (renderAttributes d.attributes ++ (d.declarator ++ [';']))) := by
  constructor
  · rw [trim_eq_self (isTrimmed_render d), render_eq]
  · intro c hc
    cases hc
    decide

/-- The frame of the canonical text holds the modifier section and the declarator. -/
theorem frames_render {d : Declaration} (ha : ∀ a, d.attributes = some a → ')' ∉ a ∧ IsTrimmed a)
    (hb : ';' ∉ d.declarator) (hd : ∀ c ∈ (d.declarator ++ [';']).head?, isBlank c = false ∧ c ≠ '(') :
    ∃ gap, IsGap gap ∧ DeclarationFrame.Frames d.render ⟨d.attributes, gap ++ d.declarator⟩ := by
  have hs : IsGap [' '] := by simp [IsGap]; decide
  have ho := opens_render d
  cases he : d.attributes with
  | none =>
    rw [he] at ho
    exact ⟨[], isGap_nil, _, d.declarator ++ [';'], ho, .absent hs hd, .terminated hb isGap_nil⟩
  | some a =>
    obtain ⟨hi, ht⟩ := ha a he
    have hn : ';' ∉ [' '] ++ d.declarator := by simpa using hb
    have hm : DeclarationFrame.Modifies ([' '] ++ '(' :: (a ++ ')' :: ([' '] ++ d.declarator ++ [';']))) (some a)
        ([' '] ++ d.declarator ++ [';']) := by
      simpa only [trim_eq_self ht] using DeclarationFrame.Modifies.present hs hi
    rw [he] at ho
    refine ⟨[' '], hs, _, [' '] ++ d.declarator ++ [';'], ho, ?_, .terminated hn isGap_nil⟩
    have hr : ' ' :: (renderAttributes (some a) ++ (d.declarator ++ [';'])) =
        [' '] ++ '(' :: (a ++ ')' :: ([' '] ++ d.declarator ++ [';'])) := by
      simp only [renderAttributes, List.append_assoc]
      rfl
    rw [hr]
    exact hm

/-! ## The canonical text declares the same -/

theorem dropAnnotations_eq_self {ts us : List Token} (h : Token.dropAnnotations ts = us) :
    Token.dropAnnotations us = us := by
  rw [← h, Token.dropAnnotations, Token.dropAnnotations, List.filter_filter]
  simp

/-- The canonical text of a type with markers and a name, where no part is an annotation word. -/
theorem declares_render_ofParts {attributes : Option Text} {words : List TypeWord} {depth : Nat} {name : Text}
    (hwf : ∀ w ∈ words, w.token.WellFormed) (hn : words ≠ []) (hw : ∀ w ∈ words, w.Starts)
    (hi : isIdentifier name = true) (ha : ∀ a, attributes = some a → ')' ∉ a ∧ IsTrimmed a)
    (ht : Token.dropAnnotations (partTokens words depth name) = partTokens words depth name) :
    Declares (ofParts attributes words depth name).render (ofParts attributes words depth name) := by
  have hsp : Token.Spells (ofParts attributes words depth name).declarator (partTokens words depth name) :=
    spells_declarator hwf hn hi
  have hh : ∀ c ∈ ((ofParts attributes words depth name).declarator ++ [';']).head?, isBlank c = false ∧ c ≠ '(' := by
    intro c hc
    have hc := head?_declarator hwf hn [';'] c hc
    exact ⟨isBlank_eq_false_of_isIdentifierChar hc, ne_of_isIdentifierChar hc (by decide)⟩
  obtain ⟨gap, hg, hfr⟩ := frames_render ha (hsp.not_mem (by decide)) hh
  exact ⟨_, _, hfr, ScanState.spells_gap hg hsp, words, depth, name, ht, hn, hw, hi, rfl⟩

theorem declares_render {line : Text} {d : Declaration} (h : Declares line d) : Declares d.render d := by
  obtain ⟨frame, ts, hf, hs, words, depth, name, ht, hn, hw, hi, rfl⟩ := h
  obtain ⟨rest, remainder, -, hm, -⟩ := hf
  have hwf : ∀ w ∈ words, w.token.WellFormed := by
    intro w hwm
    apply wellFormed_dropAnnotations hs
    rw [ht]
    exact List.mem_append_left _ (List.mem_map_of_mem hwm)
  have ha : ∀ a, frame.attributes = some a → ')' ∉ a ∧ IsTrimmed a := by
    intro a he
    rw [he] at hm
    exact attributes_of_modifies hm
  exact declares_render_ofParts hwf hn hw hi ha (dropAnnotations_eq_self ht)

/-- Reading the canonical text of a declaration that was read gives it back. -/
theorem parse_render_of_parse {line : Text} {d : Declaration} (h : parse line = .ok d) : parse d.render = .ok d :=
  parse_of_declares (declares_render (declares_of_parse h))

/-- A line with loose spacing, a terminator in its modifiers, two annotations and a comment. -/
theorem parse_render_loose_line :
    parse "@property( a;b )IBOutlet NSArray <NSString\t*>* _Nullable x1 ;// c" =
        .ok ⟨"NSArray<NSString\t*>", "x1", some "a;b", some ⟨"NSArray", .secureCollection⟩, 1⟩ ∧
      parse (render ⟨"NSArray<NSString\t*>", "x1", some "a;b", some ⟨"NSArray", .secureCollection⟩, 1⟩) =
        .ok ⟨"NSArray<NSString\t*>", "x1", some "a;b", some ⟨"NSArray", .secureCollection⟩, 1⟩ := by
  have h : parse "@property( a;b )IBOutlet NSArray <NSString\t*>* _Nullable x1 ;// c" =
      .ok ⟨"NSArray<NSString\t*>", "x1", some "a;b", some ⟨"NSArray", .secureCollection⟩, 1⟩ := by decide +kernel
  exact ⟨h, parse_render_of_parse h⟩

/-! ## The characters of the canonical text -/

theorem subset_of_opens {line rest : Text} (h : DeclarationFrame.Opens line rest) : rest ⊆ line := by
  intro c hc
  refine mem_of_mem_trim ?_
  rw [h.1]
  exact List.mem_append_right _ hc

theorem subset_of_modifies {rest remainder : Text} {attributes : Option Text}
    (h : DeclarationFrame.Modifies rest attributes remainder) :
    (∀ a ∈ attributes, a ⊆ rest) ∧ remainder ⊆ rest := by
  cases h with
  | absent _ _ => exact ⟨by simp, List.subset_append_right _ _⟩
  | @present gap inside _ _ _ =>
    refine ⟨fun a ha c hc => ?_, fun c hc => ?_⟩
    · cases ha
      have hm := mem_of_mem_trim hc
      simp [hm]
    · simp [hc]

theorem subset_of_ends {remainder body : Text} (h : DeclarationFrame.Ends remainder body) : body ⊆ remainder := by
  cases h with
  | unterminated _ => exact List.Subset.refl _
  | terminated _ _ => exact List.subset_append_left _ _
  | commented _ _ => exact List.subset_append_left _ _

/-- The words that a body spells are parts of it. -/
theorem subset_of_spells {body : Text} {ts : List Token} (h : Token.Spells body ts) :
    ∀ name generics, .word name generics ∈ ts → name ++ generics ⊆ body := by
  induction h with
  | nil => simp
  | blank _ _ ih => exact fun name generics hm => List.subset_cons_of_subset _ (ih name generics hm)
  | pointer _ ih =>
    intro name generics hm
    exact List.subset_cons_of_subset _ (ih name generics ((List.mem_cons.1 hm).resolve_left nofun))
  | bare _ _ _ ih =>
    intro name generics hm
    rcases List.mem_cons.1 hm with hm | hm
    · cases hm
      simp
    · exact List.subset_append_of_subset_right _ (ih name generics hm)
  | generic _ _ _ _ ih =>
    intro name generics hm
    rcases List.mem_cons.1 hm with hm | hm
    · cases hm
      intro c hc
      rcases List.mem_append.1 hc with hc | hc <;> simp [hc]
    · have hs := ih name generics hm
      intro c hc
      simp [hs hc]

def punctuation : Text := "@property ()*;"

theorem mem_renderAttributes {attributes : Option Text} {c : Char} (h : c ∈ renderAttributes attributes) :
    (∃ a ∈ attributes, c ∈ a) ∨ c ∈ punctuation := by
  cases attributes with
  | none => cases h
  | some a =>
    have hp : '(' ∈ punctuation ∧ ')' ∈ punctuation ∧ ' ' ∈ punctuation := by decide
    simp only [renderAttributes, List.mem_append] at h
    rcases h with (h | h) | h
    · exact .inr ((List.mem_singleton.1 h) ▸ hp.1)
    · exact .inl ⟨a, rfl, h⟩
    · rcases List.mem_cons.1 h with rfl | h
      · exact .inr hp.2.1
      · exact .inr ((List.mem_singleton.1 h) ▸ hp.2.2)

/-- Every other character of the canonical text is one of the line. -/
theorem mem_render {line : Text} {d : Declaration} (h : Declares line d) {c : Char} (hc : c ∈ d.render) :
    c ∈ line ∨ c ∈ punctuation := by
  obtain ⟨frame, ts, ⟨rest, remainder, ho, hm, he⟩, hs, words, depth, name, ht, -, -, -, rfl⟩ := h
  have hrest : rest ⊆ line := subset_of_opens ho
  obtain ⟨hattributes, hremainder⟩ := subset_of_modifies hm
  have hbody : frame.body ⊆ line := fun x hx => hrest (hremainder (subset_of_ends he hx))
  have hwords : ∀ n g, .word n g ∈ partTokens words depth name → n ++ g ⊆ line := fun n g hng x hx =>
    hbody (subset_of_spells hs n g (List.mem_filter.1 (ht ▸ hng)).1 hx)
  have hkeyword : keyword ⊆ punctuation := by decide
  have hown : ' ' ∈ punctuation ∧ '*' ∈ punctuation ∧ ';' ∈ punctuation := by decide
  simp only [render, List.mem_append] at hc
  rcases hc with ((((((hc | hc) | hc) | hc) | hc) | hc) | hc) | hc
  · exact .inr (hkeyword hc)
  · exact .inr ((List.mem_singleton.1 hc) ▸ hown.1)
  · rcases mem_renderAttributes hc with ⟨a, ha, hc⟩ | hc
    · exact .inl (hrest (hattributes a ha hc))
    · exact .inr hc
  · rcases mem_joinWith hc with hc | ⟨w, hw, hc⟩
    · exact .inr ((List.mem_singleton.1 hc) ▸ hown.1)
    · obtain ⟨⟨n, g⟩, hng, rfl⟩ := List.mem_map.1 hw
      exact .inl (hwords n g (List.mem_append_left _ (List.mem_map_of_mem hng)) hc)
  · exact .inr ((List.mem_singleton.1 hc) ▸ hown.1)
  · exact .inr (List.eq_of_mem_replicate hc ▸ hown.2.1)
  · have hn := hwords name [] (List.mem_append_right _ (List.mem_append_right _ List.mem_cons_self))
    have hc : c ∈ name := hc
    exact .inl (hn (by simpa using hc))
  · exact .inr ((List.mem_singleton.1 hc) ▸ hown.2.2)

end PropertyArchive.Declaration
