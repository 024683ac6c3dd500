/-
  PropertyArchive.Proofs.Declaration.Spacing — spacing makes no difference.

  A layout is a sequence of tokens with blanks of any kind and number around them: in front
  of each token, between a name and its bracket section, and behind the last token. Only a
  bare word and a word behind it have to be kept apart (`Layout`). Whatever the blanks are,
  the text of a layout spells its tokens (`spells_layout`).

  `spacing_immaterial`: the text of a layout is scanned as its tokens, and two lines with
  layouts of the same tokens as their bodies have the same result.
-/
import PropertyArchive.Proofs.Declaration.Surround

namespace PropertyArchive

open Text

/-! ## Layouts -/

namespace Token

def IsBare : Token → Prop
  | word _ generics => generics = []
  | pointer => False

def IsWord : Token → Prop
  | word _ _ => True
  | pointer => False

/-- The text of a token, with `inner` between a name and its bracket section. -/
def spaced (inner : Text) : Token → Text
  | pointer => ['*']
  | word name [] => name
  | word name generics => name ++ (inner ++ generics)

end Token

structure SpacedToken where
  /-- The blanks in front of the token. -/
  gap : Text
  token : Token
  /-- The blanks between a name and its bracket section. -/
  inner : Text := []
  isGap_gap : IsGap gap := by decide
  isGap_inner : IsGap inner := by decide
  wellFormed : token.WellFormed

def SpacedToken.text (x : SpacedToken) : Text := x.gap ++ x.token.spaced x.inner

structure Layout where
  parts : List SpacedToken
  /-- The blanks behind the last token. -/
  trailing : Text := []
  isGap_trailing : IsGap trailing := by decide
  /-- A bare word and a word behind it are kept apart. -/
  apart : parts.IsChain fun x y => x.token.IsBare → y.token.IsWord → y.gap ≠ []

namespace Layout

def tokens (l : Layout) : List Token := l.parts.map (·.token)

def text (l : Layout) : Text := l.parts.flatMap SpacedToken.text ++ l.trailing

/-! ## Layouts spell their tokens -/

variable {parts : List SpacedToken} {trailing : Text}

/-- Behind a bare word the name does not go on. -/
theorem head?_of_apart {x : SpacedToken} (ht : IsGap trailing) (hx : x.token.IsBare)
    (ha : (x :: parts).IsChain fun x y => x.token.IsBare → y.token.IsWord → y.gap ≠ []) :
    ∀ c ∈ (parts.flatMap SpacedToken.text ++ trailing).head?, isIdentifierChar c = false := by
  have hempty : ∀ c ∈ ([] : Text).head?, isIdentifierChar c = false := by simp
  cases ha with
  | singleton => simpa using ScanState.head?_gap_append ht hempty
  | @cons_cons _ y rest hy _ =>
    by_cases hg : y.gap = []
    · -- Without blanks in between only a marker can follow.
      cases hw : y.token with
      | pointer =>
        intro c hc
        simp only [List.flatMap_cons, SpacedToken.text, Token.spaced, hw, hg, List.nil_append, List.cons_append] at hc
        cases hc
        decide
      | word name generics =>
        have hword : y.token.IsWord := by rw [hw]; trivial
        exact absurd hg (hy hx hword)
    · rw [List.flatMap_cons, SpacedToken.text, List.append_assoc, List.append_assoc]
      exact ScanState.head?_gap_append_of_ne_nil hg y.isGap_gap _

theorem spells_parts (ht : IsGap trailing)
    (ha : parts.IsChain fun x y => x.token.IsBare → y.token.IsWord → y.gap ≠ []) :
    Token.Spells (parts.flatMap SpacedToken.text ++ trailing) (parts.map (·.token)) := by
  induction parts with
  | nil => simpa using ScanState.spells_gap ht .nil
  | cons x parts ih =>
    have hs := ih ha.of_cons
    have hw := x.wellFormed
    rw [List.flatMap_cons, SpacedToken.text, List.append_assoc, List.append_assoc, List.map_cons]
    refine ScanState.spells_gap x.isGap_gap ?_
    cases hx : x.token with
    | pointer => exact .pointer hs
    | word name generics =>
      rw [hx] at hw
      cases generics with
      | nil =>
        have hb : x.token.IsBare := by rw [hx]; exact rfl
        exact .bare hw.1 (head?_of_apart ht hb ha) hs
      | cons c generics =>
        have hg : Token.IsGenerics (c :: generics) := hw.2.resolve_left (List.cons_ne_nil c generics)
        rw [Token.spaced, List.append_assoc, List.append_assoc]
        · exact .generic hw.1 x.isGap_inner hg hs
        · exact List.cons_ne_nil c generics

theorem spells_layout (l : Layout) : Token.Spells l.text l.tokens := spells_parts l.isGap_trailing l.apart

/-- Blanks around tokens make no difference, neither to the scanner nor to the result of a
    line. -/
theorem spacing_immaterial (l m : Layout) (h : m.tokens = l.tokens) :
    Token.scan l.text = .ok l.tokens ∧ Token.scan m.text = .ok l.tokens ∧
      ∀ s : Surround, s.OnBoundary l.text → s.OnBoundary m.text →
        Declaration.parse (s.line l.text) = Declaration.parse (s.line m.text) := by
  have hl : Token.scan l.text = .ok l.tokens := Token.scan_eq_ok_iff.2 l.spells_layout
  have hm : Token.scan m.text = .ok l.tokens := h ▸ Token.scan_eq_ok_iff.2 m.spells_layout
  refine ⟨hl, hm, fun s hkl hkm => ?_⟩
  have hbl : '^' ∉ l.text := l.spells_layout.not_mem (by decide)
  have hbm : '^' ∉ m.text := m.spells_layout.not_mem (by decide)
  rw [Surround.parse_line hkl (.of_spells l.spells_layout), Surround.parse_line hkm (.of_spells m.spells_layout)]
  simp only [Surround.read, hl, hm, hbl, hbm]

/-- Without a blank but the needed ones, and with blanks wherever one can stand. -/
theorem spacing_immaterial_crowded_line : ∃ (l m : Layout) (s : Surround),
    s.line l.text = "@property const id<P>*x; // a" ∧ s.line m.text = "@property\tconst  id <P> * x\u3000; // a" ∧
      m.tokens = l.tokens ∧ s.OnBoundary l.text ∧ s.OnBoundary m.text ∧
      Token.scan l.text = .ok l.tokens ∧ Token.scan m.text = .ok l.tokens ∧
      Declaration.parse (s.line l.text) = Declaration.parse (s.line m.text) := by
  have hconst : (Token.word "const" []).WellFormed := ⟨⟨by decide, List.all_eq_true.1 rfl⟩, .inl rfl⟩
  have hid : (Token.word "id" "<P>").WellFormed := ⟨⟨by decide, List.all_eq_true.1 rfl⟩, .inr ⟨['P'], .char (by decide) .nil, rfl⟩⟩
  have hx : (Token.word "x" []).WellFormed := ⟨⟨by decide, List.all_eq_true.1 rfl⟩, .inl rfl⟩
  let l : Layout :=
    { parts := [{ gap := " ", token := .word "const" [], wellFormed := hconst },
        { gap := " ", token := .word "id" "<P>", wellFormed := hid },
        { gap := [], token := .pointer, wellFormed := trivial },
        { gap := [], token := .word "x" [], wellFormed := hx }]
      apart := by simp [Token.IsBare] }
  let m : Layout :=
    { parts := [{ gap := "\t", token := .word "const" [], wellFormed := hconst },
        { gap := "  ", token := .word "id" "<P>", inner := " ", wellFormed := hid },
        { gap := " ", token := .pointer, wellFormed := trivial },
        { gap := " ", token := .word "x" [], wellFormed := hx }]
      trailing := "\u3000"
      apart := by simp [Token.IsBare] }
  let s : Surround := ⟨[], none, some " // a", by decide, by simp, by simp⟩
  have hl : s.OnBoundary l.text := fun c hc => by cases hc; decide
  have hm : s.OnBoundary m.text := fun c hc => by cases hc; decide
  obtain ⟨hsl, hsm, hp⟩ := spacing_immaterial l m rfl
  exact ⟨l, m, s, rfl, rfl, rfl, hl, hm, hsl, hsm, hp s hl hm⟩

end Layout

end PropertyArchive
