/-
  PropertyArchive.Proofs.Declaration.Grammar — the language of declaration lines, said
  without a reader.

  - Tokens: `Token.Spells` relates a body to the tokens that it spells. Blanks may stand
    anywhere between tokens; a name is the longest run of identifier characters; its
    bracket section may follow behind a gap, and nests at most `Token.maxDepth` deep
    (`Token.Nested`, `Token.IsGenerics`).
  - Frame: the keyword as a word of its own (`Opens`), a modifier section or none
    (`Modifies`), a body up to the terminator and at most a comment behind it (`Ends`).
  - Declaration: words, markers, one bare identifier, and the value that they stand for
    (`Declaration.ofParts`, `Assembles`); `Declares` puts the three layers together.
-/
import PropertyArchive.Declaration.Parse
import PropertyArchive.Proofs.Text.Trim

namespace PropertyArchive

open Text

namespace Token

/-! ## Tokens -/

/-- A run of identifier characters. It may start with a digit. -/
def IsName (t : Text) : Prop := t ≠ [] ∧ ∀ c ∈ t, isIdentifierChar c = true

/-- What may stand between two matching brackets, with brackets of its own at most
    `limit` deep. -/
inductive Nested : Nat → Text → Prop
  | nil {limit : Nat} : Nested limit []
  | char {limit : Nat} {c : Char} {t : Text} : ScanState.isGenericsChar c = true → Nested limit t →
      Nested limit (c :: t)
  | group {limit : Nat} {inner t : Text} : Nested limit inner → Nested (limit + 1) t →
      Nested (limit + 1) ('<' :: (inner ++ '>' :: t))

def IsGenerics (t : Text) : Prop := ∃ inner, Nested (maxDepth - 1) inner ∧ t = '<' :: (inner ++ ['>'])

inductive Spells : Text → List Token → Prop
  | nil : Spells [] []
  | blank {c : Char} {t : Text} {ts : List Token} : isBlank c = true → Spells t ts → Spells (c :: t) ts
  | pointer {t : Text} {ts : List Token} : Spells t ts → Spells ('*' :: t) (.pointer :: ts)
  | bare {name t : Text} {ts : List Token} : IsName name → (∀ c ∈ t.head?, isIdentifierChar c = false) →
      Spells t ts → Spells (name ++ t) (.word name [] :: ts)
  | generic {name gap generics t : Text} {ts : List Token} : IsName name → IsGap gap → IsGenerics generics →
      Spells t ts → Spells (name ++ (gap ++ (generics ++ t))) (.word name generics :: ts)

def annotations : List Token := annotationWords.map (.word · [])

def dropAnnotations (ts : List Token) : List Token := ts.filter (· ∉ annotations)

end Token

/-! ## The frame of a line -/

namespace DeclarationFrame

/-- The trimmed line starts with the keyword, which is no part of a longer word, and
    `rest` stands behind it. -/
def Opens (line rest : Text) : Prop :=
  trim line = Declaration.keyword ++ rest ∧ ∀ c ∈ rest.head?, isIdentifierChar c = false

inductive Modifies : Text → Option Text → Text → Prop
  | absent {gap remainder : Text} : IsGap gap → (∀ c ∈ remainder.head?, isBlank c = false ∧ c ≠ '(') →
      Modifies (gap ++ remainder) none remainder
  | present {gap inside remainder : Text} : IsGap gap → ')' ∉ inside →
      Modifies (gap ++ '(' :: (inside ++ ')' :: remainder)) (some (trim inside)) remainder

/-- The remainder is the body, or the body, a terminator and at most a comment. -/
inductive Ends : Text → Text → Prop
  | unterminated {body : Text} : ';' ∉ body → Ends body body
  | terminated {body gap : Text} : ';' ∉ body → IsGap gap → Ends (body ++ ';' :: gap) body
  | commented {body gap words : Text} : ';' ∉ body → IsGap gap → Ends (body ++ ';' :: (gap ++ comment ++ words)) body

def Frames (line : Text) (frame : DeclarationFrame) : Prop :=
  ∃ rest remainder, Opens line rest ∧ Modifies rest frame.attributes remainder ∧ Ends remainder frame.body

end DeclarationFrame

/-! ## The declaration -/

namespace Declaration

abbrev TypeWord := Text × Text

def TypeWord.text (w : TypeWord) : Text := w.1 ++ w.2

def TypeWord.token (w : TypeWord) : Token := .word w.1 w.2

def TypeWord.Starts (w : TypeWord) : Prop := ∃ c ∈ w.1.head?, isIdentifierStart c = true

def partTokens (words : List TypeWord) (depth : Nat) (name : Text) : List Token :=
  words.map TypeWord.token ++ (List.replicate depth .pointer ++ [.word name []])

def ofParts (attributes : Option Text) (words : List TypeWord) (depth : Nat) (name : Text) : Declaration :=
  let typeName := joinWith " " (words.map TypeWord.text)
  { typeName, name, attributes,
    objectClass := if depth = 1 then ObjectType.resolve? typeName else none,
    pointerDepth := depth }

/-- The tokens are a type, its markers and a name, and make up `d`. -/
def Assembles (attributes : Option Text) (tokens : List Token) (d : Declaration) : Prop :=
  ∃ words depth name, tokens = partTokens words depth name ∧ words ≠ [] ∧ (∀ w ∈ words, w.Starts) ∧
    isIdentifier name = true ∧ d = ofParts attributes words depth name

def Declares (line : Text) (d : Declaration) : Prop :=
  ∃ frame tokens, DeclarationFrame.Frames line frame ∧ Token.Spells frame.body tokens ∧
    Assembles frame.attributes (Token.dropAnnotations tokens) d

end Declaration

end PropertyArchive
