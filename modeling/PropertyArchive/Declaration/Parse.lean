/-
  PropertyArchive.Declaration.Parse — reading a declaration from a line.

  A line is read in stages, and the first stage that fails gives the error:
  - `DeclarationFrame.ofLine` takes the keyword, the modifier section, and the body up to
    the terminator. What follows the terminator must be blank or a comment. A body with
    a block marker anywhere is refused here.
  - `Token.scan` cuts the body into tokens.
  - `Declaration.ofTokens` drops the annotation words, takes the last token as the name
    and the tokens before it as the type: words first, then markers.

  The class of the type is looked up only where exactly one marker follows it.
-/
import PropertyArchive.Text.Cursor
import PropertyArchive.Declaration.Token
import PropertyArchive.Declaration.Basic

namespace PropertyArchive

open Text

/-! ## The frame of a line -/

structure DeclarationFrame where
  /-- The inside of the modifier section, trimmed. -/
  attributes : Option Text
  /-- The type and the name. -/
  body : Text
  deriving DecidableEq, Repr

namespace DeclarationFrame

/-- Starts a comment behind the terminator. -/
def comment : Text := "//"

def readAttributes (c : Cursor) : Except Refusal (Option Text × Cursor) :=
  match c.takeChar? '(' with
  | none => .ok (none, c)
  | some inside =>
    match inside.takeUntil? ')' with
    | none => .error .unterminatedAttributes
    | some (attributes, after) => .ok (some (trim attributes), after)

/-- The body up to the terminator; all of the text where there is none. -/
def readBody (c : Cursor) : Except Refusal Text :=
  match c.takeUntil? ';' with
  | none => .ok c.rest
  | some (body, after) =>
    let trailing := trim after.rest
    if trailing = [] ∨ comment <+: trailing then .ok body else .error (.trailingInput trailing)

def ofLine (line : Text) : Except Refusal DeclarationFrame :=
  let start := Cursor.ofText (trim line)
  if start.isEmpty then .error .empty
  else
    match start.takeKeyword? Declaration.keyword with
    | none => .error .missingKeyword
    | some afterKeyword => do
      let (attributes, afterAttributes) ← readAttributes afterKeyword.skipBlanks
      let body ← readBody afterAttributes
      if '^' ∈ body then .error .blockType else .ok ⟨attributes, body⟩

end DeclarationFrame

/-! ## The declaration of a token sequence -/

namespace Declaration

/-- How many markers the tokens are; a word among them is out of place. -/
def countMarkers : List Token → Except Refusal Nat
  | [] => .ok 0
  | .word _ _ :: _ => .error .misplacedPointer
  | .pointer :: ts => (countMarkers ts).map (· + 1)

def readType : List Token → Except Refusal (List Text × Nat)
  | [] => .ok ([], 0)
  | .word name generics :: ts =>
    if name.head?.any isIdentifierStart then
      (readType ts).map fun (words, depth) => ((name ++ generics) :: words, depth)
    else .error (.invalidType (name ++ generics))
  | .pointer :: ts => (countMarkers ts).map fun depth => ([], depth + 1)

/-- The declaration of tokens without annotation words. -/
def ofBareTokens (attributes : Option Text) (tokens : List Token) : Except Refusal Declaration :=
  match tokens.getLast? with
  | none => .error .missingName
  | some .pointer => .error .missingName
  | some (.word name generics) =>
    if isIdentifier (name ++ generics) then do
      let (words, depth) ← readType tokens.dropLast
      if words = [] then .error .missingType
      else
        let typeName := joinWith " " words
        let objectClass := if depth = 1 then ObjectType.resolve? typeName else none
        .ok ⟨typeName, name, attributes, objectClass, depth⟩
    else .error (.invalidName (name ++ generics))

def ofTokens (attributes : Option Text) (tokens : List Token) : Except Refusal Declaration :=
  ofBareTokens attributes (tokens.filter (!·.isAnnotating))

def parse (line : Text) : Except Refusal Declaration := do
  let frame ← DeclarationFrame.ofLine line
  let tokens ← Token.scan frame.body
  ofTokens frame.attributes tokens

end Declaration

end PropertyArchive
