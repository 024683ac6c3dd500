/-
  PropertyArchive.Declaration.Token — the tokens of a declaration body: words, which may
  carry a bracket section of generic arguments, and pointer markers.

  The scanner is a machine that reads one character at a time (`ScanState.step`) and may
  refuse it; what comes later never changes a refusal. It stands between tokens, in the
  name of a word, behind a name, or in the bracket section of a word.

  - Blanks separate tokens. They are left out between a name and its bracket section and
    kept inside the section.
  - A bracket section holds identifier characters, blanks, markers, commas and brackets,
    nests at most `maxDepth` deep and ends with the bracket that closes it.
  - A body that ends inside a bracket section is refused (`ScanState.finish`); any other
    place may end it.
-/
import PropertyArchive.Text.Identifier
import PropertyArchive.Declaration.Refusal

namespace PropertyArchive

open Text

inductive Token where
  /-- A name and the bracket section behind it, empty where there is none. -/
  | word (name generics : Text)
  /-- A pointer marker. -/
  | pointer
  deriving DecidableEq, Repr

namespace Token

/-- How deep the brackets of one word may nest. -/
def maxDepth : Nat := 16

/-- Words that annotate a declaration without being part of its type. -/
def annotationWords : List Text :=
  ["IBOutlet", "IBInspectable", "_Nullable", "_Nonnull", "_Null_unspecified", "__nullable", "__nonnull",
   "__null_unspecified", "__weak", "__strong", "__unsafe_unretained", "__autoreleasing"]

def isAnnotating : Token → Bool
  | word name generics => name ++ generics ∈ annotationWords
  | pointer => false

end Token

/-- Where the scanner stands. Texts that it still collects are kept last character first. -/
inductive ScanState where
  /-- Between two tokens. -/
  | between
  /-- In the name of a word. -/
  | inName (read : Text)
  /-- Behind a name, where its bracket section may still follow. -/
  | afterName (name : Text)
  /-- In the bracket section of the word `name`, with `depth` brackets open. -/
  | inGenerics (name read : Text) (depth : Nat)
  deriving DecidableEq, Repr

namespace ScanState

def refusal (c : Char) : Refusal :=
  if c = '^' then .blockType
  else if c = '(' ∨ c = ')' then .functionPointer
  else if c = '[' ∨ c = ']' then .arrayDeclarator
  else if c = ',' then .multipleDeclarators
  else if c = '<' ∨ c = '>' then .unbalancedGenerics
  else .unexpectedCharacter c

/-- Characters that may stand in a bracket section beside the brackets. -/
def isGenericsChar (c : Char) : Bool := c == '*' || c == ',' || isBlank c || isIdentifierChar c

/-- One character: the tokens that it completes, and where the scanner stands behind it. -/
def step (s : ScanState) (c : Char) : Except Refusal (List Token × ScanState) :=
  match s with
  | between =>
    if isBlank c then .ok ([], between)
    else if c = '*' then .ok ([.pointer], between)
    else if isIdentifierChar c then .ok ([], inName [c])
    else .error (refusal c)
  | inName read =>
    if isIdentifierChar c then .ok ([], inName (c :: read))
    else if isBlank c then .ok ([], afterName read.reverse)
    else if c = '<' then .ok ([], inGenerics read.reverse [c] 1)
    else if c = '*' then .ok ([.word read.reverse [], .pointer], between)
    else .error (refusal c)
  | afterName name =>
    if isBlank c then .ok ([], afterName name)
    else if c = '<' then .ok ([], inGenerics name [c] 1)
    else if c = '*' then .ok ([.word name [], .pointer], between)
    else if isIdentifierChar c then .ok ([.word name []], inName [c])
    else .error (refusal c)
  | inGenerics name read depth =>
    if c = '<' then
      if depth < Token.maxDepth then .ok ([], inGenerics name (c :: read) (depth + 1))
      else .error (.nestingLimit Token.maxDepth)
    else if c = '>' then
      if depth = 1 then .ok ([.word name (c :: read).reverse], between)
      else .ok ([], inGenerics name (c :: read) (depth - 1))
    else if isGenericsChar c then .ok ([], inGenerics name (c :: read) depth)
    else .error (refusal c)

def finish : ScanState → Except Refusal (List Token)
  | between => .ok []
  | inName read => .ok [.word read.reverse []]
  | afterName name => .ok [.word name []]
  | inGenerics _ _ _ => .error .unbalancedGenerics

/-- The tokens of the unread text, from where the scanner stands. -/
def scan (s : ScanState) : Text → Except Refusal (List Token)
  | [] => s.finish
  | c :: t =>
    match s.step c with
    | .error e => .error e
    | .ok (done, s') => (s'.scan t).map (done ++ ·)

end ScanState

def Token.scan (body : Text) : Except Refusal (List Token) := ScanState.between.scan body

end PropertyArchive
