/-
  PropertyArchive.Text.Cursor — reading a text from its start to its end.

  A cursor is a place in a text: what was read so far and what is still unread. A step
  either reports what it consumed and stands behind it, or reports that it found
  nothing and stands where it stood. So no step loses, repeats or invents text: what
  was read followed by what is unread is always the text itself (`Cursor.text`).

  - `takeChar?` takes one given character, `takeKeyword?` a given word, but only where no
    identifier character follows it: a keyword is never the start of a longer word.
  - `takeWhile` takes the longest run of a class of characters.
  - `takeUntil?` takes the text before the first delimiter, and the delimiter.
  - `perform` and `run` are the same operations as data, one `Step` after the other.
-/
import PropertyArchive.Text.Identifier

namespace PropertyArchive

open Text

structure Cursor where
  /-- The text that was read. -/
  before : Text
  /-- The unread text. -/
  rest : Text
  deriving DecidableEq, Repr

namespace Cursor

def ofText (t : Text) : Cursor := ⟨[], t⟩

def text (c : Cursor) : Text := c.before ++ c.rest

/-- Whether the cursor stands in the empty text, wherever it stands. -/
def isEmpty (c : Cursor) : Bool := c.text.isEmpty

def peek? (c : Cursor) : Option Char := c.rest.head?

def take? (c : Cursor) : Option (Char × Cursor) :=
  match c.rest with
  | [] => none
  | x :: rest => some (x, ⟨c.before ++ [x], rest⟩)

def takeChar? (d : Char) (c : Cursor) : Option Cursor :=
  match c.rest with
  | [] => none
  | x :: rest => if x = d then some ⟨c.before ++ [x], rest⟩ else none

/-- Takes `keyword` where the unread text starts with it and does not go on with an
identifier character. -/
def takeKeyword? (keyword : Text) (c : Cursor) : Option Cursor :=
  match keyword.isPrefixOf? c.rest with
  | none => none
  | some after => if after.head?.any isIdentifierChar then none else some ⟨c.before ++ keyword, after⟩

def takeWhile (p : Char → Bool) (c : Cursor) : Text × Cursor :=
  (c.rest.takeWhile p, ⟨c.before ++ c.rest.takeWhile p, c.rest.dropWhile p⟩)

def skipBlanks (c : Cursor) : Cursor := (c.takeWhile isBlank).2

def takeIdentifier (c : Cursor) : Text × Cursor := c.takeWhile isIdentifierChar

/-- Takes the text before the first `d` together with that `d`, and returns the text
before it. -/
def takeUntil? (d : Char) (c : Cursor) : Option (Text × Cursor) :=
  (cutAt d c.rest).map fun (taken, rest) => (taken, ⟨c.before ++ (taken ++ [d]), rest⟩)

/-! ## Steps as data -/

inductive Step where
  | isEmpty
  | peek
  | take
  | takeChar (d : Char)
  | takeKeyword (keyword : Text)
  | skipBlanks
  | takeWhile (p : Char → Bool)
  | takeIdentifier
  | takeUntil (d : Char)

inductive Reply where
  | flag (found : Bool)
  | char (found : Option Char)
  | text (found : Option Text)
  | nothing
  deriving DecidableEq, Repr

def perform (c : Cursor) : Step → Reply × Cursor
  | .isEmpty => (.flag c.isEmpty, c)
  | .peek => (.char c.peek?, c)
  | .take =>
    match c.take? with
    | some (x, c') => (.char (some x), c')
    | none => (.char none, c)
  | .takeChar d =>
    match c.takeChar? d with
    | some c' => (.flag true, c')
    | none => (.flag false, c)
  | .takeKeyword keyword =>
    match c.takeKeyword? keyword with
    | some c' => (.flag true, c')
    | none => (.flag false, c)
  | .skipBlanks => (.nothing, c.skipBlanks)
  | .takeWhile p => let (taken, c') := c.takeWhile p; (.text (some taken), c')
  | .takeIdentifier => let (taken, c') := c.takeIdentifier; (.text (some taken), c')
  | .takeUntil d =>
    match c.takeUntil? d with
    | some (taken, c') => (.text (some taken), c')
    | none => (.text none, c)

def run (c : Cursor) : List Step → List (Reply × Cursor)
  | [] => []
  | s :: steps => c.perform s :: run (c.perform s).2 steps

end Cursor

end PropertyArchive
