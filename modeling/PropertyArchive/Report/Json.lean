/-
  PropertyArchive.Report.Json — the values that reports are made of, and their text.

  The text is indented by two spaces a level, one item or field to a line, and an empty
  list or object is written on one line. In a quoted text the quote, the backslash and the
  characters below U+0020 are escaped, and nothing else.
-/
import PropertyArchive.Text.Basic

namespace PropertyArchive

inductive Json where
  | number (n : Nat)
  | text (t : Text)
  | list (items : List Json)
  | object (fields : List (Text × Json))

namespace Json

def escape (c : Char) : Text :=
  if c = '"' then "\\\""
  else if c = '\\' then "\\\\"
  else if c = '\n' then "\\n"
  else if c = '\r' then "\\r"
  else if c = '\t' then "\\t"
  else if c = '\x08' then "\\b"
  else if c = '\x0c' then "\\f"
  else if c.toNat < 0x20 then "\\u00" ++ [Nat.digitChar (c.toNat / 16), Nat.digitChar (c.toNat % 16)]
  else [c]

def quote (t : Text) : Text := "\"" ++ t.flatMap escape ++ "\""

def margin (depth : Nat) : Text := List.replicate (2 * depth) ' '

/-- Items between two brackets, one to a line at the level behind `depth`. -/
def block (depth : Nat) (opening closing : Text) (items : List Text) : Text :=
  if items = [] then opening ++ closing
  else
    opening ++ "\n" ++ Text.joinWith ",\n" (items.map (margin (depth + 1) ++ ·)) ++ "\n" ++ margin depth ++ closing

mutual

def renderAt (depth : Nat) : Json → Text
  | number n => Text.ofNat n
  | text t => quote t
  | list items => block depth "[" "]" (renderItems (depth + 1) items)
  | object fields => block depth "\x7b" "\x7d" (renderFields (depth + 1) fields)

def renderItems (depth : Nat) : List Json → List Text
  | [] => []
  | j :: items => renderAt depth j :: renderItems depth items

def renderFields (depth : Nat) : List (Text × Json) → List Text
  | [] => []
  | (key, j) :: fields => (quote key ++ ": " ++ renderAt depth j) :: renderFields depth fields

end

def render (j : Json) : Text := renderAt 0 j

/-- A field that is left out where it has no value. -/
def optionalField {α : Type} (key : Text) (encode : α → Json) : Option α → List (Text × Json)
  | none => []
  | some a => [(key, encode a)]

def listField {α : Type} (key : Text) (encode : α → Json) : List α → List (Text × Json)
  | [] => []
  | items => [(key, list (items.map encode))]

end Json

end PropertyArchive
