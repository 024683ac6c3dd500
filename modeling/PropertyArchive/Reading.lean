/-
  PropertyArchive.Reading — the declarations of a text of many lines.

  Every line that is not blank is read on its own. A line that declares a property is
  kept with its number, any other line is kept with the reason why it was passed over,
  and a notice is given for it. Numbers start at one and count the blank lines too. Lines
  end at a line feed; a carriage return in front of it is a blank like any other and is
  trimmed away.
-/
import PropertyArchive.Notice
import PropertyArchive.Declaration.Parse

namespace PropertyArchive

structure AcceptedLine where
  line : Nat
  declaration : Declaration
  deriving DecidableEq, Repr

structure RefusedLine where
  line : Nat
  /-- The line, trimmed. -/
  text : Text
  reason : Refusal
  deriving DecidableEq, Repr

structure Reading where
  accepted : List AcceptedLine
  refused : List RefusedLine
  deriving DecidableEq, Repr

namespace Reading

/-- Reads the lines, the first of which has the number `line`. -/
def ofLines (line : Nat) : List Text → Logged Reading
  | [] => pure ⟨[], []⟩
  | raw :: lines => do
    let text := Text.trim raw
    if text = [] then ofLines (line + 1) lines
    else
      match Declaration.parse text with
      | .ok d => do
        let others ← ofLines (line + 1) lines
        pure { others with accepted := ⟨line, d⟩ :: others.accepted }
      | .error reason => do
        Logged.note (.refusedLine line reason)
        let others ← ofLines (line + 1) lines
        pure { others with refused := ⟨line, text, reason⟩ :: others.refused }

def ofText (text : Text) : Logged Reading := ofLines 1 (Text.lines text)

def declarations (r : Reading) : List Declaration := r.accepted.map (·.declaration)

def size (r : Reading) : Nat := r.accepted.length

def isEmpty (r : Reading) : Bool := r.accepted.isEmpty

end Reading

end PropertyArchive
