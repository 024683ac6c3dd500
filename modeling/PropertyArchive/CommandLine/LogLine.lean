/-
  PropertyArchive.CommandLine.LogLine — the log lines that go to standard error.

  A line names its level in front of its message. Only text that is meant to be read
  leaves the program: control characters other than tab, line feed, form feed and carriage
  return are left out of a line, and so are the escape sequences that would steer a
  terminal (`plainText`). The end of the line is left out too where it falls into a string
  that the message began and did not end; the next line starts as text again.
-/
import PropertyArchive.Text.Basic

namespace PropertyArchive

inductive LogLevel where
  | debug
  | info
  deriving DecidableEq, Repr

structure LogLine where
  level : LogLevel
  message : Text
  deriving DecidableEq, Repr

namespace LogLine

inductive Sequence where
  /-- Nothing is known yet. -/
  | escape
  /-- A choice of character set or the like, which a letter or a digit ends. -/
  | designation
  /-- A control sequence, which a letter ends. -/
  | control
  /-- A command string, which the bell ends. -/
  | command
  /-- The head of a device string, before its parameters. -/
  | device
  | deviceParameters
  /-- The head of a device string, behind its parameters. -/
  | deviceIntermediates
  /-- A string that its terminator byte ends. -/
  | string
  deriving DecidableEq, Repr

/-- Control characters that shape a text and are kept. -/
def isLayout (c : Char) : Bool := c == '\t' || c == '\n' || c == '\x0c' || c == '\r'

def isControl (c : Char) : Bool := c.toNat < 0x20 || c.toNat == 0x7F

/-- Whether the terminator of a string is among the bytes of a character; it need not be
all of it. -/
def holdsTerminator (c : Char) : Bool := (String.utf8EncodeChar c).contains 0x9C

namespace Sequence

/-- The sequence behind its next character, or none where the character ends it. -/
def next? (s : Sequence) (c : Char) : Option Sequence :=
  let n := c.toNat
  let isIntermediate := decide (0x20 ≤ n ∧ n ≤ 0x2F)
  let isFinal := decide (0x40 ≤ n ∧ n ≤ 0x7E)
  match s with
  | escape =>
    if isIntermediate then some designation
    else if c = '[' then some control
    else if c = ']' then some command
    else if c = 'P' then some device
    else if c = 'X' ∨ c = '^' ∨ c = '_' then some string
    else if 0x30 ≤ n ∧ n ≤ 0x7E then none
    else some escape
  | designation => if 0x30 ≤ n ∧ n ≤ 0x7E then none else some designation
  | control => if isFinal then none else some control
  | command => if c = '\x07' then none else some command
  | device =>
    if isIntermediate then some deviceIntermediates
    else if isFinal then some string
    else if 0x30 ≤ n ∧ n ≤ 0x3F then some deviceParameters
    else some device
  | deviceParameters =>
    if isIntermediate then some deviceIntermediates
    else if 0x3C ≤ n ∧ n ≤ 0x7E then some string
    else some deviceParameters
  | deviceIntermediates => if 0x30 ≤ n ∧ n ≤ 0x7E then some string else some deviceIntermediates
  | string => if holdsTerminator c then none else some string

/-- Whether layout in the middle of a sequence is shown; strings hold their layout. -/
def showsLayout : Sequence → Bool
  | escape | designation | control => true
  | _ => false

end Sequence

inductive TerminalState where
  /-- For text. Layout may have interrupted a sequence, which the next control character
  that is not shown takes up again, unless a character beyond ASCII comes first. -/
  | text (interrupted : Option Sequence)
  | inside (sequence : Sequence)
  deriving DecidableEq, Repr

namespace TerminalState

def shows (s : TerminalState) (c : Char) : Bool :=
  match s with
  | text _ => !isControl c || isLayout c
  | inside sequence => sequence.showsLayout && isLayout c

def next (s : TerminalState) (c : Char) : TerminalState :=
  if c = '\x1b' then inside .escape
  else if c = '\x18' ∨ c = '\x1a' then text none
  else match s with
    | text interrupted =>
      if 0x80 ≤ c.toNat then text none
      else if s.shows c then s
      else (interrupted.map inside).getD s
    | inside sequence =>
      if s.shows c then text (some sequence)
      else ((sequence.next? c).map inside).getD (text none)

end TerminalState

def plainTextFrom (s : TerminalState) : Text → Text
  | [] => []
  | c :: t => if s.shows c then c :: plainTextFrom (s.next c) t else plainTextFrom (s.next c) t

def plainText (t : Text) : Text := plainTextFrom (.text none) t

def levelTag : LogLevel → Text
  | .debug => "[DEBUG] "
  | .info => "[INFO ] "

def render (l : LogLine) : Text := plainText (levelTag l.level ++ l.message ++ "\n")

end LogLine

end PropertyArchive
