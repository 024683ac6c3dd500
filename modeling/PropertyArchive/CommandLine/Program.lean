/-
  PropertyArchive.CommandLine.Program — the program as a function of its arguments and of
  the text it is given: the exit code and what it writes.

  A text that cannot be read ends the program with code 1 and one error report. A command
  line that asks for nothing ends it with code 2. Otherwise the code is 0; the report goes
  to standard output and the log to standard error. Under `--json` there is no log.
-/
import PropertyArchive.CommandLine.Arguments
import PropertyArchive.CommandLine.LogLine
import PropertyArchive.Report.Inspection

namespace PropertyArchive

inductive ReadError where
  | notFound
  | notDirectory
  | isDirectory
  | notUtf8
  /-- Any other cause, in the words of the system. -/
  | other (cause : Text)
  deriving DecidableEq, Repr

def ReadError.cause : ReadError → Text
  | notFound => "No such file or directory (os error 2)"
  | notDirectory => "Not a directory (os error 20)"
  | isDirectory => "Is a directory (os error 21)"
  | notUtf8 => "stream did not contain valid UTF-8"
  | other cause => cause

def decodeBytes (bytes : ByteArray) : Except ReadError Text :=
  match String.fromUTF8? bytes with
  | some s => .ok s.toList
  | none => .error .notUtf8

structure Outcome where
  exit : Nat
  stdout : Text
  stderr : Text
  deriving DecidableEq, Repr

/-- A report as it is printed: nothing at all where it is empty. -/
def printed (report : Text) : Text := if report = [] then [] else report ++ "\n"

namespace Invocation

def failureText : Source → Text
  | .file name => "failed to read file: " ++ name
  | .standardInput => "failed to read stdin"

def readFailure (source : Source) (e : ReadError) : Outcome :=
  ⟨1, [], "Error: " ++ failureText source ++ "\n\nCaused by:\n    " ++ e.cause ++ "\n"⟩

def renderLog (i : Invocation) (log : List LogLine) : Text :=
  if i.json then []
  else (log.filter fun l => i.verbose || l.level == .info).flatMap LogLine.render

def noticeLines (log : List Notice) : List LogLine := log.map fun n => ⟨.debug, n.message⟩

def readingLog (r : Logged Reading) : List LogLine :=
  noticeLines r.log ++
    [⟨.debug, Text.ofNat r.value.size ++ " declaration(s), " ++ Text.ofNat r.value.refused.length ++
      " line(s) skipped"⟩]

def codeLog (r : Logged CodeReport) : List LogLine :=
  noticeLines r.log ++
    (if r.value.refused.isEmpty then []
     else [⟨.info, ("skipped " : Text) ++ Text.ofNat r.value.refused.length ++
       " line(s) that are not supported declarations"⟩])

def reportText (i : Invocation) (json : Json) (lines : List Text) : Text :=
  if i.json then json.render else Text.joinWith "\n" lines

def answerText (i : Invocation) (text : Text) : Outcome :=
  let reading := Reading.ofText text
  match i.command with
  | .generate options onlyStatements =>
    let r := CodeReport.ofReading options onlyStatements reading.value
    ⟨0, printed (i.reportText r.value.toJson r.value.lines), i.renderLog (readingLog reading ++ codeLog r)⟩
  | .inspect =>
    let r := InspectionReport.ofReading reading.value
    ⟨0, printed (i.reportText r.toJson r.lines), i.renderLog (readingLog reading)⟩

def answer (i : Invocation) (input : Except ReadError Text) : Outcome :=
  match input with
  | .error e => readFailure i.source e
  | .ok text => i.answerText text

end Invocation

/-! ## The whole program -/

def versionText : Text := "propcoder 0.1.0\n"

def usageText : Text :=
  "Usage: propcoder [--json] [-v|--verbose] generate|inspect [FILE]\n" ++
  "       generate: [--statements] [--coder NAME] [--decode-style plain|cast|secure]\n" ++
  "                 [--super-init init|coder] [--readonly-ivar]\n"

def usageFailure (e : UsageError) : Outcome := ⟨2, [], "error: " ++ e.message ++ "\n\n" ++ usageText⟩

def requestedSource? (words : List Text) : Option Source :=
  match Request.ofWords words with
  | .ok (.run i) => some i.source
  | _ => none

def runProgram (read : Source → Except ReadError Text) (words : List Text) : Outcome :=
  match Request.ofWords words with
  | .error e => usageFailure e
  | .ok .version => ⟨0, versionText, []⟩
  | .ok .help => ⟨0, usageText, []⟩
  | .ok (.run i) => i.answer (read i.source)

end PropertyArchive
