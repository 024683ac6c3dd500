/-
  PropertyArchive.Main — the command line: reads what the arguments ask for, runs the
  program on it and writes what it leaves behind.
-/
import PropertyArchive.CommandLine.Program

namespace PropertyArchive

def readErrorOf : IO.Error → ReadError
  | .noFileOrDirectory _ _ _ => .notFound
  | .inappropriateType _ 21 _ => .isDirectory
  | .inappropriateType _ _ _ => .notDirectory
  | e => .other (toString e)

def readBytes : Source → IO ByteArray
  | .file name => IO.FS.readBinFile (String.ofList name)
  | .standardInput => do (← IO.getStdin).readBinToEnd

def readSource (source : Source) : IO (Except ReadError Text) := do
  try
    return decodeBytes (← readBytes source)
  catch e =>
    return .error (readErrorOf e)

end PropertyArchive

open PropertyArchive

def main (args : List String) : IO UInt32 := do
  let words := args.map String.toList
  let input ← match requestedSource? words with
    | some source => readSource source
    | none => pure (.ok [])
  let outcome := runProgram (fun _ => input) words
  (← IO.getStdout).putStr (String.ofList outcome.stdout)
  (← IO.getStderr).putStr (String.ofList outcome.stderr)
  return outcome.exit.toUInt32
