/-
  PropertyArchive.CommandLine.Folder — a working folder as a value, and how the name of a
  file is resolved in it.

  A name is resolved part by part between its slashes. An empty part and a single dot stay
  where they are, two dots go up, and only a folder has parts: a file with a part behind
  it is an error, as is a name that ends on a folder. Nothing is known of what lies
  outside the folder.
-/
import PropertyArchive.CommandLine.Program

namespace PropertyArchive

open Text

structure Folder where
  files : List (List Text × ByteArray)

namespace Folder

def ofFiles (files : List (Text × ByteArray)) : Folder :=
  ⟨files.map fun (name, bytes) => (name.splitOn '/', bytes)⟩

inductive Place where
  | outside
  | folder (path : List Text)
  | file (bytes : ByteArray)

def lookup? (f : Folder) (path : List Text) : Option Place :=
  match f.files.find? (·.1 = path) with
  | some (_, bytes) => some (.file bytes)
  | none => if f.files.any fun (name, _) => path.isPrefixOf name then some (.folder path) else none

/-- One part of a name, from where the parts before it lead. -/
def enter (f : Folder) (here : Place) (part : Text) : Except ReadError Place :=
  match here with
  | .file _ => .error .notDirectory
  | .outside => if part = [] ∨ part = "." ∨ part = ".." then .ok .outside else .error .notFound
  | .folder path =>
    if part = [] ∨ part = "." then .ok here
    else if part = ".." then .ok (if path = [] then .outside else .folder path.dropLast)
    else
      match f.lookup? (path ++ [part]) with
      | some place => .ok place
      | none => .error .notFound

def resolve (f : Folder) (name : Text) : Except ReadError Place :=
  let start := if name.head? = some '/' then Place.outside else Place.folder []
  (name.splitOn '/').foldlM f.enter start

def read (f : Folder) (name : Text) : Except ReadError Text := do
  match ← f.resolve name with
  | .file bytes => decodeBytes bytes
  | _ => .error .isDirectory

/-- What reading a source gives where standard input holds `stdin`. -/
def readSource (f : Folder) (stdin : ByteArray) : Source → Except ReadError Text
  | .file name => f.read name
  | .standardInput => decodeBytes stdin

end Folder

def runInFolder (f : Folder) (stdin : ByteArray) (words : List Text) : Outcome :=
  runProgram (f.readSource stdin) words

end PropertyArchive
