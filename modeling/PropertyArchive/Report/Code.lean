/-
  PropertyArchive.Report.Code — the report on generated code: both methods or the
  bare statements, and the lines that were passed over.
-/
import PropertyArchive.Reading
import PropertyArchive.Archive.Method
import PropertyArchive.Report.Json

namespace PropertyArchive

inductive GeneratedText where
  /-- The method that archives and the one that restores. -/
  | methods (encode decode : Text)
  /-- The statements alone, without terminators. -/
  | statements (statements : List Text)

structure CodeReport where
  declarationCount : Nat
  code : GeneratedText
  refused : List RefusedLine

def RefusedLine.toJson (s : RefusedLine) : Json :=
  .object [("line", .number s.line), ("text", .text s.text), ("reason", .text s.reason.message)]

namespace CodeReport

def ofReading (options : CodeOptions) (onlyStatements : Bool) (r : Reading) : Logged CodeReport := do
  let code ←
    if onlyStatements then GeneratedText.statements <$> Archive.statements options r.declarations
    else do
      let encode ← Archive.encodingMethod options r.declarations
      let decode ← Archive.decodingMethod options r.declarations
      pure (.methods encode decode)
  pure ⟨r.size, code, r.refused⟩

def codeFields : GeneratedText → List (Text × Json)
  | .methods encode decode => [("encode_method", .text encode), ("init_method", .text decode)]
  | .statements statements => Json.listField "statements" .text statements

def toJson (r : CodeReport) : Json :=
  .object ([(("declaration_count" : Text), .number r.declarationCount)] ++ codeFields r.code ++
    Json.listField "skipped" RefusedLine.toJson r.refused)

/-- The code alone: each statement with its terminator, or the methods with a blank line
between them. -/
def lines (r : CodeReport) : List Text :=
  match r.code with
  | .methods encode decode => [encode ++ "\n\n" ++ decode]
  | .statements statements => statements.map (· ++ ";")

end CodeReport

end PropertyArchive
