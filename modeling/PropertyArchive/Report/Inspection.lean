/-
  PropertyArchive.Report.Inspection — the report on how the lines of a text were
  read: a row for each declaration with its kind and its call, and a row for each line
  that was passed over with the reason.
-/
import PropertyArchive.Report.Code
import PropertyArchive.Report.Table

namespace PropertyArchive

structure InspectedLine where
  line : Nat
  name : Text
  typeName : Text
  pointerDepth : Nat
  kind : ValueKind
  call : ArchiveCall
  objectClass : Option ObjectClass
  attributes : Option Text

namespace InspectedLine

def ofAccepted (p : AcceptedLine) : InspectedLine :=
  let d := p.declaration
  ⟨p.line, d.name, d.typeName, d.pointerDepth, d.kind, d.archiveCall, d.objectClass, d.attributes⟩

def toJson (l : InspectedLine) : Json :=
  .object ([(("line" : Text), .number l.line), ("name", .text l.name), ("type", .text l.typeName),
    ("pointer_depth", .number l.pointerDepth), ("kind", .text l.kind.describe), ("call", .text l.call.describe)] ++
    Json.optionalField "class" (fun c => .text c.name) l.objectClass ++
    Json.optionalField "attributes" .text l.attributes)

def columns (ls : List InspectedLine) : List Column :=
  [⟨"Line", ls.map fun l => Text.ofNat l.line⟩,
   ⟨"Name", ls.map fun l => l.name⟩,
   ⟨"Type", ls.map fun l => l.typeName⟩,
   ⟨"Ptr", ls.map fun l => Text.ofNat l.pointerDepth⟩,
   ⟨"Kind", ls.map fun l => l.kind.describe⟩,
   ⟨"Call", ls.map fun l => l.call.describe⟩,
   ⟨"Class", ls.map fun l => (l.objectClass.map (·.name)).getD "-"⟩,
   ⟨"Attributes", ls.map fun l => l.attributes.getD []⟩]

end InspectedLine

def RefusedLine.columns (ls : List RefusedLine) : List Column :=
  [⟨"Line", ls.map fun l => Text.ofNat l.line⟩,
   ⟨"Reason", ls.map fun l => l.reason.message⟩,
   ⟨"Text", ls.map fun l => l.text⟩]

structure InspectionReport where
  declarations : List InspectedLine
  refused : List RefusedLine

namespace InspectionReport

def ofReading (r : Reading) : InspectionReport := ⟨r.accepted.map InspectedLine.ofAccepted, r.refused⟩

def toJson (r : InspectionReport) : Json :=
  .object ([(("declarations" : Text), .list (r.declarations.map InspectedLine.toJson))] ++
    Json.listField "skipped" RefusedLine.toJson r.refused)

def tableOf {α : Type} (columns : List α → List Column) (rows : List α) : List Text :=
  if rows.isEmpty then [] else tableLines "  " (columns rows)

def refusedLines (r : InspectionReport) : List Text :=
  if r.refused.isEmpty then []
  else [[], ("Skipped: " : Text) ++ Text.ofNat r.refused.length] ++ tableOf RefusedLine.columns r.refused

def lines (r : InspectionReport) : List Text :=
  [("Declarations: " : Text) ++ Text.ofNat r.declarations.length] ++ tableOf InspectedLine.columns r.declarations ++
    r.refusedLines

end InspectionReport

end PropertyArchive
