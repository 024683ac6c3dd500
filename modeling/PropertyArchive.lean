import PropertyArchive.Text.Basic
import PropertyArchive.Text.Identifier
import PropertyArchive.Text.Cursor
import PropertyArchive.Text.CharRange
import PropertyArchive.Text.Width
import PropertyArchive.Kind
import PropertyArchive.Scalar
import PropertyArchive.ObjectClass
import PropertyArchive.ObjectType
import PropertyArchive.Classification
import PropertyArchive.Declaration.Refusal
import PropertyArchive.Declaration.Token
import PropertyArchive.Declaration.Qualifiers
import PropertyArchive.Declaration.Basic
import PropertyArchive.Declaration.Parse
import PropertyArchive.Notice
import PropertyArchive.Archive.Call
import PropertyArchive.Archive.Options
import PropertyArchive.Archive.Statement
import PropertyArchive.Archive.Method
import PropertyArchive.Reading
import PropertyArchive.Report.Json
import PropertyArchive.Report.Table
import PropertyArchive.Report.Code
import PropertyArchive.Report.Inspection
import PropertyArchive.CommandLine.Arguments
import PropertyArchive.CommandLine.LogLine
import PropertyArchive.CommandLine.Program
import PropertyArchive.CommandLine.Folder
import PropertyArchive.Main
import PropertyArchive.Proofs.Declaration.Grammar
import PropertyArchive.Proofs.Declaration.Assembly
import PropertyArchive.Proofs.Declaration.Framing
import PropertyArchive.Proofs.Declaration.Recognition
import PropertyArchive.Proofs.Declaration.RoundTrip
import PropertyArchive.Proofs.Declaration.WellFormed
import PropertyArchive.Proofs.Archive.CheckedDecoding
import PropertyArchive.Proofs.Archive.NamedClasses
import PropertyArchive.Proofs.Archive.StrongestCheck
import PropertyArchive.Proofs.Archive.OptionScope
import PropertyArchive.Proofs.Archive.IntegerTransit
import PropertyArchive.Proofs.Archive.InstanceState
import PropertyArchive.Proofs.Reading.Account
import PropertyArchive.Proofs.Reading.Canonical
import PropertyArchive.Proofs.Reading.Splitting
import PropertyArchive.Proofs.Declaration.LeftmostFault
import PropertyArchive.Proofs.Declaration.Spacing
import PropertyArchive.Proofs.ObjectType.Arguments
import PropertyArchive.Proofs.ObjectType.TypeTree
import PropertyArchive.Proofs.Archive.OneLine
import PropertyArchive.Proofs.Report.JsonText
import PropertyArchive.Proofs.Report.PrintedForms
import PropertyArchive.Proofs.Classification.QualifierWords
import PropertyArchive.Proofs.Archive.ResolvedClass
import PropertyArchive.Proofs.Text.MarkerSpacing
import PropertyArchive.Proofs.ObjectType.MarkerSpacing
import PropertyArchive.Proofs.Declaration.MarkerSpacing
import PropertyArchive.Proofs.Archive.MarkerSpacing
import PropertyArchive.Proofs.Declaration.Terminator
import PropertyArchive.Proofs.Declaration.AnnotationWords
import PropertyArchive.Proofs.Archive.StatementText
import PropertyArchive.Proofs.Archive.MatchingStatements
import PropertyArchive.Proofs.Report.InspectedCalls
import PropertyArchive.Proofs.ObjectType.WalkDepth
import PropertyArchive.Proofs.Declaration.NestingLimit
import PropertyArchive.Proofs.Text.CursorAccount
import PropertyArchive.Proofs.Archive.ListedQualifiers
import PropertyArchive.Proofs.Archive.NoticeOrder
import PropertyArchive.Proofs.ObjectType.BareArguments
import PropertyArchive.Proofs.Declaration.BracketLoop
