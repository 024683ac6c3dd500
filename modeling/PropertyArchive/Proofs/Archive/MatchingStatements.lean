/-
  PropertyArchive.Proofs.Archive.MatchingStatements — the two statements of a property match.

  The call of a property is chosen once and used in three places: encoding writes its
  selector, decoding asks in it, and the report on a text names it. Encoding has one form.
  Decoding has several, one for each style and what is known of the class, and they are made
  in different places; `Asks` says what all of them have in common. Each asks in the call
  itself or, for an object only, with a class, and each ends with the key (`asks_asked`).

  `statements_match`: so both statements talk to one coder under one key in one call, and
  that call is the one that inspection prints for the property.
-/
import PropertyArchive.Proofs.Archive.StatementText
import PropertyArchive.Proofs.Report.InspectedCalls

namespace PropertyArchive

open Text

/-! ## Calls -/

namespace ArchiveCall

/-- A call is known from its description. -/
theorem describe_injective : Function.Injective describe :=
  fun _ _ h => encodeSelector_injective (List.append_cancel_right h)

/-- Only the two calls of the widest integers reinterpret a value. -/
theorem ofKind_of_isSome_encodeCast? {k : ValueKind} {w : StorageWidth} (h : (encodeCast? k w).isSome = true) :
    ofKind k w = int64 ∨ ofKind k w = integer := by
  cases k <;> cases w <;> first | exact .inl rfl | exact .inr rfl | cases h

end ArchiveCall

/-! ## Messages to the coder -/

/-- The message asks for the value of a call under a key: in the call itself or, for an
    object, with a class or with several. -/
inductive Asks (call : ArchiveCall) (key : Text) : Text → Prop
  | inCall : Asks call key (call.decodeSelector ++ ":" ++ keyLiteral key)
  | ofClass (c : ObjectClass) : call = .object →
      Asks call key ("decodeObjectOfClass:" ++ DecodeRequest.renderClass c ++ " forKey:" ++ keyLiteral key)
  | ofClasses (cs : List ObjectClass) : call = .object →
      Asks call key ("decodeObjectOfClasses:[NSSet setWithObjects:" ++
        joinWith ", " (cs.map DecodeRequest.renderClass) ++ ", nil] forKey:" ++ keyLiteral key)

namespace DecodeStatement

variable {options : CodeOptions} {d : Declaration}

theorem asks_checked (d : Declaration) (c : ObjectClass) (key : Text) :
    Asks .object key ((DecodeRequest.checked d c).value.render key) := by
  rcases DecodeRequest.checked_cases d c with ⟨elements, -, hr⟩ | ⟨-, hr⟩
  · rw [hr]
    exact .ofClasses _ rfl
  · rw [hr]
    exact .ofClass c rfl

/-- Every style asks for an object, and only a check of its class names classes. -/
theorem asks_objectRequest (options : CodeOptions) (d : Declaration) (key : Text) :
    Asks .object key ((objectRequest options d).value.2.render key) := by
  unfold objectRequest
  cases d.objectClass with
  | none => exact .inCall
  | some c =>
    cases options.decoding with
    | plain => exact .inCall
    | cast => exact .inCall
    | secure =>
      by_cases hs : c.isSecure = true
      · simp only [hs, if_true]
        exact asks_checked d c key
      · simp only [hs]
        exact .inCall

theorem asks_asked (options : CodeOptions) (d : Declaration) (key : Text) :
    Asks d.archiveCall key ((asked options d).value.2.render key) := by
  unfold asked
  by_cases ho : d.archiveCall = .object
  · rw [if_pos ho, ho]
    exact asks_objectRequest options d key
  · rw [if_neg ho]
    exact .inCall

theorem cast_objectRequest (options : CodeOptions) (d : Declaration) :
    (objectRequest options d).value.1 = none ∨ (objectRequest options d).value.1 = some d.declaredType := by
  unfold objectRequest
  repeat' split
  all_goals simp

/-- An object is cast to its type, with its markers, or not at all. -/
theorem renderCast_of_object (h : d.archiveCall = .object) : (ofDeclaration options d).value.renderCast = [] ∨
    (ofDeclaration options d).value.renderCast = "(" ++ d.declaredType ++ ")" := by
  have hc : (asked options d).value.1 = (objectRequest options d).value.1 := by rw [asked, if_pos h]
  rw [renderCast, cast_ofDeclaration, hc]
  rcases cast_objectRequest options d with hn | hs
  · rw [hn]
    exact .inl rfl
  · rw [hs]
    exact .inr rfl

end DecodeStatement

/-! ## Statements of a property -/

namespace Archive

/-- The report names a call for the declaration at a position: in its item of the JSON text, in its
    row of the table, and so in its line. -/
structure Reports (r : InspectionReport) (i : Nat) (call : ArchiveCall) : Prop where
  field : (r.toJson.items "declarations")[i]?.bind (Json.field? "call") = some (.text call.describe)
  printed : (Json.read? (r.output true)).bind (fun j => (j.items "declarations")[i]?.bind (Json.field? "call")) =
    some (.text call.describe)
  cell : (Column.cellsOf? "Call" (InspectedLine.columns r.declarations)).bind (·[i]?) = some call.describe
  line : ∃ line, r.lines[i + 2]? = some line ∧ call.describe <:+: line

structure Restores (options : CodeOptions) (d : Declaration) (target cast message : Text) : Prop where
  text_eq : (decodeText options d).value = target ++ " = " ++ cast ++ "[" ++ options.coder ++ " " ++ message ++ "]"
  target_eq : target = "self." ++ d.name ∨ target = "_" ++ d.name
  asks : Asks d.archiveCall d.name message
  /-- A scalar is cast to its type where this is not the type that the call returns. -/
  scalar_cast_eq : d.archiveCall ≠ .object →
    cast = if d.typeName = d.archiveCall.nativeType then ([] : Text) else "(" ++ d.typeName ++ ")"
  object_cast_eq : d.archiveCall = .object → cast = [] ∨ cast = "(" ++ d.declaredType ++ ")"

structure StatementsMatch (options : CodeOptions) (d : Declaration) : Prop where
  encodeText_eq : encodeText options d =
    "[" ++ options.coder ++ " " ++ d.archiveCall.encodeSelector ++ ":" ++
      (if d.needsCast then "(" ++ d.archiveCall.nativeType ++ ")" else ([] : Text)) ++
        "self." ++ d.name ++ " forKey:@\"" ++ d.name ++ "\"]"
  wide_of_needsCast : d.needsCast = true → d.archiveCall = .int64 ∨ d.archiveCall = .integer
  restores : ∃ target cast message, Restores options d target cast message
  /-- The literal at the end of either statement is the name. -/
  key_eq : keyOf? (encodeText options d) = some d.name ∧ keyOf? (decodeText options d).value = some d.name
  /-- Inspection prints the report on what was read … -/
  inspected : ∀ (json verbose : Bool) (source : Source) (text : Text),
    ((⟨json, verbose, .inspect, source⟩ : Invocation).answerText text).stdout =
      (InspectionReport.ofReading (Reading.ofText text).value).output json
  /-- … which names this call for the declaration, and no other. -/
  reports_iff : ∀ (r : Reading) (i n : Nat), r.accepted[i]? = some ⟨n, d⟩ →
    ∀ call, Reports (InspectionReport.ofReading r) i call ↔ call = d.archiveCall

theorem reports_archiveCall {r : Reading} {i n : Nat} {d : Declaration} (h : r.accepted[i]? = some ⟨n, d⟩) :
    Reports (InspectionReport.ofReading r) i d.archiveCall := by
  have hd : r.declarations[i]? = some d := by
    rw [Reading.declarations, List.getElem?_map, h]
    rfl
  have hfield : ((InspectionReport.ofReading r).toJson.items "declarations")[i]?.bind (Json.field? "call") =
      some (.text d.archiveCall.describe) := by
    have hf := congrArg (·[i]?) (InspectionReport.calls_toJson r)
    simp only [List.getElem?_map, hd, Option.map_some] at hf
    obtain ⟨j, hj, hf⟩ := Option.map_eq_some_iff.1 hf
    rw [hj, Option.bind_some, hf]
  refine ⟨hfield, ?printed, ?cell, InspectionReport.exists_line_of_call hd⟩
  case printed => rw [InspectionReport.read?_output, Option.bind_some, hfield]
  case cell =>
    rw [InspectionReport.calls_columns, Option.bind_some, List.getElem?_map, hd]
    rfl

theorem reports_unique {r : InspectionReport} {i : Nat} {call call' : ArchiveCall} (h : Reports r i call)
    (h' : Reports r i call') : call = call' :=
  ArchiveCall.describe_injective (Option.some.inj (h.cell.symm.trans h'.cell))

theorem exists_restores (options : CodeOptions) (d : Declaration) :
    ∃ target cast message, Restores options d target cast message := by
  have hs : (DecodeStatement.ofDeclaration options d).value =
      DecodeStatement.ofAsked options d (DecodeStatement.asked options d).value := by
    rw [DecodeStatement.ofDeclaration_eq_map, Logged.value_map]
  refine ⟨assignee options d, (DecodeStatement.ofDeclaration options d).value.renderCast,
    (DecodeStatement.asked options d).value.2.render d.name, ?text, ?target, ?asks, ?scalar, ?object⟩
  case text =>
    rw [decodeText_eq, hs]
    rfl
  case target =>
    unfold assignee
    split
    · exact .inr rfl
    · exact .inl rfl
  case asks => exact DecodeStatement.asks_asked options d d.name
  case scalar => exact renderCast_of_scalar
  case object => exact DecodeStatement.renderCast_of_object

/-- Both statements of a property that was read talk to the coder in one call and under one
    key, and the report names this call and no other. -/
theorem statements_match {line : Text} {d : Declaration} (h : Declaration.parse line = .ok d)
    (options : CodeOptions) : StatementsMatch options d where
  encodeText_eq := encodeText_eq options d
  wide_of_needsCast := ArchiveCall.ofKind_of_isSome_encodeCast?
  restores := exists_restores options d
  key_eq := ⟨keyOf?_encodeText (quote_not_mem_name h), keyOf?_decodeText (quote_not_mem_name h)⟩
  inspected := InspectionReport.stdout_inspect
  reports_iff := by
    intro r i n hr call
    constructor
    · exact fun hc => reports_unique hc (reports_archiveCall hr)
    · rintro rfl
      exact reports_archiveCall hr

/-- A checked collection that is restored into its instance variable. -/
theorem statements_match_checked_collection :
    let options : CodeOptions := { decoding := .secure, readonlyToIvar := true }
    let d : Declaration := ⟨"NSArray<NSURL *>", "links", some "readonly", some ⟨"NSArray", .secureCollection⟩, 1⟩
    Declaration.parse "@property (readonly) NSArray<NSURL *> *links;" = .ok d ∧ StatementsMatch options d ∧
      encodeText options d = "[coder encodeObject:self.links forKey:@\"links\"]" ∧
      (decodeText options d).value =
        "_links = [coder decodeObjectOfClasses:[NSSet setWithObjects:" ++
          "[NSArray class], [NSURL class], nil] forKey:@\"links\"]" := by
  intro options d
  have h : Declaration.parse "@property (readonly) NSArray<NSURL *> *links;" = .ok d := by decide +kernel
  exact ⟨h, statements_match h options, by decide +kernel, by decide +kernel⟩

end Archive

end PropertyArchive
