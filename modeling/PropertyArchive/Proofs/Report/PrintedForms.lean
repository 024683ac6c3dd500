/-
  PropertyArchive.Proofs.Report.PrintedForms — the four forms of generated code agree.

  Code is printed as both methods or as bare statements, and each of them as text or as a
  JSON report. The forms come about on separate ways: the text of the methods is put
  together from the report and not by `Archive.methods`, and bare statements come from a
  walk of their own. `printed_forms_agree` says that they tell the same:

  - the methods printed are `Archive.methods`, and so are the two texts of the JSON report
    with an empty line between them;
  - the statements printed are `Archive.statements`, with a semicolon and a line feed
    behind each. They are the property lines of the methods without their indentation,
    and nothing is printed where every declaration is a class property;
  - every report counts the declarations and lists the refused lines of the reading;
  - a JSON report holds all this in its printed text, where `Json.read?` finds it.

  Where the name of the coder holds no line feed, what is printed line by line is what a
  reader of the text finds on its lines, since no statement holds a line feed either
  (`Archive.newline_not_mem_of_mem_statements`).
-/
import PropertyArchive.CommandLine.Program
import PropertyArchive.Proofs.Archive.OneLine
import PropertyArchive.Proofs.Report.JsonText

namespace PropertyArchive

open Text

/-! ## Printed lines -/

theorem printed_eq {report : Text} (h : report ≠ []) : printed report = report ++ ("\n" : Text) := if_neg h

/-- Lines are printed with a line feed behind each, where the first of them is not empty. -/
theorem printed_joinWith {ls : List Text} (h : ∀ l ∈ ls.head?, l ≠ []) :
    printed (joinWith "\n" ls) = ls.flatMap (· ++ ("\n" : Text)) := by
  cases ls with
  | nil => rfl
  | cons l ls =>
    have hn : joinWith "\n" (l :: ls) ≠ [] := by
      obtain ⟨c, t, rfl⟩ := List.exists_cons_of_ne_nil (h l rfl)
      cases ls <;> simp [joinWith]
    rw [printed_eq hn]
    exact joinWith_append_gap (List.cons_ne_nil l ls)

/-! ## Fields of a report -/

namespace Json

def field? (key : Text) : Json → Option Json
  | object fields => (fields.find? (·.1 = key)).map (·.2)
  | _ => none

/-- The items of a field; a field that is left out has none. -/
def items (key : Text) (j : Json) : List Json :=
  match j.field? key with
  | some (list items) => items
  | _ => []

theorem key_of_mem_listField {α : Type} {key : Text} {encode : α → Json} {xs : List α} {f : Text × Json}
    (h : f ∈ listField key encode xs) : f.1 = key := by
  cases xs with
  | nil => cases h
  | cons x xs =>
    rw [List.mem_singleton.1 h]

/-- A list field among fields of other keys has the items of its list. -/
theorem items_listField {α : Type} {key : Text} {encode : α → Json} {xs : List α} {before after : List (Text × Json)}
    (hb : ∀ f ∈ before, f.1 ≠ key) (ha : ∀ f ∈ after, f.1 ≠ key) :
    (object (before ++ listField key encode xs ++ after)).items key = xs.map encode := by
  have hn : ∀ fields : List (Text × Json), (∀ f ∈ fields, f.1 ≠ key) → fields.find? (·.1 = key) = none :=
    fun fields h => List.find?_eq_none.2 fun f hf => by simpa using h f hf
  rw [items, field?, List.find?_append, List.find?_append, hn before hb, hn after ha, Option.none_or, Option.or_none]
  cases xs with
  | nil => rfl
  | cons x xs => simp [listField]

theorem block_ne_nil {depth : Nat} {opening closing : Text} {items : List Text} (h : opening ≠ []) :
    block depth opening closing items ≠ [] := by
  unfold block
  split <;> simp [h]

theorem render_object_ne_nil (fields : List (Text × Json)) : (object fields).render ≠ [] :=
  block_ne_nil (by decide)

end Json

/-! ## Lines of the code -/

namespace Archive

variable {options : CodeOptions} {ds : List Declaration}

def methodLines (options : CodeOptions) (ds : List Declaration) : List Text :=
  (encodeOpening options ++ encodeBody options ds ++ encodeClosing) ++
    [] :: (decodeOpening options ++ decodeBody options ds ++ decodeClosing options)

theorem value_methods : (methods options ds).value =
    (encodingMethod options ds).value ++ "\n\n" ++ (decodingMethod options ds).value := rfl

/-- Both methods, with a line feed behind each line. -/
theorem value_methods_append_newline :
    (methods options ds).value ++ ("\n" : Text) = (methodLines options ds).flatMap (· ++ ("\n" : Text)) := by
  have he : (encodingMethod options ds).value ++ ("\n" : Text) =
      (encodeOpening options ++ encodeBody options ds ++ encodeClosing).flatMap (· ++ ("\n" : Text)) := by
    rw [value_encodingMethod]
    exact joinWith_append_gap (by simp [encodeOpening])
  have hd : (decodingMethod options ds).value ++ ("\n" : Text) =
      (decodeOpening options ++ decodeBody options ds ++ decodeClosing options).flatMap (· ++ ("\n" : Text)) := by
    rw [value_decodingMethod]
    exact joinWith_append_gap (by simp [decodeOpening])
  rw [methodLines, List.flatMap_append, List.flatMap_cons, ← he, ← hd, value_methods]
  simp only [List.append_assoc]
  rfl

/-- There are no statements where every declaration is a class property. -/
theorem value_statements_eq_nil_iff (options : CodeOptions) (ds : List Declaration) :
    (statements options ds).value = [] ↔ ∀ d ∈ ds, d.isClassProperty = true := by
  rw [value_statements, List.append_eq_nil_iff, encodes, decodes, List.map_eq_nil_iff, List.map_eq_nil_iff,
    and_self, instanceState, List.filter_eq_nil_iff]
  simp

/-- Property lines are indented by one level in the encoding method and by two in the other. -/
theorem indent_prefix_bodies (options : CodeOptions) (ds : List Declaration) :
    (∀ l ∈ encodeBody options ds, options.indent <+: l) ∧
      ∀ l ∈ decodeBody options ds, options.indent ++ options.indent <+: l := by
  have hp : ∀ (indent : Text) (ls : List Text),
      ∀ l ∈ ls.map fun statement => indent ++ statement ++ (";" : Text), indent <+: l := by
    intro indent ls l hl
    obtain ⟨statement, -, rfl⟩ := List.mem_map.1 hl
    exact ⟨statement ++ (";" : Text), (List.append_assoc ..).symm⟩
  exact ⟨hp _ _, hp _ _⟩

/-- Property lines without their indentation are the statements with their semicolons. -/
theorem unindented_bodies (options : CodeOptions) (ds : List Declaration) :
    (encodeBody options ds).map (List.drop options.indent.length) ++
        (decodeBody options ds).map (List.drop (options.indent ++ options.indent).length) =
      (statements options ds).value.map (· ++ (";" : Text)) := by
  have hd : ∀ (indent : Text) (ls : List Text),
      (ls.map fun statement => indent ++ statement ++ (";" : Text)).map (List.drop indent.length) =
        ls.map (· ++ (";" : Text)) := by
    intro indent ls
    simp
  rw [value_statements, List.map_append, encodeBody, decodeBody, hd, hd]

/-! ## Lines without a line feed -/

/-- Where the name of the coder brings no line feed, no statement holds one. -/
theorem newline_not_mem_of_mem_statements (hc : '\n' ∉ options.coder)
    (hds : ∀ d ∈ ds, ∃ line, '\n' ∉ line ∧ Declaration.parse line = .ok d) {statement : Text}
    (hs : statement ∈ (statements options ds).value) : '\n' ∉ statement := by
  rw [value_statements, List.mem_append] at hs
  rcases hs with hs | hs
  · obtain ⟨d, hd, rfl⟩ := List.mem_map.1 hs
    obtain ⟨line, hl, hp⟩ := hds d (List.mem_filter.1 hd).1
    exact newline_not_mem_encodeText hc (Declaration.isOneLine_of_parse hp hl)
  · obtain ⟨d, hd, rfl⟩ := List.mem_map.1 hs
    obtain ⟨line, hl, hp⟩ := hds d (List.mem_filter.1 hd).1
    exact newline_not_mem_decodeText hc hp hl

theorem newline_not_mem_of_mem_methodLines (hc : '\n' ∉ options.coder) (hi : '\n' ∉ options.indent)
    (hds : ∀ d ∈ ds, ∃ line, '\n' ∉ line ∧ Declaration.parse line = .ok d) {l : Text}
    (hl : l ∈ methodLines options ds) : '\n' ∉ l := by
  have hs : ∀ statement ∈ encodes options ds ++ decodes options ds, '\n' ∉ statement := fun statement hs =>
    newline_not_mem_of_mem_statements hc hds (by rwa [value_statements])
  rw [List.forall_mem_append] at hs
  have hsuper : ∀ l ∈ superEncode options, '\n' ∉ l := by
    unfold superEncode
    split <;> simp [hc, hi]
  have hcall : '\n' ∉ superCall options := by
    unfold superCall
    split <;> simp [hc]
  have hencode : ∀ l ∈ encodeOpening options, '\n' ∉ l := List.forall_mem_cons.2 ⟨by simp [hc], hsuper⟩
  have hdecode : ∀ l ∈ decodeOpening options, '\n' ∉ l := by simp [decodeOpening, hc, hi, hcall]
  have hclose : ∀ l ∈ decodeClosing options, '\n' ∉ l := by simp [decodeClosing, hi]
  simp only [methodLines, List.mem_append, List.mem_cons] at hl
  rcases hl with ((hl | hl) | hl) | rfl | (hl | hl) | hl
  · exact hencode l hl
  · obtain ⟨statement, hm, rfl⟩ := List.mem_map.1 hl
    simp [hi, hs.1 statement hm]
  · have he : ∀ l ∈ encodeClosing, '\n' ∉ l := by decide
    exact he l hl
  · exact List.not_mem_nil
  · exact hdecode l hl
  · obtain ⟨statement, hm, rfl⟩ := List.mem_map.1 hl
    simp [hi, hs.2 statement hm]
  · exact hclose l hl

end Archive

/-! ## The report on generated code -/

/-- The item of a refused line tells its number, its text and its reason. -/
theorem RefusedLine.toJson_injective : Function.Injective RefusedLine.toJson := by
  intro r r' h
  simp only [RefusedLine.toJson, Json.object.injEq, List.cons.injEq, Prod.mk.injEq, Json.number.injEq, Json.text.injEq,
    true_and, and_true] at h
  obtain ⟨hline, htext, hreason⟩ := h
  cases r
  cases r'
  cases hline
  cases htext
  cases Refusal.message_injective hreason
  rfl

namespace CodeReport

variable {r : CodeReport}

theorem declarationCount_toJson (r : CodeReport) :
    r.toJson.field? "declaration_count" = some (.number r.declarationCount) := rfl

theorem methods_toJson {encode decode : Text} (h : r.code = .methods encode decode) :
    r.toJson.field? "encode_method" = some (.text encode) ∧ r.toJson.field? "init_method" = some (.text decode) := by
  rw [toJson, h]
  exact ⟨rfl, rfl⟩

theorem statements_toJson {statements : List Text} (h : r.code = .statements statements) :
    r.toJson.items "statements" = statements.map .text := by
  rw [toJson, h]
  refine Json.items_listField (by simp) fun f hf => ?_
  rw [Json.key_of_mem_listField hf]
  decide

/-- No field of the code has the key of the refused lines. -/
theorem key_ne_of_mem_codeFields {code : GeneratedText} {f : Text × Json} (h : f ∈ codeFields code) :
    f.1 ≠ "skipped".toList := by
  cases code with
  | methods encode decode =>
    simp only [codeFields, List.mem_cons, List.not_mem_nil, or_false] at h
    rcases h with rfl | rfl <;> simp
  | statements statements =>
    rw [Json.key_of_mem_listField h]
    decide

theorem skipped_toJson (r : CodeReport) : r.toJson.items "skipped" = r.refused.map RefusedLine.toJson := by
  have hb : ∀ f ∈ ("declaration_count".toList, .number r.declarationCount) :: codeFields r.code,
      f.1 ≠ "skipped".toList :=
    List.forall_mem_cons.2 ⟨by simp, fun f hf => key_ne_of_mem_codeFields hf⟩
  rw [toJson, ← Json.items_listField hb (List.forall_mem_nil _), List.append_nil]
  rfl

/-- What is printed of a report: its JSON text, or its lines. -/
def output (json : Bool) (r : CodeReport) : Text :=
  if json then r.toJson.render ++ "\n" else r.lines.flatMap (· ++ ("\n" : Text))

theorem printed_eq_output (json : Bool) (r : CodeReport) :
    printed (if json then r.toJson.render else joinWith "\n" r.lines) = r.output json := by
  cases json with
  | true =>
    have hn : r.toJson.render ≠ [] := Json.render_object_ne_nil _
    exact printed_eq hn
  | false =>
    have hn : ∀ l ∈ r.lines, l ≠ [] := by
      unfold lines
      split <;> simp
    exact printed_joinWith fun l hl => hn l (List.mem_of_mem_head? hl)

/-! ## The report on the code of a reading -/

variable {options : CodeOptions} {reading : Reading}

theorem value_ofReading (onlyStatements : Bool) : (ofReading options onlyStatements reading).value =
    ⟨reading.size,
      if onlyStatements then .statements (Archive.statements options reading.declarations).value
      else .methods (Archive.encodingMethod options reading.declarations).value
        (Archive.decodingMethod options reading.declarations).value,
      reading.refused⟩ := by
  cases onlyStatements <;> rfl

theorem output_methods : (ofReading options false reading).value.output false =
    (Archive.methods options reading.declarations).value ++ ("\n" : Text) := by
  rw [value_ofReading]
  exact List.append_nil _

theorem output_statements : (ofReading options true reading).value.output false =
    ((Archive.statements options reading.declarations).value.map (· ++ (";" : Text))).flatMap (· ++ ("\n" : Text)) := by
  rw [value_ofReading]
  rfl

end CodeReport

/-! ## Agreement -/

/-- The four forms of the code of a reading tell the same: a run makes `report onlyStatements` and
    prints `print json onlyStatements`. -/
structure PrintedFormsAgree (options : CodeOptions) (reading : Reading) (report : (onlyStatements : Bool) → CodeReport)
    (print : (json onlyStatements : Bool) → Text) : Prop where
  /-- A JSON report is printed as its text … -/
  json_eq : ∀ onlyStatements, print true onlyStatements = (report onlyStatements).toJson.render ++ ("\n" : Text)
  /-- … in which a reader of JSON finds the report. -/
  json_read : ∀ onlyStatements, Json.read? (print true onlyStatements) = some (report onlyStatements).toJson
  /-- Both methods are printed as they are generated together. -/
  methods_eq : print false false = (Archive.methods options reading.declarations).value ++ ("\n" : Text)
  /-- The JSON report has both methods apart. -/
  methodFields : ∃ encode decode,
    (report false).toJson.field? "encode_method" = some (.text encode) ∧
      (report false).toJson.field? "init_method" = some (.text decode) ∧
        encode ++ "\n\n" ++ decode = (Archive.methods options reading.declarations).value
  /-- Bare statements are printed as they are generated, each with its end. -/
  statements_eq : print false true =
    (Archive.statements options reading.declarations).value.flatMap (· ++ (";\n" : Text))
  /-- The JSON report has the statements without their ends. -/
  statementItems : (report true).toJson.items "statements" =
    (Archive.statements options reading.declarations).value.map .text
  /-- The methods are printed line by line; their bodies are the property lines. -/
  methodLines_eq : print false false =
    (Archive.methodLines options reading.declarations).flatMap (· ++ ("\n" : Text))
  indented : (∀ l ∈ Archive.encodeBody options reading.declarations, options.indent <+: l) ∧
    ∀ l ∈ Archive.decodeBody options reading.declarations, options.indent ++ options.indent <+: l
  /-- Bare statements are the property lines without their indentation. -/
  unindented : print false true =
    ((Archive.encodeBody options reading.declarations).map (List.drop options.indent.length) ++
      (Archive.decodeBody options reading.declarations).map
        (List.drop (options.indent ++ options.indent).length)).flatMap (· ++ ("\n" : Text))
  empty_iff : print false true = [] ↔ ∀ d ∈ reading.declarations, d.isClassProperty = true
  /-- The statements are the lines of the text where the name of the coder is on one line. -/
  lines_statements : '\n' ∉ options.coder → lines (print false true) =
    (Archive.statements options reading.declarations).value.map (· ++ (";" : Text)) ++ [[]]
  lines_methods : '\n' ∉ options.coder → '\n' ∉ options.indent → lines (print false false) =
    Archive.methodLines options reading.declarations ++ [[]]
  declarationCount_eq : ∀ onlyStatements,
    (report onlyStatements).toJson.field? "declaration_count" = some (.number reading.accepted.length)
  /-- Every form has the refused lines of the reading … -/
  refused_eq : ∀ onlyStatements, (report onlyStatements).refused = reading.refused
  /-- … and every JSON report lists them, in order. -/
  skippedItems : ∀ onlyStatements, (report onlyStatements).toJson.items "skipped" =
    reading.refused.map fun r =>
      .object [("line", .number r.line), ("text", .text r.text), ("reason", .text r.reason.message)]
  /-- No other lines have these items. -/
  skipped_unique : ∀ onlyStatements refused,
    (report onlyStatements).toJson.items "skipped" = refused.map RefusedLine.toJson → refused = reading.refused

/-- Whatever text is read, and with whatever options, the forms of its code agree. -/
theorem printed_forms_agree (options : CodeOptions) (verbose : Bool) (source : Source) (text : Text) :
    let reading := (Reading.ofText text).value
    PrintedFormsAgree options reading (fun onlyStatements => (CodeReport.ofReading options onlyStatements reading).value)
      fun json onlyStatements =>
        ((⟨json, verbose, .generate options onlyStatements, source⟩ : Invocation).answerText text).stdout := by
  intro reading
  have hds : ∀ d ∈ reading.declarations, ∃ line, '\n' ∉ line ∧ Declaration.parse line = .ok d :=
    fun d hd => Reading.exists_line_of_mem hd
  have hprint : ∀ json onlyStatements,
      ((⟨json, verbose, .generate options onlyStatements, source⟩ : Invocation).answerText text).stdout =
        (CodeReport.ofReading options onlyStatements reading).value.output json :=
    fun json onlyStatements => CodeReport.printed_eq_output json _
  have hr : ∀ onlyStatements, (CodeReport.ofReading options onlyStatements reading).value.refused = reading.refused := by
    intro onlyStatements
    rw [CodeReport.value_ofReading]
  simp only [hprint]
  exact {
    json_eq := fun onlyStatements => rfl
    json_read := fun onlyStatements => Json.read?_render (CodeReport.ofReading options onlyStatements reading).value.toJson
    methods_eq := CodeReport.output_methods
    methodFields := ⟨_, _, (CodeReport.methods_toJson rfl).1, (CodeReport.methods_toJson rfl).2, rfl⟩
    statements_eq := by
      rw [CodeReport.output_statements, List.flatMap_map]
      simp
    statementItems := CodeReport.statements_toJson rfl
    methodLines_eq := CodeReport.output_methods.trans Archive.value_methods_append_newline
    indented := Archive.indent_prefix_bodies options reading.declarations
    unindented := by
      rw [Archive.unindented_bodies, CodeReport.output_statements]
    empty_iff := by
      rw [CodeReport.output_statements, ← Archive.value_statements_eq_nil_iff options]
      cases (Archive.statements options reading.declarations).value <;> simp
    lines_statements := by
      intro hc
      rw [CodeReport.output_statements]
      refine lines_flatMap_newline fun l hl => ?_
      obtain ⟨statement, hs, rfl⟩ := List.mem_map.1 hl
      simp [Archive.newline_not_mem_of_mem_statements hc hds hs]
    lines_methods := by
      intro hc hi
      rw [CodeReport.output_methods, Archive.value_methods_append_newline]
      exact lines_flatMap_newline fun l hl => Archive.newline_not_mem_of_mem_methodLines hc hi hds hl
    declarationCount_eq := by
      intro onlyStatements
      rw [CodeReport.declarationCount_toJson, CodeReport.value_ofReading]
      rfl
    refused_eq := hr
    skippedItems := by
      intro onlyStatements
      rw [CodeReport.skipped_toJson, hr]
      rfl
    skipped_unique := by
      intro onlyStatements refused h
      rw [CodeReport.skipped_toJson, hr] at h
      exact (List.map_injective_iff.2 RefusedLine.toJson_injective h).symm
  }

-- The class property leaves no statements.
example : ((⟨false, false, .generate {} true, .standardInput⟩ : Invocation).answerText
      "@property (class) id a;\n@property id b;").stdout =
    "[coder encodeObject:self.b forKey:@\"b\"];\nself.b = [coder decodeObjectForKey:@\"b\"];\n".toList := by
  decide +kernel

end PropertyArchive
