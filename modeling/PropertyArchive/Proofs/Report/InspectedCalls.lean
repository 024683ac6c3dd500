/-
  PropertyArchive.Proofs.Report.InspectedCalls — the report on a text names the call of each
  declaration.

  The report has two forms. The JSON report has an item for each declaration, with the call
  as a field (`calls_toJson`). The text has a line for each declaration, which is the cells
  of its row beside each other (`exists_besideEachOther`); the call is a cell of it
  (`calls_columns`), and the blanks that are trimmed away at the end of a line never reach
  into it (`exists_line_of_call`). `stdout_inspect`: one of the two is what is printed.
-/
import PropertyArchive.Proofs.Report.PrintedForms

namespace PropertyArchive

open Text

/-! ## Lines of a table -/

/-- Columns that all have a cell in a line stand beside each other in that line. -/
theorem exists_besideEachOther {columns : List (List Text)} {k : Nat} (hn : columns ≠ [])
    (hk : ∀ column ∈ columns, k < column.length) :
    ∃ line, (besideEachOther columns)[k]? = some line ∧ ∀ column ∈ columns, ∀ cell ∈ column[k]?, cell <:+: line := by
  induction columns with
  | nil => exact absurd rfl hn
  | cons column columns ih =>
    obtain ⟨hcolumn, hcolumns⟩ := List.forall_mem_cons.1 hk
    have hcell : column[k]? = some column[k] := List.getElem?_eq_getElem hcolumn
    cases columns with
    | nil =>
      refine ⟨column[k], hcell, List.forall_mem_cons.2 ⟨fun cell hc => ?_, List.forall_mem_nil _⟩⟩
      cases hcell.symm.trans hc
      exact List.infix_rfl
    | cons next columns =>
      obtain ⟨rest, hrest, hpart⟩ := ih (List.cons_ne_nil _ _) hcolumns
      refine ⟨column[k] ++ "  " ++ rest, ?_, List.forall_mem_cons.2 ⟨?_, ?_⟩⟩
      · rw [besideEachOther, List.getElem?_zipWith, hcell, hrest]
        exact nofun
      · intro cell hc
        cases hcell.symm.trans hc
        exact ⟨[], "  " ++ rest, by simp⟩
      · intro column hm cell hc
        exact (hpart column hm cell hc).trans (List.suffix_append _ _).isInfix

theorem Column.exists_padded {c : Column} {k : Nat} {cell : Text} (h : (c.header :: c.cells)[k]? = some cell) :
    ∃ padded, c.lines[k]? = some padded ∧ cell <:+: padded := by
  unfold Column.lines
  rw [List.getElem?_map, h]
  refine ⟨_, rfl, ?_⟩
  split
  · exact (List.suffix_append _ _).isInfix
  · exact (List.prefix_append _ _).isInfix

/-- A cell stands in its line of the table. -/
theorem exists_tableLine {columns : List Column} {c : Column} {indent cell : Text} {k : Nat} (hc : c ∈ columns)
    (hk : ∀ column ∈ columns, k < column.cells.length) (h : c.cells[k]? = some cell)
    (hb : ∀ x ∈ cell.getLast?, isBlank x = false) :
    ∃ line, (tableLines indent columns)[k + 1]? = some line ∧ cell <:+: line := by
  have hn : columns.map Column.lines ≠ [] := List.ne_nil_of_mem (List.mem_map_of_mem hc)
  have hlong : ∀ column ∈ columns.map Column.lines, k + 1 < column.length := by
    intro column hm
    obtain ⟨c', hc', rfl⟩ := List.mem_map.1 hm
    simpa [Column.lines] using hk c' hc'
  obtain ⟨line, hline, hpart⟩ := exists_besideEachOther hn hlong
  obtain ⟨padded, hp, hcell⟩ := c.exists_padded (k := k + 1) h
  refine ⟨indent ++ trimEnd line, by rw [tableLines, List.getElem?_map, hline]; rfl, ?_⟩
  have hin := infix_trimEnd (hcell.trans (hpart _ (List.mem_map_of_mem hc) padded hp)) hb
  exact hin.trans (List.suffix_append _ _).isInfix

def Column.cellsOf? (header : Text) (columns : List Column) : Option (List Text) :=
  (columns.find? (·.header = header)).map (·.cells)

/-! ## The report on a reading -/

/-- Every column has a cell for each declaration. -/
theorem InspectedLine.length_cells {ls : List InspectedLine} {c : Column} (h : c ∈ columns ls) :
    c.cells.length = ls.length := by
  simp only [columns, List.mem_cons, List.not_mem_nil, or_false] at h
  rcases h with rfl | rfl | rfl | rfl | rfl | rfl | rfl | rfl <;> exact List.length_map _

namespace InspectionReport

/-- The lines of the table stand behind the heading. -/
theorem getElem?_lines {r : InspectionReport} {k : Nat} {line : Text} (hn : r.declarations ≠ [])
    (h : (tableLines "  " (InspectedLine.columns r.declarations))[k]? = some line) :
    r.lines[k + 1]? = some line := by
  have htable : tableOf InspectedLine.columns r.declarations =
      tableLines "  " (InspectedLine.columns r.declarations) := if_neg (by simpa using hn)
  have hlt := (List.getElem?_eq_some_iff.1 h).1
  rw [lines, htable, List.append_assoc, List.singleton_append, List.getElem?_cons_succ,
    List.getElem?_append_left hlt, h]

/-- The JSON report names the calls of the declarations, in order. -/
theorem calls_toJson (r : Reading) : ((ofReading r).toJson.items "declarations").map (Json.field? "call") =
    r.declarations.map fun d => some (.text d.archiveCall.describe) := by
  have hi : (ofReading r).toJson.items "declarations" = r.accepted.map fun p => (InspectedLine.ofAccepted p).toJson :=
    List.map_map
  rw [hi, Reading.declarations, List.map_map, List.map_map]
  rfl

/-- The table has the calls of the declarations in one of its columns, in order. -/
theorem calls_columns (r : Reading) : Column.cellsOf? "Call" (InspectedLine.columns (ofReading r).declarations) =
    some (r.declarations.map fun d => d.archiveCall.describe) := by
  have hc : Column.cellsOf? "Call" (InspectedLine.columns (ofReading r).declarations) =
      some ((r.accepted.map InspectedLine.ofAccepted).map fun l => l.call.describe) := rfl
  rw [hc, Reading.declarations, List.map_map, List.map_map]
  rfl

theorem getLast?_describe (call : ArchiveCall) : call.describe.getLast? = some ':' := by
  rw [ArchiveCall.describe, List.getLast?_append]
  rfl

/-- Below the heading and the header there is a line for each declaration, with its call. -/
theorem exists_line_of_call {r : Reading} {i : Nat} {d : Declaration} (h : r.declarations[i]? = some d) :
    ∃ line, (ofReading r).lines[i + 2]? = some line ∧ d.archiveCall.describe <:+: line := by
  have hi : i < (ofReading r).declarations.length := by
    simpa [ofReading, Reading.declarations] using (List.getElem?_eq_some_iff.1 h).1
  have hn : (ofReading r).declarations ≠ [] := List.ne_nil_of_length_pos (Nat.zero_lt_of_lt hi)
  obtain ⟨c, hc, hcells⟩ := Option.map_eq_some_iff.1 (calls_columns r)
  have hc : c ∈ InspectedLine.columns (ofReading r).declarations := List.mem_of_find?_eq_some hc
  have hcell : c.cells[i]? = some d.archiveCall.describe := by
    rw [hcells, List.getElem?_map, h]
    rfl
  have hb : ∀ x ∈ d.archiveCall.describe.getLast?, isBlank x = false := by
    intro x hx
    rw [getLast?_describe] at hx
    cases hx
    decide
  obtain ⟨line, hline, hpart⟩ :=
    exists_tableLine hc (fun column hm => (InspectedLine.length_cells hm).symm ▸ hi) hcell hb
  exact ⟨line, getElem?_lines hn hline, hpart⟩

def output (json : Bool) (r : InspectionReport) : Text :=
  if json then r.toJson.render ++ "\n" else r.lines.flatMap (· ++ ("\n" : Text))

/-- The JSON report can be read from what is printed of it. -/
theorem read?_output (r : InspectionReport) : Json.read? (r.output true) = some r.toJson := Json.read?_render r.toJson

theorem stdout_inspect (json verbose : Bool) (source : Source) (text : Text) :
    ((⟨json, verbose, .inspect, source⟩ : Invocation).answerText text).stdout =
      (ofReading (Reading.ofText text).value).output json := by
  cases json with
  | true =>
    have hn : (ofReading (Reading.ofText text).value).toJson.render ≠ [] := Json.render_object_ne_nil _
    exact printed_eq hn
  | false => exact printed_joinWith fun l hl => by cases hl; exact List.cons_ne_nil _ _

end InspectionReport

end PropertyArchive
