/-
  PropertyArchive.Proofs.Reading.Canonical — the canonical text of a reading.

  The canonical text of a reading has a line for each declaration: its canonical text
  (`canonicalText`). Such a line holds no line feed, because a line that was read holds
  none and the canonical text brings none of its own (`newline_not_mem_render`); and it is
  read as the declaration that it is the text of. So the canonical text is read without a
  refused line, as the same declarations, and is the canonical text of that reading too
  (`ofText_canonicalText`). Whatever is made of the declarations stays the same.
-/
import PropertyArchive.Archive.Method
import PropertyArchive.Proofs.Declaration.RoundTrip
import PropertyArchive.Proofs.Reading.Account

namespace PropertyArchive.Reading

open Text

def canonicalText (r : Reading) : Text := joinWith "\n" (r.declarations.map Declaration.render)

/-! ## Canonical lines -/

theorem newline_not_mem_render {line : Text} {d : Declaration} (h : Declaration.parse line = .ok d)
    (hl : '\n' ∉ line) : '\n' ∉ d.render := by
  intro hm
  rcases Declaration.mem_render (Declaration.declares_of_parse h) hm with hm | hm
  · exact hl hm
  · exact absurd hm (by decide)

/-- Every declaration of a reading comes from a line without a line feed. -/
theorem exists_line_of_mem {text : Text} {d : Declaration} (h : d ∈ (ofText text).value.declarations) :
    ∃ line, '\n' ∉ line ∧ Declaration.parse line = .ok d := by
  obtain ⟨a, ha, rfl⟩ := List.mem_map.1 h
  obtain ⟨raw, hm, hp⟩ := mem_accepted_iff.1 ha
  have hr : raw ∈ Text.lines text := List.mem_of_getElem? (List.mk_mem_zipIdx_iff_le_and_getElem?_sub.1 hm).2
  exact ⟨raw, not_mem_of_mem_lines hr, hp⟩

/-- Lines that are each read as a declaration are numbered one after the other. -/
theorem ofLines_render (first : Nat) {ds : List Declaration} (h : ∀ d ∈ ds, Declaration.parse d.render = .ok d) :
    ofLines first (ds.map Declaration.render) = ⟨⟨(ds.zipIdx first).map fun (d, i) => ⟨i, d⟩, []⟩, []⟩ := by
  induction ds generalizing first with
  | nil => rfl
  | cons d ds ih =>
    obtain ⟨hd, hds⟩ := List.forall_mem_cons.1 h
    rw [List.map_cons, ofLines_cons_of_ok hd, ih (first + 1) hds, List.zipIdx_cons, List.map_cons]

/-! ## The canonical text -/

theorem ofText_joinWith {ls : List Text} (h : ∀ l ∈ ls, '\n' ∉ l) : ofText (joinWith "\n" ls) = ofLines 1 ls := by
  cases ls with
  | nil => exact ofLines_cons_of_gap isGap_nil
  | cons l ls => rw [ofText, lines_joinWith h (List.cons_ne_nil l ls)]

theorem ofText_canonicalText_eq (text : Text) : ofText (ofText text).value.canonicalText =
    ⟨⟨((ofText text).value.declarations.zipIdx 1).map fun (d, i) => ⟨i, d⟩, []⟩, []⟩ := by
  have hn : ∀ l ∈ (ofText text).value.declarations.map Declaration.render, '\n' ∉ l := by
    intro l hl
    obtain ⟨d, hd, rfl⟩ := List.mem_map.1 hl
    obtain ⟨line, hf, hp⟩ := exists_line_of_mem hd
    exact newline_not_mem_render hp hf
  have hr : ∀ d ∈ (ofText text).value.declarations, Declaration.parse d.render = .ok d := by
    intro d hd
    obtain ⟨line, -, hp⟩ := exists_line_of_mem hd
    exact Declaration.parse_of_declares (Declaration.declares_render (Declaration.declares_of_parse hp))
  rw [canonicalText, ofText_joinWith hn, ofLines_render 1 hr]

/-- The canonical text of a reading is read as the same declarations, one on each line and
    nothing else; so it gives the same methods and statements. -/
theorem ofText_canonicalText (text : Text) :
    let reading := (ofText text).value
    let again := (ofText reading.canonicalText).value
    again.refused = [] ∧ again.accepted.map (·.line) = List.range' 1 reading.size ∧
      again.declarations = reading.declarations ∧ again.canonicalText = reading.canonicalText ∧
      ∀ options, Archive.encodingMethod options again.declarations = Archive.encodingMethod options reading.declarations ∧
        Archive.decodingMethod options again.declarations = Archive.decodingMethod options reading.declarations ∧
        Archive.methods options again.declarations = Archive.methods options reading.declarations ∧
        Archive.statements options again.declarations = Archive.statements options reading.declarations := by
  intro reading again
  have he : again = ⟨(reading.declarations.zipIdx 1).map fun (d, i) => ⟨i, d⟩, []⟩ :=
    congrArg Logged.value (ofText_canonicalText_eq text)
  have hd : again.declarations = reading.declarations := by
    rw [he, declarations, List.map_map]
    exact List.zipIdx_map_fst 1 reading.declarations
  have hl : again.accepted.map (·.line) = List.range' 1 reading.size := by
    have hs : reading.declarations.length = reading.size := List.length_map _
    rw [he, List.map_map, ← hs]
    exact List.zipIdx_map_snd 1 reading.declarations
  refine ⟨by rw [he], hl, hd, by rw [canonicalText, canonicalText, hd], fun options => ?_⟩
  rw [hd]
  exact ⟨rfl, rfl, rfl, rfl⟩

-- The refused and the blank line leave no trace; the carriage return is kept inside a section only.
example : (ofText "@property (a\r)int  x\r\n\r\n@end\n@property NSArray<id\r>*\ty;").value.canonicalText =
    "@property (a) int x;\n@property NSArray<id\r> *y;".toList := by decide +kernel

end PropertyArchive.Reading
