/-
  PropertyArchive.Proofs.Reading.Splitting — a text that is cut at a line end is read part by
  part.

  A reading depends on the trimmed lines alone (`ofLines_congr`), on the number of the first
  line only in the numbers of its entries (`ofLines_add`), and lines behind others are read
  as if they came alone (`ofLines_append`). So what is read of two texts with a line end
  between them is what is read of the first, and behind it what is read of the second with
  its numbers moved on by the lines of the first (`ofText_append`).

  An `Edit` puts in a line that declares nothing, or changes how the lines end. One edit
  leaves the declarations and their order alone (`declarations_of_edit`), and so does every
  chain of edits made or undone (`declarations_of_edits`). `ofText_splits` puts both laws
  together.
-/
import Mathlib.Logic.Relation
import PropertyArchive.Proofs.Reading.Account

namespace PropertyArchive

def AcceptedLine.shift (n : Nat) (a : AcceptedLine) : AcceptedLine := { a with line := a.line + n }

def RefusedLine.shift (n : Nat) (r : RefusedLine) : RefusedLine := { r with line := r.line + n }

namespace Reading

open Text

/-! ## Readings one behind the other -/

def shift (n : Nat) (r : Reading) : Reading := ⟨r.accepted.map (·.shift n), r.refused.map (·.shift n)⟩

/-- The entries of one reading, then those of the other. -/
instance : Append Reading := ⟨fun r s => ⟨r.accepted ++ s.accepted, r.refused ++ s.refused⟩⟩

theorem append_def (r s : Reading) : r ++ s = ⟨r.accepted ++ s.accepted, r.refused ++ s.refused⟩ := rfl

@[simp]
theorem declarations_append (r s : Reading) : (r ++ s).declarations = r.declarations ++ s.declarations :=
  List.map_append

@[simp]
theorem declarations_shift (n : Nat) (r : Reading) : (r.shift n).declarations = r.declarations := List.map_map

/-! ## Lines one behind the other -/

theorem accept?_add (raw : Text) (i n : Nat) : accept? (raw, i + n) = (accept? (raw, i)).map (·.shift n) := by
  unfold accept?
  cases Declaration.parse raw <;> rfl

theorem refuse?_add (raw : Text) (i n : Nat) : refuse? (raw, i + n) = (refuse? (raw, i)).map (·.shift n) := by
  unfold refuse?
  cases Declaration.parse raw with
  | ok d => rfl
  | error e => cases e <;> rfl

/-- The number of the first line counts in the numbers of the entries only. -/
theorem ofLines_add (first n : Nat) (lines : List Text) :
    (ofLines (first + n) lines).value = (ofLines first lines).value.shift n := by
  have hz : lines.zipIdx (first + n) = (lines.zipIdx first).map (Prod.map id (· + n)) := by
    rw [List.map_snd_add_zipIdx_eq_zipIdx, Nat.add_comm]
  have ha : accept? ∘ Prod.map id (· + n) = fun entry => (accept? entry).map (·.shift n) :=
    funext fun entry => accept?_add entry.1 entry.2 n
  have hr : refuse? ∘ Prod.map id (· + n) = fun entry => (refuse? entry).map (·.shift n) :=
    funext fun entry => refuse?_add entry.1 entry.2 n
  simp only [ofLines_eq, shift, hz, List.filterMap_map, ha, hr, List.map_filterMap]

theorem ofLines_append (first : Nat) (as bs : List Text) :
    (ofLines first (as ++ bs)).value = (ofLines first as).value ++ (ofLines (first + as.length) bs).value := by
  simp only [ofLines_eq, append_def, List.zipIdx_append, List.filterMap_append]

/-- Only the trimmed lines count. -/
theorem ofLines_congr {as bs : List Text} (h : as.map trim = bs.map trim) (first : Nat) :
    ofLines first as = ofLines first bs := by
  induction as generalizing bs first with
  | nil => rw [List.map_eq_nil_iff.1 h.symm]
  | cons a as ih =>
    obtain ⟨b, bs, rfl, hb, hs⟩ := List.map_eq_cons_iff.1 h.symm
    exact ofLines_cons_congr hb.symm (ih hs.symm (first + 1))

/-! ## Texts one behind the other -/

inductive LineEnd where
  | lf
  | crlf
  deriving DecidableEq, Repr

def LineEnd.text : LineEnd → Text
  | .lf => ['\n']
  | .crlf => ['\r', '\n']

theorem map_trim_lines_append (a : Text) (nl : LineEnd) (b : Text) :
    (lines (a ++ nl.text ++ b)).map trim = (lines a ++ lines b).map trim := by
  cases nl with
  | lf =>
    have e : a ++ LineEnd.lf.text ++ b = a ++ '\n' :: b := List.append_assoc a ['\n'] b
    rw [e, lines_append_newline]
  | crlf =>
    -- The carriage return is the end of the last line of `a`, and trimmed away with it.
    have e : a ++ LineEnd.crlf.text ++ b = (a ++ ['\r']) ++ '\n' :: b := by simp [LineEnd.text]
    have hr : (lines (a ++ ['\r'])).map trim = (lines a).map trim :=
      map_trim_lines_append_gap a (isGap_cons.2 ⟨rfl, isGap_nil⟩) (by simp)
    rw [e, lines_append_newline, List.map_append, hr, List.map_append]

theorem ofText_append (a : Text) (nl : LineEnd) (b : Text) :
    (ofText (a ++ nl.text ++ b)).value = (ofText a).value ++ (ofText b).value.shift (a.count '\n' + 1) := by
  unfold ofText
  rw [ofLines_congr (map_trim_lines_append a nl b), ofLines_append, length_lines, ofLines_add]

theorem ofText_toCrlf (t : Text) : ofText (toCrlf t) = ofText t := ofLines_congr (map_trim_lines_toCrlf t) 1

theorem ofText_toLf (t : Text) : ofText (toLf t) = ofText t := ofLines_congr (map_trim_lines_toLf t) 1

/-! ## Edits -/

/-- A line that declares nothing: a blank one, which is refused as empty, or any other that is
    refused. -/
structure DeclaresNothing (line : Text) : Prop where
  one_line : '\n' ∉ line
  refused : ∃ reason, Declaration.parse line = .error reason

theorem declaresNothing_of_isGap {line : Text} (h : IsGap line) (hn : '\n' ∉ line) : DeclaresNothing line :=
  ⟨hn, .empty, (Declaration.parse_eq_empty_iff line).2 h⟩

/-- A line put into a text where a line may stand, or every line end written in the other way. -/
inductive Edit : Text → Text → Prop
  | first (line : Text) (nl : LineEnd) (b : Text) : DeclaresNothing line → Edit b (line ++ nl.text ++ b)
  | between (a : Text) (nl : LineEnd) (line : Text) (nl' : LineEnd) (b : Text) :
      DeclaresNothing line → Edit (a ++ nl.text ++ b) (a ++ nl.text ++ (line ++ nl'.text ++ b))
  | last (a : Text) (nl : LineEnd) (line : Text) : DeclaresNothing line → Edit a (a ++ nl.text ++ line)
  | toCrlf (t : Text) : Edit t (toCrlf t)
  | toLf (t : Text) : Edit t (toLf t)

theorem declarations_ofText_append (a : Text) (nl : LineEnd) (b : Text) :
    (ofText (a ++ nl.text ++ b)).value.declarations =
      (ofText a).value.declarations ++ (ofText b).value.declarations := by
  rw [ofText_append, declarations_append, declarations_shift]

theorem DeclaresNothing.declarations_eq {line : Text} (h : DeclaresNothing line) :
    (ofText line).value.declarations = [] := by
  obtain ⟨reason, hp⟩ := h.refused
  have ha : accept? (line, 1) = none := by simp only [accept?, hp]
  rw [ofText, lines_of_not_mem h.one_line, ofLines_eq, declarations, List.zipIdx_singleton,
    List.filterMap_cons_none ha]
  rfl

/-- One edit leaves the declarations and their order alone. -/
theorem declarations_of_edit {s t : Text} (h : Edit s t) :
    (ofText s).value.declarations = (ofText t).value.declarations := by
  cases h with
  | first line nl b h => rw [declarations_ofText_append, h.declarations_eq, List.nil_append]
  | between a nl line nl' b h =>
    rw [declarations_ofText_append, declarations_ofText_append, declarations_ofText_append, h.declarations_eq,
      List.nil_append]
  | last a nl line h => rw [declarations_ofText_append, h.declarations_eq, List.append_nil]
  | toCrlf t => rw [ofText_toCrlf]
  | toLf t => rw [ofText_toLf]

/-- So does every chain of edits, made or undone. -/
theorem declarations_of_edits {s t : Text} (h : Relation.EqvGen Edit s t) :
    (ofText s).value.declarations = (ofText t).value.declarations := by
  induction h with
  | rel s t h => exact declarations_of_edit h
  | refl t => rfl
  | symm s t _ ih => exact ih.symm
  | trans s t u _ _ ih ih' => exact ih.trans ih'

structure SplitsAtLineEnds (read : Text → Reading) : Prop where
  /-- The lines are those of a file: one line end at the end starts no further line. -/
  lines_eq : ∀ t, read t = (ofLines 1 (sourceLines t)).value
  /-- The entries of both parts, where the second begins behind the lines of the first. -/
  append_eq : ∀ a nl b, read (a ++ LineEnd.text nl ++ b) = read a ++ (read b).shift (a.count '\n' + 1)
  /-- Neither lines that declare nothing nor the way that lines end count. -/
  declarations_eq : ∀ s t, Relation.EqvGen Edit s t → (read s).declarations = (read t).declarations

/-- Reading a text takes it apart at its line ends. -/
theorem ofText_splits : SplitsAtLineEnds fun text => (ofText text).value where
  lines_eq text := congrArg Logged.value (ofLines_sourceLines 1 text).symm
  append_eq := ofText_append
  declarations_eq _ _ := declarations_of_edits

/-- A text that ends with a carriage return, behind it one that ends with two line ends; a comment in
    front of this one and a blank line behind it, and then other line ends throughout. -/
theorem ofText_splits_mixed_line_ends :
    let a := "@property int a;\r\n\n@end\r".toList
    let b := "@property NSString *b;\r\n\n".toList
    let ab := (ofText (a ++ LineEnd.lf.text ++ b)).value
    ab = (ofText a).value ++ (ofText b).value.shift 3 ∧
      ab.accepted.map (·.line) = [1, 4] ∧ ab.refused.map (·.line) = [3] ∧
      (ofText (Text.toCrlf ("//\n".toList ++ b ++ "\n\t".toList))).value.declarations =
        (ofText b).value.declarations := by
  intro a b ab
  have happ : ab = (ofText a).value ++ (ofText b).value.shift 3 := ofText_splits.append_eq a .lf b
  have hfirst : Edit b ("//\n".toList ++ b) :=
    .first "//".toList .lf b ⟨by decide, .missingKeyword, by decide +kernel⟩
  have hlast : Edit ("//\n".toList ++ b) ("//\n".toList ++ b ++ "\n\t".toList) :=
    .last ("//\n".toList ++ b) .lf "\t".toList (declaresNothing_of_isGap (by decide) (by decide))
  have hedits : Relation.EqvGen Edit b (Text.toCrlf ("//\n".toList ++ b ++ "\n\t".toList)) :=
    .trans _ _ _ (.trans _ _ _ (.rel _ _ hfirst) (.rel _ _ hlast)) (.rel _ _ (.toCrlf _))
  refine ⟨happ, ?_, ?_, (ofText_splits.declarations_eq _ _ hedits).symm⟩
  · rw [happ]
    decide +kernel
  · rw [happ]
    decide +kernel

end Reading

end PropertyArchive
