/-
  PropertyArchive.Proofs.Declaration.Recognition — which lines are declarations, and why
  the others are not.

  - `parse_eq_ok_iff_declares`: reading a line gives a declaration exactly where the
    grammar says that the line declares it.
  - `parse_eq_error_iff_refused`: a line that breaks several rules is refused for the
    first of them. `Refused` lists the stages in their order: the frame (`FrameFault`),
    the tokens, and the declaration that they make (`TokenFault`). Each rule says what the
    stages before it found, and each stage has reasons of its own.
  - Blanks around a line do not count (`parse_trim`), and the lines that are refused as
    empty are the blank ones (`parse_eq_empty_iff`).
  - A declaration has a class only where exactly one marker follows its type, and then it
    is archived as an object (`objectClass_of_parse`, `kind_of_objectClass`).
-/
import PropertyArchive.Proofs.Declaration.Assembly
import PropertyArchive.Proofs.Declaration.Framing

namespace PropertyArchive.Declaration

open Text

inductive Refused (line : Text) : Refusal → Prop
  | frame {e : Refusal} : DeclarationFrame.FrameFault line e → Refused line e
  | scan {frame : DeclarationFrame} {e : Refusal} : DeclarationFrame.Frames line frame → '^' ∉ frame.body →
      Token.scan frame.body = .error e → ScanState.IsScanRefusal e → Refused line e
  | tokens {frame : DeclarationFrame} {ts : List Token} {e : Refusal} : DeclarationFrame.Frames line frame →
      Token.Spells frame.body ts → TokenFault (Token.dropAnnotations ts) e → Refused line e

/-! ## One stage after the other -/

theorem parse_of_fault {line : Text} {e : Refusal} (h : DeclarationFrame.FrameFault line e) :
    parse line = .error e := by
  rw [parse, DeclarationFrame.ofLine_of_fault h]
  rfl

theorem parse_of_frames {line : Text} {frame : DeclarationFrame} (h : DeclarationFrame.Frames line frame)
    (hb : '^' ∉ frame.body) : parse line = Token.scan frame.body >>= ofTokens frame.attributes := by
  rw [parse, DeclarationFrame.ofLine_of_frames h hb]
  rfl

theorem wellFormed_dropAnnotations {body : Text} {ts : List Token} (h : Token.Spells body ts) :
    ∀ t ∈ Token.dropAnnotations ts, t.WellFormed :=
  fun t ht => h.wellFormed t (List.mem_filter.1 ht).1

/-- Behind a body of tokens only the tokens without annotation words count. -/
theorem parse_of_spells {line : Text} {frame : DeclarationFrame} {ts : List Token}
    (h : DeclarationFrame.Frames line frame) (hs : Token.Spells frame.body ts) :
    parse line = ofBareTokens frame.attributes (Token.dropAnnotations ts) := by
  rw [parse_of_frames h (hs.not_mem (by decide)), Token.scan_eq_ok_iff.2 hs,
    ← Token.filter_not_isAnnotating hs.wellFormed]
  rfl

theorem parse_of_declares {line : Text} {d : Declaration} (h : Declares line d) : parse line = .ok d := by
  obtain ⟨frame, ts, hf, hs, ha⟩ := h
  rw [parse_of_spells hf hs, ofBareTokens_of_assembles ha]

theorem parse_of_refused {line : Text} {e : Refusal} (h : Refused line e) : parse line = .error e := by
  cases h with
  | frame hf => exact parse_of_fault hf
  | scan hf hb he => rw [parse_of_frames hf hb, he]; rfl
  | tokens hf hs ht => rw [parse_of_spells hf hs, ofBareTokens_of_fault (wellFormed_dropAnnotations hs) ht]

/-- Every line declares something or is refused for a reason. -/
theorem declares_or_refused (line : Text) : (∃ d, Declares line d) ∨ ∃ e, Refused line e := by
  rcases DeclarationFrame.frames_or_fault line with ⟨frame, hf, hb⟩ | ⟨e, he⟩
  · cases hs : Token.scan frame.body with
    | error e => exact .inr ⟨e, .scan hf hb hs (ScanState.isScanRefusal_of_scan hb hs)⟩
    | ok ts =>
      have hs := Token.scan_eq_ok_iff.1 hs
      rcases assembles_or_fault frame.attributes (wellFormed_dropAnnotations hs) with ⟨d, ha⟩ | ⟨e, he⟩
      · exact .inl ⟨d, frame, ts, hf, hs, ha⟩
      · exact .inr ⟨e, .tokens hf hs he⟩
  · exact .inr ⟨e, .frame he⟩

theorem declares_of_parse {line : Text} {d : Declaration} (h : parse line = .ok d) : Declares line d := by
  have ht := declares_or_refused line
  exact (Outcome.eq_ok_iff_of_total (fun _ => parse_of_declares) (fun _ => parse_of_refused) ht d).1 h

theorem refused_of_parse {line : Text} {e : Refusal} (h : parse line = .error e) : Refused line e := by
  have ht := declares_or_refused line
  exact (Outcome.eq_error_iff_of_total (fun _ => parse_of_declares) (fun _ => parse_of_refused) ht e).1 h

/-! ## Accepted and refused lines -/

/-- Reading a line gives `d` exactly where the line declares it. -/
theorem parse_eq_ok_iff_declares (line : Text) (d : Declaration) : parse line = .ok d ↔ Declares line d :=
  ⟨declares_of_parse, parse_of_declares⟩

/-- Reading a line fails exactly with the reason of the first stage that the line does not
    pass. -/
theorem parse_eq_error_iff_refused (line : Text) (e : Refusal) : parse line = .error e ↔ Refused line e :=
  ⟨refused_of_parse, parse_of_refused⟩

-- The block marker wins over the character in front of it and over the name.
example : parse "@property NSArray<#^> **1x;" = .error .blockType := by decide +kernel

/-! ## Blanks around a line -/

/-- Blanks around a line do not count. -/
theorem parse_trim (line : Text) : parse (trim line) = parse line := by
  simp only [parse, DeclarationFrame.ofLine, trim_trim]

theorem not_tokenFault_empty {ts : List Token} : ¬ TokenFault ts .empty := by
  intro h
  cases h with
  | misfit _ hm =>
    obtain ⟨_, _, _, -, -, hm⟩ := hm
    cases hm

/-- Only a blank line is refused as empty: no later stage has this reason. -/
theorem parse_eq_empty_iff (line : Text) : parse line = .error .empty ↔ IsGap line := by
  constructor
  · intro h
    cases refused_of_parse h with
    | frame hf =>
      cases hf with
      | empty hg => exact hg
    | scan _ _ _ he => cases he
    | tokens _ _ ht => exact absurd ht not_tokenFault_empty
  · intro h
    exact parse_of_refused (.frame (.empty h))

theorem not_isGap_of_parse {line : Text} {d : Declaration} (h : parse line = .ok d) : ¬ IsGap line := by
  intro hg
  rw [(parse_eq_empty_iff line).2 hg] at h
  cases h

/-! ## The parts of a declaration -/

theorem isIdentifier_name_of_parse {line : Text} {d : Declaration} (h : parse line = .ok d) :
    isIdentifier d.name = true := by
  obtain ⟨_, _, -, -, _, _, _, -, -, -, hi, rfl⟩ := declares_of_parse h
  exact hi

theorem objectClass_of_parse {line : Text} {d : Declaration} (h : parse line = .ok d) :
    d.objectClass = if d.pointerDepth = 1 then ObjectType.resolve? d.typeName else none := by
  obtain ⟨_, _, -, -, _, _, _, -, -, -, -, rfl⟩ := declares_of_parse h
  rfl

/-! ## A class means a single pointer -/

section ObjectClass

variable {line : Text} {d : Declaration} {c : ObjectClass}

theorem pointerDepth_of_objectClass (h : parse line = .ok d) (hc : d.objectClass = some c) : d.pointerDepth = 1 := by
  rw [objectClass_of_parse h] at hc
  by_cases hp : d.pointerDepth = 1
  · exact hp
  · rw [if_neg hp] at hc
    cases hc

theorem isPointer_of_objectClass (h : parse line = .ok d) (hc : d.objectClass = some c) : d.isPointer = true := by
  unfold isPointer
  rw [pointerDepth_of_objectClass h hc]
  rfl

/-- What has a class is archived as an object. -/
theorem kind_of_objectClass (h : parse line = .ok d) (hc : d.objectClass = some c) : d.kind = .object := by
  unfold kind ValueKind.ofType
  rw [isPointer_of_objectClass h hc, Bool.true_or, if_pos rfl]

end ObjectClass

end PropertyArchive.Declaration
