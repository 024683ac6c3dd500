/-
  PropertyArchive.Proofs.Archive.MarkerSpacing — what the blanks around markers do to a
  checked decode.

  Lines that differ in the blanks around their markers declare properties of one kind, with
  one class, one name and the same qualifiers (`alike_of_respaced`); what they are asked for
  can differ in the element classes of a collection alone (`request_eq_iff`). Unknown element
  classes make the same check as none (`value_checked_of_isCollection`), and where the classes
  of both lines are known they are the same. `secure_of_respaced` puts this together: the
  blanks matter where a marker is glued to the name of an element, and nowhere else.
-/
import PropertyArchive.Proofs.Archive.StrongestCheck
import PropertyArchive.Proofs.Declaration.MarkerSpacing

namespace PropertyArchive

open Text ObjectType

namespace Declaration.Alike

variable {d e : Declaration}

theorem kind_eq (h : d.Alike e) : d.kind = e.kind := by
  unfold Declaration.kind ValueKind.ofType isPointer isAnyObject
  rw [h.baseName, h.scalar, h.pointerDepth]

theorem archiveCall_eq (h : d.Alike e) : d.archiveCall = e.archiveCall := by
  unfold archiveCall storageWidth
  rw [h.kind_eq, h.scalar]

end Declaration.Alike

/-! ## The check of a collection -/

def DecodeRequest.ofElements (c : ObjectClass) : List ObjectClass → DecodeRequest
  | [] => .ofClass c
  | elements => .ofClasses (elements.foldl addClass [c])

namespace DecodeRequest

variable {d e : Declaration} {c : ObjectClass}

/-- Unknown element classes make the same check as none. -/
theorem value_checked_of_isCollection (hc : c.isCollection = true) :
    (checked d c).value = ofElements c (d.elementClasses?.getD []) := by
  unfold checked
  rw [if_pos hc]
  cases d.elementClasses? with
  | none => rfl
  | some elements => cases elements <;> rfl

theorem ofElements_eq_nil_iff {elements : List ObjectClass} :
    ofElements c elements = ofElements c [] ↔ elements = [] := by
  cases elements <;> simp [ofElements]

/-- Two checks of a collection are the same where the known element classes are, as long as
    these do not contradict each other. -/
theorem checked_eq_iff (hk : ∀ es es', d.elementClasses? = some es → e.elementClasses? = some es' → es = es') :
    (checked d c).value = (checked e c).value ↔
      (c.isCollection = true → d.elementClasses?.getD [] = e.elementClasses?.getD []) := by
  by_cases hc : c.isCollection = true
  · rw [value_checked_of_isCollection hc, value_checked_of_isCollection hc]
    simp only [hc, true_imp_iff]
    refine ⟨fun h => ?_, fun h => by rw [h]⟩
    cases hd : d.elementClasses? with
    | none =>
      rw [hd, Option.getD_none, eq_comm, ofElements_eq_nil_iff] at h
      rw [Option.getD_none, h]
    | some es =>
      cases he : e.elementClasses? with
      | none =>
        rw [hd, he, Option.getD_none, ofElements_eq_nil_iff] at h
        rwa [Option.getD_none]
      | some es' => rw [hk es es' hd he]
  · have hn : ∀ d : Declaration, (checked d c).value = .ofClass c :=
      fun d => value_checked_of_no_elements fun _ he => hc he.1
    simp [hn, hc]

end DecodeRequest

/-! ## The statements of respaced lines -/

namespace DecodeStatement

variable {options : CodeOptions} {d e : Declaration}

theorem ofAsked_eq (h : d.Alike e) : ofAsked options d = ofAsked options e := by
  funext asked
  unfold ofAsked targetOf
  rw [h.qualifiers, h.name]

theorem value_eq_ofAsked (options : CodeOptions) (d : Declaration) : (ofDeclaration options d).value =
    ofAsked options d ((ofDeclaration options d).value.cast, (ofDeclaration options d).value.request) := by
  rw [ofDeclaration_eq_map]
  rfl

/-- A scalar is asked for alike, and cast to the type as it is written. -/
theorem scalarRequest_eq (h : d.Alike e) :
    scalarRequest e = ((scalarRequest d).1.map fun _ => e.typeName, (scalarRequest d).2) := by
  have hn : '*' ∉ d.archiveCall.nativeType := by
    cases d.archiveCall <;> decide
  have hi : e.typeName = d.archiveCall.nativeType ↔ d.typeName = d.archiveCall.nativeType := by
    constructor
    · intro he
      rw [← he, h.typeName.symm.eq_of_not_mem (he ▸ hn)]
    · intro hd
      rw [← hd, ← h.typeName.eq_of_not_mem (hd ▸ hn)]
  unfold scalarRequest
  rw [← h.archiveCall_eq]
  by_cases hd : d.typeName = d.archiveCall.nativeType
  · simp [hd, hi.2 hd]
  · simp [hd, mt hi.1 hd]

theorem value_of_scalar (options : CodeOptions) (hk : d.kind ≠ .object) :
    (ofDeclaration options d).value = ofAsked options d (scalarRequest d) := by
  rw [ofDeclaration_eq_map]
  unfold asked
  rw [if_neg (mt Declaration.archiveCall_eq_object_iff.1 hk)]
  rfl

theorem value_eq_of_scalar (h : d.Alike e) (hk : d.kind ≠ .object) : (ofDeclaration options e).value =
    { (ofDeclaration options d).value with cast := (ofDeclaration options d).value.cast.map fun _ => e.typeName } := by
  rw [value_of_scalar options hk, value_of_scalar options (h.kind_eq ▸ hk), scalarRequest_eq h, ← ofAsked_eq h]
  rfl

/-- Objects are asked for alike where the known element classes of a collection are the same. -/
theorem request_eq_iff {line line' : Text} (h : d.Alike e) (hd : Declaration.parse line = .ok d)
    (he : Declaration.parse line' = .ok e) (ho : options.decoding = .secure) :
    (ofDeclaration options d).value.request = (ofDeclaration options e).value.request ↔
      ∀ c, d.objectClass = some c → c.isCollection = true →
        d.elementClasses?.getD [] = e.elementClasses?.getD [] := by
  rcases request_cases hd ho with ⟨c, hc, hs, hr⟩ | ⟨hn, hr⟩
  · have hc' : e.objectClass = some c := h.objectClass ▸ hc
    rw [hr, request_of_isSecure he ho hc' hs, DecodeRequest.checked_eq_iff fun _ _ => elementClasses?_unique h.typeName]
    simp [hc]
  · have hn' : ∀ c, e.objectClass = some c → c.isSecure = false := h.objectClass ▸ hn
    rw [hr, request_of_unchecked ho hn', h.archiveCall_eq]
    simp only [true_iff]
    intro c hc hk
    have hs := hn c hc
    rw [ObjectClass.isSecure_of_isCollection hk] at hs
    cases hs

theorem value_eq_iff {line line' : Text} (h : d.Alike e) (hd : Declaration.parse line = .ok d)
    (he : Declaration.parse line' = .ok e) (ho : options.decoding = .secure) (hk : d.kind = .object) :
    (ofDeclaration options d).value = (ofDeclaration options e).value ↔
      ∀ c, d.objectClass = some c → c.isCollection = true →
        d.elementClasses?.getD [] = e.elementClasses?.getD [] := by
  rw [← request_eq_iff h hd he ho]
  refine ⟨fun hv => by rw [hv], fun hr => ?_⟩
  rw [value_eq_ofAsked options d, value_eq_ofAsked options e, ofAsked_eq h, hr, cast_of_secure ho hk,
    cast_of_secure ho (h.kind_eq ▸ hk)]

/-- Two lines that differ in the blanks around their markers have element classes that differ
    exactly where one line glues a marker to the name of an element and those of the other are
    known. The texts of checked decodes are the same where the statements are: those of objects
    unless this concerns a collection, and those of scalars but for the cast, which repeats the
    type. -/
theorem secure_of_respaced {line line' : Text} {d e : Declaration} (h : Respaced line line')
    (hd : Declaration.parse line = .ok d) (he : Declaration.parse line' = .ok e) :
    d.kind = e.kind ∧
      (d.elementClasses? ≠ e.elementClasses? ↔
        Glues d.typeName ∧ e.elementClasses?.isSome ∨ Glues e.typeName ∧ d.elementClasses?.isSome) ∧
      ∀ options : CodeOptions, options.decoding = .secure →
        ((Archive.decodeText options d).value = (Archive.decodeText options e).value ↔
          (ofDeclaration options d).value = (ofDeclaration options e).value) ∧
        (d.kind = .object → ((ofDeclaration options d).value = (ofDeclaration options e).value ↔
          ∀ c, d.objectClass = some c → c.isCollection = true →
            d.elementClasses?.getD [] = e.elementClasses?.getD [])) ∧
        (d.kind ≠ .object → (ofDeclaration options e).value =
          { (ofDeclaration options d).value with
            cast := (ofDeclaration options d).value.cast.map fun _ => e.typeName }) := by
  have ha := Declaration.alike_of_respaced h hd he
  refine ⟨ha.kind_eq, elementClasses?_ne_iff ha.typeName, fun options ho => ⟨?_, fun hk => ?_, fun hk => ?_⟩⟩
  · exact Archive.decodeText_eq_decodeText_iff hd he
  · exact value_eq_iff ha hd he ho hk
  · exact value_eq_of_scalar ha hk

/-- A blank less behind the name of the elements, and they are unknown. -/
theorem secure_of_respaced_glued_marker :
    let line : Text := "@property NSArray<NSString * const> *x;"
    let line' : Text := "@property NSArray<NSString* const> *x;"
    let d : Declaration := ⟨"NSArray<NSString * const>", "x", none, some ⟨"NSArray", .secureCollection⟩, 1⟩
    let e : Declaration := ⟨"NSArray<NSString* const>", "x", none, some ⟨"NSArray", .secureCollection⟩, 1⟩
    Respaced line line' ∧ Declaration.parse line = .ok d ∧ Declaration.parse line' = .ok e ∧
      Glues e.typeName ∧ d.elementClasses? = some [⟨"NSString", .secure⟩] ∧ d.elementClasses? ≠ e.elementClasses? ∧
      (ofDeclaration { decoding := .secure } d).value ≠ (ofDeclaration { decoding := .secure } e).value ∧
      (Archive.decodeText { decoding := .secure } d).value ≠ (Archive.decodeText { decoding := .secure } e).value := by
  intro line line' d e
  have h : Respaced line line' := by
    have hm : IsMarker " * " := ⟨" ", " ", by decide, by decide, rfl⟩
    have hn : IsMarker "* " := ⟨[], " ", by decide, by decide, rfl⟩
    exact (Respaced.refl "@property NSArray<NSString").append (.marker hm hn (.refl "const> *x;"))
  have hd : Declaration.parse line = .ok d := by decide +kernel
  have he : Declaration.parse line' = .ok e := by decide +kernel
  have hg : Glues e.typeName := ⟨"NSString* const", nestedArgument_of_mem (by decide +kernel), by decide +kernel⟩
  have hs : d.elementClasses? = some [⟨"NSString", .secure⟩] := by decide +kernel
  have hf := secure_of_respaced h hd he
  obtain ⟨htext, hobject, -⟩ := hf.2.2 { decoding := .secure } rfl
  have hne : (ofDeclaration { decoding := .secure } d).value ≠ (ofDeclaration { decoding := .secure } e).value := by
    intro hv
    have hc := (hobject rfl).1 hv _ rfl rfl
    have hn : e.elementClasses? = none := elementClasses?_of_glues hg
    rw [hs, hn] at hc
    cases hc
  exact ⟨h, hd, he, hg, hs, hf.2.1.2 (.inr ⟨hg, by rw [hs]; rfl⟩), hne, mt htext.1 hne⟩

end DecodeStatement

end PropertyArchive
