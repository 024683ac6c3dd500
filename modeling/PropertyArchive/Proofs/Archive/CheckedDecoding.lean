/-
  PropertyArchive.Proofs.Archive.CheckedDecoding — what a checked decode asks for, and which
  classes it names.

  The class of a property is looked up only for a single pointer, which an archive always
  carries as an object (`archiveCall_of_objectClass`), so a class in the declaration means
  that the decode is one of an object. It is checked where the class is secure, and any
  other property is asked for without a check, in its own call (`request_cases`). The check
  names the class, and for a collection whose elements are all known their classes
  (`checked_cases`, `mem_classes_iff`).
-/
import PropertyArchive.Archive.Statement
import PropertyArchive.Proofs.Declaration.Recognition
import PropertyArchive.Proofs.ObjectType.Elements

namespace PropertyArchive

/-! ## A class means an object -/

theorem ArchiveCall.ofKind_eq_object_iff {k : ValueKind} {w : StorageWidth} : ofKind k w = .object ↔ k = .object := by
  cases k <;> cases w <;> simp [ofKind]

/-- Objects, and only they, travel in the object call. -/
theorem Declaration.archiveCall_eq_object_iff {d : Declaration} : d.archiveCall = .object ↔ d.kind = .object :=
  ArchiveCall.ofKind_eq_object_iff

theorem Declaration.archiveCall_of_objectClass {line : Text} {d : Declaration} {c : ObjectClass}
    (h : parse line = .ok d) (hc : d.objectClass = some c) : d.archiveCall = .object :=
  archiveCall_eq_object_iff.2 (kind_of_objectClass h hc)

/-! ## The check of an object -/

theorem ObjectClass.isSecure_of_isCollection {c : ObjectClass} (h : c.isCollection = true) : c.isSecure = true := by
  unfold isCollection at h
  unfold isSecure
  rw [h, Bool.or_true]

/-- The class of a collection, all of whose elements have known classes, and there are some. -/
def Declaration.HasElements (d : Declaration) (c : ObjectClass) (elements : List ObjectClass) : Prop :=
  c.isCollection = true ∧ d.elementClasses? = some elements ∧ elements ≠ []

namespace DecodeRequest

variable {d : Declaration} {c container : ObjectClass} {elements : List ObjectClass}

theorem checked_of_elements (h : d.HasElements c elements) :
    (checked d c).value = .ofClasses (elements.foldl ObjectType.addClass [c]) := by
  obtain ⟨hk, he, hn⟩ := h
  unfold checked
  rw [if_pos hk, he]
  cases elements with
  | nil => exact absurd rfl hn
  | cons e es => rfl

theorem value_checked_of_no_elements (h : ∀ elements, ¬ d.HasElements c elements) :
    (checked d c).value = .ofClass c := by
  unfold checked
  by_cases hk : c.isCollection = true
  · rw [if_pos hk]
    cases he : d.elementClasses? with
    | none => rfl
    | some elements =>
      cases elements with
      | nil => rfl
      | cons e es => exact absurd ⟨hk, he, List.cons_ne_nil e es⟩ (h (e :: es))
  · rw [if_neg hk]
    rfl

/-- The check names the elements where they are known, and else the class of the property alone. -/
theorem checked_cases (d : Declaration) (c : ObjectClass) :
    (∃ elements, d.HasElements c elements ∧
        (checked d c).value = .ofClasses (elements.foldl ObjectType.addClass [c])) ∨
      (∀ elements, ¬ d.HasElements c elements) ∧ (checked d c).value = .ofClass c := by
  by_cases h : ∃ elements, d.HasElements c elements
  · obtain ⟨elements, h⟩ := h
    exact .inl ⟨elements, h, checked_of_elements h⟩
  · have hn : ∀ elements, ¬ d.HasElements c elements := fun elements he => h ⟨elements, he⟩
    exact .inr ⟨hn, value_checked_of_no_elements hn⟩

/-- A check is no plain request. -/
theorem value_checked_ne_value (d : Declaration) (c : ObjectClass) (call : ArchiveCall) :
    (checked d c).value ≠ .value call := by
  intro h
  rcases checked_cases d c with ⟨elements, -, hr⟩ | ⟨-, hr⟩
  · rw [hr] at h
    cases h
  · rw [hr] at h
    cases h

theorem mem_classes_checked : c ∈ (checked d container).value.classes ↔ c = container ∨
    container.isCollection = true ∧ ∃ elements, d.elementClasses? = some elements ∧ c ∈ elements := by
  rcases checked_cases d container with ⟨elements, ⟨hk, he, -⟩, hr⟩ | ⟨hn, hr⟩
  · rw [hr]
    simp [classes, ObjectType.mem_foldl_addClass, hk, he]
  · rw [hr, classes, List.mem_singleton]
    constructor
    · exact Or.inl
    · intro h
      rcases h with h | ⟨hk, elements, he, hm⟩
      · exact h
      · exact absurd ⟨hk, he, List.ne_nil_of_mem hm⟩ (hn elements)

end DecodeRequest

/-! ## What is asked -/

namespace DecodeStatement

variable {options : CodeOptions} {line : Text} {d : Declaration} {c : ObjectClass}

/-- What is asked for a property, and the type that the answer is cast to. -/
def asked (options : CodeOptions) (d : Declaration) : Logged (Option Text × DecodeRequest) :=
  if d.archiveCall = .object then objectRequest options d else pure (scalarRequest d)

def ofAsked (options : CodeOptions) (d : Declaration) (asked : Option Text × DecodeRequest) : DecodeStatement :=
  ⟨targetOf options d, asked.1, options.coder, asked.2, d.name⟩

theorem ofDeclaration_eq_map (options : CodeOptions) (d : Declaration) :
    ofDeclaration options d = ofAsked options d <$> asked options d := by
  unfold ofDeclaration asked
  by_cases h : d.archiveCall = .object
  · rw [if_pos h, if_pos h]
    rfl
  · rw [if_neg h, if_neg h]
    rfl

theorem cast_ofDeclaration (options : CodeOptions) (d : Declaration) :
    (ofDeclaration options d).value.cast = (asked options d).value.1 := by
  rw [ofDeclaration_eq_map]
  rfl

theorem request_of_object (h : d.archiveCall = .object) :
    (ofDeclaration options d).value.request = (objectRequest options d).value.2 := by
  unfold ofDeclaration
  rw [if_pos h]
  rfl

theorem request_of_scalar (h : d.archiveCall ≠ .object) :
    (ofDeclaration options d).value.request = .value d.archiveCall := by
  unfold ofDeclaration
  rw [if_neg h]
  rfl

theorem request_of_isSecure (h : Declaration.parse line = .ok d) (ho : options.decoding = .secure)
    (hd : d.objectClass = some c) (hs : c.isSecure = true) :
    (ofDeclaration options d).value.request = (DecodeRequest.checked d c).value := by
  rw [request_of_object (Declaration.archiveCall_of_objectClass h hd)]
  unfold objectRequest
  simp [hd, ho, hs]

theorem request_of_unchecked (ho : options.decoding = .secure)
    (hc : ∀ c, d.objectClass = some c → c.isSecure = false) :
    (ofDeclaration options d).value.request = .value d.archiveCall := by
  by_cases hcall : d.archiveCall = .object
  · rw [request_of_object hcall, hcall]
    unfold objectRequest
    cases hd : d.objectClass with
    | none => rfl
    | some c => simp [ho, hc c hd]
  · exact request_of_scalar hcall

/-- An object of a secure class is checked, and any other property is asked for in its own call. -/
theorem request_cases (h : Declaration.parse line = .ok d) (ho : options.decoding = .secure) :
    (∃ c, d.objectClass = some c ∧ c.isSecure = true ∧
        (ofDeclaration options d).value.request = (DecodeRequest.checked d c).value) ∨
      (∀ c, d.objectClass = some c → c.isSecure = false) ∧
        (ofDeclaration options d).value.request = .value d.archiveCall := by
  by_cases hs : ∃ c, d.objectClass = some c ∧ c.isSecure = true
  · obtain ⟨c, hd, hs⟩ := hs
    exact .inl ⟨c, hd, hs, request_of_isSecure h ho hd hs⟩
  · have hn : ∀ c, d.objectClass = some c → c.isSecure = false := by
      intro c hd
      by_contra hc
      exact hs ⟨c, hd, by simpa using hc⟩
    exact .inr ⟨hn, request_of_unchecked ho hn⟩

/-- A checked decode names the class of the property where it is secure, and the classes of
    the elements of a collection where all of them are known. -/
theorem mem_classes_iff (h : Declaration.parse line = .ok d) (ho : options.decoding = .secure) :
    c ∈ (ofDeclaration options d).value.request.classes ↔
      ∃ container, d.objectClass = some container ∧ container.isSecure = true ∧
        (c = container ∨ container.isCollection = true ∧
          ∃ elements, d.elementClasses? = some elements ∧ c ∈ elements) := by
  rcases request_cases h ho with ⟨container, hd, hs, hr⟩ | ⟨hn, hr⟩
  · rw [hr, DecodeRequest.mem_classes_checked]
    constructor
    · intro hm
      exact ⟨container, hd, hs, hm⟩
    · intro hm
      obtain ⟨container', hd', -, hm⟩ := hm
      cases hd.symm.trans hd'
      exact hm
  · rw [hr]
    constructor
    · intro hm
      cases hm
    · intro hm
      obtain ⟨container, hd, hs, -⟩ := hm
      rw [hn container hd] at hs
      cases hs

end DecodeStatement

end PropertyArchive
