/-
  PropertyArchive.Proofs.Archive.StrongestCheck — a checked decode makes the strongest
  check that its property allows.

  What is asked of the coder depends on what is known of the property, in this order:
  - a scalar is asked for as the value of its own call, and an object without a class, or
    of a class that cannot be checked, without a check (`request_of_unchecked`);
  - any other object is checked (`request_of_isSecure`): against its class and those of its
    elements where it is a collection whose elements are known (`checked_of_elements`), else
    against its class alone (`value_checked_of_no_elements`).

  `isStrongestCheck_of_secure` says this of the text, and the other way round: from the message
  that stands in it one can tell what was known, so no check that could be made is left out. The
  three messages are told apart by their first words, and the one without a check from that of
  any other call by its last (`eq_object_of_suffix`). The classes in the message are that of the
  property and those of its elements, each once (`ObjectType.classes_of_elements`).
-/
import PropertyArchive.Proofs.Archive.CheckedDecoding
import PropertyArchive.Proofs.Archive.StatementText

namespace PropertyArchive

open Text

/-! ## The list of classes -/

/-- The class of the property comes first, and none of the classes comes again. -/
theorem ObjectType.classes_of_elements (elements : List ObjectClass) (c : ObjectClass) :
    (elements.foldl addClass [c]).head? = some c ∧ (elements.foldl addClass [c]).Nodup ∧
      ∀ x, x ∈ elements.foldl addClass [c] ↔ x = c ∨ x ∈ elements := by
  have hhead : (elements.foldl addClass [c]).head? = some c := by
    obtain ⟨rest, hp⟩ := prefix_foldl_addClass elements [c]
    rw [← hp]
    rfl
  have hmem : ∀ x, x ∈ elements.foldl addClass [c] ↔ x = c ∨ x ∈ elements := by
    intro x
    rw [mem_foldl_addClass, List.mem_singleton]
  exact ⟨hhead, nodup_foldl_addClass (by simp), hmem⟩

/-! ## What is asked -/

namespace DecodeStatement

variable {options : CodeOptions} {line : Text} {d : Declaration}

/-- An object is asked for without a check only where it has no class that can be checked. -/
theorem request_eq_object_iff (h : Declaration.parse line = .ok d) (ho : options.decoding = .secure) :
    (ofDeclaration options d).value.request = .value .object ↔
      d.kind = .object ∧ (d.objectClass = none ∨ ∃ c, d.objectClass = some c ∧ c.isSecure = false) := by
  rcases request_cases h ho with ⟨c, hd, hs, hr⟩ | ⟨hn, hr⟩
  · rw [hr]
    constructor
    · intro he
      exact absurd he (DecodeRequest.value_checked_ne_value d c .object)
    · rintro ⟨-, hc | ⟨c', hc, hs'⟩⟩
      · rw [hd] at hc
        cases hc
      · cases hd.symm.trans hc
        rw [hs] at hs'
        cases hs'
  · rw [hr, DecodeRequest.value.injEq, Declaration.archiveCall_eq_object_iff]
    constructor
    · intro hk
      refine ⟨hk, ?_⟩
      cases hd : d.objectClass with
      | none => exact .inl rfl
      | some c => exact .inr ⟨c, rfl, hn c hd⟩
    · intro hk
      exact hk.1

/-- In this style an object is never cast. -/
theorem cast_of_secure (ho : options.decoding = .secure) (hk : d.kind = .object) :
    (ofDeclaration options d).value.cast = none := by
  unfold ofDeclaration
  rw [if_pos (Declaration.archiveCall_eq_object_iff.2 hk)]
  show (objectRequest options d).value.1 = none
  unfold objectRequest
  cases d.objectClass with
  | none => rfl
  | some c =>
    rw [ho]
    by_cases hs : c.isSecure = true
    · simp [hs]
    · simp [hs]

end DecodeStatement

/-! ## The messages for an object -/

def uncheckedMessage (key : Text) : Text := "decodeObjectForKey" ++ ":" ++ ("@\"" ++ key ++ "\"")

def classMessage (c : ObjectClass) (key : Text) : Text :=
  "decodeObjectOfClass:" ++ ("[" ++ c.name ++ " class]") ++ " forKey:" ++ ("@\"" ++ key ++ "\"")

def classesMessage (cs : List ObjectClass) (key : Text) : Text :=
  "decodeObjectOfClasses:[NSSet setWithObjects:" ++ joinWith ", " (cs.map fun c => "[" ++ c.name ++ " class]") ++
    ", nil] forKey:" ++ ("@\"" ++ key ++ "\"")

namespace DecodeRequest

variable {r : DecodeRequest} {key : Text}

theorem render_object (key : Text) : (value .object).render key = uncheckedMessage key := rfl

theorem render_ofClass_eq (c : ObjectClass) (key : Text) : (ofClass c).render key = classMessage c key := rfl

theorem render_ofClasses_eq (cs : List ObjectClass) (key : Text) : (ofClasses cs).render key = classesMessage cs key := rfl

/-- The last word in front of the key, where a call has its own and a check has none. -/
def lastWord : DecodeRequest → Text
  | value call => " " ++ call.decodeSelector
  | ofClass _ | ofClasses _ => " forKey"

theorem exists_lastWord (r : DecodeRequest) (key : Text) :
    ∃ before, " " ++ r.render key = before ++ (r.lastWord ++ (":" ++ keyLiteral key)) := by
  have hk : (" forKey:" : Text) = " forKey" ++ ":" := by decide
  have hks : (", nil] forKey:" : Text) = ", nil]" ++ (" forKey" ++ ":") := by decide
  cases r with
  | value call =>
    refine ⟨[], ?_⟩
    rw [render_value, List.append_assoc]
    exact (List.append_assoc ..).symm
  | ofClass c =>
    refine ⟨" " ++ ("decodeObjectOfClass:" ++ renderClass c), ?_⟩
    rw [render_ofClass, hk]
    simp only [List.append_assoc]
    rfl
  | ofClasses cs =>
    refine ⟨" " ++ ("decodeObjectOfClasses:[NSSet setWithObjects:" ++ (joinWith ", " (cs.map renderClass) ++ ", nil]")), ?_⟩
    rw [render_ofClasses, hks]
    simp only [List.append_assoc]
    rfl

/-- No other message ends like the one without a check. -/
theorem eq_object_of_suffix {front : Text}
    (h : uncheckedMessage key ++ ("]" : Text) <:+ front ++ ((" " ++ r.render key) ++ ("]" : Text))) : r = .value .object := by
  obtain ⟨before, hr⟩ := exists_lastWord r key
  obtain ⟨behind, h⟩ := h
  -- Both go on with the key from there.
  have hw : behind ++ (ArchiveCall.object.decodeSelector ++ (":" ++ (keyLiteral key ++ "]"))) =
      front ++ (before ++ (r.lastWord ++ (":" ++ (keyLiteral key ++ "]")))) := by
    rw [hr, ← render_object, render_value] at h
    simpa only [List.append_assoc] using h
  simp only [← List.append_assoc] at hw
  have hw := List.append_cancel_right (List.append_cancel_right (List.append_cancel_right hw))
  have hs := List.suffix_or_suffix_of_suffix ⟨behind, hw⟩ (List.suffix_append (front ++ before) r.lastWord)
  have hc : ∀ call, ArchiveCall.object.decodeSelector <:+ (value call).lastWord ∨
      (value call).lastWord <:+ ArchiveCall.object.decodeSelector → call = .object := by
    intro call
    cases call <;> decide
  have hn : ¬(ArchiveCall.object.decodeSelector <:+ (" forKey" : Text) ∨
      (" forKey" : Text) <:+ ArchiveCall.object.decodeSelector) := by decide
  cases r with
  | value call => rw [hc call hs]
  | ofClass | ofClasses => exact absurd hs hn

/-- The messages of the two checks have different selectors. -/
theorem classesMessage_ne_classMessage (cs : List ObjectClass) (c : ObjectClass) (key : Text) :
    classesMessage cs key ≠ classMessage c key := by
  intro h
  rw [← render_ofClasses_eq, ← render_ofClass_eq, render_eq, render_eq] at h
  have hs := (append_cons_cancel (colon_not_mem_selector _) (colon_not_mem_selector _) h).1
  have hne : ("decodeObjectOfClasses" : Text) ≠ "decodeObjectOfClass" := by decide
  exact hne hs

end DecodeRequest

/-! ## The strongest check -/

namespace Archive

open DecodeStatement

variable {options : CodeOptions} {line message : Text} {d : Declaration}

/-- The decode statement assigns the answer to a message, as the coder returns it. -/
def Sends (options : CodeOptions) (d : Declaration) (message : Text) : Prop :=
  (decodeText options d).value = assignee options d ++ " = [" ++ options.coder ++ " " ++ message ++ "]"

/-- In this style an object is never cast, so the message tells what is asked. -/
theorem sends_iff (ho : options.decoding = .secure) (hk : d.kind = .object) :
    Sends options d message ↔ (ofDeclaration options d).value.request.render d.name = message := by
  have hb : (" = [" : Text) = " = " ++ "[" := by decide
  rw [Sends, decodeText_eq, renderCast, cast_of_secure ho hk, hb]
  simp only [List.append_assoc, List.nil_append, List.append_cancel_left_eq, List.append_cancel_right_eq]

structure IsStrongestCheck (options : CodeOptions) (d : Declaration) : Prop where
  unchecked_iff : Sends options d (uncheckedMessage d.name) ↔
    d.kind = .object ∧ (d.objectClass = none ∨ ∃ c, d.objectClass = some c ∧ c.isSecure = false)
  /-- No other statement ends in this message, behind a cast or not. -/
  sends_of_suffix : uncheckedMessage d.name ++ ("]" : Text) <:+ (decodeText options d).value →
    Sends options d (uncheckedMessage d.name)
  ofClasses_iff : ∀ c, d.objectClass = some c → c.isSecure = true →
    ((∃ cs, Sends options d (classesMessage cs d.name)) ↔
      c.isCollection = true ∧ ∃ elements, d.elementClasses? = some elements ∧ elements ≠ [])
  /-- The classes of the message are that of the property and those of its elements, each once. -/
  classes_eq : ∀ c elements, d.objectClass = some c → c.isCollection = true → d.elementClasses? = some elements →
    elements ≠ [] → ∃ cs, Sends options d (classesMessage cs d.name) ∧
      cs.head? = some c ∧ cs.Nodup ∧ ∀ x, x ∈ cs ↔ x = c ∨ x ∈ elements
  ofClass_of_not_ofClasses : ∀ c, d.objectClass = some c → c.isSecure = true →
    (¬ ∃ cs, Sends options d (classesMessage cs d.name)) → Sends options d (classMessage c d.name)

theorem request_of_suffix (h : uncheckedMessage d.name ++ ("]" : Text) <:+ (decodeText options d).value) :
    (ofDeclaration options d).value.request = .value .object := by
  have he : (decodeText options d).value =
      (assignee options d ++ " = " ++ (ofDeclaration options d).value.renderCast ++ "[" ++ options.coder) ++
        ((" " ++ (ofDeclaration options d).value.request.render d.name) ++ ("]" : Text)) := by
    rw [decodeText_eq]
    simp only [List.append_assoc]
  rw [he] at h
  exact DecodeRequest.eq_object_of_suffix h

theorem sends_unchecked (ho : options.decoding = .secure) (hk : d.kind = .object)
    (hr : (ofDeclaration options d).value.request = .value .object) : Sends options d (uncheckedMessage d.name) := by
  rw [sends_iff ho hk, hr, DecodeRequest.render_object]

theorem suffix_of_sends (h : Sends options d message) : message ++ ("]" : Text) <:+ (decodeText options d).value :=
  ⟨assignee options d ++ " = [" ++ options.coder ++ " ", by rw [h, List.append_assoc _ message]⟩

theorem sends_classes_iff {c : ObjectClass} (h : Declaration.parse line = .ok d) (ho : options.decoding = .secure)
    (hd : d.objectClass = some c) (hs : c.isSecure = true) {cs : List ObjectClass} :
    Sends options d (classesMessage cs d.name) ↔
      ∃ elements, d.HasElements c elements ∧
        classesMessage (elements.foldl ObjectType.addClass [c]) d.name = classesMessage cs d.name := by
  rw [sends_iff ho (Declaration.kind_of_objectClass h hd), request_of_isSecure h ho hd hs]
  rcases DecodeRequest.checked_cases d c with ⟨elements, he, hr⟩ | ⟨hn, hr⟩
  · rw [hr, DecodeRequest.render_ofClasses_eq]
    constructor
    · exact fun hm => ⟨elements, he, hm⟩
    · rintro ⟨elements', he', hm⟩
      obtain rfl := Option.some.inj (he.2.1.symm.trans he'.2.1)
      exact hm
  · rw [hr, DecodeRequest.render_ofClass_eq]
    constructor
    · exact fun hm => absurd hm.symm (DecodeRequest.classesMessage_ne_classMessage cs c d.name)
    · rintro ⟨elements, he, -⟩
      exact absurd he (hn elements)

theorem exists_sends_classes_iff {c : ObjectClass} (h : Declaration.parse line = .ok d)
    (ho : options.decoding = .secure) (hd : d.objectClass = some c) (hs : c.isSecure = true) :
    (∃ cs, Sends options d (classesMessage cs d.name)) ↔ ∃ elements, d.HasElements c elements := by
  constructor
  · rintro ⟨cs, hm⟩
    obtain ⟨elements, he, -⟩ := (sends_classes_iff h ho hd hs).1 hm
    exact ⟨elements, he⟩
  · rintro ⟨elements, he⟩
    exact ⟨_, (sends_classes_iff h ho hd hs).2 ⟨elements, he, rfl⟩⟩

/-- A checked decode makes every check that it can: it asks without one only where the property
    is an object without a class that can be checked. -/
theorem isStrongestCheck_of_secure (h : Declaration.parse line = .ok d)
    (ho : options.decoding = .secure) : IsStrongestCheck options d where
  unchecked_iff := by
    rw [← request_eq_object_iff h ho]
    constructor
    · exact fun hm => request_of_suffix (suffix_of_sends hm)
    · exact fun hr => sends_unchecked ho ((request_eq_object_iff h ho).1 hr).1 hr
  sends_of_suffix := by
    intro hm
    have hr := request_of_suffix hm
    exact sends_unchecked ho ((request_eq_object_iff h ho).1 hr).1 hr
  ofClasses_iff := by
    intro c hd hs
    rw [exists_sends_classes_iff h ho hd hs]
    exact exists_and_left
  classes_eq := by
    intro c elements hd hk he hn
    have hs := ObjectClass.isSecure_of_isCollection hk
    obtain ⟨hhead, hnodup, hmem⟩ := ObjectType.classes_of_elements elements c
    exact ⟨_, (sends_classes_iff h ho hd hs).2 ⟨elements, ⟨hk, he, hn⟩, rfl⟩, hhead, hnodup, hmem⟩
  ofClass_of_not_ofClasses := by
    intro c hd hs hn
    rw [exists_sends_classes_iff h ho hd hs] at hn
    rw [sends_iff ho (Declaration.kind_of_objectClass h hd), request_of_isSecure h ho hd hs,
      DecodeRequest.value_checked_of_no_elements fun elements he => hn ⟨elements, he⟩, DecodeRequest.render_ofClass_eq]

/-- An array of arrays: the class of the property is one of the classes of its elements too, and is
    named once. -/
theorem isStrongestCheck_nested_arrays :
    let d : Declaration := ⟨"NSArray<NSArray<NSString *> *>", "rows", none, some ⟨"NSArray", .secureCollection⟩, 1⟩
    Declaration.parse "@property NSArray<NSArray<NSString *> *> *rows;" = .ok d ∧
      d.elementClasses? = some [⟨"NSArray", .secureCollection⟩, ⟨"NSString", .secure⟩] ∧
      (decodeText { decoding := .secure } d).value =
        "self.rows = [coder decodeObjectOfClasses:[NSSet setWithObjects:[NSArray class], [NSString class], nil] " ++
          "forKey:@\"rows\"]" ∧
      IsStrongestCheck { decoding := .secure } d := by
  intro d
  have h : Declaration.parse "@property NSArray<NSArray<NSString *> *> *rows;" = .ok d := by decide +kernel
  exact ⟨h, by decide +kernel, by decide +kernel, isStrongestCheck_of_secure h rfl⟩

end Archive

end PropertyArchive
