/-
  PropertyArchive.Proofs.Archive.OptionScope — what each option can change.

  Two settings are compared on one property. The statement that archives it reads the
  coder alone (`encodeText_eq_iff`). The statement that restores it reads the coder too,
  the style where the property has a class, and the choice of the instance variable where
  it has no setter (`AgreesFor`). This is all, and nothing of it can be left out: the
  statements and their notices are equal exactly where the settings agree on it
  (`ofDeclaration_eq_iff`), because for a property with a class the style can be read off
  what is asked (`styleOf_objectRequest`).

  Only a single pointer to a well-known class has a class (`objectClass_eq_none`), so the
  style changes nothing for any other property. `optionScope` puts this together with what
  the remaining options leave alone: the initializer and the indentation every statement,
  the style and the instance variables the encoding method.
-/
import PropertyArchive.Archive.Method
import PropertyArchive.Proofs.Archive.CheckedDecoding

namespace PropertyArchive

/-! ## Properties without a class -/

theorem ObjectType.resolve?_of_isAnyObject {t : Text} (h : isAnyObject t = true) : resolve? t = none := by
  have hb : baseName t = anyObject := eq_of_beq h
  unfold resolve?
  rw [hb]
  decide +kernel

/-- A scalar, an object of any class, an unknown class, and anything but a single pointer. -/
theorem Declaration.objectClass_eq_none {line : Text} {d : Declaration} (hp : parse line = .ok d)
    (h : d.kind.isScalar = true ∨ ObjectType.isAnyObject d.typeName = true ∨
      ObjectType.resolve? d.typeName = none ∨ d.pointerDepth ≠ 1) : d.objectClass = none := by
  have hn : ObjectType.resolve? d.typeName = none → d.objectClass = none := by
    intro hr
    rw [objectClass_of_parse hp, hr, ite_self]
  rcases h with h | h | h | h
  · rcases Option.eq_none_or_eq_some d.objectClass with hc | ⟨c, hc⟩
    · exact hc
    · rw [kind_of_objectClass hp hc] at h
      cases h
  · exact hn (ObjectType.resolve?_of_isAnyObject h)
  · exact hn h
  · rw [objectClass_of_parse hp, if_neg h]

/-! ## Encoding -/

variable {o₁ o₂ : CodeOptions} {d : Declaration} {c : ObjectClass}

def EncodeStatement.message (s : EncodeStatement) : Text :=
  " " ++ (s.call.encodeSelector ++ (":" ++ (s.renderCast ++ ("self." ++ (s.name ++ (" forKey:" ++
    (keyLiteral s.name ++ "]")))))))

theorem EncodeStatement.render_eq (s : EncodeStatement) : s.render = "[" ++ (s.coder ++ s.message) := by
  unfold render message
  simp only [List.append_assoc]

theorem Archive.encodeText_eq_iff : encodeText o₁ d = encodeText o₂ d ↔ o₁.coder = o₂.coder := by
  have hm : (EncodeStatement.ofDeclaration o₁ d).message = (EncodeStatement.ofDeclaration o₂ d).message := rfl
  rw [encodeText, encodeText, EncodeStatement.render_eq, EncodeStatement.render_eq, hm, List.append_right_inj,
    List.append_left_inj]
  exact Iff.rfl

/-! ## Decoding -/

namespace DecodeStatement

theorem targetOf_eq_iff : targetOf o₁ d = targetOf o₂ d ↔
    o₁.readonlyToIvar = o₂.readonlyToIvar ∨ d.qualifiers.isReadonly = false := by
  unfold targetOf
  cases o₁.readonlyToIvar <;> cases o₂.readonlyToIvar <;> cases d.qualifiers.isReadonly <;> simp

def styleOf (asked : Logged (Option Text × DecodeRequest)) : ObjectDecoding :=
  if asked.value.1.isSome then .cast
  else if asked.value.2 = .value .object ∧ asked.log = [] then .plain
  else .secure

theorem styleOf_objectRequest (options : CodeOptions) (hc : d.objectClass = some c) :
    styleOf (objectRequest options d) = options.decoding := by
  unfold objectRequest
  rw [hc]
  cases ho : options.decoding with
  | plain => rfl
  | cast => rfl
  | secure =>
    by_cases hs : c.isSecure = true
    · have hr : (DecodeRequest.checked d c).value ≠ .value .object := by
        rcases DecodeRequest.checked_cases d c with ⟨elements, -, hr⟩ | ⟨-, hr⟩
        · rw [hr]
          nofun
        · rw [hr]
          nofun
      simp [styleOf, hs, hr]
    · -- An unchecked object is asked for as in the plain style, but with a notice.
      simp [styleOf, hs]

theorem asked_eq_iff {line : Text} (h : Declaration.parse line = .ok d) :
    asked o₁ d = asked o₂ d ↔ o₁.decoding = o₂.decoding ∨ d.objectClass = none := by
  rcases Option.eq_none_or_eq_some d.objectClass with hc | ⟨c, hc⟩
  · refine ⟨fun _ => .inr hc, fun _ => ?_⟩
    unfold asked objectRequest
    rw [hc]
  · have ha : ∀ o, asked o d = objectRequest o d := fun _ => if_pos (Declaration.archiveCall_of_objectClass h hc)
    rw [ha, ha]
    constructor
    · intro he
      rw [← styleOf_objectRequest o₁ hc, ← styleOf_objectRequest o₂ hc, he]
      exact .inl rfl
    · rintro (ho | hn)
      · unfold objectRequest
        rw [ho]
      · rw [hc] at hn
        cases hn

structure AgreesFor (d : Declaration) (o₁ o₂ : CodeOptions) : Prop where
  coder : o₁.coder = o₂.coder
  decoding : o₁.decoding = o₂.decoding ∨ d.objectClass = none
  readonlyToIvar : o₁.readonlyToIvar = o₂.readonlyToIvar ∨ d.qualifiers.isReadonly = false

theorem ofDeclaration_eq_iff {line : Text} (h : Declaration.parse line = .ok d) :
    ofDeclaration o₁ d = ofDeclaration o₂ d ↔ AgreesFor d o₁ o₂ := by
  rw [ofDeclaration_eq_map, ofDeclaration_eq_map]
  constructor
  · intro he
    have hv : ofAsked o₁ d (asked o₁ d).value = ofAsked o₂ d (asked o₂ d).value := congrArg Logged.value he
    have hl : (asked o₁ d).log = (asked o₂ d).log := by
      rw [← Logged.log_map (ofAsked o₁ d), ← Logged.log_map (ofAsked o₂ d), he]
    obtain ⟨ht, hcast, hcoder, hrequest, -⟩ := DecodeStatement.mk.inj hv
    have ha : asked o₁ d = asked o₂ d := Logged.ext (Prod.ext hcast hrequest) hl
    exact ⟨hcoder, (asked_eq_iff h).1 ha, targetOf_eq_iff.1 ht⟩
  · rintro ⟨hcoder, hdecoding, htarget⟩
    have hf : ofAsked o₁ d = ofAsked o₂ d := by
      funext a
      rw [ofAsked, ofAsked, targetOf_eq_iff.2 htarget, hcoder]
    rw [hf, (asked_eq_iff h).2 hdecoding]

end DecodeStatement

/-! ## The scope of the options -/

namespace Archive

structure OptionScope (d : Declaration) (o₁ o₂ : CodeOptions) : Prop where
  encode_iff : encodeText o₁ d = encodeText o₂ d ↔ o₁.coder = o₂.coder
  decode_iff : DecodeStatement.ofDeclaration o₁ d = DecodeStatement.ofDeclaration o₂ d ↔
    DecodeStatement.AgreesFor d o₁ o₂
  decodeText_eq : o₁.coder = o₂.coder → (o₁.decoding = o₂.decoding ∨ d.objectClass = none) →
    (o₁.readonlyToIvar = o₂.readonlyToIvar ∨ d.qualifiers.isReadonly = false) → decodeText o₁ d = decodeText o₂ d
  classless : d.kind.isScalar = true ∨ ObjectType.isAnyObject d.typeName = true ∨
    ObjectType.resolve? d.typeName = none ∨ d.pointerDepth ≠ 1 → d.objectClass = none
  statements_eq : ∀ initializer indent,
    encodeText { o₁ with initializer, indent } d = encodeText o₁ d ∧
      decodeText { o₁ with initializer, indent } d = decodeText o₁ d ∧
      ∀ ds, statements { o₁ with initializer, indent } ds = statements o₁ ds
  encodingMethod_eq : ∀ decoding readonlyToIvar ds,
    encodingMethod { o₁ with decoding, readonlyToIvar } ds = encodingMethod o₁ ds

/-- The options change of a property that was read what they name, and nothing else. -/
theorem optionScope {line : Text} (h : Declaration.parse line = .ok d) (o₁ o₂ : CodeOptions) :
    OptionScope d o₁ o₂ where
  encode_iff := encodeText_eq_iff
  decode_iff := DecodeStatement.ofDeclaration_eq_iff h
  decodeText_eq := by
    intro hcoder hdecoding hreadonly
    rw [decodeText, decodeText, (DecodeStatement.ofDeclaration_eq_iff h).2 ⟨hcoder, hdecoding, hreadonly⟩]
  classless := Declaration.objectClass_eq_none h
  statements_eq := by
    intro initializer indent
    exact ⟨rfl, rfl, fun ds => rfl⟩
  encodingMethod_eq := by
    intro decoding readonlyToIvar ds
    rfl

/-- A pointer to a pointer has no class, so it is restored alike in two styles. -/
theorem optionScope_double_pointer :
    let d : Declaration := ⟨"NSError", "error", some "readonly", none, 2⟩
    Declaration.parse "@property (readonly) NSError **error;" = .ok d ∧
      OptionScope d { decoding := .secure } { decoding := .cast, indent := "\t" } ∧
      decodeText { decoding := .secure } d = decodeText { decoding := .cast, indent := "\t" } d := by
  intro d
  have h : Declaration.parse "@property (readonly) NSError **error;" = .ok d := by decide +kernel
  have hs := optionScope h { decoding := .secure } { decoding := .cast, indent := "\t" }
  exact ⟨h, hs, hs.decodeText_eq rfl (.inr rfl) (.inl rfl)⟩

end Archive

end PropertyArchive
