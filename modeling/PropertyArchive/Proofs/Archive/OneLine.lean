/-
  PropertyArchive.Proofs.Archive.OneLine — a statement is written on one line.

  A statement is made of the name of the coder, parts of the declaration, names of
  well-known classes and words of its own. The declaration comes from a line, which holds
  no line feed (`Declaration.IsOneLine`), and a class that is named comes from the table
  (`mem_table_of_mem_classes`). So a statement holds a line feed only where the name of
  the coder does (`newline_not_mem_encodeText`, `newline_not_mem_decodeText`).
-/
import PropertyArchive.Archive.Method
import PropertyArchive.Proofs.Archive.CheckedDecoding
import PropertyArchive.Proofs.Archive.InstanceState
import PropertyArchive.Proofs.Reading.Canonical

namespace PropertyArchive

open Text

/-! ## Declarations of a text -/

/-- The parts of the declaration that statements are made of hold no line feed. -/
structure Declaration.IsOneLine (d : Declaration) : Prop where
  name : '\n' ∉ d.name
  typeName : '\n' ∉ d.typeName

theorem Declaration.isOneLine_of_parse {line : Text} {d : Declaration} (h : parse line = .ok d) (hl : '\n' ∉ line) :
    d.IsOneLine := by
  have hr := Reading.newline_not_mem_render h hl
  simp only [render, List.mem_append, not_or] at hr
  obtain ⟨⟨⟨⟨⟨-, ht⟩, -⟩, -⟩, hn⟩, -⟩ := hr
  exact ⟨hn, ht⟩

theorem Declaration.not_mem_declaredType {d : Declaration} {c : Char} (hm : c ≠ '*') (hs : c ≠ ' ')
    (h : c ∉ d.typeName) : c ∉ d.declaredType := by
  unfold Declaration.declaredType
  split
  · have hmarkers : c ∉ d.markers := fun hc => hm (List.eq_of_mem_replicate hc)
    simp [h, hs, hmarkers]
  · exact h

/-! ## Classes of a statement -/

theorem ObjectType.mem_table_of_resolve? {t : Text} {c : ObjectClass} (h : resolve? t = some c) :
    c ∈ ObjectClass.table := by
  unfold resolve? ObjectClass.lookup? at h
  exact List.mem_of_find?_eq_some h

namespace DecodeStatement

variable {options : CodeOptions} {line : Text} {d : Declaration} {c : ObjectClass}

/-- Only a checked decode names classes. -/
theorem decoding_of_mem_classes (h : c ∈ (ofDeclaration options d).value.request.classes) :
    options.decoding = .secure := by
  by_cases hc : d.archiveCall = .object
  · rw [request_of_object hc] at h
    unfold objectRequest at h
    cases hd : d.objectClass with
    | none =>
      rw [hd] at h
      cases h
    | some c =>
      cases ho : options.decoding with
      | secure => rfl
      | plain | cast =>
        simp only [hd, ho] at h
        cases h
  · rw [request_of_scalar hc] at h
    cases h

theorem mem_table_of_mem_classes (hp : Declaration.parse line = .ok d)
    (h : c ∈ (ofDeclaration options d).value.request.classes) : c ∈ ObjectClass.table := by
  obtain ⟨container, hd, -, hc⟩ := (mem_classes_iff hp (decoding_of_mem_classes h)).1 h
  rcases hc with rfl | ⟨-, elements, he, hm⟩
  · have hr := Declaration.objectClass_of_parse hp
    rw [Declaration.pointerDepth_of_objectClass hp hd, if_pos rfl, hd] at hr
    exact ObjectType.mem_table_of_resolve? hr.symm
  · obtain ⟨a, -, ha⟩ := (ObjectType.mem_elementClasses?_iff he).1 hm
    exact ObjectType.mem_table_of_resolve? ha

/-- A decode casts to the declared type or not at all. -/
theorem cast_cases (options : CodeOptions) (d : Declaration) : (ofDeclaration options d).value.cast = none ∨
    (ofDeclaration options d).value.cast = some d.typeName ∨
      (ofDeclaration options d).value.cast = some d.declaredType := by
  rw [cast_ofDeclaration]
  unfold asked objectRequest scalarRequest
  repeat' split
  all_goals simp

end DecodeStatement

/-! ## Statements without a line feed -/

namespace Archive

variable {options : CodeOptions} {d : Declaration}

theorem newline_not_mem_keyLiteral {name : Text} (h : '\n' ∉ name) : '\n' ∉ keyLiteral name := by
  simp [keyLiteral, h]

theorem newline_not_mem_encodeText (hc : '\n' ∉ options.coder) (hd : d.IsOneLine) :
    '\n' ∉ encodeText options d := by
  have hs : ∀ call : ArchiveCall, '\n' ∉ call.encodeSelector ∧ '\n' ∉ call.nativeType := by
    intro call
    cases call <;> decide +kernel
  have hcast : '\n' ∉ (EncodeStatement.ofDeclaration options d).renderCast := by
    show '\n' ∉ d.encodeCast?.getD []
    rw [d.encodeCast?_eq]
    cases d.needsCast
    · exact List.not_mem_nil
    · simp [hs]
  show '\n' ∉ "[" ++ options.coder ++ " " ++ d.archiveCall.encodeSelector ++ ":" ++
    (EncodeStatement.ofDeclaration options d).renderCast ++ "self." ++ d.name ++ " forKey:" ++ keyLiteral d.name ++ "]"
  simp [hc, hs, hcast, hd.name, newline_not_mem_keyLiteral hd.name]

theorem newline_not_mem_request {request : DecodeRequest} {name : Text} (hn : '\n' ∉ name)
    (hc : ∀ c ∈ request.classes, c ∈ ObjectClass.table) : '\n' ∉ request.render name := by
  have htable : ∀ c ∈ ObjectClass.table, '\n' ∉ DecodeRequest.renderClass c := by decide +kernel
  have hk := newline_not_mem_keyLiteral hn
  cases request with
  | value call =>
    have hs : '\n' ∉ call.decodeSelector := by cases call <;> decide +kernel
    simp [DecodeRequest.render_value, hs, hk]
  | ofClass c => simp [DecodeRequest.render_ofClass, htable c (hc c List.mem_cons_self), hk]
  | ofClasses cs =>
    have hj : '\n' ∉ joinWith ", " (cs.map DecodeRequest.renderClass) := by
      intro hm
      rcases mem_joinWith hm with hm | ⟨piece, hp, hm⟩
      · exact absurd hm (by decide)
      · obtain ⟨c, hcs, rfl⟩ := List.mem_map.1 hp
        exact htable c (hc c hcs) hm
    simpa [DecodeRequest.render_ofClasses, hk] using hj

theorem newline_not_mem_decodeText {line : Text} (hc : '\n' ∉ options.coder) (hp : Declaration.parse line = .ok d)
    (hl : '\n' ∉ line) : '\n' ∉ (decodeText options d).value := by
  have hd := Declaration.isOneLine_of_parse hp hl
  have hname : (DecodeStatement.ofDeclaration options d).value.name = d.name := name_ofDeclaration options d
  have hcoder : (DecodeStatement.ofDeclaration options d).value.coder = options.coder := coder_ofDeclaration options d
  have htarget : '\n' ∉ (DecodeStatement.ofDeclaration options d).value.renderTarget := by
    unfold DecodeStatement.renderTarget
    rw [hname]
    split <;> simp [hd.name]
  have hcast : '\n' ∉ (DecodeStatement.ofDeclaration options d).value.renderCast := by
    unfold DecodeStatement.renderCast
    rcases DecodeStatement.cast_cases options d with h | h | h <;> rw [h]
    · exact List.not_mem_nil
    · simp [hd.typeName]
    · simp [Declaration.not_mem_declaredType (by decide) (by decide) hd.typeName]
  have hrequest : '\n' ∉ (DecodeStatement.ofDeclaration options d).value.request.render d.name :=
    newline_not_mem_request hd.name fun c hm => DecodeStatement.mem_table_of_mem_classes hp hm
  rw [decodeText, Logged.value_map, DecodeStatement.render, hname, hcoder]
  simp [htarget, hcast, hc, hrequest]

end Archive

end PropertyArchive
