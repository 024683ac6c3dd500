/-
  PropertyArchive.Proofs.Archive.StatementText — a statement can be read off its text.

  The name of a property is the key of both of its statements. Given the name and the coder,
  whatever the coder is called, the parts of a statement end at fixed marks: a selector at
  the first colon behind the coder, a cast at the first closing parenthesis, a class at a
  comma. What a declaration puts in front of a mark never holds it (`IsLegible`), so equal
  texts come from equal statements (`encodeText_eq_encodeText_iff`,
  `decodeText_eq_decodeText_iff`).

  `statements_identify`: equal statements are those of one name, and properties with
  different names are archived and restored by different statements. A statement that
  archives is no statement that restores, since they start with different characters
  (`encodeText_ne_decodeText`).
-/
import Mathlib.Data.List.Nodup
import PropertyArchive.Proofs.Archive.OneLine
import PropertyArchive.Proofs.Archive.OptionScope
import PropertyArchive.Proofs.Declaration.WellFormed
import PropertyArchive.Proofs.ObjectType.BaseName

namespace PropertyArchive

open Text

/-! ## Selectors -/

namespace ArchiveCall

def all : List ArchiveCall := [object, bool, int32, int64, integer, float, double]

theorem mem_all (call : ArchiveCall) : call ∈ all := by
  cases call <;> decide

theorem encodeSelector_injective : Function.Injective encodeSelector := by
  have hn : (all.map encodeSelector).Nodup := by decide +kernel
  exact fun a b h => List.inj_on_of_nodup_map hn (mem_all a) (mem_all b) h

theorem decodeSelector_injective : Function.Injective decodeSelector := by
  have hn : (all.map decodeSelector).Nodup := by decide +kernel
  exact fun a b h => List.inj_on_of_nodup_map hn (mem_all a) (mem_all b) h

theorem colon_not_mem_selectors (call : ArchiveCall) : ':' ∉ call.encodeSelector ∧ ':' ∉ call.decodeSelector := by
  have hall : ∀ call ∈ all, ':' ∉ call.encodeSelector ∧ ':' ∉ call.decodeSelector := by decide +kernel
  exact hall call (mem_all call)

end ArchiveCall

/-! ## Encoding -/

namespace EncodeStatement

variable {s t : EncodeStatement}

/-- The selector ends at the first colon, and the cast stands between it and the property. -/
theorem call_and_cast_of_message (hn : s.name = t.name) (h : s.message = t.message) :
    s.call = t.call ∧ s.renderCast = t.renderCast := by
  unfold message at h
  rw [hn] at h
  obtain ⟨hcall, hrest⟩ := append_cons_cancel s.call.colon_not_mem_selectors.1 t.call.colon_not_mem_selectors.1
    (List.append_cancel_left h)
  exact ⟨ArchiveCall.encodeSelector_injective hcall, List.append_cancel_right hrest⟩

/-- The cast of a property is written where there is one. -/
theorem renderCast_ofDeclaration (options : CodeOptions) (d : Declaration) : (ofDeclaration options d).renderCast =
    if d.needsCast then "(" ++ d.archiveCall.nativeType ++ ")" else ([] : Text) := by
  show d.encodeCast?.getD [] = _
  rw [d.encodeCast?_eq]
  cases d.needsCast <;> rfl

theorem needsCast_iff_renderCast (options : CodeOptions) (d : Declaration) :
    d.needsCast = true ↔ (ofDeclaration options d).renderCast ≠ [] := by
  rw [renderCast_ofDeclaration]
  cases d.needsCast <;> simp

end EncodeStatement

/-! ## Requests -/

namespace DecodeRequest

variable {r r' : DecodeRequest} {key : Text}

def selector : DecodeRequest → Text
  | value call => call.decodeSelector
  | ofClass _ => "decodeObjectOfClass"
  | ofClasses _ => "decodeObjectOfClasses"

def argument (key : Text) : DecodeRequest → Text
  | value _ => keyLiteral key
  | ofClass c => renderClass c ++ " forKey:" ++ keyLiteral key
  | ofClasses cs =>
    "[NSSet setWithObjects:" ++ joinWith ", " (cs.map renderClass) ++ ", nil] forKey:" ++ keyLiteral key

theorem render_eq (key : Text) (r : DecodeRequest) : r.render key = r.selector ++ (":" ++ r.argument key) := by
  have hclass : ("decodeObjectOfClass:" : Text) = "decodeObjectOfClass" ++ ":" := by decide
  have hclasses : ("decodeObjectOfClasses:[NSSet setWithObjects:" : Text) =
      "decodeObjectOfClasses" ++ (":" ++ "[NSSet setWithObjects:") := by decide
  cases r with
  | value call => exact List.append_assoc ..
  | ofClass c =>
    show _ = "decodeObjectOfClass" ++ (":" ++ (renderClass c ++ " forKey:" ++ keyLiteral key))
    rw [render_ofClass, hclass]
    simp only [List.append_assoc]
  | ofClasses cs =>
    show _ = "decodeObjectOfClasses" ++ (":" ++ ("[NSSet setWithObjects:" ++ joinWith ", " (cs.map renderClass) ++
      ", nil] forKey:" ++ keyLiteral key))
    rw [render_ofClasses, hclasses]
    simp only [List.append_assoc]

theorem colon_not_mem_selector (r : DecodeRequest) : ':' ∉ r.selector := by
  have hclass : ':' ∉ ("decodeObjectOfClass" : Text) := by decide
  have hclasses : ':' ∉ ("decodeObjectOfClasses" : Text) := by decide
  cases r with
  | value call => exact call.colon_not_mem_selectors.2
  | ofClass c => exact hclass
  | ofClasses cs => exact hclasses

theorem eq_of_renderClass_eq {c c' : ObjectClass} (hc : c ∈ ObjectClass.table) (hc' : c' ∈ ObjectClass.table)
    (h : renderClass c = renderClass c') : c = c' :=
  List.inj_on_of_nodup_map ObjectClass.nodup_name_table hc hc'
    (List.append_cancel_left (List.append_cancel_right h))

theorem eq_of_map_renderClass_eq {cs cs' : List ObjectClass} (hc : ∀ c ∈ cs, c ∈ ObjectClass.table)
    (hc' : ∀ c ∈ cs', c ∈ ObjectClass.table) (h : cs.map renderClass = cs'.map renderClass) : cs = cs' := by
  induction cs generalizing cs' with
  | nil => exact (List.map_eq_nil_iff.1 h.symm).symm
  | cons c cs ih =>
    cases cs' with
    | nil => cases h
    | cons c' cs' =>
      obtain ⟨hc, hcs⟩ := List.forall_mem_cons.1 hc
      obtain ⟨hc', hcs'⟩ := List.forall_mem_cons.1 hc'
      obtain ⟨hhead, htail⟩ := List.cons.inj h
      rw [eq_of_renderClass_eq hc hc' hhead, ih hcs hcs' htail]

/-- No class holds the comma that parts the classes. -/
theorem comma_not_mem_renderClass {cs : List ObjectClass} (h : ∀ c ∈ cs, c ∈ ObjectClass.table) :
    ∀ piece ∈ cs.map renderClass, piece ≠ [] ∧ ',' ∉ piece := by
  intro piece hp
  obtain ⟨c, hc, rfl⟩ := List.mem_map.1 hp
  refine ⟨List.cons_ne_nil _ _, fun hm => ?_⟩
  have hname : ∀ x ∈ c.name, isIdentifierChar x = true :=
    List.all_eq_true.1 (all_isIdentifierChar (ObjectClass.isIdentifier_name c (h c hc)))
  rw [renderClass, List.mem_append, List.mem_append] at hm
  rcases hm with (hm | hm) | hm
  · exact absurd hm (by decide)
  · exact absurd (hname ',' hm) (by decide)
  · exact absurd hm (by decide)

/-- The selector tells one class from several, and the argument a class from a bare key. -/
theorem eq_of_render_eq (hr : ∀ c ∈ r.classes, c ∈ ObjectClass.table) (hr' : ∀ c ∈ r'.classes, c ∈ ObjectClass.table)
    (h : r.render key = r'.render key) : r = r' := by
  rw [render_eq, render_eq] at h
  obtain ⟨hs, ha⟩ := append_cons_cancel (colon_not_mem_selector r) (colon_not_mem_selector r') h
  have hne : ("decodeObjectOfClass" : Text) ≠ "decodeObjectOfClasses" := by decide
  cases r with
  | value call =>
    cases r' with
    | value call' => rw [ArchiveCall.decodeSelector_injective hs]
    | ofClass | ofClasses => cases ha
  | ofClass c =>
    cases r' with
    | value => cases ha
    | ofClass c' =>
      have hc : renderClass c = renderClass c' := List.append_cancel_right (List.append_cancel_right ha)
      rw [eq_of_renderClass_eq (hr c List.mem_cons_self) (hr' c' List.mem_cons_self) hc]
    | ofClasses => exact absurd hs hne
  | ofClasses cs =>
    cases r' with
    | value => cases ha
    | ofClass => exact absurd hs.symm hne
    | ofClasses cs' =>
      have hcs : ∀ c ∈ cs, c ∈ ObjectClass.table := hr
      have hcs' : ∀ c ∈ cs', c ∈ ObjectClass.table := hr'
      have hj : joinWith ", " (cs.map renderClass) = joinWith ", " (cs'.map renderClass) :=
        List.append_cancel_left (List.append_cancel_right (List.append_cancel_right ha))
      have hm := joinWith_cancel (comma_not_mem_renderClass hcs) (comma_not_mem_renderClass hcs') hj
      rw [eq_of_map_renderClass_eq hcs hcs' hm]

end DecodeRequest

/-! ## Decoding -/

namespace DecodeStatement

variable {s t : DecodeStatement} {line : Text} {d : Declaration}

/-- No part of the statement holds the mark that it ends at. -/
structure IsLegible (s : DecodeStatement) : Prop where
  name : '"' ∉ s.name
  cast : ∀ typeName ∈ s.cast, ')' ∉ typeName
  classes : ∀ c ∈ s.request.classes, c ∈ ObjectClass.table

theorem isLegible_ofDeclaration (options : CodeOptions) (h : Declaration.parse line = .ok d) :
    (ofDeclaration options d).value.IsLegible where
  name := Archive.name_ofDeclaration options d ▸ Archive.quote_not_mem_name h
  cast := by
    have ht : ')' ∉ d.typeName := (Declaration.wellFormed_of_parse h).isTypeName.unpunctuated _ (by decide)
    intro typeName hc
    rcases cast_cases options d with h | h | h <;> rw [h] at hc <;> cases hc
    · exact ht
    · exact Declaration.not_mem_declaredType (by decide) (by decide) ht
  classes := fun c hc => mem_table_of_mem_classes h hc

def message (s : DecodeStatement) : Text := "[" ++ (s.coder ++ (" " ++ (s.request.render s.name ++ "]")))

theorem render_eq (s : DecodeStatement) :
    s.render = s.renderTarget ++ (" = " ++ (s.renderCast ++ s.message)) := by
  unfold render message
  simp only [List.append_assoc]

/-- The two targets differ in their first character. -/
theorem target_of_append {a b : Text} (h : s.renderTarget ++ a = t.renderTarget ++ b) : s.target = t.target := by
  unfold renderTarget at h
  cases hs : s.target <;> cases ht : t.target <;> rw [hs, ht] at h <;> first | rfl | cases h

/-- A cast starts with another character than a message, and ends at the first closing
    parenthesis. -/
theorem cast_of_append (hs : s.IsLegible) (ht : t.IsLegible)
    (h : s.renderCast ++ s.message = t.renderCast ++ t.message) : s.cast = t.cast := by
  unfold renderCast at h
  cases hsc : s.cast with
  | none =>
    cases htc : t.cast with
    | none => rfl
    | some b =>
      rw [hsc, htc] at h
      cases h
  | some a =>
    cases htc : t.cast with
    | none =>
      rw [hsc, htc] at h
      cases h
    | some b =>
      rw [hsc, htc] at h
      simp only [List.append_assoc] at h
      obtain ⟨hab, -⟩ := append_cons_cancel (hs.cast a hsc) (ht.cast b htc) (List.append_cancel_left h)
      rw [hab]

theorem request_of_message (hs : s.IsLegible) (ht : t.IsLegible) (hn : s.name = t.name) (hc : s.coder = t.coder)
    (h : s.message = t.message) : s.request = t.request := by
  unfold message at h
  rw [hn, hc] at h
  have hm := List.append_cancel_left (List.append_cancel_left (List.append_cancel_left h))
  exact DecodeRequest.eq_of_render_eq hs.classes ht.classes (List.append_cancel_right hm)

/-- Part by part from the left, once the name is known from the right. -/
theorem eq_of_render_eq (hs : s.IsLegible) (ht : t.IsLegible) (hc : s.coder = t.coder) (h : s.render = t.render) :
    s = t := by
  have hname : s.name = t.name := by
    have hk := congrArg Archive.keyOf? h
    rw [Archive.keyOf?_render hs.name, Archive.keyOf?_render ht.name] at hk
    exact Option.some.inj hk
  rw [render_eq, render_eq] at h
  have htarget : s.target = t.target := target_of_append h
  have hafter : s.renderCast ++ s.message = t.renderCast ++ t.message := by
    rw [renderTarget, renderTarget, htarget, hname] at h
    exact List.append_cancel_left (List.append_cancel_left h)
  have hcast : s.cast = t.cast := cast_of_append hs ht hafter
  have hmessage : s.message = t.message := by
    rw [renderCast, renderCast, hcast] at hafter
    exact List.append_cancel_left hafter
  have hrequest : s.request = t.request := request_of_message hs ht hname hc hmessage
  cases s
  cases t
  simp_all

end DecodeStatement

/-! ## The parts of a statement -/

namespace Archive

variable {options : CodeOptions} {d : Declaration}

/-- Where the decoded value goes: the property, or its instance variable where it has no setter
    and the options ask for it. -/
def assignee (options : CodeOptions) (d : Declaration) : Text :=
  (if options.readonlyToIvar && d.qualifiers.isReadonly then "_" else "self.") ++ d.name

theorem encodeText_eq (options : CodeOptions) (d : Declaration) : encodeText options d =
    "[" ++ options.coder ++ " " ++ d.archiveCall.encodeSelector ++ ":" ++
      (if d.needsCast then "(" ++ d.archiveCall.nativeType ++ ")" else ([] : Text)) ++
        "self." ++ d.name ++ " forKey:@\"" ++ d.name ++ "\"]" := by
  have hk : (" forKey:" : Text) ++ (keyLiteral d.name ++ "]") = " forKey:@\"" ++ (d.name ++ "\"]") := by simp [keyLiteral]
  unfold encodeText EncodeStatement.render
  rw [EncodeStatement.renderCast_ofDeclaration]
  simp only [EncodeStatement.ofDeclaration, List.append_assoc, hk]

theorem decodeText_eq (options : CodeOptions) (d : Declaration) : (decodeText options d).value =
    assignee options d ++ " = " ++ (DecodeStatement.ofDeclaration options d).value.renderCast ++ "[" ++ options.coder ++
      " " ++ (DecodeStatement.ofDeclaration options d).value.request.render d.name ++ "]" := by
  have ht : (DecodeStatement.ofDeclaration options d).value.renderTarget = assignee options d := by
    rw [DecodeStatement.ofDeclaration_eq_map, Logged.value_map, assignee]
    show DecodeStatement.renderTarget ⟨DecodeStatement.targetOf options d, _, _, _, _⟩ = _
    unfold DecodeStatement.renderTarget DecodeStatement.targetOf
    cases options.readonlyToIvar && d.qualifiers.isReadonly <;> rfl
  rw [decodeText, Logged.value_map, DecodeStatement.render, ht, name_ofDeclaration, coder_ofDeclaration]

/-- A scalar is cast to its type where this is not the type that the call returns. -/
theorem renderCast_of_scalar (h : d.archiveCall ≠ .object) :
    (DecodeStatement.ofDeclaration options d).value.renderCast =
      if d.typeName = d.archiveCall.nativeType then ([] : Text) else "(" ++ d.typeName ++ ")" := by
  have hc : (DecodeStatement.asked options d).value.1 =
      if d.typeName = d.archiveCall.nativeType then none else some d.typeName := by
    rw [DecodeStatement.asked, if_neg h]
    rfl
  rw [DecodeStatement.renderCast, DecodeStatement.cast_ofDeclaration, hc]
  by_cases ht : d.typeName = d.archiveCall.nativeType
  · rw [if_pos ht, if_pos ht]
  · rw [if_neg ht, if_neg ht]

/-- A scalar is asked for in its own call. -/
theorem decodeText_of_scalar (h : d.archiveCall ≠ .object) : (decodeText options d).value =
    assignee options d ++ " = " ++
      (if d.typeName = d.archiveCall.nativeType then ([] : Text) else "(" ++ d.typeName ++ ")") ++
        "[" ++ options.coder ++ " " ++ d.archiveCall.decodeSelector ++ ":@\"" ++ d.name ++ "\"]" := by
  have hk : (":" : Text) ++ (keyLiteral d.name ++ "]") = ":@\"" ++ (d.name ++ "\"]") := by simp [keyLiteral]
  rw [decodeText_eq, renderCast_of_scalar h, DecodeStatement.request_of_scalar h, DecodeRequest.render_value]
  simp only [List.append_assoc, hk]

end Archive

/-! ## Statements of declarations -/

namespace Archive

variable {options : CodeOptions} {line₁ line₂ : Text} {d₁ d₂ : Declaration} {ds : List Declaration}

theorem encodeText_eq_encodeText_iff (h₁ : Declaration.parse line₁ = .ok d₁) (h₂ : Declaration.parse line₂ = .ok d₂) :
    encodeText options d₁ = encodeText options d₂ ↔
      d₁.name = d₂.name ∧ d₁.archiveCall = d₂.archiveCall ∧ d₁.needsCast = d₂.needsCast := by
  constructor
  · intro h
    have hk := congrArg keyOf? h
    rw [keyOf?_encodeText (quote_not_mem_name h₁), keyOf?_encodeText (quote_not_mem_name h₂)] at hk
    have hname : d₁.name = d₂.name := Option.some.inj hk
    -- The coder may hold any mark, but it is the same in both statements.
    rw [encodeText, encodeText, EncodeStatement.render_eq, EncodeStatement.render_eq] at h
    have hm := List.append_cancel_left (List.append_cancel_left h)
    obtain ⟨hcall, hcast⟩ := EncodeStatement.call_and_cast_of_message hname hm
    refine ⟨hname, hcall, Bool.eq_iff_iff.2 ?_⟩
    rw [EncodeStatement.needsCast_iff_renderCast options, EncodeStatement.needsCast_iff_renderCast options, hcast]
  · rintro ⟨hname, hcall, hcast⟩
    have hs : EncodeStatement.ofDeclaration options d₁ = EncodeStatement.ofDeclaration options d₂ := by
      rw [EncodeStatement.ofDeclaration, EncodeStatement.ofDeclaration, d₁.encodeCast?_eq, d₂.encodeCast?_eq, hname,
        hcall, hcast]
    rw [encodeText, encodeText, hs]

theorem decodeText_eq_decodeText_iff (h₁ : Declaration.parse line₁ = .ok d₁) (h₂ : Declaration.parse line₂ = .ok d₂) :
    (decodeText options d₁).value = (decodeText options d₂).value ↔
      (DecodeStatement.ofDeclaration options d₁).value = (DecodeStatement.ofDeclaration options d₂).value := by
  rw [decodeText, decodeText, Logged.value_map, Logged.value_map]
  constructor
  · exact DecodeStatement.eq_of_render_eq (DecodeStatement.isLegible_ofDeclaration options h₁)
      (DecodeStatement.isLegible_ofDeclaration options h₂)
      ((coder_ofDeclaration options d₁).trans (coder_ofDeclaration options d₂).symm)
  · exact congrArg DecodeStatement.render

theorem encodeText_ne_decodeText (options : CodeOptions) (d₁ d₂ : Declaration) :
    encodeText options d₁ ≠ (decodeText options d₂).value := by
  intro h
  rw [decodeText, Logged.value_map, DecodeStatement.render_eq, DecodeStatement.renderTarget] at h
  split at h <;> cases h

/-- The keys of statements that each carry the name of their property. -/
theorem map_keyOf?_map {statement : Declaration → Text}
    (hk : ∀ d, '"' ∉ d.name → keyOf? (statement d) = some d.name)
    (hds : ∀ d ∈ ds, ∃ line, Declaration.parse line = .ok d) :
    ((instanceState ds).map statement).map keyOf? = ((instanceState ds).map (·.name)).map some := by
  rw [List.map_map, List.map_map]
  refine List.map_congr_left fun d hd => ?_
  obtain ⟨line, hp⟩ := hds d (List.mem_filter.1 hd).1
  exact hk d (quote_not_mem_name hp)

theorem nodup_statements (options : CodeOptions) (hds : ∀ d ∈ ds, ∃ line, Declaration.parse line = .ok d)
    (hn : (ds.map (·.name)).Nodup) : (statements options ds).value.Nodup := by
  -- Each half has the names as its keys, so it has no repetition.
  have hkeys : (((instanceState ds).map (·.name)).map some).Nodup :=
    (hn.sublist (List.filter_sublist.map _)).map fun _ _ => Option.some.inj
  have hencodes : (encodes options ds).Nodup :=
    .of_map keyOf? (map_keyOf?_map (fun _ => keyOf?_encodeText) hds ▸ hkeys)
  have hdecodes : (decodes options ds).Nodup :=
    .of_map keyOf? (map_keyOf?_map (fun _ => keyOf?_decodeText) hds ▸ hkeys)
  rw [value_statements, List.nodup_append]
  refine ⟨hencodes, hdecodes, fun a ha b hb => ?_⟩
  obtain ⟨d₁, -, rfl⟩ := List.mem_map.1 ha
  obtain ⟨d₂, -, rfl⟩ := List.mem_map.1 hb
  exact encodeText_ne_decodeText options d₁ d₂

structure Identifies (options : CodeOptions) (d₁ d₂ : Declaration) : Prop where
  encodeText_iff : encodeText options d₁ = encodeText options d₂ ↔
    d₁.name = d₂.name ∧ d₁.archiveCall = d₂.archiveCall ∧ d₁.needsCast = d₂.needsCast
  decodeText_iff : (decodeText options d₁).value = (decodeText options d₂).value ↔
    (DecodeStatement.ofDeclaration options d₁).value = (DecodeStatement.ofDeclaration options d₂).value
  name_eq : (decodeText options d₁).value = (decodeText options d₂).value → d₁.name = d₂.name

/-- A statement says which property it archives or restores, and how; so no statement occurs
    twice where no name does. -/
theorem statements_identify (options : CodeOptions) (hds : ∀ d ∈ ds, ∃ line, Declaration.parse line = .ok d) :
    (∀ d₁ ∈ ds, ∀ d₂ ∈ ds, Identifies options d₁ d₂) ∧
      ((ds.map (·.name)).Nodup → (statements options ds).value.Nodup) := by
  refine ⟨fun d₁ hd₁ d₂ hd₂ => ?_, nodup_statements options hds⟩
  obtain ⟨line₁, h₁⟩ := hds d₁ hd₁
  obtain ⟨line₂, h₂⟩ := hds d₂ hd₂
  refine ⟨encodeText_eq_encodeText_iff h₁ h₂, decodeText_eq_decodeText_iff h₁ h₂, fun h => ?_⟩
  have hs := (decodeText_eq_decodeText_iff h₁ h₂).1 h
  rw [← name_ofDeclaration options d₁, ← name_ofDeclaration options d₂, hs]

/-- Two names that differ in the mark of an instance variable, one of them without a setter. -/
theorem statements_identify_underscored_name :
    let options : CodeOptions := { coder := "[self coder]", readonlyToIvar := true }
    let ds : List Declaration :=
      [⟨"NSInteger", "count", some "readonly", none, 0⟩, ⟨"NSInteger", "_count", none, none, 0⟩]
    (∀ d ∈ ds, ∃ line, Declaration.parse line = .ok d) ∧ (ds.map (·.name)).Nodup ∧
      (∀ d₁ ∈ ds, ∀ d₂ ∈ ds, Identifies options d₁ d₂) ∧ (statements options ds).value.Nodup := by
  intro options ds
  have hds : ∀ d ∈ ds, ∃ line, Declaration.parse line = .ok d := by
    simp only [ds, List.forall_mem_cons]
    exact ⟨⟨"@property (readonly) NSInteger count;", by decide +kernel⟩,
      ⟨"@property NSInteger _count;", by decide +kernel⟩, by simp⟩
  have hn : (ds.map (·.name)).Nodup := by decide +kernel
  obtain ⟨hi, hs⟩ := statements_identify options hds
  exact ⟨hds, hn, hi, hs hn⟩

end Archive

end PropertyArchive
