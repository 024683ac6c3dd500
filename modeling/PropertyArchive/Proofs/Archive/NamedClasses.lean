/-
  PropertyArchive.Proofs.Archive.NamedClasses — the classes that the text of a decode names.

  A class stands in a message as an expression, its name in front of ` class]`. Read from left
  to right these are the classes that the answer is checked against (`namedClasses_render`):
  neither the other parts of a message nor a key hold such an expression, and the name of a
  well-known class holds no mark that would end it.

  Only the class of the property itself is asked whether it is secure: an element's class is
  named as it is. `names_insecure_iff` says exactly which declarations make a checked decode
  name a class that cannot be checked.
-/
import PropertyArchive.Proofs.Archive.StatementText

namespace PropertyArchive

open Text

/-! ## Class expressions -/

/-- The name that the text starts with, where it is the rest of a class expression. -/
def className? (t : Text) : Option Text :=
  if (" class]" : Text).isPrefixOf (t.dropWhile isIdentifierChar) then some (t.takeWhile isIdentifierChar) else none

/-- The names in the class expressions of a text, in order. -/
def namedClasses : Text → List Text
  | [] => []
  | c :: t => (if c = '[' then (className? t).toList else []) ++ namedClasses t

theorem namedClasses_append {a : Text} (ha : '[' ∉ a) (b : Text) : namedClasses (a ++ b) = namedClasses b := by
  induction a with
  | nil => rfl
  | cons c a ih =>
    obtain ⟨hc, ha⟩ := List.ne_and_not_mem_of_not_mem_cons ha
    rw [List.cons_append, namedClasses, if_neg hc.symm, List.nil_append, ih ha]

theorem namedClasses_eq_nil {a : Text} (ha : '[' ∉ a) : namedClasses a = [] := by
  rw [← List.append_nil a, namedClasses_append ha]
  rfl

theorem className?_append {name : Text} (hn : ∀ c ∈ name, isIdentifierChar c = true) (t : Text) :
    className? (name ++ (" class]" ++ t)) = some name := by
  have hs : (" class]" : Text) ++ t = ' ' :: ("class]" ++ t) := rfl
  have hb : ¬isIdentifierChar ' ' = true := by decide
  have ht : (name ++ (" class]" ++ t)).takeWhile isIdentifierChar = name := by
    rw [List.takeWhile_append_of_pos hn, hs, List.takeWhile_cons_of_neg hb, List.append_nil]
  have hd : (name ++ (" class]" ++ t)).dropWhile isIdentifierChar = " class]" ++ t := by
    rw [List.dropWhile_append_of_pos hn, hs, List.dropWhile_cons_of_neg hb]
  rw [className?, ht, hd, if_pos (List.isPrefixOf_iff_prefix.2 (List.prefix_append _ _))]

namespace DecodeRequest

theorem namedClasses_renderClass {c : ObjectClass} (hc : c ∈ ObjectClass.table) (t : Text) :
    namedClasses (renderClass c ++ t) = c.name :: namedClasses t := by
  have hn : ∀ x ∈ c.name, isIdentifierChar x = true :=
    List.all_eq_true.1 (all_isIdentifierChar (ObjectClass.isIdentifier_name c hc))
  have hname : '[' ∉ c.name := fun hm => absurd (hn '[' hm) (by decide)
  have hclass : '[' ∉ (" class]" : Text) := by decide
  have he : renderClass c ++ t = '[' :: (c.name ++ (" class]" ++ t)) := by
    rw [renderClass, List.append_assoc, List.append_assoc]
    rfl
  rw [he, namedClasses, if_pos rfl, className?_append hn, namedClasses_append hname, namedClasses_append hclass]
  rfl

theorem namedClasses_joinWith {cs : List ObjectClass} (hc : ∀ c ∈ cs, c ∈ ObjectClass.table) (t : Text) :
    namedClasses (joinWith ", " (cs.map renderClass) ++ t) = cs.map (·.name) ++ namedClasses t := by
  induction cs with
  | nil => rfl
  | cons c cs ih =>
    obtain ⟨hc, hcs⟩ := List.forall_mem_cons.1 hc
    by_cases hn : cs = []
    · rw [hn, List.map_singleton, joinWith, List.intercalate_singleton]
      exact namedClasses_renderClass hc t
    · have hgap : '[' ∉ (", " : Text) := by decide
      rw [List.map_cons, joinWith_cons _ (by simpa using hn), List.append_assoc, namedClasses_renderClass hc,
        List.append_assoc, namedClasses_append hgap, ih hcs]
      rfl

/-- A message names the classes that its answer is checked against, and no other. -/
theorem namedClasses_render {r : DecodeRequest} {key : Text} (hr : ∀ c ∈ r.classes, c ∈ ObjectClass.table)
    (hk : '[' ∉ key) : namedClasses (r.render key) = r.classes.map (·.name) := by
  have hkey : '[' ∉ keyLiteral key := by simp [keyLiteral, hk]
  cases r with
  | value call =>
    have hs : '[' ∉ call.decodeSelector := by cases call <;> decide
    have hm : '[' ∉ call.decodeSelector ++ ":" ++ keyLiteral key := by simp [hs, hkey]
    exact namedClasses_eq_nil hm
  | ofClass c =>
    have hf : '[' ∉ ("decodeObjectOfClass:" : Text) := by decide
    have hb : '[' ∉ " forKey:" ++ keyLiteral key := by simp [hkey]
    rw [render_ofClass, List.append_assoc, List.append_assoc, namedClasses_append hf,
      namedClasses_renderClass (hr c List.mem_cons_self), namedClasses_eq_nil hb]
    rfl
  | ofClasses cs =>
    have hc : ∀ c ∈ cs, c ∈ ObjectClass.table := hr
    have hb : '[' ∉ ", nil] forKey:" ++ keyLiteral key := by simp [hkey]
    -- The set in front of the classes is no class expression.
    have hset : ∀ t, namedClasses ("decodeObjectOfClasses:[NSSet setWithObjects:" ++ t) = namedClasses t := fun _ => rfl
    rw [render_ofClasses, List.append_assoc, List.append_assoc, hset, namedClasses_joinWith hc,
      namedClasses_eq_nil hb, List.append_nil]
    rfl

end DecodeRequest

/-! ## Classes without a check -/

/-- `c` has no check and is the class of an element of a collection whose elements are all
    known. -/
structure Declaration.HasInsecureElement (d : Declaration) (c : ObjectClass) : Prop where
  collection : ∃ container, d.objectClass = some container ∧ container.isCollection = true
  known : ∀ a, ObjectType.NestedArgument d.typeName a → (ObjectType.resolve? a).isSome
  element : ∃ a, ObjectType.NestedArgument d.typeName a ∧ ObjectType.resolve? a = some c
  insecure : c.isSecure = false

/-- The text of a checked decode names the classes of its request. One that cannot be checked is among
    them exactly where it is the class of an element of a collection whose elements are all known. -/
theorem DecodeStatement.names_insecure_iff {line : Text} {d : Declaration} {options : CodeOptions}
    (h : Declaration.parse line = .ok d) (ho : options.decoding = .secure) (c : ObjectClass) :
    (∃ cast message, (Archive.decodeText options d).value =
          Archive.assignee options d ++ " = " ++ cast ++ "[" ++ options.coder ++ " " ++ message ++ "]" ∧
        namedClasses message = (ofDeclaration options d).value.request.classes.map (·.name)) ∧
      (c ∈ (ofDeclaration options d).value.request.classes ∧ c.isSecure = false ↔ d.HasInsecureElement c) := by
  have hk : '[' ∉ d.name := fun hm => absurd
    (List.all_eq_true.1 (all_isIdentifierChar (Declaration.isIdentifier_name_of_parse h)) '[' hm) (by decide)
  refine ⟨⟨_, _, Archive.decodeText_eq options d,
    DecodeRequest.namedClasses_render (fun c hc => mem_table_of_mem_classes h hc) hk⟩, ?_⟩
  rw [mem_classes_iff h ho]
  refine ⟨fun hc => ?_, fun hc => ?_⟩
  · obtain ⟨⟨container, hd, hs, hm⟩, hi⟩ := hc
    rcases hm with hm | ⟨hk, elements, he, hm⟩
    · rw [hm, hs] at hi
      cases hi
    · exact ⟨⟨container, hd, hk⟩, ObjectType.exists_elementClasses?_iff.1 ⟨elements, he⟩,
        (ObjectType.mem_elementClasses?_iff he).1 hm, hi⟩
  · obtain ⟨⟨container, hd, hk⟩, hn, ha, hi⟩ := hc
    obtain ⟨elements, he⟩ := ObjectType.exists_elementClasses?_iff.2 hn
    have hm : c ∈ elements := (ObjectType.mem_elementClasses?_iff he).2 ha
    exact ⟨⟨container, hd, ObjectClass.isSecure_of_isCollection hk, Or.inr ⟨hk, elements, he, hm⟩⟩, hi⟩

/-- A set of predicates: the decode is checked, and names the class that has no check. -/
theorem DecodeStatement.names_insecure_predicate :
    let d : Declaration := ⟨"NSSet<NSPredicate *>", "x", none, some ⟨"NSSet", .secureCollection⟩, 1⟩
    let options : CodeOptions := { decoding := .secure }
    Declaration.parse "@property NSSet<NSPredicate *> *x;" = .ok d ∧
      (Archive.decodeText options d).value =
        "self.x = [coder decodeObjectOfClasses:[NSSet setWithObjects:[NSSet class], [NSPredicate class], nil] " ++
          "forKey:@\"x\"]" ∧
      (ofDeclaration options d).value.request.classes = [⟨"NSSet", .secureCollection⟩, ⟨"NSPredicate", .coding⟩] ∧
      d.HasInsecureElement ⟨"NSPredicate", .coding⟩ := by
  intro d options
  have hp : Declaration.parse "@property NSSet<NSPredicate *> *x;" = .ok d := by decide +kernel
  have hc : (ofDeclaration options d).value.request.classes =
      [⟨"NSSet", .secureCollection⟩, ⟨"NSPredicate", .coding⟩] := by decide +kernel
  refine ⟨hp, by decide +kernel, hc, (@names_insecure_iff _ _ options hp rfl _).2.1 ⟨?_, rfl⟩⟩
  rw [hc]
  decide

end PropertyArchive
