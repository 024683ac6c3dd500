/-
  PropertyArchive.Proofs.Archive.ResolvedClass — which class a property is taken to have.

  A type that was read is a sequence of words, and a single pointer to it has the class that
  its base name names. The words of the type that are left without bracket sections and
  qualifiers should be exactly the name of that class; the base name is the first one of
  them only, and none where a bracket section stands on a qualifier in front of it.
  `objectClass_eq_some_iff_first` says both: what is resolved, and for which types this is
  not the class that the whole type names. A property without a class is restored in the
  plain form in every style (`asked_of_no_class`).
-/
import PropertyArchive.Proofs.Archive.CheckedDecoding
import PropertyArchive.Proofs.ObjectType.ClassWords

namespace PropertyArchive

open Text ObjectType

theorem Declaration.exists_words_of_parse {line : Text} {d : Declaration} (h : parse line = .ok d) :
    ∃ ws : List TypeWord, (∀ w ∈ ws, w.token.WellFormed) ∧ d.typeName = joinWith " " (ws.map TypeWord.text) := by
  obtain ⟨frame, ts, -, hs, words, depth, name, ht, -, -, -, rfl⟩ := declares_of_parse h
  refine ⟨words, fun w hw => wellFormed_dropAnnotations hs w.token ?_, rfl⟩
  rw [ht]
  exact List.mem_append_left _ (List.mem_map_of_mem hw)

/-- A single pointer has the class of the first class word, where no qualifier hides it. -/
theorem Declaration.objectClass_eq_some_iff {line : Text} {d : Declaration} (h : parse line = .ok d)
    (hd : d.pointerDepth = 1) {c : ObjectClass} :
    d.objectClass = some c ↔
      c ∈ ObjectClass.table ∧ ¬ HidesName d.typeName ∧ ∃ others, classWords d.typeName = c.name :: others := by
  obtain ⟨ws, hw, ht⟩ := exists_words_of_parse h
  rw [objectClass_of_parse h, if_pos hd, resolve?, ObjectClass.lookup?_eq_some_iff]
  refine and_congr_right fun hc => ?_
  have hn : c.name ≠ [] := by
    intro e
    have hi := ObjectClass.isIdentifier_name c hc
    rw [e] at hi
    cases hi
  rw [eq_comm, baseName_eq_iff ht hw hn, List.head?_eq_some_iff]

/-- Without a class an object is asked for as any object, and not cast. -/
theorem DecodeStatement.asked_of_no_class {d : Declaration} (hp : 0 < d.pointerDepth) (hc : d.objectClass = none)
    (options : CodeOptions) : asked options d = pure (none, .value .object) := by
  have hk : d.kind = .object := by
    unfold Declaration.kind ValueKind.ofType Declaration.isPointer
    simp [hp]
  unfold asked objectRequest
  rw [if_pos (Declaration.archiveCall_eq_object_iff.2 hk), hc]

/-- The class of a single pointer is the one that its first class word names. This is the
    class whose name the class words are, except where further words follow the name or a
    qualifier with a bracket section hides it. Without a class the plain form is used. -/
theorem Declaration.objectClass_eq_some_iff_first {line : Text} {d : Declaration} (h : parse line = .ok d)
    (hd : d.pointerDepth = 1) (c : ObjectClass) :
    (d.objectClass = some c ↔
      c ∈ ObjectClass.table ∧ ¬ HidesName d.typeName ∧ ∃ others, classWords d.typeName = c.name :: others) ∧
      (c ∈ ObjectClass.table →
        ((d.objectClass = some c ↔ classWords d.typeName = [c.name]) ↔
          ¬ ((¬ HidesName d.typeName ∧ ∃ w others, classWords d.typeName = c.name :: w :: others) ∨
            (HidesName d.typeName ∧ classWords d.typeName = [c.name])))) ∧
      (d.objectClass = none → ∀ options, DecodeStatement.asked options d = pure (none, .value .object)) := by
  have hi := objectClass_eq_some_iff h hd (c := c)
  refine ⟨hi, fun hc => ?_, fun hn options => DecodeStatement.asked_of_no_class (by omega) hn options⟩
  rw [hi]
  by_cases hh : HidesName d.typeName
  · simp [hh]
  · simp only [hh, hc, not_false_eq_true, true_and, false_and, or_false]
    cases classWords d.typeName with
    | nil => simp
    | cons v vs => cases vs <;> simp

/-- A word behind the name changes nothing, though no class is named so. -/
theorem Declaration.objectClass_of_further_word :
    let d : Declaration := ⟨"__kindof NSString Label", "x", none, some ⟨"NSString", .secure⟩, 1⟩
    parse "@property __kindof NSString Label *x;" = .ok d ∧ d.pointerDepth = 1 ∧
      classWords d.typeName = ["NSString", "Label"] ∧
      ¬ (d.objectClass = some ⟨"NSString", .secure⟩ ↔ classWords d.typeName = ["NSString"]) := by
  intro d
  have h : parse "@property __kindof NSString Label *x;" = .ok d := by decide +kernel
  have hw : classWords d.typeName = ["NSString", "Label"] := by decide +kernel
  have hf := objectClass_eq_some_iff_first h rfl ⟨"NSString", .secure⟩
  refine ⟨h, rfl, hw, fun e => (hf.2.1 (by decide)).1 e (.inl ⟨(hf.1.1 rfl).2.1, _, _, hw⟩)⟩

end PropertyArchive
