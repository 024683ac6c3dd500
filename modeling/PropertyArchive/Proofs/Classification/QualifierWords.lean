/-
  PropertyArchive.Proofs.Classification.QualifierWords — what the words that qualify a
  scalar do to the kind of a type.

  A word is inserted in front of the words of a type, between two of them or behind them,
  with blanks that keep it a word of its own (`Inserts`); any number of qualifiers may come
  in one after the other (`Qualifies`). The scalar table leaves them all out
  (`lookup?_of_qualifies`). The name of a class is looked for with a list of its own, on
  which `volatile` is missing: a `volatile` in front of the class name is taken for the name
  (`baseName_of_qualifies`). `ofType_qualifies_iff` says which types change their kind: the
  types of any object that such a word hides, and no other ones. With `const` alone every
  type keeps its kind (`ofType_of_qualifies_const`).
-/
import Mathlib.Logic.Relation
import PropertyArchive.Proofs.Classification.ScalarTable
import PropertyArchive.Proofs.ObjectType.BaseName

namespace PropertyArchive

open Text

/-! ## Inserted words -/

/-- The second text is the first with the word `w` in front of its words, between two of them
    or behind them. -/
inductive Text.Inserts (w : Text) : Text → Text → Prop
  | mk {a front back b : Text} : IsGap front → IsGap back → Apart a b → Apart a (front ++ w) → Apart (w ++ back) b →
      Inserts w (a ++ b) (a ++ (front ++ (w ++ (back ++ b))))

/-- The second text is the first with any number of these words inserted. -/
def Text.Qualifies (ws : List Text) : Text → Text → Prop := Relation.ReflTransGen fun t u => ∃ w ∈ ws, Inserts w t u

namespace Scalar

theorem isWord_of_mem_ignoredWords : ∀ w ∈ ignoredWords, IsWord w ∧ '<' ∉ w := by
  decide

/-- A word that is ignored changes no spelling. -/
theorem spelling_of_inserts {w t u : Text} (hw : w ∈ ignoredWords) (h : Inserts w t u) : spelling u = spelling t := by
  cases h with
  | mk hf hb hab ha hl =>
    have hi := words_insert (isWord_of_mem_ignoredWords w hw).1 hf hb ha hl
    simp [spelling, hi, words_append hab, hw]

theorem lookup?_of_qualifies {t u : Text} (h : Qualifies ignoredWords t u) : lookup? u = lookup? t := by
  induction h with
  | refl => rfl
  | tail _ hs ih =>
    obtain ⟨w, hw, hs⟩ := hs
    rw [← ih]
    unfold lookup?
    rw [spelling_of_inserts hw hs]

end Scalar

/-! ## The class name of a type with one word more -/

namespace ObjectType

/-- The name stays what it was, unless the word stands in front of it and is no class
    qualifier: then the word is the name. -/
theorem baseName_of_inserts {w t u : Text} (hw : IsWord w) (hl : '<' ∉ w) (h : Inserts w t u) :
    baseName u = baseName t ∨ baseName u = w ∧ w ∉ classQualifiers := by
  cases h with
  | @mk a front back b hf hb hab ha hlast =>
    by_cases hm : '<' ∈ a
    · left
      unfold baseName
      rw [beforeGenerics_append_of_mem hm, beforeGenerics_append_of_mem hm]
    · have hn : '<' ∉ a ++ (front ++ (w ++ back)) := by
        have hg : ∀ gap : Text, IsGap gap → '<' ∉ gap := fun gap hg hc => absurd (hg _ hc) (by decide)
        simp [hm, hl, hg front hf, hg back hb]
      have ht := words_append (apart_beforeGenerics hab)
      have hu := words_insert hw hf hb ha (apart_beforeGenerics hlast)
      have he : a ++ (front ++ (w ++ (back ++ b))) = a ++ (front ++ (w ++ back)) ++ b := by simp
      have hr : a ++ (front ++ (w ++ back)) ++ beforeGenerics b =
          a ++ (front ++ (w ++ (back ++ beforeGenerics b))) := by simp
      unfold baseName
      rw [he, beforeGenerics_append_of_not_mem hn, beforeGenerics_append_of_not_mem hm, hr, hu, ht, List.find?_append,
        List.find?_append]
      cases (words a).find? (· ∉ classQualifiers) with
      | some v => exact .inl rfl
      | none =>
        by_cases hq : w ∈ classQualifiers
        · left
          simp [hq]
        · right
          simp [hq]

/-- Of the words that qualify a scalar only one can be taken for a class name. -/
theorem baseName_of_qualifies {t u : Text} (h : Qualifies Scalar.ignoredWords t u) :
    baseName u = baseName t ∨ baseName u = "volatile" := by
  induction h with
  | refl => exact .inl rfl
  | tail _ hs ih =>
    obtain ⟨w, hw, hs⟩ := hs
    obtain ⟨hword, hl⟩ := Scalar.isWord_of_mem_ignoredWords w hw
    have hv : ∀ w ∈ Scalar.ignoredWords, w ∉ classQualifiers → w = "volatile" := by decide
    rcases baseName_of_inserts hword hl hs with e | ⟨e, hq⟩
    · rw [e]
      exact ih
    · rw [e]
      exact .inr (hv w hw hq)

end ObjectType

/-! ## The kind of a qualified type -/

namespace ValueKind

variable {t u : Text}

/-- What the table says of a type that names no object. -/
theorem ofType_of_not_isAnyObject (h : ObjectType.isAnyObject t = false) :
    ofType t false = ((Scalar.lookup? t).map (·.kind)).getD .unknownScalar := by
  unfold ofType
  rw [h]
  rfl

theorem ofType_of_isAnyObject (h : ObjectType.isAnyObject t = true) : ofType t false = .object := by
  unfold ofType
  rw [h]
  rfl

/-- A type of any object is on no list of scalars. -/
theorem lookup?_of_isAnyObject (h : ObjectType.isAnyObject t = true) : Scalar.lookup? t = none := by
  cases hs : Scalar.lookup? t with
  | none => rfl
  | some s =>
    rw [Scalar.isAnyObject_of_lookup? hs] at h
    cases h

theorem ofType_of_baseName_eq (h : Qualifies Scalar.ignoredWords t u)
    (he : ObjectType.baseName u = ObjectType.baseName t) : ofType u false = ofType t false := by
  unfold ofType ObjectType.isAnyObject
  rw [he, Scalar.lookup?_of_qualifies h]

/-- Qualifying words change the kind of a type exactly where it is the type of any object and
    a `volatile` has come in front of its name; it is then an unknown scalar. -/
theorem ofType_qualifies_iff (h : Qualifies Scalar.ignoredWords t u) :
    (ofType u false = ofType t false ↔
      ¬ (ObjectType.isAnyObject t = true ∧ ObjectType.baseName u = "volatile")) ∧
      (ofType u false ≠ ofType t false → ofType t false = .object ∧ ofType u false = .unknownScalar) := by
  by_cases hid : ObjectType.isAnyObject t = true ∧ ObjectType.baseName u = "volatile"
  · obtain ⟨ht, hu⟩ := hid
    have hn : ObjectType.isAnyObject u = false := by
      unfold ObjectType.isAnyObject
      rw [hu]
      decide
    have hk : ofType u false = .unknownScalar := by
      rw [ofType_of_not_isAnyObject hn, Scalar.lookup?_of_qualifies h, lookup?_of_isAnyObject ht]
      rfl
    rw [hk, ofType_of_isAnyObject ht]
    refine ⟨⟨fun e => ?_, fun hn => absurd ⟨ht, hu⟩ hn⟩, fun _ => ⟨rfl, rfl⟩⟩
    cases e
  · have he : ofType u false = ofType t false := by
      rcases ObjectType.baseName_of_qualifies h with e | e
      · exact ofType_of_baseName_eq h e
      · -- The name has changed, but there was no object to hide.
        have ht : ObjectType.isAnyObject t = false := by
          by_contra hn
          exact hid ⟨by simpa using hn, e⟩
        have hu : ObjectType.isAnyObject u = false := by
          unfold ObjectType.isAnyObject
          rw [e]
          decide
        rw [ofType_of_not_isAnyObject ht, ofType_of_not_isAnyObject hu, Scalar.lookup?_of_qualifies h]
    exact ⟨⟨fun _ => hid, fun _ => he⟩, fun hn => absurd he hn⟩

/-- Around a type of any object both words do no harm, and in front of it one of them does. -/
theorem ofType_qualifies_id :
    Qualifies Scalar.ignoredWords "id<P>" "const id<P> volatile" ∧
      ofType "const id<P> volatile" false = ofType "id<P>" false ∧
      Qualifies Scalar.ignoredWords "id<P>" "volatile id<P>" ∧
      ofType "volatile id<P>" false ≠ ofType "id<P>" false := by
  have h₁ : Inserts "const" "id<P>" "const id<P>" :=
    @Inserts.mk "const" [] [] " " "id<P>" (by decide) (by decide) (by decide) (by decide) (by decide)
  have h₂ : Inserts "volatile" "const id<P>" "const id<P> volatile" :=
    @Inserts.mk "volatile" "const id<P>" " " [] [] (by decide) (by decide) (by decide) (by decide) (by decide)
  have h₃ : Inserts "volatile" "id<P>" "volatile id<P>" :=
    @Inserts.mk "volatile" [] [] " " "id<P>" (by decide) (by decide) (by decide) (by decide) (by decide)
  have hq : Qualifies Scalar.ignoredWords "id<P>" "const id<P> volatile" :=
    .tail (.single ⟨_, by decide, h₁⟩) ⟨_, by decide, h₂⟩
  have hv : Qualifies Scalar.ignoredWords "id<P>" "volatile id<P>" := .single ⟨_, by decide, h₃⟩
  refine ⟨hq, (ofType_qualifies_iff hq).1.2 ?_, hv, fun e => (ofType_qualifies_iff hv).1.1 e ?_⟩
  · decide +kernel
  · decide +kernel

/-! ## `const` alone -/

theorem baseName_of_qualifies_const (h : Qualifies ["const"] t u) :
    ObjectType.baseName u = ObjectType.baseName t := by
  induction h with
  | refl => rfl
  | tail _ hs ih =>
    obtain ⟨w, hw, hs⟩ := hs
    obtain rfl := List.mem_singleton.1 hw
    rcases ObjectType.baseName_of_inserts (by decide) (by decide) hs with e | ⟨-, hq⟩
    · rw [e, ih]
    · exact absurd (by decide) hq

/-- This word is on both lists, so it changes the kind of no type. -/
theorem ofType_of_qualifies_const (h : Qualifies ["const"] t u) : ofType u false = ofType t false := by
  have hi : ("const" : Text) ∈ Scalar.ignoredWords := by decide
  have hm : Qualifies Scalar.ignoredWords t u := by
    refine Relation.ReflTransGen.mono (fun a b hs => ?_) _ _ h
    obtain ⟨w, hw, hs⟩ := hs
    exact ⟨w, (List.mem_singleton.1 hw) ▸ hi, hs⟩
  exact ofType_of_baseName_eq hm (baseName_of_qualifies_const h)

end ValueKind

end PropertyArchive
