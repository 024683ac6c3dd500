/-
  PropertyArchive.Proofs.ObjectType.Elements — the walk over the arguments of an object
  type gathers exactly the classes of the arguments nested in it.

  A nested argument is reached through the generic arguments of the type, of its
  arguments, and so on (`NestedArgument`). An argument is shorter than the type it stands
  in, so what passes from the arguments of a type to the type holds of every type
  (`forall_of_arguments`). One argument adds its own class and then those of the
  arguments nested in it (`gathers_addArgument`); from that a whole list of arguments
  gathers what its members do (`gathers_foldlM`), and so does a type
  (`gathers_of_addElements`). The walk gives up only at an argument without a well-known
  class (`exists_addElements`).
-/
import Mathlib.Logic.Relation
import PropertyArchive.ObjectType

namespace PropertyArchive.ObjectType

/-! ## Nested arguments -/

/-- A type is a generic argument of another, at any depth. -/
def NestedArgument : Text → Text → Prop := Relation.TransGen fun t a => a ∈ arguments t

theorem nestedArgument_iff {t b : Text} :
    NestedArgument t b ↔ ∃ a ∈ arguments t, b = a ∨ NestedArgument a b := by
  unfold NestedArgument
  rw [Relation.TransGen.head'_iff]
  simp only [Relation.reflTransGen_iff_eq_or_transGen]

theorem nestedArgument_of_mem {t a : Text} (h : a ∈ arguments t) : NestedArgument t a := .single h

@[elab_as_elim]
theorem forall_of_arguments {P : Text → Prop} (step : ∀ t, (∀ a ∈ arguments t, P a) → P t) (t : Text) : P t :=
  step t fun a _ => forall_of_arguments step a
termination_by t.length
decreasing_by exact length_lt_of_mem_arguments ‹_›

/-! ## Lists of classes without repetition -/

theorem mem_addClass {found : List ObjectClass} {c d : ObjectClass} :
    c ∈ addClass found d ↔ c ∈ found ∨ c = d := by
  unfold addClass
  by_cases hd : d ∈ found
  · rw [if_pos hd]
    refine ⟨Or.inl, fun h => ?_⟩
    rcases h with h | h
    · exact h
    · exact h ▸ hd
  · rw [if_neg hd, List.mem_append, List.mem_singleton]

theorem mem_foldl_addClass {classes found : List ObjectClass} {c : ObjectClass} :
    c ∈ classes.foldl addClass found ↔ c ∈ found ∨ c ∈ classes := by
  induction classes generalizing found with
  | nil => simp
  | cons d classes ih => rw [List.foldl_cons, ih, mem_addClass, List.mem_cons, or_assoc]

theorem nodup_addClass {found : List ObjectClass} (h : found.Nodup) (c : ObjectClass) : (addClass found c).Nodup := by
  unfold addClass
  by_cases hc : c ∈ found
  · rwa [if_pos hc]
  · rw [if_neg hc, List.nodup_append]
    refine ⟨h, by simp, ?_⟩
    rintro a ha b hb rfl
    exact hc (List.mem_singleton.1 hb ▸ ha)

theorem nodup_foldl_addClass {classes found : List ObjectClass} (h : found.Nodup) :
    (classes.foldl addClass found).Nodup := by
  induction classes generalizing found with
  | nil => exact h
  | cons c classes ih => exact ih (nodup_addClass h c)

theorem prefix_addClass (found : List ObjectClass) (c : ObjectClass) : found <+: addClass found c := by
  unfold addClass
  by_cases hc : c ∈ found
  · exact ⟨[], by rw [if_pos hc, List.append_nil]⟩
  · exact ⟨[c], by rw [if_neg hc]⟩

/-- Classes are added at the end. -/
theorem prefix_foldl_addClass (classes found : List ObjectClass) : found <+: classes.foldl addClass found := by
  induction classes generalizing found with
  | nil => exact List.prefix_refl found
  | cons c classes ih => exact (prefix_addClass found c).trans (ih (addClass found c))

/-! ## What a walk gathers -/

/-- All of some types have well-known classes, and these are what `classes` has beyond `found`. -/
structure Gathers (types : Text → Prop) (found classes : List ObjectClass) : Prop where
  known : ∀ a, types a → (resolve? a).isSome
  mem_iff : ∀ c, c ∈ classes ↔ c ∈ found ∨ ∃ a, types a ∧ resolve? a = some c

namespace Gathers

variable {S T : Text → Prop} {found between classes : List ObjectClass}

theorem empty (h : ∀ a, ¬ S a) : Gathers S found found := by
  refine ⟨fun a ha => absurd ha (h a), fun c => ⟨Or.inl, fun hc => ?_⟩⟩
  rcases hc with hc | ⟨a, ha, -⟩
  · exact hc
  · exact absurd ha (h a)

theorem single {a : Text} {c : ObjectClass} (h : resolve? a = some c) : Gathers (· = a) found (addClass found c) := by
  refine ⟨fun b hb => ?_, fun d => ?_⟩
  · rw [hb, h]
    rfl
  · rw [mem_addClass]
    refine ⟨fun hd => ?_, fun hd => ?_⟩
    · rcases hd with hd | hd
      · exact Or.inl hd
      · exact Or.inr ⟨a, rfl, hd ▸ h⟩
    · rcases hd with hd | ⟨b, hb, hd⟩
      · exact Or.inl hd
      · rw [hb, h] at hd
        exact Or.inr (Option.some.inj hd).symm

theorem trans (h₁ : Gathers S found between) (h₂ : Gathers T between classes) :
    Gathers (fun a => S a ∨ T a) found classes := by
  refine ⟨fun a ha => ?_, fun c => ?_⟩
  · rcases ha with ha | ha
    · exact h₁.known a ha
    · exact h₂.known a ha
  · rw [h₂.mem_iff, h₁.mem_iff, or_assoc]
    simp only [or_and_right, exists_or]

theorem congr (h : Gathers S found classes) (hST : ∀ a, T a ↔ S a) : Gathers T found classes := by
  have e : T = S := funext fun a => propext (hST a)
  exact e ▸ h

end Gathers

/-! ## The walk -/

def addArgument (found : List ObjectClass) (a : Text) : Option (List ObjectClass) :=
  (resolve? a).bind fun c => addElements a (addClass found c)

theorem addElements_eq_foldlM (t : Text) (found : List ObjectClass) :
    addElements t found = (arguments t).foldlM addArgument found := addElements_eq t found

theorem gathers_addArgument {a : Text} {found classes : List ObjectClass}
    (ih : ∀ found classes, addElements a found = some classes → Gathers (NestedArgument a) found classes)
    (h : addArgument found a = some classes) :
    Gathers (fun b => b = a ∨ NestedArgument a b) found classes := by
  obtain ⟨c, hc, h⟩ := Option.bind_eq_some_iff.1 h
  exact (Gathers.single hc).trans (ih _ _ h)

theorem gathers_foldlM {as : List Text} {found classes : List ObjectClass}
    (ih : ∀ a ∈ as, ∀ found classes, addElements a found = some classes → Gathers (NestedArgument a) found classes)
    (h : as.foldlM addArgument found = some classes) :
    Gathers (fun b => ∃ a ∈ as, b = a ∨ NestedArgument a b) found classes := by
  induction as generalizing found with
  | nil =>
    cases h
    exact .empty (by simp)
  | cons a as iha =>
    obtain ⟨iha', ihas⟩ := List.forall_mem_cons.1 ih
    rw [List.foldlM_cons] at h
    obtain ⟨between, h₁, h₂⟩ := Option.bind_eq_some_iff.1 h
    have hs := (gathers_addArgument iha' h₁).trans (iha ihas h₂)
    exact hs.congr fun b => by simp only [List.mem_cons, or_and_right, exists_or, exists_eq_left]

/-- A finished walk gathers the classes of all nested arguments. -/
theorem gathers_of_addElements {t : Text} {found classes : List ObjectClass}
    (h : addElements t found = some classes) : Gathers (NestedArgument t) found classes := by
  induction t using forall_of_arguments generalizing found classes with
  | step t ih =>
    rw [addElements_eq_foldlM] at h
    exact (gathers_foldlM (fun a ha _ _ => ih a ha) h).congr fun b => nestedArgument_iff

theorem exists_foldlM {as : List Text} (ih : ∀ a ∈ as, ∀ found, ∃ classes, addArgument found a = some classes)
    (found : List ObjectClass) : ∃ classes, as.foldlM addArgument found = some classes := by
  induction as generalizing found with
  | nil => exact ⟨found, rfl⟩
  | cons a as iha =>
    obtain ⟨ha, has⟩ := List.forall_mem_cons.1 ih
    obtain ⟨between, h₁⟩ := ha found
    obtain ⟨classes, h₂⟩ := iha has between
    exact ⟨classes, by rw [List.foldlM_cons, h₁]; exact h₂⟩

/-- A walk finishes where every nested argument has a well-known class. -/
theorem exists_addElements {t : Text} (h : ∀ a, NestedArgument t a → (resolve? a).isSome)
    (found : List ObjectClass) : ∃ classes, addElements t found = some classes := by
  induction t using forall_of_arguments generalizing found with
  | step t ih =>
    rw [addElements_eq_foldlM]
    apply exists_foldlM
    intro a ha found
    obtain ⟨c, hc⟩ := Option.isSome_iff_exists.1 (h a (nestedArgument_of_mem ha))
    have hn : ∀ b, NestedArgument a b → (resolve? b).isSome :=
      fun b hb => h b (nestedArgument_iff.2 ⟨a, ha, Or.inr hb⟩)
    obtain ⟨classes, hr⟩ := ih a ha hn (addClass found c)
    exact ⟨classes, Option.bind_eq_some_iff.2 ⟨c, hc, hr⟩⟩

/-! ## The element classes of a type -/

/-- The element classes are known exactly where every nested argument has a well-known class. -/
theorem exists_elementClasses?_iff {t : Text} :
    (∃ classes, elementClasses? t = some classes) ↔ ∀ a, NestedArgument t a → (resolve? a).isSome := by
  refine ⟨fun h => ?_, fun h => exists_addElements h []⟩
  obtain ⟨classes, h⟩ := h
  exact (gathers_of_addElements h).known

/-- Known element classes are the classes of the nested arguments. -/
theorem mem_elementClasses?_iff {t : Text} {classes : List ObjectClass} (h : elementClasses? t = some classes)
    {c : ObjectClass} : c ∈ classes ↔ ∃ a, NestedArgument t a ∧ resolve? a = some c := by
  simpa using (gathers_of_addElements h).mem_iff c

end PropertyArchive.ObjectType
