/-
  PropertyArchive.Proofs.ObjectType.BaseName — where the base name of a type is looked for.

  Only the text in front of the first bracket counts: what follows a bracket is never read
  (`beforeGenerics_append_of_mem`), and a text without brackets is read to its end
  (`beforeGenerics_append_of_not_mem`). The base name is the first word there that is no
  class qualifier (`baseName_cases`). The classes of the table are known by their names
  (`lookup?_eq_some_iff`), which are identifiers.
-/
import Mathlib.Data.List.Nodup
import PropertyArchive.ObjectType
import PropertyArchive.Proofs.Text.Words
import PropertyArchive.Text.Identifier

namespace PropertyArchive

open Text

/-! ## The table of classes -/

namespace ObjectClass

theorem nodup_name_table : (table.map (·.name)).Nodup := by
  decide +kernel

theorem isIdentifier_name : ∀ c ∈ table, isIdentifier c.name = true := by
  decide +kernel

/-- A class is found exactly under its name. -/
theorem lookup?_eq_some_iff {name : Text} {c : ObjectClass} : lookup? name = some c ↔ c ∈ table ∧ c.name = name := by
  unfold lookup?
  constructor
  · intro h
    exact ⟨List.mem_of_find?_eq_some h, by simpa using List.find?_some h⟩
  · intro h
    obtain ⟨hc, hn⟩ := h
    cases hf : table.find? (·.name = name) with
    | none =>
      have hne := List.find?_eq_none.1 hf c hc
      exact absurd hn (by simpa using hne)
    | some c' =>
      have hc' := List.mem_of_find?_eq_some hf
      have hn' : c'.name = name := by simpa using List.find?_some hf
      rw [List.inj_on_of_nodup_map nodup_name_table hc' hc (hn'.trans hn.symm)]

end ObjectClass

namespace ObjectType

/-! ## The text in front of the first bracket -/

variable {a b t : Text}

theorem beforeGenerics_append_of_not_mem (h : '<' ∉ a) (b : Text) :
    beforeGenerics (a ++ b) = a ++ beforeGenerics b := by
  refine List.takeWhile_append_of_pos fun c hc => ?_
  have hn : c ≠ '<' := fun e => h (e ▸ hc)
  simpa using hn

theorem beforeGenerics_eq_self (h : '<' ∉ t) : beforeGenerics t = t := by
  have hb := beforeGenerics_append_of_not_mem h []
  rw [List.append_nil] at hb
  exact hb.trans (List.append_nil t)

/-- Behind a bracket nothing counts. -/
theorem beforeGenerics_append_of_mem (h : '<' ∈ a) (b : Text) : beforeGenerics (a ++ b) = beforeGenerics a := by
  obtain ⟨x, y, rfl, hx⟩ := List.eq_append_cons_of_mem h
  rw [List.append_assoc, beforeGenerics_append_of_not_mem hx, beforeGenerics_append_of_not_mem hx]
  rfl

theorem apart_beforeGenerics (h : Apart a b) : Apart a (beforeGenerics b) := by
  refine h.imp_right fun hb c hc => hb c ?_
  unfold beforeGenerics at hc
  rw [List.head?_takeWhile] at hc
  exact (Option.filter_eq_some_iff.1 hc).1

/-! ## The base name -/

/-- The base name is the first word in front of the brackets that is no qualifier, or there is none. -/
theorem baseName_cases (t : Text) :
    (∀ w ∈ words (beforeGenerics t), w ∈ classQualifiers) ∧ baseName t = [] ∨
      baseName t ∈ words (beforeGenerics t) ∧ baseName t ∉ classQualifiers := by
  unfold baseName
  cases hf : (words (beforeGenerics t)).find? (· ∉ classQualifiers) with
  | none => exact .inl ⟨by simpa using hf, rfl⟩
  | some w => exact .inr ⟨List.mem_of_find?_eq_some hf, by simpa using List.find?_some hf⟩

end ObjectType

end PropertyArchive
