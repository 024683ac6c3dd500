/-
  PropertyArchive.Proofs.Outcome — results that are a value or a refusal.

  Reading has two sides: what makes a value, and what makes a refusal. Where each side
  gives its result and one of them always holds, they say exactly what the result is
  (`eq_ok_iff_of_total`, `eq_error_iff_of_total`), and neither has to be taken back from
  the result.
-/
import PropertyArchive.Declaration.Refusal

namespace PropertyArchive.Outcome

theorem map_eq_ok_iff {α β : Type} {x : Except Refusal α} {f : α → β} {b : β} :
    x.map f = .ok b ↔ ∃ a, x = .ok a ∧ f a = b := by
  cases x <;> simp [Except.map]

theorem map_eq_error_iff {α β : Type} {x : Except Refusal α} {f : α → β} {e : Refusal} :
    x.map f = .error e ↔ x = .error e := by
  cases x <;> simp [Except.map]

variable {α : Type} {x : Except Refusal α} {Good : α → Prop} {Bad : Refusal → Prop}

theorem eq_ok_iff_of_total (hg : ∀ a, Good a → x = .ok a) (hb : ∀ e, Bad e → x = .error e)
    (ht : (∃ a, Good a) ∨ ∃ e, Bad e) (a : α) : x = .ok a ↔ Good a := by
  refine ⟨fun h => ?_, hg a⟩
  rcases ht with ⟨a', ha⟩ | ⟨e, he⟩
  · rw [hg a' ha] at h
    cases h
    exact ha
  · rw [hb e he] at h
    cases h

theorem eq_error_iff_of_total (hg : ∀ a, Good a → x = .ok a) (hb : ∀ e, Bad e → x = .error e)
    (ht : (∃ a, Good a) ∨ ∃ e, Bad e) (e : Refusal) : x = .error e ↔ Bad e := by
  refine ⟨fun h => ?_, hb e⟩
  rcases ht with ⟨a, ha⟩ | ⟨e', he⟩
  · rw [hg a ha] at h
    cases h
  · rw [hb e' he] at h
    cases h
    exact he

end PropertyArchive.Outcome
