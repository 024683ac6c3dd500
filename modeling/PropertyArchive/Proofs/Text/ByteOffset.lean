/-
  PropertyArchive.Proofs.Text.ByteOffset — places in a text as a number of bytes.

  In UTF-8 a character takes one to four bytes, so not every offset into a text is a place
  between two of its characters. A cut at an offset inside a character, or past the end,
  has no result (`splitBytes?`). Those that have one are the character boundaries of the
  string (`isSome_splitBytes?`), and a cut at the length of a beginning gives that beginning
  back (`splitBytes?_append`).

  `byteIndex?` finds the first character of a class and reports its offset, which is the
  length of the characters before it (`byteIndex?_getD`, `byteIndex?_eq_cutAt`).
-/
import PropertyArchive.Text.Basic

namespace PropertyArchive.Text

def byteLength (t : Text) : Nat := (String.ofList t).utf8ByteSize

@[simp] theorem byteLength_nil : byteLength [] = 0 := rfl

@[simp] theorem byteLength_append (a b : Text) : byteLength (a ++ b) = byteLength a + byteLength b := by
  rw [byteLength, String.ofList_append, String.utf8ByteSize_append, byteLength, byteLength]

@[simp] theorem byteLength_cons (c : Char) (t : Text) : byteLength (c :: t) = c.utf8Size + byteLength t := by
  rw [byteLength, String.ofList_cons, String.utf8ByteSize_append, String.utf8ByteSize_singleton, byteLength]

/-! ## Cuts -/

/-- The text before the offset and the text behind it; `none` where the offset is inside a
character or past the end. -/
def splitBytes? : Nat → Text → Option (Text × Text)
  | 0, t => some ([], t)
  | _ + 1, [] => none
  | n + 1, c :: t =>
    if c.utf8Size ≤ n + 1 then (splitBytes? (n + 1 - c.utf8Size) t).map fun (a, b) => (c :: a, b) else none

theorem splitBytes?_append (a b : Text) : splitBytes? (byteLength a) (a ++ b) = some (a, b) := by
  induction a with
  | nil => simp [splitBytes?]
  | cons c a ih =>
    obtain ⟨n, hn⟩ : ∃ n, byteLength (c :: a) = n + 1 :=
      Nat.exists_eq_add_one_of_ne_zero (by have := c.utf8Size_pos; simp; omega)
    have hle : c.utf8Size ≤ n + 1 := by simp at hn; omega
    have hsub : n + 1 - c.utf8Size = byteLength a := by simp at hn; omega
    rw [hn, List.cons_append, splitBytes?, if_pos hle, hsub, ih, Option.map_some]

theorem splitBytes?_eq_some_iff {n : Nat} {t a b : Text} :
    splitBytes? n t = some (a, b) ↔ t = a ++ b ∧ byteLength a = n := by
  refine ⟨fun h => ?_, fun ⟨ht, hn⟩ => ht ▸ hn ▸ splitBytes?_append a b⟩
  induction t generalizing n a with
  | nil => cases n <;> simp_all [splitBytes?]
  | cons c t ih =>
    cases n with
    | zero => simp_all [splitBytes?]
    | succ n =>
      rw [splitBytes?] at h
      split at h
      · next hle =>
        obtain ⟨⟨a', b'⟩, hs, he⟩ := Option.map_eq_some_iff.1 h
        obtain ⟨rfl, rfl⟩ := Prod.mk.inj he
        obtain ⟨rfl, hlen⟩ := ih hs
        refine ⟨rfl, ?_⟩
        rw [byteLength_cons]
        omega
      · cases h

/-- A cut has a result exactly at the character boundaries of the string. -/
theorem isSome_splitBytes? {n : Nat} {t : Text} :
    (splitBytes? n t).isSome ↔ String.Pos.Raw.IsValid (String.ofList t) ⟨n⟩ := by
  rw [String.Pos.Raw.isValid_iff_exists_append, Option.isSome_iff_exists]
  constructor
  · rintro ⟨⟨a, b⟩, h⟩
    obtain ⟨rfl, rfl⟩ := splitBytes?_eq_some_iff.1 h
    exact ⟨String.ofList a, String.ofList b, String.ofList_append, rfl⟩
  · rintro ⟨a, b, ht, hn⟩
    refine ⟨(a.toList, b.toList), splitBytes?_eq_some_iff.2 ⟨?_, ?_⟩⟩
    · rw [← String.toList_append, ← ht, String.toList_ofList]
    · rw [byteLength, String.ofList_toList]
      exact (congrArg String.Pos.Raw.byteIdx hn).symm

example : splitBytes? 1 ['é', '*'] = none := by decide

/-! ## Searches -/

def byteIndex? (p : Char → Bool) : Text → Option Nat
  | [] => none
  | c :: t => if p c then some 0 else (byteIndex? p t).map (c.utf8Size + ·)

/-- The first character outside a class, or the end of the text, is where its longest run ends. -/
theorem byteIndex?_getD (p : Char → Bool) (t : Text) :
    (byteIndex? (!p ·) t).getD (byteLength t) = byteLength (t.takeWhile p) := by
  induction t with
  | nil => rfl
  | cons c t ih =>
    cases hc : p c with
    | true =>
      rw [List.takeWhile_cons_of_pos hc, byteLength_cons, byteLength_cons, ← ih]
      cases h : byteIndex? (!p ·) t <;> simp [byteIndex?, hc, h]
    | false => simp [byteIndex?, hc]

/-- The offset of the first `d` is the length of the text before it. -/
theorem byteIndex?_eq_cutAt (d : Char) (t : Text) :
    byteIndex? (· == d) t = (cutAt d t).map fun (a, _) => byteLength a := by
  induction t with
  | nil => rfl
  | cons c t ih =>
    by_cases hc : c = d
    · simp [byteIndex?, cutAt, hc]
    · simp [byteIndex?, cutAt, hc, ih, Function.comp_def]

end PropertyArchive.Text
