/-
  PropertyArchive.Text.Basic — text as the list of its characters, and the cuts that
  every reader of the library makes in it.

  - A text is a `List Char`, so every reader is a recursion on the data. A string
    literal stands for its characters wherever a text is expected.
  - Blank means Unicode `White_Space` (`isBlank`): trimming, the words of a type and
    the gaps between tokens all use this one class.
  - `cutAt` divides a text at the first occurrence of a character
    (`cutAt_eq_some_iff`, `cutAt_eq_none_iff`).
-/

namespace PropertyArchive

abbrev Text := List Char

instance : Coe String Text := ⟨String.toList⟩

/-- Whether a list has a text is decided by the characters. -/
instance : LawfulBEq Text := List.instLawfulBEq

namespace Text

/-! ## Blank characters -/

/-- Unicode `White_Space`. -/
def isBlank (c : Char) : Bool :=
  let n := c.toNat
  (0x09 ≤ n && n ≤ 0x0D) || n == 0x20 || n == 0x85 || n == 0xA0 || n == 0x1680 ||
    (0x2000 ≤ n && n ≤ 0x200A) || n == 0x2028 || n == 0x2029 || n == 0x202F || n == 0x205F ||
    n == 0x3000

/-! ## Trimming -/

def dropEndWhile (p : Char → Bool) (t : Text) : Text := (t.reverse.dropWhile p).reverse

def trimEnd (t : Text) : Text := dropEndWhile isBlank t

def trim (t : Text) : Text := trimEnd (t.dropWhile isBlank)

/-! ## Cutting -/

/-- The text before the first `d` and the text after it; `none` where no `d` occurs. -/
def cutAt (d : Char) : Text → Option (Text × Text)
  | [] => none
  | c :: t => if c = d then some ([], t) else (cutAt d t).map fun (a, b) => (c :: a, b)

theorem cutAt_eq_none_iff {d : Char} {t : Text} : cutAt d t = none ↔ d ∉ t := by
  induction t with
  | nil => simp [cutAt]
  | cons c t ih =>
    by_cases h : c = d
    · simp [cutAt, h]
    · have h' : ¬d = c := fun e => h e.symm
      simp [cutAt, h, h', ih]

theorem cutAt_eq_some_iff {d : Char} {t a b : Text} :
    cutAt d t = some (a, b) ↔ t = a ++ d :: b ∧ d ∉ a := by
  induction t generalizing a with
  | nil => simp [cutAt]
  | cons c t ih =>
    by_cases h : c = d
    · subst h
      cases a with
      | nil => simp [cutAt]
      | cons x a =>
        simp only [cutAt, if_true, Option.some.injEq, Prod.mk.injEq, List.cons_append, List.cons.injEq,
          List.mem_cons, not_or]
        constructor
        · rintro ⟨h, -⟩
          cases h
        · rintro ⟨⟨e, -⟩, n, -⟩
          exact absurd e n
    · have h' : ¬d = c := fun e => h e.symm
      cases a with
      | nil => simp [cutAt, h]
      | cons x a =>
        simp only [cutAt, h, if_false, Option.map_eq_some_iff, Prod.mk.injEq, List.cons.injEq, Prod.exists,
          List.cons_append, List.mem_cons, not_or]
        constructor
        · rintro ⟨a', b', e, ⟨rfl, rfl⟩, rfl⟩
          obtain ⟨rfl, n⟩ := ih.1 e
          exact ⟨⟨rfl, rfl⟩, h', n⟩
        · rintro ⟨⟨rfl, rfl⟩, -, n⟩
          exact ⟨a, b, ih.2 ⟨rfl, n⟩, ⟨rfl, rfl⟩, rfl⟩

def cutAtLast (d : Char) (t : Text) : Option (Text × Text) :=
  (cutAt d t.reverse).map fun (b, a) => (a.reverse, b.reverse)

theorem cutAtLast_eq_some_iff {d : Char} {t a b : Text} :
    cutAtLast d t = some (a, b) ↔ t = a ++ d :: b ∧ d ∉ b := by
  simp only [cutAtLast, Option.map_eq_some_iff, Prod.exists, Prod.mk.injEq, cutAt_eq_some_iff]
  constructor
  · rintro ⟨b', a', ⟨e, n⟩, rfl, rfl⟩
    refine ⟨?_, by simpa using n⟩
    have := congrArg List.reverse e
    simpa using this
  · rintro ⟨rfl, n⟩
    exact ⟨b.reverse, a.reverse, ⟨by simp, by simpa using n⟩, by simp, by simp⟩

/-- The pieces between the line feeds, in order: one more than there are line feeds. -/
def lines (t : Text) : List Text := t.splitOn '\n'

/-- The longest runs without a blank, in order. -/
def words (t : Text) : List Text := (t.splitOnP isBlank).filter (· ≠ [])

/-! ## Joining -/

def joinWith (gap : Text) (pieces : List Text) : Text := gap.intercalate pieces

def ofNat (n : Nat) : Text := Nat.toDigits 10 n

end Text

end PropertyArchive
