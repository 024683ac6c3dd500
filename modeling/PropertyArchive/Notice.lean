/-
  PropertyArchive.Notice — what the library tells its user beside a result: lines that it
  passed over, properties that it left out, and decodes with a weaker check than asked.

  `Logged` is a value with the notices given on the way to it. Notices of a first step
  come before those of the next.
-/
import PropertyArchive.ObjectClass
import PropertyArchive.Declaration.Refusal

namespace PropertyArchive

inductive Notice where
  /-- A line that declares no property. -/
  | refusedLine (line : Nat) (reason : Refusal)
  /-- A class property is no part of an instance's state. -/
  | classProperty (name : Text)
  /-- The class cannot be checked. -/
  | unchecked (c : ObjectClass) (name : Text)
  /-- A collection that names no classes for its elements. -/
  | noElementClasses (c : ObjectClass) (name : Text)
  /-- A collection with an element that is not of a well-known class. -/
  | unknownElementClasses (c : ObjectClass) (name : Text)
  deriving DecidableEq, Repr

def Notice.message : Notice → Text
  | refusedLine line reason => "line " ++ Text.ofNat line ++ ": skipped (" ++ reason.message ++ ")"
  | classProperty name => "skipping class property '" ++ name ++ "'"
  | unchecked c name =>
    c.name ++ " does not adopt NSSecureCoding, decoding '" ++ name ++ "' without a class check"
  | noElementClasses c name =>
    "'" ++ name ++ "' declares no element classes, decoding the " ++ c.name ++ " only"
  | unknownElementClasses c name =>
    "'" ++ name ++ "' has unregistered element classes, decoding the " ++ c.name ++ " only"

structure Logged (α : Type) where
  value : α
  log : List Notice

namespace Logged

instance : Monad Logged where
  pure a := ⟨a, []⟩
  bind x f := ⟨(f x.value).value, x.log ++ (f x.value).log⟩

def note (n : Notice) : Logged Unit := ⟨(), [n]⟩

@[simp] theorem value_pure {α : Type} (a : α) : (pure a : Logged α).value = a := rfl

@[simp] theorem log_pure {α : Type} (a : α) : (pure a : Logged α).log = [] := rfl

@[simp] theorem value_bind {α β : Type} (x : Logged α) (f : α → Logged β) :
    (x >>= f).value = (f x.value).value := rfl

@[simp] theorem log_bind {α β : Type} (x : Logged α) (f : α → Logged β) :
    (x >>= f).log = x.log ++ (f x.value).log := rfl

@[simp] theorem value_map {α β : Type} (f : α → β) (x : Logged α) : (f <$> x).value = f x.value := rfl

@[simp] theorem log_map {α β : Type} (f : α → β) (x : Logged α) : (f <$> x).log = x.log := by
  cases x
  exact List.append_nil _

@[simp] theorem log_note (n : Notice) : (note n).log = [n] := rfl

@[ext] theorem ext {α : Type} {x y : Logged α} (hv : x.value = y.value) (hl : x.log = y.log) : x = y := by
  cases x
  cases y
  simp_all

instance : LawfulMonad Logged :=
  LawfulMonad.mk' Logged (fun x => ext rfl (log_map id x)) (fun _ _ => rfl)
    (fun x f g => ext rfl (List.append_assoc x.log _ _))

/-- A walk that visits every element has the value of each visit. -/
theorem value_mapM {α β : Type} (f : α → Logged β) (xs : List α) :
    (xs.mapM f).value = xs.map fun x => (f x).value := by
  induction xs with
  | nil => simp
  | cons x xs ih => simp [List.mapM_cons, ih]

/-- It gives the notices of each visit, in order. -/
theorem log_mapM {α β : Type} (f : α → Logged β) (xs : List α) :
    (xs.mapM f).log = xs.flatMap fun x => (f x).log := by
  induction xs with
  | nil => simp
  | cons x xs ih => simp [List.mapM_cons, ih]

end Logged

end PropertyArchive
