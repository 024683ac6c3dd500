/-
  PropertyArchive.Declaration.Qualifiers — the keywords of a modifier section.

  The section is a list with commas. A piece counts when it is, without the blanks around
  it, exactly one of sixteen keywords; every other piece (an accessor such as
  `getter=isOn`, an unknown word, nothing) is passed over. Each keyword has a bit of its
  own, so a set of them is a number below `2 ^ 16`.
-/
import PropertyArchive.Text.Basic

namespace PropertyArchive

inductive Qualifier where
  | atomic
  | nonatomic
  | strong
  | weak
  | copy
  | assign
  | retain
  | unsafeUnretained
  | readonly
  | readwrite
  | nullable
  | nonnull
  | nullResettable
  | nullUnspecified
  /-- A property of the class, not of its instances. -/
  | classLevel
  | direct
  deriving DecidableEq, Repr

namespace Qualifier

def all : List Qualifier :=
  [atomic, nonatomic, strong, weak, copy, assign, retain, unsafeUnretained, readonly, readwrite, nullable,
   nonnull, nullResettable, nullUnspecified, classLevel, direct]

def keyword : Qualifier → Text
  | atomic => "atomic"
  | nonatomic => "nonatomic"
  | strong => "strong"
  | weak => "weak"
  | copy => "copy"
  | assign => "assign"
  | retain => "retain"
  | unsafeUnretained => "unsafe_unretained"
  | readonly => "readonly"
  | readwrite => "readwrite"
  | nullable => "nullable"
  | nonnull => "nonnull"
  | nullResettable => "null_resettable"
  | nullUnspecified => "null_unspecified"
  | classLevel => "class"
  | direct => "direct"

def bit : Qualifier → Nat
  | atomic => 0
  | nonatomic => 1
  | strong => 2
  | weak => 3
  | copy => 4
  | assign => 5
  | retain => 6
  | unsafeUnretained => 7
  | readonly => 8
  | readwrite => 9
  | nullable => 10
  | nonnull => 11
  | nullResettable => 12
  | nullUnspecified => 13
  | classLevel => 14
  | direct => 15

/-- The qualifier of exactly this keyword. -/
def ofKeyword? (word : Text) : Option Qualifier := all.find? (·.keyword = word)

end Qualifier

/-- A set of qualifiers, one bit for each. -/
structure Qualifiers where
  bits : Nat
  deriving DecidableEq, Repr

namespace Qualifiers

def empty : Qualifiers := ⟨0⟩

def singleton (q : Qualifier) : Qualifiers := ⟨1 <<< q.bit⟩

def union (a b : Qualifiers) : Qualifiers := ⟨a.bits ||| b.bits⟩

def contains (s : Qualifiers) (q : Qualifier) : Bool := s.bits.testBit q.bit

def toList (s : Qualifiers) : List Qualifier := Qualifier.all.filter s.contains

def ofAttributes (attributes : Text) : Qualifiers :=
  ((attributes.splitOn ',').filterMap fun piece => Qualifier.ofKeyword? (Text.trim piece)).foldl
    (fun s q => s.union (singleton q)) empty

/-- Without a setter. -/
def isReadonly (s : Qualifiers) : Bool := s.contains .readonly

/-- Not part of an instance's state. -/
def isClassProperty (s : Qualifiers) : Bool := s.contains .classLevel

end Qualifiers

end PropertyArchive
