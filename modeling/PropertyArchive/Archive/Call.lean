/-
  PropertyArchive.Archive.Call — the seven pairs of archive calls and which of them
  carries a declaration.

  A signed value travels in a call at least as wide as itself, an unsigned one in the
  next wider signed call where there is one. Unsigned values of 64 bits and of machine
  width have none: they are reinterpreted, and encoding says so with a cast
  (`ArchiveCall.encodeCast?`). So does encoding a type that the scalar table does not list.
  A cast is to the native type of the call (`ArchiveCall.eq_of_encodeCast?`).
-/
import PropertyArchive.Declaration.Basic

namespace PropertyArchive

inductive ArchiveCall where
  | object
  | bool
  | int32
  | int64
  | integer
  | float
  | double
  deriving DecidableEq, Repr

namespace ArchiveCall

def ofKind : ValueKind → StorageWidth → ArchiveCall
  | .object, _ => object
  | .boolean, _ => bool
  | .character, _ => int32
  | .integer, .bits8 => int32
  | .integer, .bits16 => int32
  | .integer, .bits32 => int32
  | .integer, .bits64 => int64
  | .integer, .platform => integer
  | .unsignedInteger, .bits8 => int32
  | .unsignedInteger, .bits16 => int32
  | .unsignedInteger, .bits32 => int64
  | .unsignedInteger, .bits64 => int64
  | .unsignedInteger, .platform => integer
  | .floatingPoint, .bits8 => float
  | .floatingPoint, .bits16 => float
  | .floatingPoint, .bits32 => float
  | .floatingPoint, .bits64 => double
  | .floatingPoint, .platform => double
  | .unknownScalar, _ => integer

/-- The encoding selector without its colon. -/
def encodeSelector : ArchiveCall → Text
  | object => "encodeObject"
  | bool => "encodeBool"
  | int32 => "encodeInt32"
  | int64 => "encodeInt64"
  | integer => "encodeInteger"
  | float => "encodeFloat"
  | double => "encodeDouble"

def decodeSelector : ArchiveCall → Text
  | object => "decodeObjectForKey"
  | bool => "decodeBoolForKey"
  | int32 => "decodeInt32ForKey"
  | int64 => "decodeInt64ForKey"
  | integer => "decodeIntegerForKey"
  | float => "decodeFloatForKey"
  | double => "decodeDoubleForKey"

/-- The type that the call takes and returns. -/
def nativeType : ArchiveCall → Text
  | object => "id"
  | bool => "BOOL"
  | int32 => "int32_t"
  | int64 => "int64_t"
  | integer => "NSInteger"
  | float => "float"
  | double => "double"

/-- The full encoding selector. -/
def describe (c : ArchiveCall) : Text := c.encodeSelector ++ ":forKey:"

/-- The cast that encoding writes in front of a value that its call reinterprets. -/
def encodeCast? : ValueKind → StorageWidth → Option Text
  | .unsignedInteger, .bits64 => some "(int64_t)"
  | .unsignedInteger, .platform => some "(NSInteger)"
  | .unknownScalar, _ => some "(NSInteger)"
  | _, _ => none

theorem eq_of_encodeCast? {k : ValueKind} {w : StorageWidth} {cast : Text} (h : encodeCast? k w = some cast) :
    cast = "(" ++ (ofKind k w).nativeType ++ ")" := by
  cases k <;> cases w <;> cases h <;> rfl

end ArchiveCall

namespace Declaration

/-- The storage width of a declared scalar; one that the table does not list counts as a
machine word. -/
def storageWidth (d : Declaration) : StorageWidth := ((Scalar.lookup? d.typeName).map (·.width)).getD .platform

def archiveCall (d : Declaration) : ArchiveCall := .ofKind d.kind d.storageWidth

def encodeCast? (d : Declaration) : Option Text := ArchiveCall.encodeCast? d.kind d.storageWidth

def needsCast (d : Declaration) : Bool := d.encodeCast?.isSome

/-- Where encoding writes a cast, it names the native type of the call. -/
theorem encodeCast?_eq (d : Declaration) :
    d.encodeCast? = if d.needsCast then some ("(" ++ d.archiveCall.nativeType ++ ")") else none := by
  unfold needsCast
  cases h : d.encodeCast? with
  | none => rfl
  | some cast =>
    rw [ArchiveCall.eq_of_encodeCast? h]
    rfl

end Declaration

end PropertyArchive
