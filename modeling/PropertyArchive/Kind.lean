/-
  PropertyArchive.Kind — the ways a value can travel through a keyed archive, and the
  storage widths of scalars.
-/
import PropertyArchive.Text.Basic

namespace PropertyArchive

inductive ValueKind where
  /-- An object reference. -/
  | object
  /-- A signed integer. -/
  | integer
  | unsignedInteger
  | floatingPoint
  | boolean
  | character
  /-- A non-pointer type that the scalar table does not list: most often an enumeration. -/
  | unknownScalar
  deriving DecidableEq, Repr

namespace ValueKind

def all : List ValueKind :=
  [object, integer, unsignedInteger, floatingPoint, boolean, character, unknownScalar]

def isObject (k : ValueKind) : Bool := k == object

def isScalar (k : ValueKind) : Bool := !k.isObject

def describe : ValueKind → Text
  | object => "object"
  | integer => "integer"
  | unsignedInteger => "unsigned integer"
  | floatingPoint => "floating point"
  | boolean => "boolean"
  | character => "char"
  | unknownScalar => "unknown scalar"

end ValueKind

/-- Storage width of a scalar; `platform` is the machine word. -/
inductive StorageWidth where
  | bits8
  | bits16
  | bits32
  | bits64
  | platform
  deriving DecidableEq, Repr

def StorageWidth.describe : StorageWidth → Text
  | bits8 => "8-bit"
  | bits16 => "16-bit"
  | bits32 => "32-bit"
  | bits64 => "64-bit"
  | platform => "platform"

end PropertyArchive
