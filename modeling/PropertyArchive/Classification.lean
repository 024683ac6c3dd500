/-
  PropertyArchive.Classification — how a declared type is archived.

  A pointer is an object whatever it points to. Without a marker the type of any object
  is one too; every other type is what the scalar table says, and a type that the table
  does not list is an unknown scalar.
-/
import PropertyArchive.Scalar
import PropertyArchive.ObjectType

namespace PropertyArchive

/-- The kind of a type, given whether a pointer marker follows it. -/
def ValueKind.ofType (typeName : Text) (pointer : Bool) : ValueKind :=
  if pointer || ObjectType.isAnyObject typeName then .object
  else ((Scalar.lookup? typeName).map (·.kind)).getD .unknownScalar

end PropertyArchive
