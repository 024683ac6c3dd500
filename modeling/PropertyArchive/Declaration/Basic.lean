/-
  PropertyArchive.Declaration.Basic — a property declaration as a value, its canonical
  text, and what it says about archiving.

  The canonical text (`Declaration.render`) has single spaces between its parts, the
  modifier section as it was written and no annotation words or comment.
-/
import PropertyArchive.Classification
import PropertyArchive.Declaration.Qualifiers

namespace PropertyArchive

open Text

structure Declaration where
  /-- The declared type without pointer markers. -/
  typeName : Text
  name : Text
  /-- The inside of the modifier section, where there is one. -/
  attributes : Option Text
  /-- The well-known class of an object type. -/
  objectClass : Option ObjectClass
  /-- How many markers follow the type. -/
  pointerDepth : Nat
  deriving DecidableEq, Repr

namespace Declaration

def keyword : Text := "@property"

def isPointer (d : Declaration) : Bool := 0 < d.pointerDepth

def qualifiers (d : Declaration) : Qualifiers := (d.attributes.map Qualifiers.ofAttributes).getD .empty

def isClassProperty (d : Declaration) : Bool := d.qualifiers.isClassProperty

def kind (d : Declaration) : ValueKind := .ofType d.typeName d.isPointer

def elementClasses? (d : Declaration) : Option (List ObjectClass) := ObjectType.elementClasses? d.typeName

def markers (d : Declaration) : Text := List.replicate d.pointerDepth '*'

/-- The type as a cast writes it. -/
def declaredType (d : Declaration) : Text :=
  if d.isPointer then d.typeName ++ " " ++ d.markers else d.typeName

def renderAttributes : Option Text → Text
  | none => []
  | some attributes => "(" ++ attributes ++ ") "

def render (d : Declaration) : Text :=
  keyword ++ " " ++ renderAttributes d.attributes ++ d.typeName ++ " " ++ d.markers ++ d.name ++ ";"

end Declaration

end PropertyArchive
