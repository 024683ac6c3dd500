/-
  PropertyArchive.Archive.Statement — the statement that archives a property and the one
  that restores it.

  Statements are values; `render` is where they become text, without a terminator. The
  two statements of a declaration talk to the same coder under the same key, the name of
  the property.

  A decode that is to be checked names the class of the property and, for a collection,
  the classes of its elements. Where a class cannot be checked, or the elements of a
  collection are not known, the check is weaker and a notice says so.
-/
import PropertyArchive.Notice
import PropertyArchive.Archive.Call
import PropertyArchive.Archive.Options

namespace PropertyArchive

/-- A name as a string literal of the generated code. -/
def keyLiteral (name : Text) : Text := "@\"" ++ name ++ "\""

/-! ## Encoding -/

structure EncodeStatement where
  coder : Text
  call : ArchiveCall
  /-- The cast in front of the value. -/
  cast : Option Text
  name : Text
  deriving DecidableEq, Repr

namespace EncodeStatement

def ofDeclaration (options : CodeOptions) (d : Declaration) : EncodeStatement :=
  ⟨options.coder, d.archiveCall, d.encodeCast?, d.name⟩

def renderCast (s : EncodeStatement) : Text := s.cast.getD []

def render (s : EncodeStatement) : Text :=
  "[" ++ s.coder ++ " " ++ s.call.encodeSelector ++ ":" ++ s.renderCast ++ "self." ++ s.name ++
    " forKey:" ++ keyLiteral s.name ++ "]"

end EncodeStatement

/-! ## Decoding -/

inductive DecodeTarget where
  /-- Through the setter of the property. -/
  | setter
  /-- Into its instance variable. -/
  | ivar
  deriving DecidableEq, Repr

inductive DecodeRequest where
  /-- The value of a call, unchecked. -/
  | value (call : ArchiveCall)
  /-- An object of one class. -/
  | ofClass (c : ObjectClass)
  /-- An object of one of some classes. -/
  | ofClasses (cs : List ObjectClass)
  deriving DecidableEq, Repr

structure DecodeStatement where
  target : DecodeTarget
  /-- The type that the value is cast to. -/
  cast : Option Text
  coder : Text
  request : DecodeRequest
  name : Text
  deriving DecidableEq, Repr

namespace DecodeRequest

/-- The classes that the answer is checked against. -/
def classes : DecodeRequest → List ObjectClass
  | value _ => []
  | ofClass c => [c]
  | ofClasses cs => cs

def renderClass (c : ObjectClass) : Text := "[" ++ c.name ++ " class]"

def render (key : Text) : DecodeRequest → Text
  | value call => call.decodeSelector ++ ":" ++ keyLiteral key
  | ofClass c => "decodeObjectOfClass:" ++ renderClass c ++ " forKey:" ++ keyLiteral key
  | ofClasses cs =>
    "decodeObjectOfClasses:[NSSet setWithObjects:" ++ Text.joinWith ", " (cs.map renderClass) ++
      ", nil] forKey:" ++ keyLiteral key

theorem render_value (key : Text) (call : ArchiveCall) :
    (value call).render key = call.decodeSelector ++ ":" ++ keyLiteral key := rfl

theorem render_ofClass (key : Text) (c : ObjectClass) :
    (ofClass c).render key = "decodeObjectOfClass:" ++ renderClass c ++ " forKey:" ++ keyLiteral key := rfl

theorem render_ofClasses (key : Text) (cs : List ObjectClass) : (ofClasses cs).render key =
    "decodeObjectOfClasses:[NSSet setWithObjects:" ++ Text.joinWith ", " (cs.map renderClass) ++ ", nil] forKey:" ++
      keyLiteral key := rfl

/-- The strongest check of an object of a class that can be checked. -/
def checked (d : Declaration) (c : ObjectClass) : Logged DecodeRequest :=
  if c.isCollection then
    match d.elementClasses? with
    | none => do
      Logged.note (.unknownElementClasses c d.name)
      pure (.ofClass c)
    | some [] => do
      Logged.note (.noElementClasses c d.name)
      pure (.ofClass c)
    | some elements => pure (.ofClasses (elements.foldl ObjectType.addClass [c]))
  else pure (.ofClass c)

end DecodeRequest

namespace DecodeStatement

/-- The property, or its instance variable where it has no setter and the options ask for it. -/
def targetOf (options : CodeOptions) (d : Declaration) : DecodeTarget :=
  if options.readonlyToIvar && d.qualifiers.isReadonly then .ivar else .setter

def objectRequest (options : CodeOptions) (d : Declaration) : Logged (Option Text × DecodeRequest) :=
  match d.objectClass with
  | none => pure (none, .value .object)
  | some c =>
    match options.decoding with
    | .plain => pure (none, .value .object)
    | .cast => pure (some d.declaredType, .value .object)
    | .secure =>
      if c.isSecure then (none, ·) <$> DecodeRequest.checked d c
      else do
        Logged.note (.unchecked c d.name)
        pure (none, .value .object)

/-- The cast and the request for a scalar, which is cast where its type is not the one
that the call returns. -/
def scalarRequest (d : Declaration) : Option Text × DecodeRequest :=
  (if d.typeName = d.archiveCall.nativeType then none else some d.typeName, .value d.archiveCall)

def ofDeclaration (options : CodeOptions) (d : Declaration) : Logged DecodeStatement := do
  let (cast, request) ←
    if d.archiveCall = .object then objectRequest options d else pure (scalarRequest d)
  pure ⟨targetOf options d, cast, options.coder, request, d.name⟩

def renderTarget (s : DecodeStatement) : Text :=
  match s.target with
  | .setter => "self." ++ s.name
  | .ivar => "_" ++ s.name

def renderCast (s : DecodeStatement) : Text :=
  match s.cast with
  | none => []
  | some typeName => "(" ++ typeName ++ ")"

def render (s : DecodeStatement) : Text :=
  s.renderTarget ++ " = " ++ s.renderCast ++ "[" ++ s.coder ++ " " ++ s.request.render s.name ++ "]"

end DecodeStatement

end PropertyArchive
