/-
  PropertyArchive.Archive.Method — the two methods that archive and restore an instance,
  and the bare statements they are made of.

  Only instance properties are archived; a class property is left out with a notice. The
  methods hold one statement per property, in the order of the declarations. A walk gives
  its notices in that order too (`visitInstance`); `statements` chooses the properties
  first and gives the notices of its decodes after that.
-/
import PropertyArchive.Archive.Statement

namespace PropertyArchive.Archive

/-- Visits the declarations in order and keeps what `visit` makes of the instance
properties; each class property is left out with a notice. -/
def visitInstance {α : Type} (visit : Declaration → Logged α) : List Declaration → Logged (List α)
  | [] => pure []
  | d :: ds =>
    if d.isClassProperty then do
      Logged.note (.classProperty d.name)
      visitInstance visit ds
    else do
      let first ← visit d
      let others ← visitInstance visit ds
      pure (first :: others)

def encodeText (options : CodeOptions) (d : Declaration) : Text :=
  (EncodeStatement.ofDeclaration options d).render

def decodeText (options : CodeOptions) (d : Declaration) : Logged Text :=
  DecodeStatement.render <$> DecodeStatement.ofDeclaration options d

/-! ## Methods -/

def statementLines (indent : Text) (statement : Declaration → Logged Text) (ds : List Declaration) :
    Logged (List Text) :=
  visitInstance (fun d => (fun text => indent ++ text ++ ";") <$> statement d) ds

def superEncode (options : CodeOptions) : List Text :=
  match options.initializer with
  | .plain => []
  | .coder => [options.indent ++ "[super encodeWithCoder:" ++ options.coder ++ "];"]

def superCall (options : CodeOptions) : Text :=
  match options.initializer with
  | .plain => "[super init]"
  | .coder => "[super initWithCoder:" ++ options.coder ++ "]"

def encodeOpening (options : CodeOptions) : List Text :=
  ("- (void)encodeWithCoder:(NSCoder *)" ++ options.coder ++ " \x7b") :: superEncode options

def encodeClosing : List Text := ["\x7d"]

def decodeOpening (options : CodeOptions) : List Text :=
  ["- (instancetype)initWithCoder:(NSCoder *)" ++ options.coder ++ " \x7b",
   options.indent ++ "if (self = " ++ superCall options ++ ") \x7b"]

def decodeClosing (options : CodeOptions) : List Text :=
  [options.indent ++ "\x7d", options.indent ++ "return self;", "\x7d"]

def encodingMethod (options : CodeOptions) (ds : List Declaration) : Logged Text := do
  let body ← statementLines options.indent (fun d => pure (encodeText options d)) ds
  pure (Text.joinWith "\n" (encodeOpening options ++ body ++ encodeClosing))

def decodingMethod (options : CodeOptions) (ds : List Declaration) : Logged Text := do
  let body ← statementLines (options.indent ++ options.indent) (decodeText options) ds
  pure (Text.joinWith "\n" (decodeOpening options ++ body ++ decodeClosing options))

def methods (options : CodeOptions) (ds : List Declaration) : Logged Text := do
  let encode ← encodingMethod options ds
  let decode ← decodingMethod options ds
  pure (encode ++ "\n\n" ++ decode)

/-- The statements of the instance properties: all that archive, then all that restore. -/
def statements (options : CodeOptions) (ds : List Declaration) : Logged (List Text) := do
  let chosen ← visitInstance pure ds
  let decodes ← chosen.mapM (decodeText options)
  pure (chosen.map (encodeText options) ++ decodes)

end PropertyArchive.Archive
