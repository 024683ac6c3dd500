/-
  PropertyArchive.Archive.Options — the settings of the generated code.
-/
import PropertyArchive.Text.Basic

namespace PropertyArchive

inductive ObjectDecoding where
  /-- As any object. -/
  | plain
  /-- As any object, cast to the declared type where its class is well known. -/
  | cast
  /-- With a check of the class, where the class allows one. -/
  | secure
  deriving DecidableEq, Repr

inductive BaseInitializer where
  /-- The one without arguments. -/
  | plain
  /-- The decoding one; encoding then calls the superclass too. -/
  | coder
  deriving DecidableEq, Repr

structure CodeOptions where
  /-- The name of the coder variable. -/
  coder : Text := "coder"
  decoding : ObjectDecoding := .plain
  initializer : BaseInitializer := .plain
  /-- Decode a property without a setter into its instance variable. -/
  readonlyToIvar : Bool := false
  /-- One level of indentation. -/
  indent : Text := "    "
  deriving DecidableEq, Repr

end PropertyArchive
