/-
  PropertyArchive.Declaration.Refusal — why a line is not a declaration that the library
  supports. Every reason is a cause of its own; `message` is its wording.
-/
import PropertyArchive.Text.Basic

namespace PropertyArchive

inductive Refusal where
  /-- The line is blank. -/
  | empty
  | missingKeyword
  /-- The modifier section is not closed. -/
  | unterminatedAttributes
  /-- The body ends without a name. -/
  | missingName
  /-- The last word is not an identifier. -/
  | invalidName (word : Text)
  | missingType
  /-- A word of the type starts with a digit. -/
  | invalidType (word : Text)
  /-- A word of the type follows a pointer marker. -/
  | misplacedPointer
  | blockType
  | functionPointer
  | arrayDeclarator
  | multipleDeclarators
  | unbalancedGenerics
  /-- The brackets of a word nest deeper than `limit`. -/
  | nestingLimit (limit : Nat)
  | unexpectedCharacter (c : Char)
  /-- Something other than a comment follows the terminator. -/
  | trailingInput (text : Text)
  deriving DecidableEq, Repr

def Refusal.message : Refusal → Text
  | empty => "Provided input was empty"
  | missingKeyword => "Expected the `@property` keyword"
  | unterminatedAttributes => "Modifier section is missing its closing parenthesis"
  | missingName => "Declaration has no attribute name"
  | invalidName word => "Invalid attribute name - " ++ word
  | missingType => "Declaration has no type"
  | invalidType word => "Invalid type - " ++ word
  | misplacedPointer => "Pointer marker must follow the complete type"
  | blockType => "Block-typed attributes are not supported"
  | functionPointer => "Function pointer attributes are not supported"
  | arrayDeclarator => "Array declarators are not supported"
  | multipleDeclarators => "Only one attribute may be declared per statement"
  | unbalancedGenerics => "Unbalanced angle brackets in type"
  | nestingLimit limit => "Reached the maximum generic nesting depth allowed - " ++ Text.ofNat limit
  | unexpectedCharacter c => "Unexpected character - '" ++ c :: "'"
  | trailingInput text => "Unexpected input after `;` - " ++ text

/-- Two readings are equal when both succeed with one value or both fail for one cause. -/
instance {α : Type} [DecidableEq α] : DecidableEq (Except Refusal α)
  | .ok a, .ok b => if h : a = b then .isTrue (h ▸ rfl) else .isFalse fun e => h (Except.ok.inj e)
  | .error a, .error b => if h : a = b then .isTrue (h ▸ rfl) else .isFalse fun e => h (Except.error.inj e)
  | .ok _, .error _ => .isFalse nofun
  | .error _, .ok _ => .isFalse nofun

end PropertyArchive
