/-
  PropertyArchive.Scalar — the scalar types that have a spelling of their own, each with
  its kind and its storage width.

  A spelling is compared word by word, so the blanks between its words do not count, and
  the words that only qualify a scalar are left out first (`Scalar.spelling`). No two
  entries have one spelling.
-/
import PropertyArchive.Kind

namespace PropertyArchive

structure Scalar where
  /-- Its spelling, with single spaces between the words. -/
  keyword : Text
  kind : ValueKind
  width : StorageWidth
  deriving DecidableEq, Repr

namespace Scalar

/-- Words that qualify a scalar without changing how it is archived. -/
def ignoredWords : List Text := ["const", "volatile"]

def table : List Scalar :=
  [⟨"NSInteger", .integer, .platform⟩,
   ⟨"int", .integer, .bits32⟩,
   ⟨"signed", .integer, .bits32⟩,
   ⟨"signed int", .integer, .bits32⟩,
   ⟨"short", .integer, .bits16⟩,
   ⟨"short int", .integer, .bits16⟩,
   ⟨"signed short", .integer, .bits16⟩,
   ⟨"signed short int", .integer, .bits16⟩,
   ⟨"long", .integer, .platform⟩,
   ⟨"long int", .integer, .platform⟩,
   ⟨"signed long", .integer, .platform⟩,
   ⟨"signed long int", .integer, .platform⟩,
   ⟨"long long", .integer, .bits64⟩,
   ⟨"long long int", .integer, .bits64⟩,
   ⟨"signed long long", .integer, .bits64⟩,
   ⟨"signed long long int", .integer, .bits64⟩,
   ⟨"int8_t", .integer, .bits8⟩,
   ⟨"int16_t", .integer, .bits16⟩,
   ⟨"int32_t", .integer, .bits32⟩,
   ⟨"int64_t", .integer, .bits64⟩,
   ⟨"SInt8", .integer, .bits8⟩,
   ⟨"SInt16", .integer, .bits16⟩,
   ⟨"SInt32", .integer, .bits32⟩,
   ⟨"SInt64", .integer, .bits64⟩,
   ⟨"ssize_t", .integer, .platform⟩,
   ⟨"intptr_t", .integer, .platform⟩,
   ⟨"ptrdiff_t", .integer, .platform⟩,
   -- unsigned integers
   ⟨"NSUInteger", .unsignedInteger, .platform⟩,
   ⟨"unsigned", .unsignedInteger, .bits32⟩,
   ⟨"unsigned int", .unsignedInteger, .bits32⟩,
   ⟨"unsigned short", .unsignedInteger, .bits16⟩,
   ⟨"unsigned short int", .unsignedInteger, .bits16⟩,
   ⟨"unsigned long", .unsignedInteger, .platform⟩,
   ⟨"unsigned long int", .unsignedInteger, .platform⟩,
   ⟨"unsigned long long", .unsignedInteger, .bits64⟩,
   ⟨"unsigned long long int", .unsignedInteger, .bits64⟩,
   ⟨"uint8_t", .unsignedInteger, .bits8⟩,
   ⟨"uint16_t", .unsignedInteger, .bits16⟩,
   ⟨"uint32_t", .unsignedInteger, .bits32⟩,
   ⟨"uint64_t", .unsignedInteger, .bits64⟩,
   ⟨"UInt8", .unsignedInteger, .bits8⟩,
   ⟨"UInt16", .unsignedInteger, .bits16⟩,
   ⟨"UInt32", .unsignedInteger, .bits32⟩,
   ⟨"UInt64", .unsignedInteger, .bits64⟩,
   ⟨"size_t", .unsignedInteger, .platform⟩,
   ⟨"uintptr_t", .unsignedInteger, .platform⟩,
   -- floating point
   ⟨"float", .floatingPoint, .bits32⟩,
   ⟨"Float32", .floatingPoint, .bits32⟩,
   ⟨"double", .floatingPoint, .bits64⟩,
   ⟨"Float64", .floatingPoint, .bits64⟩,
   ⟨"long double", .floatingPoint, .bits64⟩,
   ⟨"CGFloat", .floatingPoint, .platform⟩,
   ⟨"NSTimeInterval", .floatingPoint, .bits64⟩,
   ⟨"CFTimeInterval", .floatingPoint, .bits64⟩,
   -- booleans
   ⟨"BOOL", .boolean, .bits8⟩,
   ⟨"bool", .boolean, .bits8⟩,
   ⟨"_Bool", .boolean, .bits8⟩,
   ⟨"Boolean", .boolean, .bits8⟩,
   -- characters
   ⟨"char", .character, .bits8⟩,
   ⟨"signed char", .character, .bits8⟩,
   ⟨"unsigned char", .character, .bits8⟩,
   ⟨"unichar", .character, .bits16⟩,
   ⟨"UniChar", .character, .bits16⟩]

/-- The words of a type that spell a scalar: all but the ignored ones. -/
def spelling (typeName : Text) : List Text := (Text.words typeName).filter (· ∉ ignoredWords)

/-- The entry whose words are exactly the spelling of the type. -/
def lookup? (typeName : Text) : Option Scalar :=
  let ws := spelling typeName
  table.find? fun s => Text.words s.keyword = ws

end Scalar

end PropertyArchive
