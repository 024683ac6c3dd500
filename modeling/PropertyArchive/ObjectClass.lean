/-
  PropertyArchive.ObjectClass — the well-known classes, and how an archive can decode
  their instances.

  A class is secure when its instances can be decoded with a check of their class. A
  secure collection needs the classes of its elements too. A property of a class with
  plain coding support is decoded without a check.
-/
import PropertyArchive.Text.Basic

namespace PropertyArchive

inductive DecodeSupport where
  /-- With a check of the class. -/
  | secure
  /-- With a check of the class and of the classes of the elements. -/
  | secureCollection
  /-- Without a check. -/
  | coding
  deriving DecidableEq, Repr

structure ObjectClass where
  name : Text
  support : DecodeSupport
  deriving DecidableEq, Repr

namespace ObjectClass

def isSecure (c : ObjectClass) : Bool := c.support == .secure || c.support == .secureCollection

def isCollection (c : ObjectClass) : Bool := c.support == .secureCollection

def table : List ObjectClass :=
  [⟨"NSString", .secure⟩,
   ⟨"NSMutableString", .secure⟩,
   ⟨"NSAttributedString", .secure⟩,
   ⟨"NSMutableAttributedString", .secure⟩,
   ⟨"NSNumber", .secure⟩,
   ⟨"NSDecimalNumber", .secure⟩,
   ⟨"NSValue", .secure⟩,
   ⟨"NSData", .secure⟩,
   ⟨"NSMutableData", .secure⟩,
   ⟨"NSDate", .secure⟩,
   ⟨"NSDateComponents", .secure⟩,
   ⟨"NSURL", .secure⟩,
   ⟨"NSURLComponents", .secure⟩,
   ⟨"NSUUID", .secure⟩,
   ⟨"NSLocale", .secure⟩,
   ⟨"NSTimeZone", .secure⟩,
   ⟨"NSCalendar", .secure⟩,
   ⟨"NSIndexSet", .secure⟩,
   ⟨"NSMutableIndexSet", .secure⟩,
   ⟨"NSIndexPath", .secure⟩,
   ⟨"NSError", .secure⟩,
   ⟨"NSNull", .secure⟩,
   ⟨"NSCharacterSet", .secure⟩,
   ⟨"NSPersonNameComponents", .secure⟩,
   ⟨"NSMeasurement", .secure⟩,
   ⟨"NSUnit", .secure⟩,
   -- collections
   ⟨"NSArray", .secureCollection⟩,
   ⟨"NSMutableArray", .secureCollection⟩,
   ⟨"NSDictionary", .secureCollection⟩,
   ⟨"NSMutableDictionary", .secureCollection⟩,
   ⟨"NSSet", .secureCollection⟩,
   ⟨"NSMutableSet", .secureCollection⟩,
   ⟨"NSOrderedSet", .secureCollection⟩,
   ⟨"NSMutableOrderedSet", .secureCollection⟩,
   ⟨"NSCountedSet", .secureCollection⟩,
   ⟨"NSOrderedCollectionDifference", .secureCollection⟩,
   -- user interface
   ⟨"UIColor", .secure⟩,
   ⟨"UIImage", .secure⟩,
   ⟨"UIFont", .secure⟩,
   ⟨"UIFontDescriptor", .secure⟩,
   ⟨"UIBezierPath", .secure⟩,
   ⟨"NSColor", .secure⟩,
   ⟨"NSImage", .secure⟩,
   ⟨"NSFont", .secure⟩,
   ⟨"NSFontDescriptor", .secure⟩,
   ⟨"NSBezierPath", .secure⟩,
   -- no class check
   ⟨"NSSortDescriptor", .coding⟩,
   ⟨"NSPredicate", .coding⟩,
   ⟨"NSExpression", .coding⟩,
   ⟨"NSHashTable", .coding⟩,
   ⟨"NSMapTable", .coding⟩]

/-- The class of exactly this name. -/
def lookup? (name : Text) : Option ObjectClass := table.find? (·.name = name)

end ObjectClass

end PropertyArchive
