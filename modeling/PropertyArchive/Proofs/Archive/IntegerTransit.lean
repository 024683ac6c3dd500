/-
  PropertyArchive.Proofs.Archive.IntegerTransit — integers and characters come back from
  an archive as they were.

  An integer type (`IntegerType`) is a width and a sign. Converting to it keeps the low
  bits of a value (`convert_emod`) and gives a value of the type (`holds_convert`), so a
  value survives every type that is at least as wide as its own
  (`convert_convert_of_holds`). A signed type of that width holds all values of its own
  accord, except where the other type has no sign and the same width
  (`exists_not_holds_iff`).

  A scalar of the table is declared with one integer type, or with two where the sign of
  its characters is left open (`declaredTypes`). What its call takes is read off the name
  that the generated code has for it (`named?`). That type is never narrower, and the cast
  is written exactly where it is no wider than an unsigned type (`exists_carrier`). A
  declaration without markers has the kind and the width of its entry in the table
  (`kind_of_lookup?`), because no entry spells the type of any object. So no value is lost
  between the two statements, and the cast marks the values that are reinterpreted
  (`integer_survives_archive`).
-/
import Mathlib.Data.Int.ModEq
import Mathlib.Tactic.Positivity
import PropertyArchive.Declaration.Parse
import PropertyArchive.Proofs.Archive.StatementText
import PropertyArchive.Proofs.Classification.ScalarTable

namespace PropertyArchive

open Text

/-! ## Integer types -/

structure IntegerType where
  signed : Bool
  bits : Nat
  bits_pos : 0 < bits

namespace IntegerType

variable {t n : IntegerType}

def least (t : IntegerType) : Int := if t.signed then -2 ^ (t.bits - 1) else 0

/-- The values of the type: `2 ^ bits` of them, from the least one up. -/
def Holds (t : IntegerType) (v : Int) : Prop := t.least ≤ v ∧ v < t.least + 2 ^ t.bits

instance (t : IntegerType) (v : Int) : Decidable (t.Holds v) := inferInstanceAs (Decidable (_ ∧ _))

/-- A value as the type has it: its low bits in two's complement, read with or without a sign. -/
def convert (t : IntegerType) (v : Int) : Int :=
  if t.signed then (BitVec.ofInt t.bits v).toInt else (BitVec.ofInt t.bits v).toNat

theorem two_pow_bits (t : IntegerType) : (2 : Int) ^ t.bits = 2 * 2 ^ (t.bits - 1) := by
  rw [← Int.pow_succ', Nat.sub_add_cancel t.bits_pos]

theorem convert_of_signed (h : t.signed = true) (v : Int) : t.convert v = v.bmod (2 ^ t.bits) := by
  rw [convert, if_pos h, BitVec.toInt_ofInt]

theorem convert_of_unsigned (h : t.signed = false) (v : Int) : t.convert v = v % 2 ^ t.bits := by
  have hm : 0 ≤ v % 2 ^ t.bits := Int.emod_nonneg v (by positivity)
  rw [convert, h, if_neg Bool.false_ne_true, BitVec.toNat_ofInt]
  push_cast
  exact Int.toNat_of_nonneg hm

theorem holds_convert (t : IntegerType) (v : Int) : t.Holds (t.convert v) := by
  have hp := t.two_pow_bits
  cases h : t.signed with
  | true =>
    have hl := Int.le_bmod (x := v) (m := 2 ^ t.bits) (by positivity)
    have hu := Int.bmod_lt (x := v) (m := 2 ^ t.bits) (by positivity)
    push_cast at hl hu
    rw [Holds, least, if_pos h, convert_of_signed h]
    omega
  | false =>
    rw [Holds, least, h, if_neg Bool.false_ne_true, convert_of_unsigned h, Int.zero_add]
    exact ⟨Int.emod_nonneg v (by positivity), Int.emod_lt_of_pos v (by positivity)⟩

/-- Conversion keeps the low bits. -/
theorem convert_emod (t : IntegerType) (v : Int) : t.convert v % 2 ^ t.bits = v % 2 ^ t.bits := by
  cases h : t.signed with
  | true =>
    rw [convert_of_signed h]
    exact_mod_cast Int.bmod_emod (x := v) (m := 2 ^ t.bits)
  | false => rw [convert_of_unsigned h, Int.emod_emod]

/-- The low bits tell the values of a type apart. -/
theorem eq_of_holds_of_emod {u v : Int} (hu : t.Holds u) (hv : t.Holds v) (h : u % 2 ^ t.bits = v % 2 ^ t.bits) :
    u = v := by
  obtain ⟨hul, huu⟩ := hu
  obtain ⟨hvl, hvu⟩ := hv
  have hd : (2 : Int) ^ t.bits ∣ u - v := Int.ModEq.dvd (Eq.symm h)
  -- Both lie in one interval of that length, so they differ by less.
  have hs : |u - v| < 2 ^ t.bits := abs_lt.2 ⟨by omega, by omega⟩
  have hz := Int.eq_zero_of_abs_lt_dvd hd hs
  omega

/-- A value survives every type that is at least as wide as its own. -/
theorem convert_convert_of_holds (hb : t.bits ≤ n.bits) {v : Int} (hv : t.Holds v) :
    t.convert (n.convert v) = v := by
  have hd : (2 : Int) ^ t.bits ∣ 2 ^ n.bits := pow_dvd_pow 2 hb
  refine eq_of_holds_of_emod (t.holds_convert _) hv ?_
  calc t.convert (n.convert v) % 2 ^ t.bits = n.convert v % 2 ^ t.bits := t.convert_emod _
    _ = n.convert v % 2 ^ n.bits % 2 ^ t.bits := (Int.emod_emod_of_dvd _ hd).symm
    _ = v % 2 ^ n.bits % 2 ^ t.bits := by rw [n.convert_emod]
    _ = v % 2 ^ t.bits := Int.emod_emod_of_dvd _ hd

/-- A signed type holds every value of a type that is not wider, except where that one has
    no sign and the same width. -/
theorem exists_not_holds_iff (hn : n.signed = true) (hb : t.bits ≤ n.bits) :
    (∃ v, t.Holds v ∧ ¬ n.Holds v) ↔ t.signed = false ∧ t.bits = n.bits := by
  have htp := t.two_pow_bits
  have hnp := n.two_pow_bits
  have hpos : (0 : Int) < 2 ^ (t.bits - 1) := by positivity
  simp only [Holds, least, if_pos hn]
  cases ht : t.signed with
  | true =>
    -- The interval of a narrower signed type lies inside.
    have hhalf : (2 : Int) ^ (t.bits - 1) ≤ 2 ^ (n.bits - 1) := pow_le_pow_right₀ (by decide) (by omega)
    refine ⟨fun h => ?_, fun h => nomatch h.1⟩
    obtain ⟨v, hv, hnv⟩ := h
    rw [if_pos rfl] at hv
    exact absurd ⟨by omega, by omega⟩ hnv
  | false =>
    simp only [Bool.false_eq_true, if_false, true_and]
    constructor
    · intro h
      obtain ⟨v, hv, hnv⟩ := h
      by_contra hne
      -- One bit more has room for the sign.
      have hlt : (2 : Int) ^ t.bits ≤ 2 ^ (n.bits - 1) := pow_le_pow_right₀ (by decide) (by omega)
      exact hnv ⟨by omega, by omega⟩
    · intro h
      rw [← h]
      exact ⟨2 ^ t.bits - 1, by omega, by omega⟩

end IntegerType

/-! ## The types of the table and of the calls -/

inductive MachineWord where
  | bits32
  | bits64
  deriving DecidableEq, Repr

def MachineWord.bits : MachineWord → Nat
  | bits32 => 32
  | bits64 => 64

def StorageWidth.bits (word : MachineWord) : StorageWidth → Nat
  | bits8 => 8
  | bits16 => 16
  | bits32 => 32
  | bits64 => 64
  | platform => word.bits

theorem StorageWidth.bits_pos (word : MachineWord) (width : StorageWidth) : 0 < width.bits word := by
  cases word <;> cases width <;> decide

namespace IntegerType

def ofWidth (signed : Bool) (word : MachineWord) (width : StorageWidth) : IntegerType :=
  ⟨signed, width.bits word, width.bits_pos word⟩

/-- The integer types that the values of a kind and a width are declared with. A character
    of eight bits has a sign or has none, a wider one has none. -/
def declaredTypes (word : MachineWord) : ValueKind → StorageWidth → List IntegerType
  | .integer, width => [ofWidth true word width]
  | .unsignedInteger, width => [ofWidth false word width]
  | .character, .bits8 => [ofWidth true word .bits8, ofWidth false word .bits8]
  | .character, width => [ofWidth false word width]
  | _, _ => []

end IntegerType

/-- The integer type of a name in the generated code, for the names that calls have for theirs. -/
def IntegerType.named? (word : MachineWord) (name : Text) : Option IntegerType :=
  if name = "int32_t" then some (.ofWidth true word .bits32)
  else if name = "int64_t" then some (.ofWidth true word .bits64)
  else if name = "NSInteger" then some (.ofWidth true word .platform)
  else none

def ArchiveCall.texts (call : ArchiveCall) : Text × Text × Text :=
  (call.encodeSelector, call.decodeSelector, call.nativeType)

def ArchiveCall.integerTexts : List (Text × Text × Text) :=
  [("encodeInt32", "decodeInt32ForKey", "int32_t"),
   ("encodeInt64", "decodeInt64ForKey", "int64_t"),
   ("encodeInteger", "decodeIntegerForKey", "NSInteger")]

/-- Integers and characters travel in a signed type that is not narrower than theirs, and
    are cast where theirs has no sign and is as wide. -/
theorem ArchiveCall.exists_carrier (word : MachineWord) {kind : ValueKind} {width : StorageWidth}
    (hk : kind = .integer ∨ kind = .unsignedInteger ∨ kind = .character ∧ (width = .bits8 ∨ width = .bits16)) :
    ∃ native, IntegerType.named? word (ofKind kind width).nativeType = some native ∧ native.signed = true ∧
      (ofKind kind width).texts ∈ integerTexts ∧
      (∀ t ∈ IntegerType.declaredTypes word kind width, t.bits ≤ native.bits) ∧
      (encodeCast? kind width ≠ none ↔
        ∃ t ∈ IntegerType.declaredTypes word kind width, t.signed = false ∧ t.bits = native.bits) := by
  rcases hk with rfl | rfl | ⟨rfl, rfl | rfl⟩
  · cases width <;> exact ⟨_, rfl, rfl, by decide, by cases word <;> decide, by cases word <;> decide⟩
  · cases width <;> exact ⟨_, rfl, rfl, by decide, by cases word <;> decide, by cases word <;> decide⟩
  · exact ⟨_, rfl, rfl, by decide, by cases word <;> decide, by cases word <;> decide⟩
  · exact ⟨_, rfl, rfl, by decide, by cases word <;> decide, by cases word <;> decide⟩

/-! ## Declarations of the table's types -/

namespace Declaration

variable {d : Declaration} {s : Scalar}

/-- Without markers the kind is the one of the table. -/
theorem kind_of_lookup? (hd : d.pointerDepth = 0) (hs : Scalar.lookup? d.typeName = some s) : d.kind = s.kind := by
  have hp : d.isPointer = false := by simp [isPointer, hd]
  rw [kind, hp, Scalar.ofType_of_lookup? hs]

theorem storageWidth_of_lookup? (hs : Scalar.lookup? d.typeName = some s) : d.storageWidth = s.width := by
  rw [storageWidth, hs]
  rfl

/-- A property of the scalar `s` is archived in the integer type `native`, behind `cast`, and
    restored from it. -/
structure SurvivesArchive (word : MachineWord) (options : CodeOptions) (d : Declaration) (s : Scalar)
    (native : IntegerType) (cast : Text) : Prop where
  /-- What the call is named in the generated code, and the type that it takes and returns. -/
  texts_mem : d.archiveCall.texts ∈ ArchiveCall.integerTexts
  native_eq : IntegerType.named? word d.archiveCall.nativeType = some native
  /-- Through the native type and back, no value changes. -/
  comes_back : ∀ t ∈ IntegerType.declaredTypes word s.kind s.width, ∀ v, t.Holds v → t.convert (native.convert v) = v
  encodeText_eq : Archive.encodeText options d =
    "[" ++ options.coder ++ " " ++ d.archiveCall.encodeSelector ++ ":" ++ cast ++ "self." ++ d.name ++
      " forKey:@\"" ++ d.name ++ "\"]"
  cast_eq : cast = [] ∨ cast = "(" ++ d.archiveCall.nativeType ++ ")"
  /-- The cast marks the values that the native type does not hold. -/
  cast_iff : cast ≠ [] ↔ ∃ t ∈ IntegerType.declaredTypes word s.kind s.width, ∃ v, t.Holds v ∧ ¬ native.Holds v
  /-- What the call returns is cast to the declared type where that has another name. -/
  decodeText_eq : (Archive.decodeText options d).value = Archive.assignee options d ++ " = " ++
    (if d.typeName = d.archiveCall.nativeType then ([] : Text) else "(" ++ d.typeName ++ ")") ++
      "[" ++ options.coder ++ " " ++ d.archiveCall.decodeSelector ++ ":@\"" ++ d.name ++ "\"]"

/-- An integer or a character of the table comes back from an archive as it was, on
    machines of both widths; its encoding writes a cast exactly where some value of its
    type is none of the native type of the call. -/
theorem integer_survives_archive (word : MachineWord) (options : CodeOptions) (hd : d.pointerDepth = 0)
    (hs : Scalar.lookup? d.typeName = some s)
    (hk : s.kind = .integer ∨ s.kind = .unsignedInteger ∨ s.kind = .character) :
    ∃ native cast, SurvivesArchive word options d s native cast := by
  have hc : ∀ s ∈ Scalar.table, s.kind = .character → s.width = .bits8 ∨ s.width = .bits16 := by decide
  have hw : s.kind = .integer ∨ s.kind = .unsignedInteger ∨
      s.kind = .character ∧ (s.width = .bits8 ∨ s.width = .bits16) :=
    hk.imp_right (Or.imp_right fun h => ⟨h, hc s (Scalar.mem_table_of_lookup? hs).1 h⟩)
  have hcall : d.archiveCall = .ofKind s.kind s.width := by
    rw [archiveCall, kind_of_lookup? hd hs, storageWidth_of_lookup? hs]
  have hcast : d.encodeCast? = ArchiveCall.encodeCast? s.kind s.width := by
    rw [encodeCast?, kind_of_lookup? hd hs, storageWidth_of_lookup? hs]
  obtain ⟨native, hn, hsigned, htexts, hbits, hneeds⟩ := ArchiveCall.exists_carrier word hw
  refine ⟨native, if d.needsCast then "(" ++ d.archiveCall.nativeType ++ ")" else [], ?_⟩
  exact
    { texts_mem := hcall ▸ htexts
      native_eq := hcall ▸ hn
      comes_back := fun t ht v hv => IntegerType.convert_convert_of_holds (hbits t ht) hv
      encodeText_eq := Archive.encodeText_eq options d
      cast_eq := by
        cases d.needsCast
        · exact .inl rfl
        · exact .inr rfl
      cast_iff := by
        have hne : (if d.needsCast then "(" ++ d.archiveCall.nativeType ++ ")" else ([] : Text)) ≠ [] ↔
            ArchiveCall.encodeCast? s.kind s.width ≠ none := by
          rw [← hcast, Option.ne_none_iff_isSome, needsCast]
          cases d.encodeCast?.isSome <;> simp
        rw [hne, hneeds]
        refine exists_congr fun t => and_congr_right fun ht => ?_
        exact (IntegerType.exists_not_holds_iff hsigned (hbits t ht)).symm
      decodeText_eq := Archive.decodeText_of_scalar fun ho => by
        have hmem : ArchiveCall.object.texts ∈ ArchiveCall.integerTexts := ho ▸ hcall ▸ htexts
        exact absurd hmem (by decide) }

/-- The greatest `unsigned long` of a small machine passes through a signed word, behind a cast. -/
theorem integer_survives_archive_unsigned_long :
    let d : Declaration := ⟨"unsigned long", "flags", none, none, 0⟩
    let s : Scalar := ⟨"unsigned long", .unsignedInteger, .platform⟩
    parse "@property unsigned long flags;" = .ok d ∧ Scalar.lookup? d.typeName = some s ∧
      (∃ native cast, SurvivesArchive .bits32 {} d s native cast ∧ cast ≠ [] ∧
        (IntegerType.ofWidth false .bits32 .platform).convert (native.convert 4294967295) = 4294967295) ∧
      Archive.encodeText {} d = "[coder encodeInteger:(NSInteger)self.flags forKey:@\"flags\"]" ∧
      (Archive.decodeText {} d).value = "self.flags = (unsigned long)[coder decodeIntegerForKey:@\"flags\"]" := by
  intro d s
  have hs : Scalar.lookup? d.typeName = some s := by decide +kernel
  obtain ⟨native, cast, h⟩ := integer_survives_archive (d := d) .bits32 {} rfl hs (.inr (.inl rfl))
  have hn : native = .ofWidth true .bits32 .platform := by
    have he := h.native_eq
    rw [archiveCall, kind_of_lookup? rfl hs, storageWidth_of_lookup? hs] at he
    exact (Option.some.inj he).symm
  have hw : cast ≠ [] := h.cast_iff.2 ⟨_, List.mem_cons_self, 4294967295, by rw [hn]; decide⟩
  have hv := h.comes_back _ List.mem_cons_self 4294967295 (by decide)
  exact ⟨by decide +kernel, hs, ⟨native, cast, h, hw, hv⟩, by decide +kernel, by decide +kernel⟩

end Declaration

end PropertyArchive
