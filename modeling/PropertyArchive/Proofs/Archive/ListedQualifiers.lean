/-
  PropertyArchive.Proofs.Archive.ListedQualifiers — the qualifiers of a property are the
  keywords that its modifier section lists.

  A section lists a qualifier when one of its pieces, between commas and without the blanks
  around it, is the keyword (`Qualifiers.Lists`). Each keyword is of one qualifier
  (`ofKeyword?_eq_some_iff`) and each qualifier has a bit of its own, so the bits of a
  section are exactly those of the qualifiers that it lists (`testBit_ofAttributes`). The
  rest follows from that:
  - no other bit is set, and two sections have the same bits exactly when they list the
    same qualifiers (`ofAttributes_eq_iff`);
  - a section of joined parts has the union of their bits (`ofAttributes_append`);
  - the order of the pieces, repeated pieces, blanks around them, unknown words and
    accessors (`getter=class`) change nothing.

  `listed_qualifiers` puts this together, with what follows for a declaration: which
  properties a walk leaves out, and which are decoded into their instance variable.
-/
import PropertyArchive.Proofs.Archive.InstanceState
import PropertyArchive.Proofs.Text.Pieces

namespace PropertyArchive

open Text

/-! ## Keywords and bits -/

namespace Qualifier

theorem mem_all (q : Qualifier) : q ∈ all := by cases q <;> decide

theorem bit_lt (q : Qualifier) : q.bit < 16 := by cases q <;> decide

theorem bit_injective : Function.Injective bit := by
  have h : ∀ q ∈ all, ∀ r ∈ all, q.bit = r.bit → q = r := by decide
  exact fun q r => h q q.mem_all r r.mem_all

/-- A word is the keyword of at most one qualifier, and is found as that. -/
theorem ofKeyword?_eq_some_iff {word : Text} {q : Qualifier} : ofKeyword? word = some q ↔ word = q.keyword := by
  have hfound : ∀ r ∈ all, ofKeyword? r.keyword = some r := by decide
  constructor
  · intro h
    have hk : q.keyword = word := by simpa using List.find?_some h
    exact hk.symm
  · rintro rfl
    exact hfound q q.mem_all

/-- An accessor is no keyword. -/
theorem equals_not_mem_keyword (q : Qualifier) : '=' ∉ q.keyword := by cases q <;> decide

end Qualifier

namespace Qualifiers

/-- One of the pieces is the keyword of `q`. -/
def Lists (attributes : Text) (q : Qualifier) : Prop := ∃ piece ∈ attributes.splitOn ',', trim piece = q.keyword

theorem testBit_union (a b : Qualifiers) (i : Nat) :
    (a.union b).bits.testBit i = (a.bits.testBit i || b.bits.testBit i) := Nat.testBit_or ..

theorem testBit_singleton (q : Qualifier) (i : Nat) : (singleton q).bits.testBit i = decide (q.bit = i) := by
  rw [singleton, Nat.one_shiftLeft, Nat.testBit_two_pow]

/-- A fold adds the bits of the qualifiers that it goes through, and no others. -/
theorem testBit_foldl_union {qs : List Qualifier} {s : Qualifiers} {i : Nat} :
    (qs.foldl (fun s q => s.union (singleton q)) s).bits.testBit i = true ↔
      s.bits.testBit i = true ∨ ∃ q ∈ qs, q.bit = i := by
  induction qs generalizing s with
  | nil => simp
  | cons q qs ih => simp [ih, testBit_union, testBit_singleton, or_assoc]

/-- The bits of a section are those of the qualifiers that it lists. -/
theorem testBit_ofAttributes {attributes : Text} {i : Nat} :
    (ofAttributes attributes).bits.testBit i = true ↔ ∃ q, Lists attributes q ∧ q.bit = i := by
  rw [ofAttributes, testBit_foldl_union]
  simp only [empty, Nat.zero_testBit, Bool.false_eq_true, false_or, List.mem_filterMap,
    Qualifier.ofKeyword?_eq_some_iff, Lists]

variable {attributes : Text}

theorem contains_ofAttributes {q : Qualifier} : (ofAttributes attributes).contains q = true ↔ Lists attributes q := by
  rw [contains, testBit_ofAttributes]
  constructor
  · rintro ⟨r, hr, hb⟩
    rwa [← Qualifier.bit_injective hb]
  · exact fun h => ⟨q, h, rfl⟩

instance (attributes : Text) (q : Qualifier) : Decidable (Lists attributes q) :=
  decidable_of_iff _ contains_ofAttributes

theorem bits_ofAttributes_lt (attributes : Text) : (ofAttributes attributes).bits < 0x10000 := by
  refine Nat.lt_pow_two_of_testBit (n := 16) _ fun i hi => Bool.eq_false_iff.2 fun h => ?_
  obtain ⟨q, -, rfl⟩ := testBit_ofAttributes.1 h
  exact absurd q.bit_lt (Nat.not_lt.2 hi)

theorem ofAttributes_eq_iff {other : Text} :
    ofAttributes other = ofAttributes attributes ↔ ∀ q, Lists other q ↔ Lists attributes q := by
  constructor
  · intro h q
    rw [← contains_ofAttributes, h, contains_ofAttributes]
  · intro h
    have hbits : (ofAttributes other).bits = (ofAttributes attributes).bits :=
      Nat.eq_of_testBit_eq fun i => Bool.eq_iff_iff.2 (by simp only [testBit_ofAttributes, h])
    exact congrArg Qualifiers.mk hbits

/-! ## Joined sections -/

theorem lists_append {a b : Text} {q : Qualifier} : Lists (a ++ ',' :: b) q ↔ Lists a q ∨ Lists b q := by
  simp only [Lists, splitOn_append_cons, List.mem_append, or_and_right, exists_or]

theorem ofAttributes_append (a b : Text) :
    ofAttributes (a ++ ',' :: b) = (ofAttributes a).union (ofAttributes b) := by
  have hbits : (ofAttributes (a ++ ',' :: b)).bits = ((ofAttributes a).union (ofAttributes b)).bits := by
    refine Nat.eq_of_testBit_eq fun i => Bool.eq_iff_iff.2 ?_
    simp only [testBit_union, Bool.or_eq_true, testBit_ofAttributes, lists_append, or_and_right, exists_or]
  exact congrArg Qualifiers.mk hbits

theorem not_lists_nil (q : Qualifier) : ¬Lists [] q := by cases q <;> decide

/-- A joined section lists what its parts list. -/
theorem lists_joinWith {parts : List Text} {q : Qualifier} :
    Lists (joinWith "," parts) q ↔ ∃ part ∈ parts, Lists part q := by
  induction parts with
  | nil => simpa [joinWith] using not_lists_nil q
  | cons part parts ih =>
    cases parts with
    | nil => simp [joinWith]
    | cons next parts =>
      have hj : joinWith "," (part :: next :: parts) = part ++ ',' :: joinWith "," (next :: parts) := rfl
      rw [hj, lists_append, ih]
      simp

/-- A piece of a section is one piece. -/
theorem lists_of_mem_splitOn {piece : Text} {q : Qualifier} (h : piece ∈ attributes.splitOn ',') :
    Lists piece q ↔ trim piece = q.keyword := by
  simp [Lists, List.splitOn_eq_singleton (not_mem_of_mem_splitOn h)]

/-- Pieces that are no keyword can go. -/
theorem ofAttributes_filter {keep : Text → Bool}
    (h : ∀ piece, (∃ q : Qualifier, trim piece = q.keyword) → keep piece = true) :
    ofAttributes (joinWith "," ((attributes.splitOn ',').filter keep)) = ofAttributes attributes := by
  refine ofAttributes_eq_iff.2 fun q => ?_
  rw [lists_joinWith]
  constructor
  · rintro ⟨piece, hm, hl⟩
    have hm := (List.mem_filter.1 hm).1
    exact ⟨piece, hm, (lists_of_mem_splitOn hm).1 hl⟩
  · rintro ⟨piece, hm, he⟩
    exact ⟨piece, List.mem_filter.2 ⟨hm, h piece ⟨q, he⟩⟩, (lists_of_mem_splitOn hm).2 he⟩

structure ReadsListed (attributes : Text) : Prop where
  contains_iff : ∀ q, (ofAttributes attributes).contains q = true ↔
    ∃ piece ∈ attributes.splitOn ',', trim piece = q.keyword
  /-- No other bits than the sixteen. -/
  bits_lt : (ofAttributes attributes).bits < 0x10000
  union : ∀ more, ofAttributes (attributes ++ ',' :: more) = (ofAttributes attributes).union (ofAttributes more)
  eq_iff : ∀ other, ofAttributes other = ofAttributes attributes ↔ ∀ q, Lists other q ↔ Lists attributes q
  /-- The order, repetitions and the blanks around a piece do not count. -/
  same_pieces : ∀ other,
    (∀ piece, piece ∈ (other.splitOn ',').map trim ↔ piece ∈ (attributes.splitOn ',').map trim) →
      ofAttributes other = ofAttributes attributes
  /-- Unknown words do not count. -/
  known_pieces : ofAttributes (joinWith "," ((attributes.splitOn ',').filter fun piece =>
    (Qualifier.ofKeyword? (trim piece)).isSome)) = ofAttributes attributes
  /-- Accessors do not count, whatever they name. -/
  no_accessors : ofAttributes (joinWith "," ((attributes.splitOn ',').filter fun piece => '=' ∉ piece)) =
    ofAttributes attributes

theorem readsListed (attributes : Text) : ReadsListed attributes where
  contains_iff _ := contains_ofAttributes
  bits_lt := bits_ofAttributes_lt attributes
  union := ofAttributes_append attributes
  eq_iff _ := ofAttributes_eq_iff
  same_pieces other h := by
    have hl : ∀ (t : Text) (q : Qualifier), Lists t q ↔ q.keyword ∈ (t.splitOn ',').map trim := by
      simp [Lists]
    exact ofAttributes_eq_iff.2 fun q => by rw [hl, hl, h]
  known_pieces := ofAttributes_filter fun piece ⟨q, he⟩ => by
    rw [Qualifier.ofKeyword?_eq_some_iff.2 he]
    rfl
  no_accessors := ofAttributes_filter fun piece ⟨q, he⟩ => by
    have hm : '=' ∉ piece := fun hm => q.equals_not_mem_keyword (he ▸ mem_trim hm (by decide))
    simpa using hm

example : ofAttributes "  weak ,nonatomic,getter=class, , weak" = (singleton .nonatomic).union (singleton .weak) := by
  decide

end Qualifiers

/-! ## Declarations -/

namespace Declaration

variable {d : Declaration}

/-- The modifier section, where there is one, lists `q`. -/
def Lists (d : Declaration) (q : Qualifier) : Prop := ∃ attributes ∈ d.attributes, Qualifiers.Lists attributes q

theorem contains_qualifiers {q : Qualifier} : d.qualifiers.contains q = true ↔ d.Lists q := by
  rw [qualifiers, Lists]
  cases d.attributes with
  | none => simp [Qualifiers.contains, Qualifiers.empty]
  | some attributes => simp [Qualifiers.contains_ofAttributes]

instance (d : Declaration) (q : Qualifier) : Decidable (d.Lists q) := decidable_of_iff _ contains_qualifiers

theorem isClassProperty_iff : d.isClassProperty = true ↔ d.Lists .classLevel := contains_qualifiers

theorem targetOf_eq_ivar_iff {options : CodeOptions} :
    DecodeStatement.targetOf options d = .ivar ↔ options.readonlyToIvar = true ∧ d.Lists .readonly := by
  rw [DecodeStatement.targetOf, ← contains_qualifiers]
  simp [Qualifiers.isReadonly]

end Declaration

theorem DecodeStatement.target_ofDeclaration (options : CodeOptions) (d : Declaration) :
    (ofDeclaration options d).value.target = targetOf options d := by
  unfold ofDeclaration
  split <;> rfl

/-- The qualifiers of a section are the keywords it lists. So a walk visits, in order, the
properties whose section does not list `class`, and a decode goes to the instance
variable where the options ask for it and the section lists `readonly`. -/
theorem listed_qualifiers :
    (∀ attributes, Qualifiers.ReadsListed attributes) ∧
      (∀ (α : Type) (visit : Declaration → Logged α) ds, (Archive.visitInstance visit ds).value =
        (ds.filter fun d => ¬d.Lists .classLevel).map fun d => (visit d).value) ∧
      ∀ options d, (DecodeStatement.ofDeclaration options d).value.target = .ivar ↔
        options.readonlyToIvar = true ∧ d.Lists .readonly := by
  refine ⟨Qualifiers.readsListed, fun α visit ds => ?_, fun options d => ?_⟩
  · have hf : Archive.instanceState ds = ds.filter fun d => ¬d.Lists .classLevel :=
      List.filter_congr fun d _ => by simp [← Declaration.isClassProperty_iff]
    rw [Archive.value_visitInstance, hf]
  · rw [DecodeStatement.target_ofDeclaration, Declaration.targetOf_eq_ivar_iff]

end PropertyArchive
