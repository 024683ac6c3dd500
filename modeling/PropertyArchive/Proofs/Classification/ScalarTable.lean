/-
  PropertyArchive.Proofs.Classification.ScalarTable — the scalar table lists spellings, and
  nothing comes in between.

  An entry is found exactly where its words are the words of the type, the ignored ones left
  out (`lookup?_eq_some_iff`), and no two entries have the same words (`eq_of_words_eq`). The
  words of the table are identifiers other than the name of the type of any object. So a
  type that the table lists has no bracket (`not_mem_of_lookup?`) and is never taken for the
  type of any object (`isAnyObject_of_lookup?`), though that question is asked first: its
  kind is the one of its entry (`ofType_of_lookup?`). `lookup?_exact` puts this together.
-/
import PropertyArchive.Classification
import PropertyArchive.Proofs.ObjectType.BaseName

namespace PropertyArchive.Scalar

open Text

variable {t : Text} {s : Scalar}

/-! ## The entries -/

theorem mem_table_of_lookup? (h : lookup? t = some s) : s ∈ table ∧ words s.keyword = spelling t := by
  unfold lookup? at h
  exact ⟨List.mem_of_find?_eq_some h, by simpa using List.find?_some h⟩

/-- The words of the table are identifiers, and none of them names the type of any object. -/
theorem isIdentifier_of_mem_words : ∀ s ∈ table, ∀ w ∈ words s.keyword,
    isIdentifier w = true ∧ w ≠ ObjectType.anyObject := by
  decide +kernel

theorem nodup_words_table : (table.map (words ·.keyword)).Nodup := by
  decide +kernel

/-- An entry is known by its words. -/
theorem eq_of_words_eq {s' : Scalar} (hs : s ∈ table) (hs' : s' ∈ table) (h : words s.keyword = words s'.keyword) :
    s = s' :=
  List.inj_on_of_nodup_map nodup_words_table hs hs' h

theorem kind_of_mem_table : ∀ s ∈ table, s.kind ≠ .object ∧ s.kind ≠ .unknownScalar := by
  decide

theorem lookup?_eq_some_iff : lookup? t = some s ↔ s ∈ table ∧ spelling t = words s.keyword := by
  constructor
  · intro h
    obtain ⟨hs, hw⟩ := mem_table_of_lookup? h
    exact ⟨hs, hw.symm⟩
  · intro h
    obtain ⟨hs, hw⟩ := h
    cases hf : lookup? t with
    | none =>
      unfold lookup? at hf
      have hn := List.find?_eq_none.1 hf s hs
      exact absurd hw.symm (by simpa using hn)
    | some s' =>
      obtain ⟨hs', hw'⟩ := mem_table_of_lookup? hf
      rw [eq_of_words_eq hs' hs (hw'.trans hw)]

/-! ## Types that the table lists -/

/-- A type that the table lists has no bracket. -/
theorem not_mem_of_lookup? (h : lookup? t = some s) : '<' ∉ t := by
  obtain ⟨hs, he⟩ := mem_table_of_lookup? h
  intro hm
  obtain ⟨w, hw, hb⟩ := exists_mem_words hm (by decide)
  have hi : ∀ w ∈ ignoredWords, isIdentifier w = true := by decide
  have hid : isIdentifier w = true := by
    by_cases hq : w ∈ ignoredWords
    · exact hi w hq
    · exact (isIdentifier_of_mem_words s hs w (he ▸ List.mem_filter.2 ⟨hw, by simpa using hq⟩)).1
  have hc := List.all_eq_true.1 (all_isIdentifierChar hid) '<' hb
  exact absurd hc (by decide)

/-- A type that the table lists is never the type of any object. -/
theorem isAnyObject_of_lookup? (h : lookup? t = some s) : ObjectType.isAnyObject t = false := by
  obtain ⟨hs, he⟩ := mem_table_of_lookup? h
  have hb : ObjectType.beforeGenerics t = t := ObjectType.beforeGenerics_eq_self (not_mem_of_lookup? h)
  rw [ObjectType.isAnyObject, ObjectType.baseName, hb, beq_eq_false_iff_ne]
  cases hf : (words t).find? (· ∉ ObjectType.classQualifiers) with
  | none => decide
  | some w =>
    -- No ignored word names the type of any object, so the word would be one of the table's.
    intro e
    have hw : w = ObjectType.anyObject := e
    have hi : w ∉ ignoredWords := by rw [hw]; decide
    have hm : w ∈ words s.keyword := he ▸ List.mem_filter.2 ⟨List.mem_of_find?_eq_some hf, by simpa using hi⟩
    exact (isIdentifier_of_mem_words s hs w hm).2 hw

theorem ofType_of_lookup? (h : lookup? t = some s) : ValueKind.ofType t false = s.kind := by
  unfold ValueKind.ofType
  rw [isAnyObject_of_lookup? h, h]
  rfl

/-- An entry is found exactly where the words of the type, the qualifying ones left out, are
    its own, and no other entry has these words; what is found is the kind of the type, a
    scalar that is known. -/
theorem lookup?_exact (t : Text) (s : Scalar) :
    (lookup? t = some s ↔
      s ∈ table ∧ (words t).filter (fun w => w ≠ ("const" : Text) ∧ w ≠ ("volatile" : Text)) = words s.keyword) ∧
      (lookup? t = some s →
        (∀ s' ∈ table, words s'.keyword = words s.keyword → s' = s) ∧
          ValueKind.ofType t false = s.kind ∧ s.kind ≠ .object ∧ s.kind ≠ .unknownScalar) := by
  have hf : (words t).filter (fun w => w ≠ ("const" : Text) ∧ w ≠ ("volatile" : Text)) = spelling t := by
    refine List.filter_congr fun w _ => decide_eq_decide.2 ?_
    simp only [ignoredWords, List.mem_cons, List.not_mem_nil, or_false, not_or, ne_eq]
  rw [hf]
  refine ⟨lookup?_eq_some_iff, fun h => ?_⟩
  have hs : s ∈ table := (mem_table_of_lookup? h).1
  exact ⟨fun s' hs' hw => eq_of_words_eq hs' hs hw, ofType_of_lookup? h, kind_of_mem_table s hs⟩

/-- Two qualifiers and blanks of several kinds around three words. -/
theorem lookup?_exact_unsigned_long_long :
    lookup? "volatile unsigned\t long const long\u3000" = some ⟨"unsigned long long", .unsignedInteger, .bits64⟩ ∧
      (∀ s' ∈ table, words s'.keyword = words "unsigned long long" →
        s' = ⟨"unsigned long long", .unsignedInteger, .bits64⟩) ∧
      ValueKind.ofType "volatile unsigned\t long const long\u3000" false = .unsignedInteger := by
  obtain ⟨hi, hl⟩ := lookup?_exact "volatile unsigned\t long const long\u3000"
    ⟨"unsigned long long", .unsignedInteger, .bits64⟩
  have h := hi.2 ⟨by decide, by decide +kernel⟩
  exact ⟨h, (hl h).1, (hl h).2.1⟩

end PropertyArchive.Scalar
