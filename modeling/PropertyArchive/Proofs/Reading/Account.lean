/-
  PropertyArchive.Proofs.Reading.Account — a reading accounts for every line of its text.

  One line does one of three things: a blank line leaves nothing, a declaration is
  accepted, and any other line is refused with a notice (`ofLines_cons_of_gap`,
  `ofLines_cons_of_ok`, `ofLines_cons_of_error`). So a reading is the entries of its
  numbered lines, in order (`ofLines_eq`): what `accept?` and `refuse?` make of them, and
  one notice for each refused line. Whether lines end at a line feed alone or also at a
  carriage return in front of it makes no difference (`ofLines_sourceLines`).

  `ofText_accounts`: each line that is not blank stands in exactly one of the two lists,
  under its number and with what reading it on its own gives. The notice of a refused line
  names its reason, and no other reason has the same wording (`Refusal.message_injective`).
-/
import PropertyArchive.Reading
import PropertyArchive.Proofs.Declaration.Recognition
import PropertyArchive.Proofs.Text.Pieces

namespace PropertyArchive

open Text

/-! ## The wording of a reason -/

theorem Text.ofNat_injective : Function.Injective ofNat := by
  intro m n h
  have hd := congrArg (Nat.ofDigitChars 10 · 0) h
  simpa only [ofNat, Nat.ofDigitChars_ten_toDigits] using hd

namespace Refusal

/-- How the wordings start, in the order of the reasons: all of one that quotes nothing, and any
    other up to what it quotes. -/
def leads : List Text :=
  ["Provided input was empty", "Expected the `@property` keyword",
   "Modifier section is missing its closing parenthesis", "Declaration has no attribute name",
   "Invalid attribute name - ", "Declaration has no type", "Invalid type - ",
   "Pointer marker must follow the complete type", "Block-typed attributes are not supported",
   "Function pointer attributes are not supported", "Array declarators are not supported",
   "Only one attribute may be declared per statement", "Unbalanced angle brackets in type",
   "Reached the maximum generic nesting depth allowed - ", "Unexpected character - '",
   "Unexpected input after `;` - "]

theorem exists_lead (r : Refusal) : ∃ lead rest, leads[r.ctorIdx]? = some lead ∧ r.message = lead ++ rest := by
  cases r <;> first | exact ⟨_, [], rfl, (List.append_nil _).symm⟩ | exact ⟨_, _, rfl, rfl⟩

/-- No start begins another one. -/
theorem eq_of_leads {i j : Nat} {a b : Text} (ha : leads[i]? = some a) (hb : leads[j]? = some b)
    (h : a <+: b) : i = j := by
  have hall : ∀ i j : Fin leads.length, leads[i] <+: leads[j] → i = j := by decide +kernel
  obtain ⟨hi, rfl⟩ := List.getElem?_eq_some_iff.1 ha
  obtain ⟨hj, rfl⟩ := List.getElem?_eq_some_iff.1 hb
  exact congrArg Fin.val (hall ⟨i, hi⟩ ⟨j, hj⟩ h)

/-- The wording tells the reason, with what it quotes. -/
theorem message_injective : Function.Injective message := by
  intro r r' h
  have hi : r.ctorIdx = r'.ctorIdx := by
    obtain ⟨a, s, ha, hr⟩ := exists_lead r
    obtain ⟨a', s', ha', hr'⟩ := exists_lead r'
    have hs : a' <+: r.message := ⟨s', by rw [h, hr']⟩
    rcases List.prefix_or_prefix_of_prefix ⟨s, hr.symm⟩ hs with hp | hp
    · exact eq_of_leads ha ha' hp
    · exact (eq_of_leads ha' ha hp).symm
  cases r <;> cases r' <;> try cases hi
  case invalidName w w' => rw [List.append_cancel_left h]
  case invalidType w w' => rw [List.append_cancel_left h]
  case nestingLimit n n' => rw [ofNat_injective (List.append_cancel_left h)]
  case unexpectedCharacter c c' =>
    have hc := List.append_cancel_left h
    cases hc
    rfl
  case trailingInput t t' => rw [List.append_cancel_left h]
  all_goals rfl

end Refusal

namespace Reading

variable {first : Nat} {raw : Text} {lines : List Text}

/-! ## One line -/

theorem ofLines_cons_of_gap (h : IsGap raw) : ofLines first (raw :: lines) = ofLines (first + 1) lines := by
  simp only [ofLines, trim_eq_nil_iff.2 h, if_true]

theorem ofLines_cons_of_ok {d : Declaration} (h : Declaration.parse raw = .ok d) :
    ofLines first (raw :: lines) =
      ⟨⟨⟨first, d⟩ :: (ofLines (first + 1) lines).value.accepted, (ofLines (first + 1) lines).value.refused⟩,
        (ofLines (first + 1) lines).log⟩ := by
  have hg : trim raw ≠ [] := fun hn => Declaration.not_isGap_of_parse h (trim_eq_nil_iff.1 hn)
  rw [← Declaration.parse_trim] at h
  simp only [ofLines, hg, if_false, h]
  exact Logged.ext rfl (List.append_nil _)

theorem ofLines_cons_of_error {e : Refusal} (hg : ¬ IsGap raw) (h : Declaration.parse raw = .error e) :
    ofLines first (raw :: lines) =
      ⟨⟨(ofLines (first + 1) lines).value.accepted,
          ⟨first, trim raw, e⟩ :: (ofLines (first + 1) lines).value.refused⟩,
        .refusedLine first e :: (ofLines (first + 1) lines).log⟩ := by
  have hg : trim raw ≠ [] := fun hn => hg (trim_eq_nil_iff.1 hn)
  rw [← Declaration.parse_trim] at h
  simp only [ofLines, hg, if_false, h]
  exact Logged.ext rfl (congrArg (_ :: ·) (List.append_nil _))

/-! ## All lines -/

def accept? (entry : Text × Nat) : Option AcceptedLine :=
  match Declaration.parse entry.1 with
  | .ok d => some ⟨entry.2, d⟩
  | .error _ => none

/-- The entry of a numbered line that is neither blank nor a declaration. -/
def refuse? (entry : Text × Nat) : Option RefusedLine :=
  match Declaration.parse entry.1 with
  | .ok _ => none
  | .error .empty => none
  | .error e => some ⟨entry.2, trim entry.1, e⟩

theorem accept?_eq_some_iff {entry : Text × Nat} {a : AcceptedLine} :
    accept? entry = some a ↔ entry.2 = a.line ∧ Declaration.parse entry.1 = .ok a.declaration := by
  obtain ⟨line, d⟩ := a
  unfold accept?
  cases h : Declaration.parse entry.1 <;> simp

theorem refuse?_eq_some_iff {entry : Text × Nat} {r : RefusedLine} :
    refuse? entry = some r ↔ entry.2 = r.line ∧ ¬ IsGap entry.1 ∧ trim entry.1 = r.text ∧
      Declaration.parse entry.1 = .error r.reason := by
  obtain ⟨line, text, reason⟩ := r
  rw [← Declaration.parse_eq_empty_iff]
  unfold refuse?
  cases h : Declaration.parse entry.1 with
  | ok d => simp
  | error e => cases e <;> simp

/-- A reading is what its numbered lines give, in order. -/
theorem ofLines_eq (first : Nat) (lines : List Text) : ofLines first lines =
    ⟨⟨(lines.zipIdx first).filterMap accept?, (lines.zipIdx first).filterMap refuse?⟩,
      ((lines.zipIdx first).filterMap refuse?).map fun r => .refusedLine r.line r.reason⟩ := by
  induction lines generalizing first with
  | nil => rfl
  | cons raw lines ih =>
    cases h : Declaration.parse raw with
    | ok d =>
      have ha : accept? (raw, first) = some ⟨first, d⟩ := accept?_eq_some_iff.2 ⟨rfl, h⟩
      have hr : refuse? (raw, first) = none := by simp only [refuse?, h]
      rw [ofLines_cons_of_ok h, ih, List.zipIdx_cons, List.filterMap_cons_some ha, List.filterMap_cons_none hr]
    | error e =>
      have ha : accept? (raw, first) = none := by simp only [accept?, h]
      by_cases hg : IsGap raw
      · have hr : refuse? (raw, first) = none := by
          simp only [refuse?, (Declaration.parse_eq_empty_iff raw).2 hg]
        rw [ofLines_cons_of_gap hg, ih, List.zipIdx_cons, List.filterMap_cons_none ha, List.filterMap_cons_none hr]
      · have hr : refuse? (raw, first) = some ⟨first, trim raw, e⟩ := refuse?_eq_some_iff.2 ⟨rfl, hg, rfl, h⟩
        rw [ofLines_cons_of_error hg h, ih, List.zipIdx_cons, List.filterMap_cons_none ha,
          List.filterMap_cons_some hr]
        rfl

theorem exists_entry_iff {numbered : List (Text × Nat)} {i : Nat} (P : Text → Prop) :
    (∃ entry ∈ numbered, entry.2 = i ∧ P entry.1) ↔ ∃ raw, (raw, i) ∈ numbered ∧ P raw := by
  constructor
  · rintro ⟨⟨raw, j⟩, hm, rfl, hp⟩
    exact ⟨raw, hm, hp⟩
  · rintro ⟨raw, hm, hp⟩
    exact ⟨(raw, i), hm, rfl, hp⟩

theorem mem_accepted_iff {a : AcceptedLine} : a ∈ (ofLines first lines).value.accepted ↔
    ∃ raw, (raw, a.line) ∈ lines.zipIdx first ∧ Declaration.parse raw = .ok a.declaration := by
  simp only [ofLines_eq, List.mem_filterMap, accept?_eq_some_iff]
  exact exists_entry_iff fun raw => Declaration.parse raw = .ok a.declaration

theorem mem_refused_iff {r : RefusedLine} : r ∈ (ofLines first lines).value.refused ↔
    ∃ raw, (raw, r.line) ∈ lines.zipIdx first ∧ ¬ IsGap raw ∧ trim raw = r.text ∧
      Declaration.parse raw = .error r.reason := by
  simp only [ofLines_eq, List.mem_filterMap, refuse?_eq_some_iff]
  exact exists_entry_iff fun raw => ¬ IsGap raw ∧ trim raw = r.text ∧ Declaration.parse raw = .error r.reason

/-! ## Numbers -/

/-- Entries that keep the number of their line have increasing numbers. -/
theorem pairwise_number {α : Type} {keep : Text × Nat → Option α} {number : α → Nat}
    (h : ∀ entry a, keep entry = some a → entry.2 = number a) (first : Nat) (lines : List Text) :
    (((lines.zipIdx first).filterMap keep).map number).Pairwise (· < ·) := by
  have hn : (lines.zipIdx first).Pairwise (·.2 < ·.2) := by
    rw [← List.pairwise_map, List.zipIdx_map_snd]
    exact List.pairwise_lt_range'
  rw [List.pairwise_map, List.pairwise_filterMap]
  refine hn.imp fun hlt a ha b hb => ?_
  rwa [← h _ a ha, ← h _ b hb]

theorem pairwise_accepted (first : Nat) (lines : List Text) :
    ((ofLines first lines).value.accepted.map (·.line)).Pairwise (· < ·) := by
  rw [ofLines_eq]
  exact pairwise_number (fun _ _ h => (accept?_eq_some_iff.1 h).1) first lines

theorem pairwise_refused (first : Nat) (lines : List Text) :
    ((ofLines first lines).value.refused.map (·.line)).Pairwise (· < ·) := by
  rw [ofLines_eq]
  exact pairwise_number (fun _ _ h => (refuse?_eq_some_iff.1 h).1) first lines

theorem eq_of_mem_zipIdx {a b : Text} {i : Nat} (ha : (a, i) ∈ lines.zipIdx first) (hb : (b, i) ∈ lines.zipIdx first) :
    a = b := by
  have ha := (List.mk_mem_zipIdx_iff_le_and_getElem?_sub.1 ha).2
  have hb := (List.mk_mem_zipIdx_iff_le_and_getElem?_sub.1 hb).2
  exact Option.some.inj (ha.symm.trans hb)

def numbers (r : Reading) : List Nat := r.accepted.map (·.line) ++ r.refused.map (·.line)

theorem mem_accepted_number_iff {i : Nat} (h : (raw, i) ∈ lines.zipIdx first) :
    i ∈ (ofLines first lines).value.accepted.map (·.line) ↔ ∃ d, Declaration.parse raw = .ok d := by
  rw [List.mem_map]
  constructor
  · rintro ⟨a, ha, rfl⟩
    obtain ⟨raw', hm, hp⟩ := mem_accepted_iff.1 ha
    exact ⟨a.declaration, eq_of_mem_zipIdx hm h ▸ hp⟩
  · rintro ⟨d, hp⟩
    exact ⟨⟨i, d⟩, mem_accepted_iff.2 ⟨raw, h, hp⟩, rfl⟩

theorem mem_refused_number_iff {i : Nat} (h : (raw, i) ∈ lines.zipIdx first) :
    i ∈ (ofLines first lines).value.refused.map (·.line) ↔ ¬ IsGap raw ∧ ∃ e, Declaration.parse raw = .error e := by
  rw [List.mem_map]
  constructor
  · rintro ⟨r, hr, rfl⟩
    obtain ⟨raw', hm, hg, -, hp⟩ := mem_refused_iff.1 hr
    obtain rfl := eq_of_mem_zipIdx hm h
    exact ⟨hg, r.reason, hp⟩
  · rintro ⟨hg, e, hp⟩
    exact ⟨⟨i, trim raw, e⟩, mem_refused_iff.2 ⟨raw, h, hg, rfl, hp⟩, rfl⟩

/-- A line is entered once, a blank one never. -/
theorem count_numbers {i : Nat} (h : (raw, i) ∈ lines.zipIdx first) :
    (numbers (ofLines first lines).value).count i = if IsGap raw then 0 else 1 := by
  have ha : ((ofLines first lines).value.accepted.map (·.line)).Nodup :=
    (pairwise_accepted first lines).imp Nat.ne_of_lt
  have hr : ((ofLines first lines).value.refused.map (·.line)).Nodup :=
    (pairwise_refused first lines).imp Nat.ne_of_lt
  rw [numbers, List.count_append, ha.count, hr.count]
  have hacc := mem_accepted_number_iff h
  have href := mem_refused_number_iff h
  cases hp : Declaration.parse raw with
  | ok d =>
    have hn : ¬ ∃ e, Declaration.parse raw = .error e := fun ⟨e, he⟩ => by rw [hp] at he; cases he
    rw [if_pos (hacc.2 ⟨d, hp⟩), if_neg fun hm => hn (href.1 hm).2, if_neg (Declaration.not_isGap_of_parse hp)]
  | error e =>
    have hn : ¬ ∃ d, Declaration.parse raw = .ok d := fun ⟨d, hd⟩ => by rw [hp] at hd; cases hd
    by_cases hg : IsGap raw
    · rw [if_neg fun hm => hn (hacc.1 hm), if_neg fun hm => (href.1 hm).1 hg, if_pos hg]
    · rw [if_neg fun hm => hn (hacc.1 hm), if_pos (href.2 ⟨hg, e, hp⟩), if_neg hg]

/-- There are as many entries as lines that are not blank. -/
theorem length_entries (first : Nat) (lines : List Text) :
    (ofLines first lines).value.accepted.length + (ofLines first lines).value.refused.length =
      (lines.filter fun raw => ¬ IsGap raw).length := by
  induction lines generalizing first with
  | nil => rfl
  | cons raw lines ih =>
    have ih := ih (first + 1)
    by_cases hg : IsGap raw
    · rw [ofLines_cons_of_gap hg, List.filter_cons_of_neg (by simpa using hg)]
      exact ih
    · rw [List.filter_cons_of_pos (by simpa using hg), List.length_cons, ← ih]
      cases hp : Declaration.parse raw with
      | ok d => simp only [ofLines_cons_of_ok hp, List.length_cons]; omega
      | error e => simp only [ofLines_cons_of_error hg hp, List.length_cons]; omega

/-! ## The lines of a text -/

/-- Only the trimmed line counts. -/
theorem ofLines_cons_congr {a b : Text} {as bs : List Text} (h : trim a = trim b)
    (hs : ofLines (first + 1) as = ofLines (first + 1) bs) : ofLines first (a :: as) = ofLines first (b :: bs) := by
  simp only [ofLines, h, hs]

theorem ofLines_sourceLines (first : Nat) (text : Text) :
    ofLines first (sourceLines text) = ofLines first (Text.lines text) := by
  induction text using induction_on_lines generalizing first with
  | last text ht =>
    rw [lines_of_not_mem ht]
    by_cases hn : text = []
    · -- An empty rest is a blank line for the one cut and no line for the other.
      subst hn
      rw [ofLines_cons_of_gap isGap_nil]
      rfl
    · rw [sourceLines_of_not_mem ht hn]
  | more a b ha ih =>
    obtain ⟨line, hl, e⟩ := sourceLines_append ha b
    rw [e, lines_append ha]
    exact ofLines_cons_congr (trim_eq_of_return hl).symm (ih (first + 1))

structure AccountsFor (numbered : List (Text × Nat)) (reading : Logged Reading) : Prop where
  accepted_iff : ∀ a, a ∈ reading.value.accepted ↔
    ∃ raw, (raw, a.line) ∈ numbered ∧ Declaration.parse raw = .ok a.declaration
  refused_iff : ∀ r, r ∈ reading.value.refused ↔
    ∃ raw, (raw, r.line) ∈ numbered ∧ ¬ IsGap raw ∧ trim raw = r.text ∧ Declaration.parse raw = .error r.reason
  /-- A line stands in one of the lists and only once, a blank line in none. -/
  count_eq : ∀ raw i, (raw, i) ∈ numbered → reading.value.numbers.count i = if IsGap raw then 0 else 1
  accepted_increasing : (reading.value.accepted.map (·.line)).Pairwise (· < ·)
  refused_increasing : (reading.value.refused.map (·.line)).Pairwise (· < ·)
  length_eq : reading.value.accepted.length + reading.value.refused.length =
    ((numbered.map (·.1)).filter fun raw => ¬ IsGap raw).length
  reason_ne_empty : ∀ r ∈ reading.value.refused, r.reason ≠ .empty
  /-- One message for each refused line, in order. -/
  log_eq : reading.log.map Notice.message = reading.value.refused.map fun r =>
    "line " ++ Text.ofNat r.line ++ ": skipped (" ++ r.reason.message ++ ")"
  /-- The message tells the reason. -/
  reason_unique : ∀ r ∈ reading.value.refused, ∀ reason : Refusal, reason.message = r.reason.message → reason = r.reason

/-- Reading a text accounts for each of its lines, numbered from one. -/
theorem ofText_accounts (text : Text) : AccountsFor ((sourceLines text).zipIdx 1) (ofText text) := by
  rw [ofText, ← ofLines_sourceLines]
  exact {
    accepted_iff := fun _ => mem_accepted_iff
    refused_iff := fun _ => mem_refused_iff
    count_eq := fun _ _ => count_numbers
    accepted_increasing := pairwise_accepted 1 _
    refused_increasing := pairwise_refused 1 _
    length_eq := by rw [List.zipIdx_map_fst, length_entries]
    reason_ne_empty := by
      intro r hr he
      obtain ⟨raw, -, hg, -, hp⟩ := mem_refused_iff.1 hr
      rw [he] at hp
      exact hg ((Declaration.parse_eq_empty_iff raw).1 hp)
    log_eq := by
      rw [ofLines_eq, List.map_map]
      rfl
    reason_unique := fun _ _ _ hm => Refusal.message_injective hm }

end Reading

end PropertyArchive
