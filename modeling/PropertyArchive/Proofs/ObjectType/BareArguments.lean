/-
  PropertyArchive.Proofs.ObjectType.BareArguments — what is left of the generic arguments of
  a type, and which of them still end in a marker.

  An argument loses the blanks around it, then the markers and spaces at its end, then the
  blanks that come to stand there (`exists_peels`). Blanks other than spaces stop the second
  step: a marker is kept where such a blank stands in the gap between it and a further one
  (`KeepsMarker`), and nowhere else (`getLast?_bareArgument_iff`).

  `arguments_bare_unless_kept`: whatever the type, its brackets and the blanks around its
  markers, each argument is a shorter part of the type, not empty and trimmed, and it ends in
  a marker exactly where it keeps one.
-/
import PropertyArchive.Proofs.ObjectType.WalkDepth

namespace PropertyArchive.ObjectType

open Text

def writtenArguments (typeName : Text) : List Text := ((generics? typeName).map (cutArguments 0)).getD []

/-- Between two markers at the end stands a gap with a blank other than a space. From the second
    marker on there are only markers and spaces, and blanks at the very end. -/
def KeepsMarker (written : Text) : Prop :=
  ∃ front gap tail back, written = front ++ '*' :: (gap ++ '*' :: (tail ++ back)) ∧ IsGap gap ∧
    (∃ c ∈ gap, c ≠ ' ') ∧ (∀ c ∈ tail, c = '*' ∨ c = ' ') ∧ IsGap back

structure LeftOf (t written a : Text) : Prop where
  ne_nil : a ≠ []
  isTrimmed : IsTrimmed a
  isInfix : a <:+: t
  shorter : a.length < t.length
  /-- Only blanks in front of it are gone, and blanks and markers behind it. -/
  around : ∃ front back, written = front ++ (a ++ back) ∧ IsGap front ∧ ∀ c ∈ back, isLoose c = true
  marker : a.getLast? = some '*' ↔ KeepsMarker written

variable {t written a : Text}

theorem mem_arguments_iff : a ∈ arguments t ↔ ∃ written ∈ writtenArguments t, bareArgument written = a ∧ a ≠ [] := by
  unfold arguments writtenArguments
  cases generics? t with
  | none => simp
  | some inner =>
    simp only [List.mem_filter, List.mem_map, decide_eq_true_eq, Option.map_some, Option.getD_some]
    constructor
    · rintro ⟨⟨written, hw, e⟩, hn⟩
      exact ⟨written, hw, e, hn⟩
    · rintro ⟨written, hw, e, hn⟩
      exact ⟨⟨written, hw, e⟩, hn⟩

/-! ## What is taken away -/

def isMarkerOrSpace (c : Char) : Bool := c == '*' || c == ' '

theorem isMarkerOrSpace_iff {c : Char} : isMarkerOrSpace c = true ↔ c = '*' ∨ c = ' ' := by
  simp [isMarkerOrSpace]

theorem isLoose_of_marker_or_space {c : Char} (h : c = '*' ∨ c = ' ') : isLoose c = true := by
  rcases h with rfl | rfl <;> rfl

theorem bareArgument_eq (written : Text) :
    bareArgument written = trim (dropEndWhile isMarkerOrSpace (trim written)) := rfl

theorem mem_getLast?_append {x : Text} {c : Char} (h : c ∈ x.getLast?) (y : Text) : c ∈ (y ++ x).getLast? := by
  rw [List.getLast?_append, Option.mem_def.1 h]
  rfl

/-- What the three steps take away: first `front` and `back`, then `tail`, then `gap`. -/
structure Peels (written a front gap tail back : Text) : Prop where
  eq : written = front ++ (a ++ (gap ++ (tail ++ back)))
  isGap_front : IsGap front
  isGap_gap : IsGap gap
  mem_tail : ∀ c ∈ tail, c = '*' ∨ c = ' '
  isGap_back : IsGap back
  /-- Behind the first step no blank stands at the end … -/
  first : ∀ c ∈ (a ++ (gap ++ tail)).getLast?, isBlank c = false
  /-- … and behind the second one neither a marker nor a space. -/
  second : ∀ c ∈ (a ++ gap).getLast?, c ≠ '*' ∧ c ≠ ' '

theorem exists_peels (written : Text) :
    ∃ front gap tail back, Peels written (bareArgument written) front gap tail back := by
  obtain ⟨front, back, hf, hb, e⟩ := exists_eq_gap_trim_gap written
  have ht := isTrimmed_trim written
  rw [bareArgument_eq]
  generalize trim written = middle at e ht ⊢
  have hm : middle = dropEndWhile isMarkerOrSpace middle ++ middle.rtakeWhile isMarkerOrSpace :=
    List.rdropWhile_append_rtakeWhile.symm
  have hhead : ∀ c ∈ (dropEndWhile isMarkerOrSpace middle).head?, isBlank c = false := by
    intro c hc
    refine ht.1 c ?_
    rw [hm, List.head?_append, Option.mem_def.1 hc]
    rfl
  have hlast : ∀ c ∈ (dropEndWhile isMarkerOrSpace middle).getLast?, isMarkerOrSpace c = false := by
    intro c hc
    obtain ⟨hl, rfl⟩ := List.mem_getLast?_eq_getLast hc
    exact Bool.eq_false_iff.2 (List.rdropWhile_last_not isMarkerOrSpace middle hl)
  have htail : ∀ c ∈ middle.rtakeWhile isMarkerOrSpace, c = '*' ∨ c = ' ' :=
    fun c hc => isMarkerOrSpace_iff.1 (List.mem_rtakeWhile_imp hc)
  generalize dropEndWhile isMarkerOrSpace middle = kept, middle.rtakeWhile isMarkerOrSpace = tail at hm hhead hlast htail ⊢
  obtain ⟨gap, hg, hk⟩ := exists_eq_trimEnd_gap kept
  have hkept : trim kept = trimEnd kept := by
    have hd : kept.dropWhile isBlank = kept := dropWhile_gap_append isGap_nil hhead
    rw [trim, hd]
  rw [← hkept] at hk
  refine ⟨front, gap, tail, back, ?_⟩
  exact
    { eq := by
        rw [e, hm]
        conv => lhs; rw [hk]
        simp only [List.append_assoc]
      isGap_front := hf
      isGap_gap := hg
      mem_tail := htail
      isGap_back := hb
      first := by
        rw [← List.append_assoc, ← hk, ← hm]
        exact ht.2
      second := by
        rw [← hk]
        intro c hc
        simpa [isMarkerOrSpace] using hlast c hc }

/-! ## Markers that are kept -/

/-- Behind a marker at the end of what is left a gap was passed, but not by the second step, and
    in front of it a marker. -/
theorem keepsMarker_of_getLast? (h : (bareArgument written).getLast? = some '*') : KeepsMarker written := by
  obtain ⟨front, gap, tail, back, hp⟩ := exists_peels written
  generalize bareArgument written = a at h hp
  obtain ⟨a, rfl⟩ := List.getLast?_eq_some_iff.1 h
  have hgap : gap ≠ [] := by
    rintro rfl
    exact (hp.second '*' (by simp)).1 rfl
  obtain ⟨gap', c, rfl⟩ := (List.eq_nil_or_concat' gap).resolve_left hgap
  have hc : c ∈ (gap' ++ [c]).getLast? := by simp
  have hcg : c ∈ gap' ++ [c] := by simp
  have hspace : c ≠ ' ' := (hp.second c (mem_getLast?_append hc _)).2
  have hmarker : '*' ∈ tail := by
    rcases List.eq_nil_or_concat' tail with rfl | ⟨tail, d, rfl⟩
    · have hb := hp.first c (mem_getLast?_append (by simp) _)
      rw [hp.isGap_gap c hcg] at hb
      cases hb
    · have hd : d ∈ (gap' ++ [c] ++ (tail ++ [d])).getLast? := mem_getLast?_append (by simp) _
      have hb := hp.first d (mem_getLast?_append hd _)
      rcases hp.mem_tail d (by simp) with rfl | rfl
      · simp
      · cases hb
  obtain ⟨spaces, others, rfl, hs⟩ := List.eq_append_cons_of_mem hmarker
  have hsg : IsGap spaces := by
    intro d hd
    rcases hp.mem_tail d (List.mem_append_left _ hd) with rfl | rfl
    · exact absurd hd hs
    · rfl
  refine ⟨front ++ a, gap' ++ [c] ++ spaces, others, back, by simp [hp.eq], hp.isGap_gap.append hsg,
    ⟨c, List.mem_append_left _ hcg, hspace⟩, fun d hd => hp.mem_tail d ?_, hp.isGap_back⟩
  exact List.mem_append_right _ (List.mem_cons_of_mem _ hd)

theorem dropWhile_append_marker (front rest : Text) :
    (front ++ '*' :: rest).dropWhile isBlank = front.dropWhile isBlank ++ '*' :: rest := by
  rw [List.dropWhile_append]
  split
  · rename_i h
    rw [List.isEmpty_iff.1 h]
    rfl
  · rfl

section DropEnd

variable {p : Char → Bool} {u : Text}

theorem dropEndWhile_append_of_forall (hu : ∀ c ∈ u, p c = true) : dropEndWhile p (t ++ u) = dropEndWhile p t := by
  rw [dropEndWhile, List.reverse_append, List.dropWhile_append_of_pos fun c hc => hu c (List.mem_reverse.1 hc),
    dropEndWhile]

theorem dropEndWhile_append_of_exists (hu : ∃ c ∈ u, p c = false) :
    dropEndWhile p (t ++ u) = t ++ dropEndWhile p u := by
  have hn : (u.reverse.dropWhile p).isEmpty = false := by
    obtain ⟨c, hc, hpc⟩ := hu
    rw [List.isEmpty_eq_false_iff]
    intro hnil
    rw [List.dropWhile_eq_nil_iff.1 hnil c (List.mem_reverse.2 hc)] at hpc
    cases hpc
  rw [dropEndWhile, List.reverse_append, List.dropWhile_append, hn, if_neg Bool.false_ne_true, List.reverse_append,
    List.reverse_reverse, dropEndWhile]

end DropEnd

/-- The first step stops at the last marker, the second one in the gap in front of it, and the
    third one at the marker in front of the gap. -/
theorem bareArgument_of_marker_gap {front gap tail back : Text} (hg : IsGap gap) (hs : ∃ c ∈ gap, c ≠ ' ')
    (ht : ∀ c ∈ tail, c = '*' ∨ c = ' ') (hb : IsGap back) :
    bareArgument (front ++ '*' :: (gap ++ '*' :: (tail ++ back))) = front.dropWhile isBlank ++ ['*'] := by
  have hfirst : trim (front ++ '*' :: (gap ++ '*' :: (tail ++ back))) =
      front.dropWhile isBlank ++ ['*'] ++ gap ++ '*' :: trimEnd tail := by
    have he : front.dropWhile isBlank ++ '*' :: (gap ++ '*' :: (tail ++ back)) =
        front.dropWhile isBlank ++ ['*'] ++ gap ++ ['*'] ++ (tail ++ back) := by simp
    have hl : ∀ c ∈ (front.dropWhile isBlank ++ ['*'] ++ gap ++ ['*']).getLast?, isBlank c = false := by
      rw [List.getLast?_concat]
      rintro c ⟨⟩
      rfl
    rw [trim, dropWhile_append_marker, he, trimEnd_append hl, trimEnd_append_gap hb]
    simp
  have hleft : IsTrimmed (front.dropWhile isBlank ++ ['*']) := by
    refine ⟨?_, ?_⟩
    · rw [← dropWhile_append_marker]
      exact head?_dropWhile_isBlank _
    · rw [List.getLast?_concat]
      rintro c ⟨⟩
      rfl
  have htail : ∀ c ∈ '*' :: trimEnd tail, isMarkerOrSpace c = true := by
    refine List.forall_mem_cons.2 ⟨rfl, fun c hc => isMarkerOrSpace_iff.2 (ht c ?_)⟩
    exact (List.rdropWhile_prefix isBlank tail).subset hc
  have hgap : ∃ c ∈ gap, isMarkerOrSpace c = false := by
    obtain ⟨c, hc, hn⟩ := hs
    have hm : c ≠ '*' := by
      rintro rfl
      cases hg '*' hc
    exact ⟨c, hc, by simp [isMarkerOrSpace, hm, hn]⟩
  have hrest : IsGap (dropEndWhile isMarkerOrSpace gap) :=
    fun c hc => hg c ((List.rdropWhile_prefix isMarkerOrSpace gap).subset hc)
  rw [bareArgument_eq, hfirst, dropEndWhile_append_of_forall htail, dropEndWhile_append_of_exists hgap,
    trim_append_gap hrest, trim_eq_self hleft]

/-- What is left ends in a marker exactly where the argument keeps one. -/
theorem getLast?_bareArgument_iff : (bareArgument written).getLast? = some '*' ↔ KeepsMarker written := by
  constructor
  · exact keepsMarker_of_getLast?
  · rintro ⟨front, gap, tail, back, rfl, hg, hs, ht, hb⟩
    rw [bareArgument_of_marker_gap hg hs ht hb]
    exact List.getLast?_concat

/-! ## The arguments of a type -/

theorem leftOf_bareArgument (ha : bareArgument written ∈ arguments t) : LeftOf t written (bareArgument written) := by
  obtain ⟨u, v, huv, -, -⟩ := exists_brackets_of_mem_arguments ha
  obtain ⟨front, gap, tail, back, hp⟩ := exists_peels written
  exact
    { ne_nil := by
        obtain ⟨_, -, -, hn⟩ := mem_arguments_iff.1 ha
        exact hn
      isTrimmed := isTrimmed_trim _
      isInfix := ⟨u, v, by rw [huv, List.append_assoc]⟩
      shorter := length_lt_of_mem_arguments ha
      around := by
        refine ⟨front, gap ++ (tail ++ back), hp.eq, hp.isGap_front, ?_⟩
        have hgl : ∀ {gap : Text}, IsGap gap → ∀ c ∈ gap, isLoose c = true :=
          fun h c hc => isLoose_of_isBlank (h c hc)
        refine List.forall_mem_append.2 ⟨hgl hp.isGap_gap, List.forall_mem_append.2 ⟨fun c hc => ?_, hgl hp.isGap_back⟩⟩
        exact isLoose_of_marker_or_space (hp.mem_tail c hc)
      marker := getLast?_bareArgument_iff }

/-- Every argument of a type is a shorter part of it, not empty and trimmed. It is bare of the
    markers behind it too, unless it keeps one: an argument that ends in a marker is there exactly
    where one is written that does. -/
theorem arguments_bare_unless_kept (t : Text) :
    (∀ a ∈ arguments t, ∃ written ∈ writtenArguments t, LeftOf t written a) ∧
      ((∃ a ∈ arguments t, a.getLast? = some '*') ↔ ∃ written ∈ writtenArguments t, KeepsMarker written) := by
  have hleft : ∀ a ∈ arguments t, ∃ written ∈ writtenArguments t, LeftOf t written a := by
    intro a ha
    obtain ⟨written, hw, rfl, -⟩ := mem_arguments_iff.1 ha
    exact ⟨written, hw, leftOf_bareArgument ha⟩
  refine ⟨hleft, ?_, ?_⟩
  · rintro ⟨a, ha, hm⟩
    obtain ⟨written, hw, hl⟩ := hleft a ha
    exact ⟨written, hw, hl.marker.1 hm⟩
  · rintro ⟨written, hw, hk⟩
    have hm := getLast?_bareArgument_iff.2 hk
    have hn : bareArgument written ≠ [] := by
      intro e
      rw [e] at hm
      cases hm
    exact ⟨bareArgument written, mem_arguments_iff.2 ⟨written, hw, rfl, hn⟩, hm⟩

/-- Of two markers with a tab between them the first one stays; a space makes no difference. -/
theorem arguments_bare_unless_kept_tab :
    let t : Text := "NSDictionary<NSString * *, NSArray<id> *\t* >"
    arguments t = ["NSString", "NSArray<id> *"] ∧
      (∃ written ∈ writtenArguments t, LeftOf t written "NSArray<id> *") ∧
      ∃ written ∈ writtenArguments t, KeepsMarker written := by
  intro t
  have ha : arguments t = ["NSString", "NSArray<id> *"] := by decide +kernel
  have hm : ("NSArray<id> *" : Text) ∈ arguments t := by simp [ha]
  have hb := arguments_bare_unless_kept t
  exact ⟨ha, hb.1 _ hm, hb.2.1 ⟨_, hm, by decide⟩⟩

end PropertyArchive.ObjectType
