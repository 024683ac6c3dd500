/-
  PropertyArchive.Proofs.ObjectType.MarkerSpacing — what the blanks around markers do to the
  element classes of a type.

  Respaced types are cut into respaced arguments (`respaced_cutArguments`), and the blanks
  and markers around an argument are taken away. A marker inside of an argument is kept, and
  there a missing blank counts: the marker is then a part of the word beside it. Where that
  is the word taken for the class name, the type glues a marker to a name (`Glues`), and its
  element classes are unknown (`elementClasses?_of_glues`), for no class has such a name.
  Of types without glued names the arguments correspond (`forall₂_corresponds`): they have
  the same class names, because a class name is found in the same place where blanks stand
  instead of the markers (`baseName_eq_find?`). So the element classes are the same
  (`addElements_respaced`), and `elementClasses?_ne_iff` says when they are not.
-/
import Mathlib.Data.List.Forall2
import PropertyArchive.Proofs.ObjectType.Arguments
import PropertyArchive.Proofs.ObjectType.BaseName
import PropertyArchive.Proofs.ObjectType.Elements
import PropertyArchive.Proofs.Text.MarkerSpacing

namespace PropertyArchive.ObjectType

open Text

variable {t u : Text}

/-! ## Class names with markers in them -/

/-- The words that could name the class if blanks stood in place of the markers. -/
def looseWords (t : Text) : List Text := words (blankMarkers (beforeGenerics t))

theorem not_mem_of_mem_classQualifiers : ∀ w ∈ classQualifiers, '*' ∉ w := by
  decide

/-- A name without a marker is found whatever stands in place of the markers. -/
theorem baseName_eq_find? (h : '*' ∉ baseName t) :
    baseName t = ((looseWords t).find? (· ∉ classQualifiers)).getD [] := by
  unfold looseWords
  rw [find?_words_blankMarkers _ _ h]
  · rfl
  · intro w hw
    simpa using fun hq => not_mem_of_mem_classQualifiers w hq hw

theorem respaced_beforeGenerics (h : Respaced t u) : Respaced (beforeGenerics t) (beforeGenerics u) := by
  refine h.takeWhile fun c hc => ?_
  simpa using ne_of_isLoose (d := '<') (by decide) c hc

theorem looseWords_respaced (h : Respaced t u) : looseWords t = looseWords u :=
  (respaced_beforeGenerics h).words_blankMarkers

theorem forall_isLoose_of_respaced (h : Respaced t u) (ht : ∀ c ∈ t, isLoose c = true) : ∀ c ∈ u, isLoose c = true := by
  intro c hc
  by_contra hn
  have hs : isLoose c = false := by simpa using hn
  exact not_mem_of_isLoose hs ht ((h.mem_iff (isLoose_eq_false_iff.1 hs).1).2 hc)

/-- Of blanks and markers alone only a marker can be taken for a name. -/
theorem not_mem_of_forall_isLoose (hl : ∀ c ∈ t, isLoose c = true) (hn : '*' ∉ baseName t) : '*' ∉ t := by
  intro hm
  have hb : beforeGenerics t = t := beforeGenerics_eq_self (not_mem_of_isLoose (by decide) hl)
  have hnil : baseName t = [] := by
    rw [baseName_eq_find? hn, looseWords, hb, words_gap (isGap_blankMarkers hl)]
    rfl
  rcases baseName_cases t with ⟨hq, -⟩ | ⟨hw, -⟩
  · rw [hb] at hq
    obtain ⟨w, hw, hmw⟩ := exists_mem_words hm (by decide)
    exact not_mem_of_mem_classQualifiers w (hq w hw) hmw
  · exact (isWord_of_mem_words hw).1 hnil

/-! ## What stands around an argument -/

/-- The second text is the first without some of the blanks and markers at its ends. -/
def Strips (a b : Text) : Prop :=
  ∃ front back, (∀ c ∈ front, isLoose c = true) ∧ (∀ c ∈ back, isLoose c = true) ∧ a = front ++ (b ++ back)

theorem Strips.trans {a b c : Text} (h : Strips a b) (h' : Strips b c) : Strips a c := by
  obtain ⟨front, back, hf, hb, rfl⟩ := h
  obtain ⟨front', back', hf', hb', rfl⟩ := h'
  refine ⟨front ++ front', back' ++ back, List.forall_mem_append.2 ⟨hf, hf'⟩, List.forall_mem_append.2 ⟨hb', hb⟩, ?_⟩
  simp only [List.append_assoc]

theorem strips_trim (a : Text) : Strips a (trim a) := by
  obtain ⟨front, back, hf, hb, e⟩ := exists_eq_gap_trim_gap a
  refine ⟨front, back, fun c hc => isLoose_of_isBlank (hf c hc), fun c hc => isLoose_of_isBlank (hb c hc), ?_⟩
  rwa [← List.append_assoc]

theorem strips_dropEndWhile {p : Char → Bool} (hp : ∀ c, p c = true → isLoose c = true) (a : Text) :
    Strips a (dropEndWhile p a) :=
  ⟨[], a.rtakeWhile p, by simp, fun _ hc => hp _ (List.mem_rtakeWhile_imp hc), List.rdropWhile_append_rtakeWhile.symm⟩

theorem strips_bareArgument (a : Text) : Strips a (bareArgument a) := by
  refine ((strips_trim a).trans (strips_dropEndWhile ?_ _)).trans (strips_trim _)
  intro c hc
  simp only [Bool.or_eq_true, beq_iff_eq] at hc
  rcases hc with rfl | rfl <;> rfl

namespace Strips

variable {a b : Text}

theorem mem_of_mem (h : Strips a b) {c : Char} (hc : c ∈ b) : c ∈ a := by
  obtain ⟨front, back, -, -, rfl⟩ := h
  simp [hc]

theorem forall_isLoose (h : Strips a b) (hb : b = []) : ∀ c ∈ a, isLoose c = true := by
  obtain ⟨front, back, hf, hback, rfl⟩ := h
  rw [hb, List.nil_append]
  exact List.forall_mem_append.2 ⟨hf, hback⟩

theorem looseWords_eq (h : Strips a b) : looseWords a = looseWords b := by
  obtain ⟨front, back, hf, hb, rfl⟩ := h
  have hnf : '<' ∉ front := not_mem_of_isLoose (by decide) hf
  unfold looseWords
  rw [beforeGenerics_append_of_not_mem hnf, blankMarkers_append, words_gap_append (isGap_blankMarkers hf)]
  by_cases hm : '<' ∈ b
  · rw [beforeGenerics_append_of_mem hm]
  · have hnb : '<' ∉ back := not_mem_of_isLoose (by decide) hb
    rw [beforeGenerics_append_of_not_mem hm, beforeGenerics_eq_self hnb, beforeGenerics_eq_self hm,
      blankMarkers_append, words_append_gap _ (isGap_blankMarkers hb)]

end Strips

/-! ## The bracket section of a type -/

inductive Brackets : Text → Option Text → Prop
  | absent {t : Text} : '<' ∉ t → Brackets t none
  | unclosed {a b : Text} : '<' ∉ a → '>' ∉ b → Brackets (a ++ '<' :: b) none
  | closed {a inner b : Text} : '<' ∉ a → '>' ∉ b → Brackets (a ++ '<' :: (inner ++ '>' :: b)) (some inner)

namespace Brackets

variable {inner? : Option Text}

theorem generics?_eq (h : Brackets t inner?) : generics? t = inner? := by
  cases h with
  | absent ht => simp [generics?, cutAt_eq_none_iff.2 ht]
  | unclosed ha hb => simp [generics?, cutAt_eq_some_iff.2 ⟨rfl, ha⟩, cutAtLast, cutAt_eq_none_iff, hb]
  | closed ha hb => simp [generics?, cutAt_eq_some_iff.2 ⟨rfl, ha⟩, cutAtLast_eq_some_iff.2 ⟨rfl, hb⟩]

theorem of_generics? (t : Text) : Brackets t (generics? t) := by
  suffices h : ∃ inner?, Brackets t inner? by
    obtain ⟨inner?, h⟩ := h
    exact h.generics?_eq ▸ h
  by_cases ho : '<' ∈ t
  · obtain ⟨a, rest, rfl, ha⟩ := List.eq_append_cons_of_mem ho
    by_cases hk : '>' ∈ rest
    · obtain ⟨b, inner, e, hb⟩ := List.eq_append_cons_of_mem (List.mem_reverse.2 hk)
      have e : rest = inner.reverse ++ '>' :: b.reverse := by simpa using congrArg List.reverse e
      rw [e]
      exact ⟨_, .closed ha (by simpa using hb)⟩
    · exact ⟨_, .unclosed ha hk⟩
  · exact ⟨_, .absent ho⟩

/-- Neither blanks nor markers are brackets. -/
theorem of_strips {a b : Text} (hs : Strips a b) (h : Brackets b inner?) : Brackets a inner? := by
  obtain ⟨front, back, hf, hb, rfl⟩ := hs
  have hnf : '<' ∉ front := not_mem_of_isLoose (by decide) hf
  have hno : '<' ∉ back := not_mem_of_isLoose (by decide) hb
  have hnk : '>' ∉ back := not_mem_of_isLoose (by decide) hb
  cases h with
  | absent ht => exact .absent (by simp [hnf, ht, hno])
  | @unclosed x y hx hy =>
    have hr := @unclosed (front ++ x) (y ++ back) (by simp [hnf, hx]) (by simp [hy, hnk])
    simpa using hr
  | @closed x inner y hx hy =>
    have hr := @closed (front ++ x) inner (y ++ back) (by simp [hnf, hx]) (by simp [hy, hnk])
    simpa using hr

theorem respaced (h : Brackets t inner?) (hr : Respaced t u) :
    ∃ inner?', Brackets u inner?' ∧ Option.Rel Respaced inner? inner?' := by
  cases h with
  | absent ht => exact ⟨none, .absent fun hu => ht ((hr.mem_iff (by decide)).2 hu), .none⟩
  | unclosed ha hb =>
    obtain ⟨a', b', rfl, ha', -, hb'⟩ := hr.exists_cut (by decide) ha
    exact ⟨none, .unclosed ha' fun hk => hb ((hb'.mem_iff (by decide)).2 hk), .none⟩
  | closed ha hb =>
    obtain ⟨a', rest, rfl, ha', -, hr⟩ := hr.exists_cut (by decide) ha
    obtain ⟨inner', b', rfl, hb', hi, -⟩ := hr.exists_cutLast (by decide) hb
    exact ⟨some inner', .closed ha' hb', .some hi⟩

end Brackets

theorem respaced_generics? (h : Respaced t u) : Option.Rel Respaced (generics? t) (generics? u) := by
  obtain ⟨inner?, hs, hr⟩ := (Brackets.of_generics? t).respaced h
  rwa [hs.generics?_eq]

theorem Strips.arguments_eq {a b : Text} (h : Strips a b) : arguments a = arguments b := by
  unfold arguments
  rw [((Brackets.of_generics? b).of_strips h).generics?_eq]

/-! ## The arguments of respaced types -/

theorem forall₂_modifyHead {f g : Text → Text} (hf : ∀ a b, Respaced a b → Respaced (f a) (g b)) {as bs : List Text}
    (h : List.Forall₂ Respaced as bs) : List.Forall₂ Respaced (as.modifyHead f) (bs.modifyHead g) := by
  cases h with
  | nil => exact .nil
  | cons hab h => exact .cons (hf _ _ hab) h

theorem cutArguments_marker_append {m : Text} (hm : IsMarker m) (depth : Nat) (t : Text) :
    cutArguments depth (m ++ t) = (cutArguments depth t).modifyHead (m ++ ·) := by
  have hu : Uncut 0 m := by
    refine uncut_of_forall fun c hc => ?_
    have hl := hm.isLoose c hc
    refine ⟨?_, ?_, ?_⟩ <;> rintro rfl <;> cases hl
  exact hu depth t (Nat.zero_le depth)

theorem respaced_cutArguments (h : Respaced t u) (depth : Nat) :
    List.Forall₂ Respaced (cutArguments depth t) (cutArguments depth u) := by
  induction h generalizing depth with
  | nil => exact .cons .nil .nil
  | cons c _ ih =>
    unfold cutArguments
    by_cases hc : c = ',' ∧ depth = 0
    · rw [if_pos hc, if_pos hc]
      exact .cons .nil (ih depth)
    · rw [if_neg hc, if_neg hc]
      exact forall₂_modifyHead (fun _ _ h => .cons c h) (ih _)
  | marker hm hn _ ih =>
    rw [cutArguments_marker_append hm, cutArguments_marker_append hn]
    exact forall₂_modifyHead (fun _ _ h => .marker hm hn h) (ih depth)

/-- Two arguments that are left of respaced texts, neither with a marker in its class name. -/
structure Corresponds (a b : Text) : Prop where
  respaced : ∃ x y, Respaced x y ∧ bareArgument x = a ∧ bareArgument y = b
  left : '*' ∉ baseName a
  right : '*' ∉ baseName b

namespace Corresponds

variable {a b : Text}

theorem symm (h : Corresponds a b) : Corresponds b a := by
  obtain ⟨⟨x, y, hr, hx, hy⟩, ha, hb⟩ := h
  exact ⟨⟨y, x, hr.symm, hy, hx⟩, hb, ha⟩

theorem resolve?_eq (h : Corresponds a b) : resolve? a = resolve? b := by
  obtain ⟨⟨x, y, hr, rfl, rfl⟩, ha, hb⟩ := h
  unfold resolve?
  rw [baseName_eq_find? ha, baseName_eq_find? hb, ← (strips_bareArgument x).looseWords_eq,
    ← (strips_bareArgument y).looseWords_eq, looseWords_respaced hr]

theorem eq_nil_of_eq_nil (h : Corresponds a b) (ha : a = []) : b = [] := by
  obtain ⟨⟨x, y, hr, hx, rfl⟩, -, hb⟩ := h
  have hl : ∀ c ∈ bareArgument y, isLoose c = true :=
    fun c hc => forall_isLoose_of_respaced hr ((strips_bareArgument x).forall_isLoose (hx.trans ha)) c
      ((strips_bareArgument y).mem_of_mem hc)
  have hg : IsGap (bareArgument y) := by
    intro c hc
    have hn : c ≠ '*' := fun e => not_mem_of_forall_isLoose hl hb (e ▸ hc)
    simpa [isLoose, hn] using hl c hc
  unfold bareArgument at hg ⊢
  rw [← trim_trim]
  exact trim_eq_nil_iff.2 hg

theorem eq_nil_iff (h : Corresponds a b) : a = [] ↔ b = [] :=
  ⟨h.eq_nil_of_eq_nil, h.symm.eq_nil_of_eq_nil⟩

end Corresponds

/-! ## Glued names -/

/-- A marker is a part of the name of some argument. -/
def Glues (t : Text) : Prop := ∃ a, NestedArgument t a ∧ '*' ∈ baseName a

theorem not_mem_baseName (ht : ¬ Glues t) {a : Text} (ha : a ∈ arguments t) : '*' ∉ baseName a :=
  fun hm => ht ⟨a, nestedArgument_of_mem ha, hm⟩

theorem not_glues_of_mem (ht : ¬ Glues t) {a : Text} (ha : a ∈ arguments t) : ¬ Glues a := by
  intro hg
  obtain ⟨b, hb, hm⟩ := hg
  exact ht ⟨b, nestedArgument_iff.2 ⟨a, ha, .inr hb⟩, hm⟩

/-- No class has a marker in its name. -/
theorem resolve?_eq_none_of_mem {a : Text} (h : '*' ∈ baseName a) : resolve? a = none := by
  cases hr : resolve? a with
  | none => rfl
  | some c =>
    obtain ⟨hc, hn⟩ := ObjectClass.lookup?_eq_some_iff.1 hr
    have hi := List.all_eq_true.1 (all_isIdentifierChar (ObjectClass.isIdentifier_name c hc)) '*' (hn ▸ h)
    cases hi

theorem elementClasses?_of_glues (h : Glues t) : elementClasses? t = none := by
  cases he : elementClasses? t with
  | none => rfl
  | some classes =>
    obtain ⟨a, ha, hm⟩ := h
    have hs := exists_elementClasses?_iff.1 ⟨classes, he⟩ a ha
    rw [resolve?_eq_none_of_mem hm] at hs
    cases hs

theorem glues_congr {a b : Text} (h : arguments a = arguments b) : Glues a ↔ Glues b := by
  unfold Glues
  refine exists_congr fun c => and_congr_left fun _ => ?_
  rw [nestedArgument_iff, h, ← nestedArgument_iff]

/-! ## The walk over corresponding arguments -/

theorem exists_pieces (h : Respaced t u) : ∃ ps qs, List.Forall₂ Respaced ps qs ∧
    arguments t = (ps.map bareArgument).filter (· ≠ []) ∧ arguments u = (qs.map bareArgument).filter (· ≠ []) := by
  have hg := respaced_generics? h
  unfold arguments
  generalize generics? t = inner?, generics? u = inner?' at hg ⊢
  cases hg with
  | none => exact ⟨[], [], .nil, rfl, rfl⟩
  | some hi => exact ⟨_, _, respaced_cutArguments hi 0, rfl, rfl⟩

/-- What is left of an argument has a marker in its name only where the type glues one to it. -/
theorem not_mem_baseName_bareArgument {ps : List Text} (ht : ¬ Glues t)
    (h : arguments t = (ps.map bareArgument).filter (· ≠ [])) : ∀ p ∈ ps, '*' ∉ baseName (bareArgument p) := by
  intro p hp
  by_cases hn : bareArgument p = []
  · rw [hn]
    exact List.not_mem_nil
  · refine not_mem_baseName ht ?_
    rw [h]
    exact List.mem_filter.2 ⟨List.mem_map_of_mem hp, by simpa using hn⟩

theorem forall₂_corresponds (h : Respaced t u) (ht : ¬ Glues t) (hu : ¬ Glues u) :
    List.Forall₂ Corresponds (arguments t) (arguments u) := by
  obtain ⟨ps, qs, hpq, ept, equ⟩ := exists_pieces h
  have hp := not_mem_baseName_bareArgument ht ept
  have hq := not_mem_baseName_bareArgument hu equ
  rw [ept, equ]
  refine List.rel_filter (fun a b hab => by simpa using not_congr hab.eq_nil_iff) ?_
  rw [List.forall₂_map_left_iff, List.forall₂_map_right_iff]
  clear ept equ
  induction hpq with
  | nil => exact .nil
  | @cons p q _ _ hr _ ih =>
    obtain ⟨hp, hps⟩ := List.forall_mem_cons.1 hp
    obtain ⟨hq, hqs⟩ := List.forall_mem_cons.1 hq
    exact .cons ⟨⟨p, q, hr, rfl, rfl⟩, hp, hq⟩ (ih hps hqs)

theorem addElements_congr {a b : Text} (h : arguments a = arguments b) (found : List ObjectClass) :
    addElements a found = addElements b found := by
  rw [addElements_eq_foldlM, addElements_eq_foldlM, h]

/-- A walk goes the same way over lists of arguments, each of which adds the same as the other. -/
theorem foldlM_addArgument_congr {as bs : List Text} (h : List.Forall₂ Corresponds as bs)
    (hadd : ∀ a ∈ as, ∀ b ∈ bs, Corresponds a b → ∀ found, addArgument found a = addArgument found b)
    (found : List ObjectClass) : as.foldlM addArgument found = bs.foldlM addArgument found := by
  induction h generalizing found with
  | nil => rfl
  | @cons a b as bs hab _ ih =>
    have ih := ih fun x hx y hy => hadd x (List.mem_cons_of_mem a hx) y (List.mem_cons_of_mem b hy)
    rw [List.foldlM_cons, List.foldlM_cons, hadd a List.mem_cons_self b List.mem_cons_self hab]
    exact congrArg _ (funext ih)

/-- The induction is on the arguments, which a type shares with what is left of it as an argument. -/
theorem addElements_respaced_of_arguments (t₀ : Text) : ∀ t u, arguments t = arguments t₀ → Respaced t u →
    ¬ Glues t → ¬ Glues u → ∀ found, addElements t found = addElements u found := by
  induction t₀ using forall_of_arguments with
  | step t₀ ih =>
    intro t u he h ht hu found
    rw [addElements_eq_foldlM, addElements_eq_foldlM]
    refine foldlM_addArgument_congr (forall₂_corresponds h ht hu) (fun a ha b hb hab found => ?_) found
    obtain ⟨x, y, hr, hx, hy⟩ := hab.respaced
    have hxa : arguments x = arguments a := hx ▸ (strips_bareArgument x).arguments_eq
    have hyb : arguments y = arguments b := hy ▸ (strips_bareArgument y).arguments_eq
    have hnx : ¬ Glues x := mt (glues_congr hxa).1 (not_glues_of_mem ht ha)
    have hny : ¬ Glues y := mt (glues_congr hyb).1 (not_glues_of_mem hu hb)
    unfold addArgument
    rw [hab.resolve?_eq]
    congr 1
    funext c
    rw [← addElements_congr hxa, ← addElements_congr hyb]
    exact ih a (he ▸ ha) x y hxa hr hnx hny _

theorem addElements_respaced (h : Respaced t u) (ht : ¬ Glues t) (hu : ¬ Glues u) (found : List ObjectClass) :
    addElements t found = addElements u found :=
  addElements_respaced_of_arguments t t u rfl h ht hu found

/-- The element classes of respaced types differ exactly where one of the types glues a marker to
    a name and those of the other one are known. -/
theorem elementClasses?_ne_iff (h : Respaced t u) : elementClasses? t ≠ elementClasses? u ↔
    Glues t ∧ (elementClasses? u).isSome ∨ Glues u ∧ (elementClasses? t).isSome := by
  by_cases ht : Glues t
  · rw [elementClasses?_of_glues ht]
    cases elementClasses? u <;> simp [ht]
  · by_cases hu : Glues u
    · rw [elementClasses?_of_glues hu]
      cases elementClasses? t <;> simp [hu]
    · have he : elementClasses? t = elementClasses? u := addElements_respaced h ht hu []
      simp [he, ht, hu]

/-- Where both are known they are the same. -/
theorem elementClasses?_unique (h : Respaced t u) {cs cs' : List ObjectClass} (ht : elementClasses? t = some cs)
    (hu : elementClasses? u = some cs') : cs = cs' := by
  by_contra hn
  have hne : elementClasses? t ≠ elementClasses? u := by simpa [ht, hu] using hn
  rcases (elementClasses?_ne_iff h).1 hne with ⟨hg, -⟩ | ⟨hg, -⟩
  · rw [elementClasses?_of_glues hg] at ht
    cases ht
  · rw [elementClasses?_of_glues hg] at hu
    cases hu

end PropertyArchive.ObjectType
