/-
  PropertyArchive.Proofs.Declaration.MarkerSpacing — the declarations of lines that differ in
  the blanks around their markers.

  Respaced lines go through the stages of reading side by side. Their frames are cut at solid
  characters, so the modifier sections and the bodies are respaced (`respaced_frames`). Two
  scanners in the same place, or in bracket sections that are respaced so far, move in
  lockstep (`Moves.alike`); a spaced marker takes both to such places again, whatever its
  blanks are (`exists_scan_marker`). So respaced bodies are scanned as tokens that differ in
  their bracket sections alone (`scan_respaced`), and tokens of that kind make the same parts
  (`exists_parts_of_respaced`).

  `alike_of_respaced`: the declarations differ in the blanks around the markers of their
  types and in nothing that is read off them. In front of its brackets a type has no marker
  (`IsTypeName.not_mem_beforeGenerics`), so its class name is the same, and no modifier
  keyword has one, so the qualifiers are (`ofAttributes_respaced`).
-/
import PropertyArchive.Proofs.Classification.ScalarTable
import PropertyArchive.Proofs.Declaration.Surround
import PropertyArchive.Proofs.Declaration.WellFormed
import PropertyArchive.Proofs.ObjectType.MarkerSpacing

namespace PropertyArchive

open Text

/-! ## Tokens -/

/-- The same token but for the blanks around the markers of its bracket section. -/
inductive Token.Alike : Token → Token → Prop
  | word {name generics generics' : Text} : Respaced generics generics' →
      Alike (.word name generics) (.word name generics')
  | pointer : Alike .pointer .pointer

namespace Token

theorem Alike.refl (t : Token) : Alike t t := by
  cases t with
  | word name generics => exact .word (.refl generics)
  | pointer => exact .pointer

theorem forall₂_alike_refl (ts : List Token) : List.Forall₂ Alike ts ts := List.forall₂_same.2 fun t _ => .refl t

/-- A bare word is like no other word. -/
theorem Alike.mem_annotations_iff {t u : Token} (h : Alike t u) : t ∈ annotations ↔ u ∈ annotations := by
  cases h with
  | pointer => rfl
  | @word name generics generics' hr =>
    have hn : generics = [] ↔ generics' = [] := by
      constructor
      · rintro rfl
        exact (hr.eq_of_not_mem List.not_mem_nil).symm
      · rintro rfl
        exact (hr.symm.eq_of_not_mem List.not_mem_nil).symm
    simp [annotations, eq_comm, hn]

theorem forall₂_dropAnnotations {ts us : List Token} (h : List.Forall₂ Alike ts us) :
    List.Forall₂ Alike (dropAnnotations ts) (dropAnnotations us) :=
  List.rel_filter (fun _ _ hab => by simpa using not_congr hab.mem_annotations_iff) h

end Token

/-! ## Two scanners in lockstep -/

namespace ScanState

inductive Alike : ScanState → ScanState → Prop
  | same (s : ScanState) : Alike s s
  | inGenerics {name read read' : Text} {depth : Nat} : Respaced read read' →
      Alike (inGenerics name read depth) (inGenerics name read' depth)

theorem step_of_moves {s s' : ScanState} {c : Char} {done : List Token} (h : Moves s c done s') :
    s.step c = .ok (done, s') := by
  cases h with
  | skip hc => exact step_between_blank hc
  | start hc => exact step_between_name hc
  | wait hc => exact step_afterName_blank hc
  | more hc => simp [step, hc]
  | leave hc => simp [step, hc, not_isIdentifierChar_of_isBlank hc]
  | startNext hc =>
    have ho : c ≠ '<' := ne_of_isIdentifierChar hc (by decide)
    have hm : c ≠ '*' := ne_of_isIdentifierChar hc (by decide)
    simp [step, hc, isBlank_eq_false_of_isIdentifierChar hc, ho, hm]
  | openInner hd => simp [step, hd]
  | closeInner hd => simp [step, hd]
  | keep hc =>
    obtain ⟨ho, hk⟩ := ne_of_isGenericsChar hc
    simp [step, hc, ho, hk]
  | mark | openAtOnce | markAtOnce | openLater | markLater | closeOuter => rfl

theorem Moves.alike {s s' s₁ : ScanState} {c : Char} {done : List Token} (h : Moves s c done s₁) (hs : Alike s s') :
    ∃ done' s₁', Moves s' c done' s₁' ∧ List.Forall₂ Token.Alike done done' ∧ Alike s₁ s₁' := by
  cases hs with
  | same => exact ⟨done, s₁, h, Token.forall₂_alike_refl done, .same s₁⟩
  | inGenerics hr =>
    cases h with
    | openInner hd => exact ⟨_, _, .openInner hd, .nil, .inGenerics (hr.cons '<')⟩
    | closeInner hd => exact ⟨_, _, .closeInner hd, .nil, .inGenerics (hr.cons '>')⟩
    | closeOuter => exact ⟨_, _, .closeOuter, .cons (.word (hr.cons '>').reverse) .nil, .same between⟩
    | @keep c _ _ _ hc => exact ⟨_, _, .keep hc, .nil, .inGenerics (hr.cons c)⟩

theorem scan_inside {m : Text} (h : ∀ c ∈ m, isGenericsChar c = true) (name read : Text) (depth : Nat) (t : Text) :
    (inGenerics name read depth).scan (m ++ t) = (inGenerics name (m.reverse ++ read) depth).scan t := by
  induction m generalizing read with
  | nil => rfl
  | cons c m ih =>
    obtain ⟨hc, hm⟩ := List.forall_mem_cons.1 h
    rw [List.cons_append, scan_cons_of_silent_step (step_of_moves (.keep hc)), ih hm, List.reverse_cons,
      List.append_assoc, List.singleton_append]

theorem isGenericsChar_of_isLoose {c : Char} (h : isLoose c = true) : isGenericsChar c = true := by
  simp only [isLoose, Bool.or_eq_true, beq_iff_eq] at h
  rcases h with h | rfl
  · exact Token.isGenericsChar_of_isBlank h
  · rfl

theorem scan_marker {m : Text} (hm : IsMarker m) (t : Text) :
    between.scan (m ++ t) = (between.scan t).map ([.pointer] ++ ·) := by
  obtain ⟨front, back, hf, hb, rfl⟩ := hm
  rw [List.append_assoc, scan_gap_append hf, List.cons_append, scan_pointer, scan_gap_append hb]
  rfl

theorem scan_afterName_marker (name : Text) {m : Text} (hm : IsMarker m) (t : Text) :
    (afterName name).scan (m ++ t) = (between.scan t).map ([.word name [], .pointer] ++ ·) := by
  obtain ⟨front, back, hf, hb, rfl⟩ := hm
  rw [List.append_assoc, scan_wait hf, List.cons_append, scan_cons_of_step (step_of_moves .markLater),
    scan_gap_append hb]

theorem scan_inName_marker (read : Text) {m : Text} (hm : IsMarker m) (t : Text) :
    (inName read).scan (m ++ t) = (between.scan t).map ([.word read.reverse [], .pointer] ++ ·) := by
  rw [scan_inName, scan_afterName_marker _ hm]
  obtain ⟨front, back, hf, -, rfl⟩ := hm
  rw [List.append_assoc]
  exact head?_gap_append hf fun c hc => by cases hc; decide

theorem scan_inGenerics_marker (name read : Text) (depth : Nat) {m : Text} (hm : IsMarker m) (t : Text) :
    (inGenerics name read depth).scan (m ++ t) =
      ((inGenerics name (m.reverse ++ read) depth).scan t).map ([] ++ ·) := by
  rw [scan_inside fun c hc => isGenericsChar_of_isLoose (hm.isLoose c hc)]
  cases scan _ t <;> rfl

/-- A spaced marker completes the same tokens whatever its blanks are, and leaves the scanners alike. -/
theorem exists_scan_marker {s s' : ScanState} (hs : Alike s s') {m n : Text} (hm : IsMarker m) (hn : IsMarker n) :
    ∃ done s₁ s₁', Alike s₁ s₁' ∧ (∀ t, s.scan (m ++ t) = (s₁.scan t).map (done ++ ·)) ∧
      ∀ t, s'.scan (n ++ t) = (s₁'.scan t).map (done ++ ·) := by
  have hmn := (Respaced.of_markers hm hn).reverse
  cases hs with
  | inGenerics hr =>
    exact ⟨_, _, _, .inGenerics (hmn.append hr), scan_inGenerics_marker _ _ _ hm, scan_inGenerics_marker _ _ _ hn⟩
  | same =>
    cases s with
    | between => exact ⟨_, _, _, .same between, scan_marker hm, scan_marker hn⟩
    | inName read => exact ⟨_, _, _, .same between, scan_inName_marker read hm, scan_inName_marker read hn⟩
    | afterName name => exact ⟨_, _, _, .same between, scan_afterName_marker name hm, scan_afterName_marker name hn⟩
    | inGenerics name read depth =>
      exact ⟨_, _, _, .inGenerics (hmn.append (.refl read)), scan_inGenerics_marker _ _ _ hm,
        scan_inGenerics_marker _ _ _ hn⟩

/-- Respaced texts are scanned as tokens that are alike. -/
theorem scan_respaced {t u : Text} (h : Respaced t u) {s s' : ScanState} (hs : Alike s s') {ts : List Token}
    (ht : s.scan t = .ok ts) : ∃ us, s'.scan u = .ok us ∧ List.Forall₂ Token.Alike ts us := by
  induction h generalizing s s' ts with
  | nil =>
    cases hs with
    | same => exact ⟨ts, ht, Token.forall₂_alike_refl ts⟩
    | inGenerics => cases ht
  | @cons c t u _ ih =>
    cases hc : s.step c with
    | error e =>
      rw [scan_cons_of_step_error hc] at ht
      cases ht
    | ok r =>
      obtain ⟨done, s₁⟩ := r
      obtain ⟨done', s₁', hm, hd, hs₁⟩ := (moves_of_step hc).alike hs
      rw [scan_cons_of_step hc] at ht
      obtain ⟨more, hmt, rfl⟩ := Outcome.map_eq_ok_iff.1 ht
      obtain ⟨more', hu, hmore⟩ := ih hs₁ hmt
      refine ⟨done' ++ more', ?_, List.rel_append hd hmore⟩
      rw [scan_cons_of_step (step_of_moves hm), hu]
      rfl
  | marker hm hn _ ih =>
    obtain ⟨done, s₁, s₁', hs₁, et, eu⟩ := exists_scan_marker hs hm hn
    rw [et] at ht
    obtain ⟨more, hmt, rfl⟩ := Outcome.map_eq_ok_iff.1 ht
    obtain ⟨more', hu, hmore⟩ := ih hs₁ hmt
    refine ⟨done ++ more', ?_, List.rel_append (Token.forall₂_alike_refl done) hmore⟩
    rw [eu, hu]
    rfl

end ScanState

/-! ## Frames of respaced lines -/

namespace DeclarationFrame

variable {rest rest' remainder remainder' : Text} {attributes attributes' : Option Text}

theorem respaced_opens {line line' : Text} (h : Respaced line line') (ho : Opens line rest) (ho' : Opens line' rest') :
    Respaced rest rest' := by
  have hk : Declaration.keyword.all (!isLoose ·) = true := by decide
  have ht := h.trim
  rw [ho.1, ho'.1] at ht
  exact ht.of_append_left fun c hc => by simpa using List.all_eq_true.1 hk c hc

/-- Behind the blanks stands the remainder, or a modifier section. -/
theorem dropWhile_of_modifies (h : Modifies rest attributes remainder) :
    (attributes = none ∧ rest.dropWhile isBlank = remainder ∧ remainder.head? ≠ some '(') ∨
      ∃ inside, attributes = some (trim inside) ∧ ')' ∉ inside ∧
        rest.dropWhile isBlank = '(' :: (inside ++ ')' :: remainder) := by
  cases h with
  | absent hg hr =>
    exact .inl ⟨rfl, dropWhile_gap_append hg fun c hc => (hr c hc).1, fun e => (hr '(' e).2 rfl⟩
  | present hg hi =>
    exact .inr ⟨_, rfl, hi, dropWhile_gap_append hg fun c hc => by cases hc; decide⟩

theorem respaced_modifies (h : Respaced rest rest') (hm : Modifies rest attributes remainder)
    (hm' : Modifies rest' attributes' remainder') :
    Option.Rel Respaced attributes attributes' ∧ Respaced remainder remainder' := by
  obtain ⟨hd, hh⟩ := h.dropWhile_isBlank
  rcases dropWhile_of_modifies hm with ⟨rfl, e, hn⟩ | ⟨inside, rfl, hi, e⟩
  · rcases dropWhile_of_modifies hm' with ⟨rfl, e', -⟩ | ⟨inside', -, -, e'⟩
    · rw [e, e'] at hd
      exact ⟨.none, hd⟩
    · rw [e, e'] at hh
      exact absurd hh hn
  · rcases dropWhile_of_modifies hm' with ⟨-, e', hn⟩ | ⟨inside', rfl, hi', e'⟩
    · rw [e, e'] at hh
      exact absurd hh.symm hn
    · rw [e, e'] at hd
      obtain ⟨hin, hr⟩ := (hd.of_cons (by decide)).cut (by decide) hi hi'
      exact ⟨.some hin.trim, hr⟩

theorem body_eq_takeWhile {body : Text} (h : Ends remainder body) : body = remainder.takeWhile (· != ';') := by
  cases h with
  | unterminated hb =>
    refine (List.takeWhile_eq_self_iff.2 fun c hc => ?_).symm
    simpa using fun e : c = ';' => hb (e ▸ hc)
  | terminated hb _ => exact (takeWhile_append_cons hb _).symm
  | commented hb _ => exact (takeWhile_append_cons hb _).symm

theorem respaced_frames {line line' : Text} {frame frame' : DeclarationFrame} (h : Respaced line line')
    (hf : Frames line frame) (hf' : Frames line' frame') :
    Option.Rel Respaced frame.attributes frame'.attributes ∧ Respaced frame.body frame'.body := by
  obtain ⟨rest, remainder, ho, hm, he⟩ := hf
  obtain ⟨rest', remainder', ho', hm', he'⟩ := hf'
  obtain ⟨ha, hr⟩ := respaced_modifies (respaced_opens h ho ho') hm hm'
  refine ⟨ha, ?_⟩
  rw [body_eq_takeWhile he, body_eq_takeWhile he']
  exact hr.takeWhile (ne_of_isLoose (by decide))

end DeclarationFrame

/-! ## Modifier sections -/

namespace Qualifiers

theorem ofKeyword?_respaced {t u : Text} (h : Respaced t u) : Qualifier.ofKeyword? t = Qualifier.ofKeyword? u := by
  have hk : ∀ q ∈ Qualifier.all, '*' ∉ q.keyword := by decide
  have hn : ∀ w : Text, '*' ∈ w → Qualifier.ofKeyword? w = none := by
    intro w hw
    refine List.find?_eq_none.2 fun q hq => ?_
    simpa using fun e : q.keyword = w => hk q hq (e ▸ hw)
  by_cases hm : '*' ∈ t
  · rw [hn t hm, hn u ((h.mem_iff (by decide)).1 hm)]
  · rw [h.eq_of_not_mem hm]

theorem ofAttributes_respaced {t u : Text} (h : Respaced t u) : ofAttributes t = ofAttributes u := by
  have hp := h.splitOn (d := ',') (by decide)
  unfold ofAttributes
  generalize t.splitOn ',' = pieces, u.splitOn ',' = pieces' at hp ⊢
  congr 1
  induction hp with
  | nil => rfl
  | cons hr _ ih => rw [List.filterMap_cons, List.filterMap_cons, ofKeyword?_respaced hr.trim, ih]

end Qualifiers

/-! ## Declarations of respaced lines -/

theorem IsTypeName.not_mem_beforeGenerics {t : Text} (h : IsTypeName t) : '*' ∉ ObjectType.beforeGenerics t := by
  intro hm
  obtain ⟨a, b, e, -⟩ := List.eq_append_cons_of_mem hm
  have ht : t = a ++ '*' :: (b ++ t.dropWhile (· ≠ '<')) := by
    rw [← List.cons_append, ← List.append_assoc, ← e]
    exact List.takeWhile_append_dropWhile.symm
  have ha : '<' ∉ a := by
    intro hc
    have hb : '<' ∈ ObjectType.beforeGenerics t := e ▸ List.mem_append_left _ hc
    simpa using List.mem_takeWhile_imp hb
  have h0 := (h.balanced.bounded a _ ht).1
  have hz : openBrackets a = 0 := by
    unfold openBrackets at h0 ⊢
    rw [List.count_eq_zero.2 ha] at h0 ⊢
    omega
  exact (h.plain a '*' _ ht hz).1 rfl

/-- A type without markers in front of its brackets has none but inside of them. -/
theorem IsTypeName.open_mem_of_mem {t : Text} (h : IsTypeName t) (hm : '*' ∈ t) : '<' ∈ t := by
  by_contra hn
  exact h.not_mem_beforeGenerics (by rwa [ObjectType.beforeGenerics_eq_self hn])

namespace Declaration

section Types

variable {t u : Text}

theorem baseName_respaced (ht : IsTypeName t) (h : Respaced t u) : ObjectType.baseName t = ObjectType.baseName u := by
  unfold ObjectType.baseName
  rw [(ObjectType.respaced_beforeGenerics h).eq_of_not_mem ht.not_mem_beforeGenerics]

/-- No scalar has brackets, and a type without brackets stays as it is. -/
theorem lookup?_respaced (ht : IsTypeName t) (h : Respaced t u) : Scalar.lookup? t = Scalar.lookup? u := by
  have hn : ∀ t : Text, '<' ∈ t → Scalar.lookup? t = none := by
    intro t hm
    cases hs : Scalar.lookup? t with
    | none => rfl
    | some s => exact absurd hm (Scalar.not_mem_of_lookup? hs)
  by_cases hm : '*' ∈ t
  · have ho := ht.open_mem_of_mem hm
    rw [hn t ho, hn u ((h.mem_iff (by decide)).1 ho)]
  · rw [h.eq_of_not_mem hm]

end Types

def TypeWord.Alike (w v : TypeWord) : Prop := w.1 = v.1 ∧ Respaced w.2 v.2

theorem TypeWord.Alike.text {w v : TypeWord} (h : TypeWord.Alike w v) : Respaced w.text v.text := by
  unfold TypeWord.text
  rw [h.1]
  exact (Respaced.refl v.1).append h.2

theorem respaced_joinWith {ts us : List Text} (h : List.Forall₂ Respaced ts us) :
    Respaced (joinWith " " ts) (joinWith " " us) := by
  induction h with
  | nil => exact .nil
  | @cons t u ts us hr hrs ih =>
    cases hrs with
    | nil => simpa [joinWith] using hr
    | cons hr' hrs' =>
      simp only [joinWith, List.intercalate_cons_cons] at ih ⊢
      exact (hr.append (.refl _)).append ih

theorem eq_of_forall₂_markers {depth : Nat} {name : Text} {us : List Token}
    (h : List.Forall₂ Token.Alike (List.replicate depth .pointer ++ [.word name []]) us) :
    us = List.replicate depth .pointer ++ [.word name []] := by
  induction depth generalizing us with
  | zero =>
    cases h with
    | cons hw h =>
      cases h
      cases hw with
      | word hr => rw [← hr.eq_of_not_mem List.not_mem_nil]; rfl
  | succ depth ih =>
    rw [List.replicate_succ, List.cons_append] at h ⊢
    cases h with
    | cons hw h =>
      cases hw
      rw [ih h]

/-- The tokens that are like those of a type, its markers and a name. -/
theorem exists_eq_partTokens {words : List TypeWord} {depth : Nat} {name : Text} {us : List Token}
    (h : List.Forall₂ Token.Alike (partTokens words depth name) us) :
    ∃ words', us = partTokens words' depth name ∧ List.Forall₂ TypeWord.Alike words words' := by
  induction words generalizing us with
  | nil => exact ⟨[], eq_of_forall₂_markers h, .nil⟩
  | cons w words ih =>
    cases h with
    | cons hw h =>
      cases hw with
      | @word _ _ generics' hr =>
        obtain ⟨words', rfl, hws⟩ := ih h
        exact ⟨(w.1, generics') :: words', rfl, .cons ⟨rfl, hr⟩ hws⟩

structure Alike (d e : Declaration) : Prop where
  typeName : Respaced d.typeName e.typeName
  baseName : ObjectType.baseName d.typeName = ObjectType.baseName e.typeName
  scalar : Scalar.lookup? d.typeName = Scalar.lookup? e.typeName
  name : d.name = e.name
  qualifiers : d.qualifiers = e.qualifiers
  objectClass : d.objectClass = e.objectClass
  pointerDepth : d.pointerDepth = e.pointerDepth

theorem qualifiers_of_rel {d e : Declaration} (h : Option.Rel Respaced d.attributes e.attributes) :
    d.qualifiers = e.qualifiers := by
  unfold qualifiers
  generalize d.attributes = attributes, e.attributes = attributes' at h ⊢
  cases h with
  | none => rfl
  | some hr => simp [Qualifiers.ofAttributes_respaced hr]

theorem starts_of_alike {words words' : List TypeWord} (h : List.Forall₂ TypeWord.Alike words words')
    (hs : ∀ w ∈ words, w.Starts) : ∀ w ∈ words', w.Starts := by
  induction h with
  | nil => exact hs
  | cons hwv _ ih =>
    obtain ⟨hw, hs⟩ := List.forall_mem_cons.1 hs
    unfold TypeWord.Starts at hw
    rw [hwv.1] at hw
    exact List.forall_mem_cons.2 ⟨hw, ih hs⟩

/-- The declarations of respaced lines have the same parts, but for the blanks around markers. -/
theorem exists_parts_of_respaced {line line' : Text} {d e : Declaration} (h : Respaced line line')
    (hd : parse line = .ok d) (he : parse line' = .ok e) :
    ∃ attributes words words' depth name attributes', Option.Rel Respaced attributes attributes' ∧
      List.Forall₂ TypeWord.Alike words words' ∧ d = ofParts attributes words depth name ∧
      e = ofParts attributes' words' depth name := by
  obtain ⟨frame, ts, hf, hs, words, depth, name, ets, hn, hst, hi, rfl⟩ := declares_of_parse hd
  obtain ⟨frame', -, hf', hs', -⟩ := declares_of_parse he
  obtain ⟨hattr, hbody⟩ := DeclarationFrame.respaced_frames h hf hf'
  obtain ⟨us, hu, htu⟩ := ScanState.scan_respaced hbody (.same .between) (Token.scan_eq_ok_iff.2 hs)
  have hdrop := Token.forall₂_dropAnnotations htu
  rw [ets] at hdrop
  obtain ⟨words', eus, hws⟩ := exists_eq_partTokens hdrop
  have hn' : words' ≠ [] := by
    rintro rfl
    cases hws
    exact hn rfl
  have hp := parse_of_declares
    ⟨frame', us, hf', Token.scan_eq_ok_iff.1 hu, words', depth, name, eus, hn', starts_of_alike hws hst, hi, rfl⟩
  rw [he] at hp
  exact ⟨frame.attributes, words, words', depth, name, frame'.attributes, hattr, hws, rfl, Except.ok.inj hp⟩

theorem alike_of_respaced {line line' : Text} {d e : Declaration} (h : Respaced line line') (hd : parse line = .ok d)
    (he : parse line' = .ok e) : Alike d e := by
  have ht := (wellFormed_of_parse hd).isTypeName
  have hcd := objectClass_of_parse hd
  have hce := objectClass_of_parse he
  obtain ⟨attributes, words, words', depth, name, attributes', hattr, hws, rfl, rfl⟩ :=
    exists_parts_of_respaced h hd he
  have hr : Respaced (ofParts attributes words depth name).typeName (ofParts attributes' words' depth name).typeName := by
    refine respaced_joinWith ?_
    rw [List.forall₂_map_left_iff, List.forall₂_map_right_iff]
    exact hws.imp fun _ _ => TypeWord.Alike.text
  have hb := baseName_respaced ht hr
  exact {
    typeName := hr
    baseName := hb
    scalar := lookup?_respaced ht hr
    name := rfl
    qualifiers := qualifiers_of_rel hattr
    objectClass := by
      rw [hcd, hce]
      unfold ObjectType.resolve?
      rw [hb]
      rfl
    pointerDepth := rfl }

end Declaration

end PropertyArchive
