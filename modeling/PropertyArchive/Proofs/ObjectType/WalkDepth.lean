/-
  PropertyArchive.Proofs.ObjectType.WalkDepth — how deep the walk over the arguments of a type
  nests its calls.

  `walk` is the walk of `addElements` with a count of the calls that it nests below its own;
  it finds the same classes (`found_walk`), and the count is right (`le_depth_walk_iff`): it
  reaches `n` exactly where `n` calls stand one in the other (`Nests`). So a walk makes no call,
  or it nests at most one more than the walk over one of the arguments (`depth_walk_cases`),
  and a bound is a matter of single arguments:
  - An argument has an opening bracket of the type in front of it and a closing one behind it
    (`exists_brackets_of_mem_arguments`). So `n` nested calls have `n` opening brackets in
    front of what they walk over and `n` closing ones behind it (`exists_brackets_of_depth`).
    Where at most `limit` brackets are open at a time, all but `limit` of the first are closed
    in between: `2 * n` is at most the number of bracket pairs and `limit`
    (`two_mul_depth_walk_le`).
  - Where the last bracket of a type closes the first (`OuterPaired`), its arguments are
    balanced and one bracket less deep (`balanced_of_mem_arguments`). Where this holds of the
    nested arguments too, no more calls are nested than brackets
    (`depth_walk_le_of_outerPaired`).
-/
import PropertyArchive.Proofs.ObjectType.MarkerSpacing
import PropertyArchive.Proofs.Text.Brackets

namespace PropertyArchive.ObjectType

open Text

/-! ## The walk and its depth -/

/-- What a walk has found, and how many calls it has nested below its own. -/
structure Walk where
  /-- `none` behind an argument without a well-known class. -/
  found : Option (List ObjectClass)
  depth : Nat
  deriving DecidableEq, Repr

/-- Goes on to an argument: `call` adds what is nested in it behind its own class. No call is made
    where the argument has no well-known class, nor behind one that has none. -/
def Walk.visit (w : Walk) (argument : Text) (call : List ObjectClass → Walk) : Walk :=
  match w.found, resolve? argument with
  | some found, some c =>
    let inner := call (addClass found c)
    ⟨inner.found, max w.depth (inner.depth + 1)⟩
  | _, _ => ⟨none, w.depth⟩

def walk (typeName : Text) (found : List ObjectClass) : Walk :=
  (arguments typeName).attach.foldl (fun w ⟨argument, _⟩ => w.visit argument (walk argument)) ⟨some found, 0⟩
termination_by typeName.length
decreasing_by exact length_lt_of_mem_arguments ‹_›

def Walk.next (w : Walk) (a : Text) : Walk := w.visit a (walk a)

variable {t a : Text} {as : List Text} {found : List ObjectClass}

theorem walk_eq_foldl (t : Text) (found : List ObjectClass) :
    walk t found = (arguments t).foldl Walk.next ⟨some found, 0⟩ := by
  rw [walk]
  conv => rhs; rw [← List.attach_map_subtype_val (arguments t), List.foldl_map]
  rfl

theorem Walk.found_next (h : ∀ found, (walk a found).found = addElements a found) (w : Walk) :
    (w.next a).found = w.found.bind fun found => addArgument found a := by
  unfold next visit addArgument
  cases w.found with
  | none => rfl
  | some found =>
    cases resolve? a with
    | none => rfl
    | some c => exact h _

theorem Walk.found_foldl_next (h : ∀ a ∈ as, ∀ found, (walk a found).found = addElements a found) (w : Walk) :
    (as.foldl next w).found = w.found.bind (as.foldlM addArgument) := by
  induction as generalizing w with
  | nil => cases hw : w.found <;> simp [hw]
  | cons a as ih =>
    obtain ⟨ha, has⟩ := List.forall_mem_cons.1 h
    rw [List.foldl_cons, ih has, found_next ha]
    cases w.found <;> rfl

/-- The count changes nothing about what is found. -/
theorem found_walk (t : Text) (found : List ObjectClass) : (walk t found).found = addElements t found := by
  induction t using forall_of_arguments generalizing found with
  | step t ih => rw [walk_eq_foldl, Walk.found_foldl_next ih, addElements_eq_foldlM, Option.bind_some]

/-- A type with one argument nests one call more than the argument does. -/
theorem walk_of_singleton {c : ObjectClass} (ha : arguments t = [a]) (hc : resolve? a = some c) :
    walk t found = ⟨(walk a (addClass found c)).found, (walk a (addClass found c)).depth + 1⟩ := by
  simp [walk_eq_foldl t, ha, Walk.next, Walk.visit, hc]

/-- `Nests n t found`: the walk over the arguments of `t`, with `found` on the way to it, nests `n`
    calls one in the other. A call is made for an argument with a well-known class, behind
    arguments that are all well known. -/
inductive Nests : Nat → Text → List ObjectClass → Prop where
  | zero (t : Text) (found : List ObjectClass) : Nests 0 t found
  | call {n : Nat} {t a : Text} {found between : List ObjectClass} {before after : List Text} {c : ObjectClass}
      (ha : arguments t = before ++ a :: after) (hb : before.foldlM addArgument found = some between)
      (hc : resolve? a = some c) (h : Nests n a (addClass between c)) : Nests (n + 1) t found

theorem Walk.lt_depth_next {n : Nat} {w : Walk} : n < (w.next a).depth ↔
    n < w.depth ∨ ∃ between c, w.found = some between ∧ resolve? a = some c ∧ n ≤ (walk a (addClass between c)).depth := by
  unfold next visit
  cases w.found with
  | none => simp
  | some found =>
    cases resolve? a with
    | none => simp
    | some c =>
      have hm : ∀ inner : Nat, n < max w.depth (inner + 1) ↔ n < w.depth ∨ n ≤ inner := by omega
      simp [hm]

theorem Walk.lt_depth_foldl_next {n : Nat} {w : Walk} : n < (as.foldl next w).depth ↔
    n < w.depth ∨ ∃ before a after between c, as = before ++ a :: after ∧
      w.found.bind (before.foldlM addArgument) = some between ∧ resolve? a = some c ∧
        n ≤ (walk a (addClass between c)).depth := by
  induction as generalizing w with
  | nil => simp
  | cons a as ih =>
    rw [List.foldl_cons, ih, lt_depth_next, found_next (found_walk a)]
    constructor
    · rintro ((h | ⟨between, c, hw, hc, hn⟩) | ⟨before, b, after, between, c, rfl, hb, hc, hn⟩)
      · exact .inl h
      · exact .inr ⟨[], a, as, between, c, rfl, by simp [hw], hc, hn⟩
      · exact .inr ⟨a :: before, b, after, between, c, rfl, by simpa [Option.bind_assoc] using hb, hc, hn⟩
    · rintro (h | ⟨before, b, after, between, c, e, hb, hc, hn⟩)
      · exact .inl (.inl h)
      · cases before with
        | nil =>
          obtain ⟨rfl, -⟩ := List.cons.inj e
          exact .inl (.inr ⟨between, c, by simpa using hb, hc, hn⟩)
        | cons d before =>
          obtain ⟨rfl, rfl⟩ := List.cons.inj e
          exact .inr ⟨before, b, after, between, c, rfl, by simpa [Option.bind_assoc] using hb, hc, hn⟩

/-- The count is the number of calls that the walk nests one in the other. -/
theorem le_depth_walk_iff {n : Nat} : n ≤ (walk t found).depth ↔ Nests n t found := by
  induction n generalizing t found with
  | zero => exact ⟨fun _ => .zero t found, fun _ => Nat.zero_le _⟩
  | succ n ih =>
    rw [Nat.succ_le_iff, walk_eq_foldl, Walk.lt_depth_foldl_next]
    constructor
    · rintro (h | ⟨before, a, after, between, c, ha, hb, hc, hn⟩)
      · cases h
      · exact .call ha hb hc (ih.1 hn)
    · intro h
      cases h with
      | call ha hb hc h => exact .inr ⟨_, _, _, _, _, ha, hb, hc, ih.2 h⟩

/-- A walk makes no call, or it nests at most one more than the walk over one of the arguments. -/
theorem depth_walk_cases (t : Text) (found : List ObjectClass) :
    (walk t found).depth = 0 ∨ ∃ a ∈ arguments t, ∃ found', (walk t found).depth ≤ (walk a found').depth + 1 := by
  have h : Nests (walk t found).depth t found := le_depth_walk_iff.1 (Nat.le_refl _)
  generalize (walk t found).depth = n at h ⊢
  cases h with
  | zero => exact .inl rfl
  | call ha _ _ h => exact .inr ⟨_, by simp [ha], _, Nat.succ_le_succ (le_depth_walk_iff.2 h)⟩

/-! ## Brackets around a nested argument -/

/-- The inside of the outer brackets is what stands between the first `<` and the last `>`. -/
theorem generics?_eq_some_iff {inner : Text} : generics? t = some inner ↔
    ∃ x y, t = x ++ '<' :: (inner ++ '>' :: y) ∧ '<' ∉ x ∧ '>' ∉ y := by
  unfold generics?
  constructor
  · intro h
    split at h
    · cases h
    · rename_i x rest hx
      obtain ⟨rfl, hnx⟩ := cutAt_eq_some_iff.1 hx
      obtain ⟨⟨inner', y⟩, hy, rfl⟩ := Option.map_eq_some_iff.1 h
      obtain ⟨rfl, hny⟩ := cutAtLast_eq_some_iff.1 hy
      exact ⟨x, y, rfl, hnx, hny⟩
  · rintro ⟨x, y, rfl, hx, hy⟩
    rw [cutAt_eq_some_iff.2 ⟨rfl, hx⟩]
    show (cutAtLast '>' (inner ++ '>' :: y)).map (·.1) = some inner
    rw [cutAtLast_eq_some_iff.2 ⟨rfl, hy⟩]
    rfl

theorem cutArguments_ne_nil (depth : Nat) (t : Text) : cutArguments depth t ≠ [] := by
  induction t generalizing depth with
  | nil => simp [cutArguments]
  | cons c t ih =>
    rw [cutArguments]
    split
    · simp
    · simpa using ih _

/-- What a cut makes of a text behind its first character. Unless that is a bracket that closes too
    much, as many brackets are then open as it says. -/
theorem cutArguments_cons_cases (depth : Nat) (c : Char) (t : Text) :
    (c = ',' ∧ depth = 0 ∧ cutArguments depth (c :: t) = [] :: cutArguments 0 t) ∨
      ∃ (inner : Nat) (first : Text) (pieces : List Text), (0 ≤ depth + openBrackets [c] → (inner : Int) = depth + openBrackets [c]) ∧
        cutArguments inner t = first :: pieces ∧ cutArguments depth (c :: t) = (c :: first) :: pieces := by
  by_cases hc : c = ',' ∧ depth = 0
  · obtain ⟨rfl, rfl⟩ := hc
    exact .inl ⟨rfl, rfl, rfl⟩
  · obtain ⟨first, pieces, hp⟩ := List.exists_cons_of_ne_nil
      (cutArguments_ne_nil (if c = '<' then depth + 1 else if c = '>' then depth - 1 else depth) t)
    refine .inr ⟨_, first, pieces, fun h => ?_, hp, ?_⟩
    · by_cases ho : c = '<'
      · simp [ho]
      by_cases hk : c = '>'
      · have hk1 : openBrackets [c] = -1 := by rw [hk]; rfl
        rw [hk1] at h ⊢
        simp only [hk, if_neg (show ¬ ('>' = '<') by decide), if_true]
        omega
      · simp [ho, hk, openBrackets]
    · simp only [cutArguments, if_neg hc, hp, List.modifyHead_cons]

/-- The first piece starts the text, and every other one stands in it. -/
theorem prefix_and_infix_cutArguments (depth : Nat) (t : Text) :
    ∃ first pieces, cutArguments depth t = first :: pieces ∧ first <+: t ∧ ∀ piece ∈ pieces, piece <:+: t := by
  induction t generalizing depth with
  | nil => exact ⟨[], [], rfl, List.prefix_refl [], by simp⟩
  | cons c t ih =>
    rcases cutArguments_cons_cases depth c t with ⟨-, -, e⟩ | ⟨inner, first, pieces, -, hp, e⟩
    · obtain ⟨first, pieces, hp, hf, hi⟩ := ih 0
      refine ⟨[], first :: pieces, by rw [e, hp], List.nil_prefix, List.forall_mem_cons.2 ⟨?_, ?_⟩⟩
      · exact List.infix_cons hf.isInfix
      · exact fun piece hm => List.infix_cons (hi piece hm)
    · obtain ⟨first', pieces', hp', hf, hi⟩ := ih inner
      cases hp.symm.trans hp'
      exact ⟨c :: first, pieces, e, (List.prefix_cons_inj c).2 hf, fun piece hm => List.infix_cons (hi piece hm)⟩

theorem infix_of_mem_cutArguments {depth : Nat} (h : a ∈ cutArguments depth t) : a <:+: t := by
  obtain ⟨first, pieces, e, hf, hi⟩ := prefix_and_infix_cutArguments depth t
  rw [e] at h
  rcases List.mem_cons.1 h with rfl | h
  · exact hf.isInfix
  · exact hi a h

theorem Strips.infix {a b : Text} (h : Strips a b) : b <:+: a := by
  obtain ⟨front, back, -, -, rfl⟩ := h
  exact ⟨front, back, by simp⟩

theorem exists_of_mem_arguments (h : a ∈ arguments t) :
    ∃ inner piece, generics? t = some inner ∧ piece ∈ cutArguments 0 inner ∧ Strips piece a := by
  unfold arguments at h
  split at h
  · cases h
  · rename_i inner hg
    obtain ⟨piece, hp, rfl⟩ := List.mem_map.1 (List.mem_filter.1 h).1
    exact ⟨inner, piece, hg, hp, strips_bareArgument piece⟩

/-- In front of an argument stands an opening bracket of the type, and behind it a closing one. -/
theorem exists_brackets_of_mem_arguments (h : a ∈ arguments t) :
    ∃ u v, t = u ++ (a ++ v) ∧ '<' ∈ u ∧ '>' ∈ v := by
  obtain ⟨inner, piece, hg, hp, hs⟩ := exists_of_mem_arguments h
  obtain ⟨x, y, rfl, -, -⟩ := generics?_eq_some_iff.1 hg
  obtain ⟨u, v, rfl⟩ := hs.infix.trans (infix_of_mem_cutArguments hp)
  exact ⟨x ++ '<' :: u, v ++ '>' :: y, by simp, by simp, by simp⟩

/-- Each nested call has a pair of brackets of its own around what it walks over. -/
theorem exists_brackets_of_depth (t : Text) (found : List ObjectClass) :
    ∃ u m v, t = u ++ (m ++ v) ∧ (walk t found).depth ≤ u.count '<' ∧ (walk t found).depth ≤ v.count '>' := by
  induction t using forall_of_arguments generalizing found with
  | step t ih =>
    rcases depth_walk_cases t found with h | ⟨a, ha, found', h⟩
    · exact ⟨[], t, [], by simp, by simp [h], by simp [h]⟩
    · obtain ⟨x, y, hxy, ho, hk⟩ := exists_brackets_of_mem_arguments ha
      obtain ⟨u, m, v, rfl, hu, hv⟩ := ih a ha found'
      have hx : 0 < x.count '<' := List.count_pos_iff.2 ho
      have hy : 0 < y.count '>' := List.count_pos_iff.2 hk
      refine ⟨x ++ u, m, v ++ y, by simp [hxy], ?_, ?_⟩
      · rw [List.count_append]
        omega
      · rw [List.count_append]
        omega

/-- Half of the bracket pairs bound the nesting, but for those that can be open at a time. -/
theorem two_mul_depth_walk_le {limit : Nat} (h : Balanced limit t) (found : List ObjectClass) :
    2 * (walk t found).depth ≤ t.count '<' + limit := by
  obtain ⟨u, m, v, ht, hu, hv⟩ := exists_brackets_of_depth t found
  have hc : (t.count '<' : Int) - t.count '>' = 0 := h.closed
  have hb : (u.count '<' : Int) - u.count '>' ≤ limit := (h.bounded u (m ++ v) ht).2
  have hn : t.count '>' = u.count '>' + (m.count '>' + v.count '>') := by rw [ht, List.count_append, List.count_append]
  omega

/-! ## Types without sections side by side -/

/-- The last `>` closes the first `<`: what stands between them closes nothing that it did not open. -/
def OuterPaired (t : Text) : Prop := ∀ inner, generics? t = some inner → ∀ a b, inner = a ++ b → 0 ≤ openBrackets a

/-- A rest of a text in front of which `opened` brackets are open. -/
structure ClosesFrom (opened limit : Nat) (t : Text) : Prop where
  closed : opened + openBrackets t = 0
  bounded : ∀ a b, t = a ++ b → 0 ≤ opened + openBrackets a ∧ opened + openBrackets a ≤ limit

theorem balanced_iff_closesFrom {limit : Nat} : Balanced limit t ↔ ClosesFrom 0 limit t := by
  constructor
  · intro h
    exact ⟨by simpa using h.closed, by simpa using h.bounded⟩
  · intro h
    exact ⟨by simpa using h.closed, by simpa using h.bounded⟩

variable {opened limit inner : Nat} {c : Char}

theorem openBrackets_cons (c : Char) (t : Text) : openBrackets (c :: t) = openBrackets [c] + openBrackets t :=
  openBrackets_append [c] t

theorem ClosesFrom.tail (h : ClosesFrom opened limit (c :: t)) (hi : (inner : Int) = opened + openBrackets [c]) :
    ClosesFrom inner limit t := by
  refine ⟨?_, ?_⟩
  · have hc := h.closed
    rw [openBrackets_cons] at hc
    omega
  · rintro a b rfl
    have hb := h.bounded (c :: a) b rfl
    rw [openBrackets_cons] at hb
    omega

theorem ClosesFrom.cons (h : ClosesFrom inner limit t) (hi : (inner : Int) = opened + openBrackets [c])
    (ho : opened ≤ limit) : ClosesFrom opened limit (c :: t) := by
  refine ⟨?_, ?_⟩
  · have hc := h.closed
    rw [openBrackets_cons]
    omega
  · intro a b hab
    cases a with
    | nil =>
      simp
      omega
    | cons d a =>
      obtain ⟨rfl, ht⟩ := List.cons.inj hab
      have hb := h.bounded a b ht
      rw [openBrackets_cons]
      omega

theorem ClosesFrom.opened_le (h : ClosesFrom opened limit t) : opened ≤ limit := by
  have hb := h.bounded [] t rfl
  simp at hb
  omega

/-- A cut goes through no bracket section. -/
theorem ClosesFrom.cutArguments (h : ClosesFrom opened limit t) :
    ∃ first pieces, cutArguments opened t = first :: pieces ∧ ClosesFrom opened limit first ∧
      ∀ piece ∈ pieces, Balanced limit piece := by
  induction t generalizing opened with
  | nil => exact ⟨[], [], rfl, h, by simp⟩
  | cons c t ih =>
    have hc := (h.bounded [c] t rfl).1
    rcases cutArguments_cons_cases opened c t with ⟨rfl, rfl, e⟩ | ⟨inner, first, pieces, hi, hp, e⟩
    · have ht : ClosesFrom 0 limit t := h.tail (by decide)
      obtain ⟨first, pieces, hp, hf, hps⟩ := ih ht
      refine ⟨[], first :: pieces, by rw [e, hp], balanced_iff_closesFrom.1 (balanced_of_not_mem (by simp)), ?_⟩
      exact List.forall_mem_cons.2 ⟨balanced_iff_closesFrom.2 hf, hps⟩
    · obtain ⟨first', pieces', hp', hf, hps⟩ := ih (h.tail (hi hc))
      cases hp.symm.trans hp'
      exact ⟨c :: first, pieces, e, hf.cons (hi hc) h.opened_le, hps⟩

theorem balanced_of_mem_cutArguments (h : Balanced limit t) (ha : a ∈ cutArguments 0 t) : Balanced limit a := by
  obtain ⟨first, pieces, e, hf, hps⟩ := (balanced_iff_closesFrom.1 h).cutArguments
  rw [e] at ha
  rcases List.mem_cons.1 ha with rfl | ha
  · exact balanced_iff_closesFrom.2 hf
  · exact hps a ha

theorem Strips.balanced {a b : Text} (h : Strips a b) (ha : Balanced limit a) : Balanced limit b := by
  obtain ⟨front, back, hf, hb, rfl⟩ := h
  have h0 : ∀ x : Text, (∀ c ∈ x, isLoose c = true) → openBrackets x = 0 := fun x hx =>
    openBrackets_eq_zero ⟨not_mem_of_isLoose (by decide) hx, not_mem_of_isLoose (by decide) hx⟩
  refine ⟨?_, ?_⟩
  · have hc := ha.closed
    rw [openBrackets_append, openBrackets_append, h0 front hf, h0 back hb] at hc
    omega
  · rintro x y rfl
    have hx := ha.bounded (front ++ x) (y ++ back) (by simp)
    rw [openBrackets_append, h0 front hf] at hx
    omega

/-- Between paired outer brackets one bracket less is open. -/
theorem balanced_of_generics? {inner : Text} (h : Balanced limit t) (hp : OuterPaired t)
    (hg : generics? t = some inner) : ∃ k, limit = k + 1 ∧ Balanced k inner := by
  obtain ⟨x, y, ht, hx, hy⟩ := generics?_eq_some_iff.1 hg
  have hin := hp inner hg
  have hxc : (x.count '<' : Int) = 0 := by rw [List.count_eq_zero.2 hx]; rfl
  have hyc : (y.count '>' : Int) = 0 := by rw [List.count_eq_zero.2 hy]; rfl
  have hxb := (h.bounded x _ ht).1
  have hclosed := h.closed
  rw [ht, openBrackets_append, openBrackets_open, openBrackets_append, openBrackets_close] at hclosed
  have hi := hin inner [] (by simp)
  -- Neither in front nor behind is a bracket left over, so the inside closes what it opens.
  have hx0 : openBrackets x = 0 := by
    unfold openBrackets at hxb ⊢
    omega
  have hy0 : 0 ≤ openBrackets y := by
    unfold openBrackets
    omega
  have hb : ∀ a b, inner = a ++ b → openBrackets a + 1 ≤ limit := by
    rintro a b rfl
    have hb := (h.bounded (x ++ '<' :: a) (b ++ '>' :: y) (by simp [ht])).2
    rw [openBrackets_append, openBrackets_open] at hb
    omega
  have h0 := hb [] inner rfl
  rw [openBrackets_nil] at h0
  obtain ⟨k, rfl⟩ := Nat.exists_eq_add_of_lt (show 0 < limit by omega)
  refine ⟨k, by omega, by omega, fun a b hab => ⟨hin a b hab, ?_⟩⟩
  have := hb a b hab
  omega

theorem balanced_of_mem_arguments (h : Balanced limit t) (hp : OuterPaired t) (ha : a ∈ arguments t) :
    ∃ k, limit = k + 1 ∧ Balanced k a := by
  obtain ⟨inner, piece, hg, hm, hs⟩ := exists_of_mem_arguments ha
  obtain ⟨k, hk, hb⟩ := balanced_of_generics? h hp hg
  exact ⟨k, hk, hs.balanced (balanced_of_mem_cutArguments hb hm)⟩

/-- Where all outer brackets are paired the walk nests no deeper than the brackets do. -/
theorem depth_walk_le_of_outerPaired (h : Balanced limit t) (hp : OuterPaired t)
    (hn : ∀ a, NestedArgument t a → OuterPaired a) (found : List ObjectClass) : (walk t found).depth ≤ limit := by
  induction t using forall_of_arguments generalizing limit found with
  | step t ih =>
    rcases depth_walk_cases t found with h0 | ⟨a, ha, found', hd⟩
    · omega
    · obtain ⟨k, rfl, hb⟩ := balanced_of_mem_arguments h hp ha
      have hna : ∀ b, NestedArgument a b → OuterPaired b := fun b hb => hn b (nestedArgument_iff.2 ⟨a, ha, .inr hb⟩)
      have := ih a ha hb (hn a (nestedArgument_of_mem ha)) hna found'
      omega

end PropertyArchive.ObjectType
