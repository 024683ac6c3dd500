/-
  PropertyArchive.Proofs.ObjectType.TypeTree — the element classes of a type are those of
  its tree, read from the root down.

  A type tree is a class name and the trees of its generic arguments, each with the markers
  behind it (`TypeTree`); `TypeTree.text` is the type as it is written. The written type
  has no tree, only brackets and commas, but the tree comes back from it step by step: the
  name is its base name (`baseName_text`), and its generic arguments are the written types
  of the children (`arguments_text`). So the walk over the arguments visits the nodes below
  the root in pre-order (`addElements_text`, by induction on the tree).

  `elementClasses?_text`: the element classes are the classes of all nodes below the root,
  in pre-order and each where it is first met, or unknown where one of the nodes has no
  well-known class.
-/
import PropertyArchive.Proofs.ObjectType.Arguments
import PropertyArchive.Proofs.ObjectType.Elements
import PropertyArchive.Text.Identifier

namespace PropertyArchive.ObjectType

open Text

/-! ## Class names -/

structure ClassName where
  text : Text
  isIdentifier_text : isIdentifier text = true
  not_qualifier : text ∉ classQualifiers

namespace ClassName

theorem isIdentifierChar_of_mem (n : ClassName) {c : Char} (h : c ∈ n.text) : isIdentifierChar c = true :=
  List.all_eq_true.1 (all_isIdentifierChar n.isIdentifier_text) c h

theorem not_mem (n : ClassName) {c : Char} (h : isIdentifierChar c = false) : c ∉ n.text := by
  intro hc
  rw [n.isIdentifierChar_of_mem hc] at h
  cases h

theorem isBlank_eq_false_of_mem (n : ClassName) {c : Char} (h : c ∈ n.text) : isBlank c = false := by
  cases hb : isBlank c with
  | false => rfl
  | true =>
    have hc := n.isIdentifierChar_of_mem h
    rw [not_isIdentifierChar_of_isBlank hb] at hc
    cases hc

theorem ne_nil (n : ClassName) : n.text ≠ [] := by
  intro h
  have hi := n.isIdentifier_text
  rw [h] at hi
  cases hi

end ClassName

/-! ## Type trees -/

/-- A class name and the generic arguments behind it, each with the number of its markers. -/
inductive TypeTree where
  | node (name : ClassName) (arguments : List (TypeTree × Nat))

namespace TypeTree

def bracketed : List Text → Text
  | [] => []
  | first :: others => '<' :: (joinWith ", " (first :: others) ++ ['>'])

mutual

def text : TypeTree → Text
  | node name arguments => name.text ++ bracketed (argumentTexts arguments)

def argumentTexts : List (TypeTree × Nat) → List Text
  | [] => []
  | (t, depth) :: arguments => (t.text ++ spacedMarkers depth) :: argumentTexts arguments

end

mutual

/-- The names of all nodes, a node before the nodes of its arguments. -/
def preorder : TypeTree → List Text
  | node name arguments => name.text :: argumentsPreorder arguments

def argumentsPreorder : List (TypeTree × Nat) → List Text
  | [] => []
  | (t, _) :: arguments => t.preorder ++ argumentsPreorder arguments

end

def descendants (t : TypeTree) : List Text := t.preorder.tail

@[elab_as_elim]
theorem induction {P : TypeTree → Prop} (node : ∀ name arguments, (∀ a ∈ arguments, P a.1) → P (node name arguments))
    (t : TypeTree) : P t :=
  match t with
  | .node name arguments => node name arguments fun a _ => induction node a.1
termination_by sizeOf t
decreasing_by
  rename_i ha
  have hs := List.sizeOf_lt_of_mem ha
  obtain ⟨child, depth⟩ := a
  simp only [Prod.mk.sizeOf_spec, TypeTree.node.sizeOf_spec] at hs ⊢
  omega

theorem argumentTexts_eq_map (arguments : List (TypeTree × Nat)) :
    argumentTexts arguments = arguments.map fun a => a.1.text ++ spacedMarkers a.2 := by
  induction arguments with
  | nil => rfl
  | cons a arguments ih => rw [argumentTexts, ih, List.map_cons]

theorem argumentsPreorder_cons (a : TypeTree × Nat) (arguments : List (TypeTree × Nat)) :
    argumentsPreorder (a :: arguments) = a.1.preorder ++ argumentsPreorder arguments := rfl

/-! ## Written types -/

theorem uncut_name (n : ClassName) {floor : Nat} : Uncut floor n.text := by
  refine uncut_of_forall fun c hc => ⟨?_, ?_, ?_⟩ <;> rintro rfl <;> exact n.not_mem (by decide) hc

theorem uncut_spacedMarkers (depth : Nat) : Uncut 0 (spacedMarkers depth) := by
  refine uncut_of_forall fun c hc => ?_
  rcases mem_spacedMarkers hc with rfl | rfl <;> decide

theorem uncut_bracketed {pieces : List Text} (h : ∀ piece ∈ pieces, Uncut 1 piece) : Uncut 0 (bracketed pieces) := by
  cases pieces with
  | nil => exact uncut_nil
  | cons first others => exact (uncut_joinWith h).wrap

/-- A written type is never cut. -/
theorem uncut_text (t : TypeTree) : Uncut 0 t.text := by
  induction t using TypeTree.induction with
  | node name arguments ih =>
    rw [text, argumentTexts_eq_map]
    refine (uncut_name name).append (uncut_bracketed fun piece hp => ?_)
    obtain ⟨a, ha, rfl⟩ := List.mem_map.1 hp
    exact ((ih a ha).append (uncut_spacedMarkers a.2)).mono

theorem text_ne_nil (t : TypeTree) : t.text ≠ [] := by
  cases t with
  | node name arguments => exact fun h => name.ne_nil (List.append_eq_nil_iff.1 h).1

/-- A written type ends with an identifier character or with a bracket. -/
theorem getLast?_text (t : TypeTree) : ∀ c ∈ t.text.getLast?, isIdentifierChar c = true ∨ c = '>' := by
  intro c hc
  cases t with
  | node name arguments =>
    rw [text] at hc
    cases hb : argumentTexts arguments with
    | nil =>
      rw [hb, bracketed, List.append_nil] at hc
      exact .inl (name.isIdentifierChar_of_mem (List.mem_of_getLast? hc))
    | cons first others =>
      rw [hb, bracketed, ← List.cons_append, ← List.append_assoc, List.getLast?_concat] at hc
      cases hc
      exact .inr rfl

theorem isTrimmed_text (t : TypeTree) : IsTrimmed t.text := by
  constructor
  · cases t with
    | node name arguments =>
      intro c hc
      rw [text, List.head?_append_of_ne_nil _ name.ne_nil] at hc
      exact name.isBlank_eq_false_of_mem (List.mem_of_mem_head? hc)
  · intro c hc
    cases hb : isBlank c with
    | false => rfl
    | true =>
      rcases getLast?_text t c hc with h | rfl
      · rw [not_isIdentifierChar_of_isBlank hb] at h
        cases h
      · exact absurd hb (by decide)

theorem getLast?_text_ne_marker (t : TypeTree) : ∀ c ∈ t.text.getLast?, c ≠ '*' := by
  rintro c hc rfl
  rcases getLast?_text t _ hc with h | h <;> revert h <;> decide

/-! ## The tree of a written type -/

def name : TypeTree → ClassName
  | node name _ => name

def children : TypeTree → List TypeTree
  | node _ arguments => arguments.map (·.1)

theorem beforeGenerics_text (t : TypeTree) : beforeGenerics t.text = t.name.text := by
  cases t with
  | node name arguments =>
    have hn : ∀ c ∈ name.text, decide (c ≠ '<') = true := by
      intro c hc
      have hne : c ≠ '<' := by
        rintro rfl
        exact name.not_mem (by decide) hc
      simpa using hne
    rw [text, beforeGenerics, List.takeWhile_append_of_pos hn]
    cases argumentTexts arguments <;> exact List.append_nil _

/-- The name in front of the brackets is the base name. -/
theorem baseName_text (t : TypeTree) : baseName t.text = t.name.text := by
  have hw : words t.name.text = [t.name.text] := by
    rw [words, List.splitOnP_eq_singleton fun c hc => t.name.isBlank_eq_false_of_mem hc]
    simp [t.name.ne_nil]
  rw [baseName, beforeGenerics_text, hw]
  simp [t.name.not_qualifier]

theorem resolve?_text (t : TypeTree) : resolve? t.text = ObjectClass.lookup? t.name.text := by
  rw [resolve?, baseName_text]

theorem generics?_bracketed (n : ClassName) (first : Text) (others : List Text) :
    generics? (n.text ++ bracketed (first :: others)) = some (joinWith ", " (first :: others)) := by
  have ho : cutAt '<' (n.text ++ bracketed (first :: others)) =
      some (n.text, joinWith ", " (first :: others) ++ ['>']) :=
    cutAt_eq_some_iff.2 ⟨rfl, n.not_mem (by decide)⟩
  have hk : cutAtLast '>' (joinWith ", " (first :: others) ++ ['>']) = some (joinWith ", " (first :: others), []) :=
    cutAtLast_eq_some_iff.2 ⟨rfl, List.not_mem_nil⟩
  simp only [generics?, ho, hk, Option.map_some]

theorem generics?_name (n : ClassName) : generics? n.text = none := by
  simp only [generics?, cutAt_eq_none_iff.2 (n.not_mem (c := '<') (by decide))]

theorem bareArgument_text {gap : Text} (hg : IsGap gap) (a : TypeTree × Nat) :
    bareArgument (gap ++ (a.1.text ++ spacedMarkers a.2)) = a.1.text :=
  bareArgument_spaced hg (isTrimmed_text a.1) (text_ne_nil a.1) (getLast?_text_ne_marker a.1) a.2

/-- The generic arguments of a written type are the written types of its children. -/
theorem arguments_text (t : TypeTree) : arguments t.text = t.children.map text := by
  cases t with
  | node name as =>
    rw [text, argumentTexts_eq_map, children, List.map_map]
    cases as with
    | nil => simp only [arguments, List.map_nil, bracketed, List.append_nil, generics?_name]
    | cons a as =>
      have hu : ∀ piece ∈ as.map (fun a => a.1.text ++ spacedMarkers a.2), Uncut 0 piece := by
        intro piece hp
        obtain ⟨b, -, rfl⟩ := List.mem_map.1 hp
        exact (uncut_text b.1).append (uncut_spacedMarkers b.2)
      have hc := cutArguments_joinWith ((uncut_text a.1).append (uncut_spacedMarkers a.2)) hu
      have ha : bareArgument (a.1.text ++ spacedMarkers a.2) = a.1.text := bareArgument_text isGap_nil a
      have hg : IsGap [' '] := by decide
      have hs : ∀ b : TypeTree × Nat, bareArgument (' ' :: (b.1.text ++ spacedMarkers b.2)) = b.1.text :=
        fun b => bareArgument_text hg b
      simp only [arguments, List.map_cons, generics?_bracketed, hc, List.map_map, ha, Function.comp_def, hs]
      refine List.filter_eq_self.2 fun x hx => ?_
      rw [← List.map_cons (f := fun b : TypeTree × Nat => b.1.text)] at hx
      obtain ⟨b, -, rfl⟩ := List.mem_map.1 hx
      simpa using text_ne_nil b.1

/-! ## The walk over a tree -/

def addNames (names : List Text) (found : List ObjectClass) : Option (List ObjectClass) :=
  names.foldlM (fun found name => (ObjectClass.lookup? name).map (addClass found)) found

theorem addNames_append (ns ms : List Text) (found : List ObjectClass) :
    addNames (ns ++ ms) found = (addNames ns found).bind (addNames ms) := List.foldlM_append

theorem addNames_cons (n : Text) (ns : List Text) (found : List ObjectClass) :
    addNames (n :: ns) found = (ObjectClass.lookup? n).bind fun c => addNames ns (addClass found c) := by
  rw [addNames, List.foldlM_cons]
  cases ObjectClass.lookup? n <;> rfl

theorem addNames_eq (ns : List Text) (found : List ObjectClass) :
    addNames ns found =
      if ∀ n ∈ ns, (ObjectClass.lookup? n).isSome then some ((ns.filterMap ObjectClass.lookup?).foldl addClass found)
      else none := by
  induction ns generalizing found with
  | nil => rfl
  | cons n ns ih =>
    rw [addNames_cons]
    cases hn : ObjectClass.lookup? n with
    | none => simp [hn]
    | some c => simp [hn, ih]

/-- A tree adds its classes as a walk in pre-order. -/
theorem addArgument_text {t : TypeTree} (h : ∀ found, addElements t.text found = addNames t.descendants found)
    (found : List ObjectClass) : addArgument found t.text = addNames t.preorder found := by
  have hp : t.preorder = t.name.text :: t.descendants := by cases t; rfl
  rw [addArgument, resolve?_text, hp, addNames_cons]
  simp only [h]

theorem foldlM_addArgument {as : List (TypeTree × Nat)}
    (h : ∀ a ∈ as, ∀ found, addElements a.1.text found = addNames a.1.descendants found) (found : List ObjectClass) :
    (as.map (·.1.text)).foldlM addArgument found = addNames (argumentsPreorder as) found := by
  induction as generalizing found with
  | nil => rfl
  | cons a as ih =>
    obtain ⟨ha, has⟩ := List.forall_mem_cons.1 h
    rw [List.map_cons, List.foldlM_cons, addArgument_text ha, argumentsPreorder_cons, addNames_append]
    congr 1
    funext between
    exact ih has between

theorem addElements_text (t : TypeTree) (found : List ObjectClass) :
    addElements t.text found = addNames t.descendants found := by
  induction t using TypeTree.induction generalizing found with
  | node name as ih =>
    rw [addElements_eq_foldlM, arguments_text, children, List.map_map]
    exact foldlM_addArgument (fun a ha found => ih a ha found) found

/-! ## Each class where it is first met -/

theorem foldl_addClass_eq (classes found : List ObjectClass) :
    classes.foldl addClass found = found ++ (classes.filter (· ∉ found)).eraseDups := by
  induction classes generalizing found with
  | nil => simp
  | cons c classes ih =>
    rw [List.foldl_cons, ih, addClass]
    by_cases hc : c ∈ found
    · simp [hc]
    · simp only [hc, if_false, not_false_eq_true, decide_true, List.filter_cons_of_pos, List.eraseDups_cons,
        List.filter_filter, List.append_assoc, List.singleton_append, List.mem_append, List.mem_singleton]
      congr 4
      funext d
      by_cases hd : d = c <;> simp [hd]

/-- The element classes of a written type tree are the classes of the nodes below its root,
    in pre-order and without repetition, and unknown where one of them has none. -/
theorem elementClasses?_text (t : TypeTree) :
    elementClasses? t.text =
      if ∀ name ∈ t.descendants, (ObjectClass.lookup? name).isSome then
        some (t.descendants.filterMap ObjectClass.lookup?).eraseDups
      else none := by
  rw [elementClasses?, addElements_text, addNames_eq, foldl_addClass_eq]
  simp

-- The string is met twice and the root is no element.
example : elementClasses? "NSDictionary<NSString *, NSArray<NSString *> *>" =
    some [⟨"NSString", .secure⟩, ⟨"NSArray", .secureCollection⟩] := by decide +kernel

end TypeTree

end PropertyArchive.ObjectType
