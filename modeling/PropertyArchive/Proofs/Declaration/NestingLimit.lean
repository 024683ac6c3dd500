/-
  PropertyArchive.Proofs.Declaration.NestingLimit — what the limit on the brackets of a word says
  about the walk over the element classes, and what it leaves open.

  The brackets of each word nest at most `Token.maxDepth` deep, and so do those of the whole
  type. But the walk takes all that stands between the first and the last bracket of a type for
  its arguments. Where sections stand side by side, these two belong to different words, and the
  sections between them are walked over one pair after the other: `inside` builds such a text
  layer by layer, and each layer is one call more (`walk_inside`). A layer beside the others
  costs two bracket pairs and does not nest deeper (`count_inside`, `balanced_stacked`).

  `callDepth_of_parse`: the limit bounds the calls where no type on the way has sections side by
  side. In general only the number of the bracket pairs bounds them, to half of it and half of
  the depth of the brackets; for every depth within the limit this bound is reached
  (`exists_callDepth_eq`).
-/
import PropertyArchive.Proofs.Declaration.WellFormed
import PropertyArchive.Proofs.ObjectType.WalkDepth

namespace PropertyArchive

open Text

namespace ObjectType

/-! ## A single argument -/

theorem cutArguments_of_not_mem {t : Text} (h : ',' ∉ t) (depth : Nat) : cutArguments depth t = [t] := by
  induction t generalizing depth with
  | nil => rfl
  | cons c t ih =>
    obtain ⟨hc, ht⟩ := List.ne_and_not_mem_of_not_mem_cons h
    simp [cutArguments, hc.symm, ih ht]

/-- Without a comma there is one argument at most: all that stands between the outer brackets. -/
theorem arguments_eq_singleton {x inner y : Text} (hx : '<' ∉ x) (hy : '>' ∉ y) (hc : ',' ∉ inner)
    (ht : IsTrimmed inner) (hn : inner ≠ []) (hm : ∀ c ∈ inner.getLast?, c ≠ '*') :
    arguments (x ++ '<' :: (inner ++ '>' :: y)) = [inner] := by
  have hg : generics? (x ++ '<' :: (inner ++ '>' :: y)) = some inner := generics?_eq_some_iff.2 ⟨x, y, rfl, hx, hy⟩
  have hb : bareArgument inner = inner := by simpa [spacedMarkers] using bareArgument_spaced isGap_nil ht hn hm 0
  unfold arguments
  rw [hg]
  simp [cutArguments_of_not_mem hc, hb, hn]

/-! ## Layers of brackets -/

def plainArgument : Text := "NSSet x"

def elementClass : ObjectClass := ⟨"NSSet", .secureCollection⟩

inductive Layer where
  /-- A class name in front: the brackets are those of one section. -/
  | around
  /-- A section on either side: the brackets belong to two of three sections. -/
  | beside

namespace Layer

def front : Layer → Text
  | around => "NSSet"
  | beside => plainArgument ++ "> NSArray"

def back : Layer → Text
  | around => []
  | beside => " NSArray<" ++ plainArgument

end Layer

def inside : List Layer → Text
  | [] => plainArgument
  | l :: layers => l.front ++ '<' :: (inside layers ++ '>' :: l.back)

theorem comma_not_mem_inside (layers : List Layer) : ',' ∉ inside layers := by
  induction layers with
  | nil => decide
  | cons l layers ih =>
    have hf : ',' ∉ l.front := by cases l <;> decide
    have hb : ',' ∉ l.back := by cases l <;> decide
    intro h
    rcases List.mem_append.1 h with h | h
    · exact hf h
    rcases List.mem_cons.1 h with h | h
    · cases h
    rcases List.mem_append.1 h with h | h
    · exact ih h
    rcases List.mem_cons.1 h with h | h
    · cases h
    · exact hb h

theorem head?_inside (layers : List Layer) : (inside layers).head? = some 'N' := by
  cases layers with
  | nil => rfl
  | cons l layers => cases l <;> rfl

theorem getLast?_inside (layers : List Layer) : ∃ c, (inside layers).getLast? = some c ∧ isBlank c = false ∧ c ≠ '*' := by
  cases layers with
  | nil => exact ⟨'x', rfl, by decide, by decide⟩
  | cons l layers =>
    cases l with
    | around =>
      refine ⟨'>', ?_, by decide, by decide⟩
      rw [inside, List.getLast?_append, List.getLast?_cons, List.getLast?_append]
      rfl
    | beside =>
      refine ⟨'x', ?_, by decide, by decide⟩
      have hy : Layer.beside.back.getLast? = some 'x' := rfl
      rw [inside, List.getLast?_append, List.getLast?_cons, List.getLast?_append, List.getLast?_cons, hy]
      rfl

/-- The layers between the outer brackets are the only argument. -/
theorem arguments_around_inside {x y : Text} (hx : '<' ∉ x) (hy : '>' ∉ y) (layers : List Layer) :
    arguments (x ++ '<' :: (inside layers ++ '>' :: y)) = [inside layers] := by
  have hh := head?_inside layers
  obtain ⟨last, hl, hblank, hmarker⟩ := getLast?_inside layers
  refine arguments_eq_singleton hx hy (comma_not_mem_inside layers) ⟨?_, ?_⟩ ?_ ?_
  · intro c hc
    cases hh.symm.trans hc
    decide
  · intro c hc
    cases hl.symm.trans hc
    exact hblank
  · intro h
    rw [h] at hh
    cases hh
  · intro c hc
    cases hl.symm.trans hc
    exact hmarker

theorem resolve?_inside (layers : List Layer) : resolve? (inside layers) = some elementClass := by
  cases layers with
  | nil => decide +kernel
  | cons l layers =>
    have hn : '<' ∉ l.front := by cases l <;> decide
    have hb : beforeGenerics (inside (l :: layers)) = l.front := by
      rw [inside, beforeGenerics_append_of_not_mem hn]
      exact List.append_nil _
    rw [resolve?, baseName, hb]
    cases l <;> decide +kernel

/-- Each layer is one call more. -/
theorem walk_inside (layers : List Layer) {found : List ObjectClass} (hf : elementClass ∈ found) :
    walk (inside layers) found = ⟨some found, layers.length⟩ := by
  induction layers with
  | nil =>
    have ha : arguments plainArgument = [] := by decide
    rw [walk_eq_foldl, inside, ha]
    rfl
  | cons l layers ih =>
    have ha : arguments (inside (l :: layers)) = [inside layers] :=
      arguments_around_inside (by cases l <;> decide) (by cases l <;> decide) layers
    rw [walk_of_singleton ha (resolve?_inside layers), addClass, if_pos hf, ih, List.length_cons]

/-- A type with layers in its outer brackets. -/
theorem walk_around_inside {x : Text} (hx : '<' ∉ x) (layers : List Layer) :
    walk (x ++ '<' :: (inside layers ++ ['>'])) [] = ⟨some [elementClass], layers.length + 1⟩ := by
  have ha := arguments_around_inside hx (y := []) (by simp) layers
  have hc : addClass [] elementClass = [elementClass] := rfl
  rw [walk_of_singleton ha (resolve?_inside layers), hc, walk_inside layers (by simp)]

/-- `sides` layers beside, with `depth` layers around the argument in the middle. -/
def stacked (sides depth : Nat) : List Layer := List.replicate sides .beside ++ List.replicate depth .around

theorem length_stacked (sides depth : Nat) : (stacked sides depth).length = sides + depth := by simp [stacked]

theorem inside_stacked_succ (sides depth : Nat) : inside (stacked (sides + 1) depth) =
    Layer.beside.front ++ '<' :: (inside (stacked sides depth) ++ '>' :: Layer.beside.back) := rfl

theorem inside_around_succ (depth : Nat) :
    inside (stacked 0 (depth + 1)) = "NSSet" ++ '<' :: (inside (stacked 0 depth) ++ ['>']) := rfl

/-- A layer around costs one pair of brackets and a layer beside two. -/
theorem count_inside_stacked (sides depth : Nat) : (inside (stacked sides depth)).count '<' = 2 * sides + depth := by
  induction sides with
  | zero =>
    induction depth with
    | zero => decide
    | succ depth ih =>
      have hf : ("NSSet" : Text).count '<' = 0 := by decide
      have hb : (['>'] : Text).count '<' = 0 := by decide
      rw [inside_around_succ, List.count_append, hf, List.count_cons_self, List.count_append, hb, ih]
      omega
  | succ sides ih =>
    have hf : Layer.beside.front.count '<' = 0 := by decide
    have hb : Layer.beside.back.count '<' = 1 := by decide
    rw [inside_stacked_succ, List.count_append, hf, List.count_cons_self, List.count_append,
      List.count_cons_of_ne (by decide), hb, ih]
    omega

end ObjectType

namespace Declaration

open ObjectType

/-! ## Types with sections side by side -/

/-- How many calls the walk over the element classes nests below the outermost one. -/
def callDepth (d : Declaration) : Nat := (walk d.typeName []).depth

def sectionWord (inner : Text) : TypeWord := ("NSArray", '<' :: (inner ++ ['>']))

theorem text_sectionWord (inner : Text) : (sectionWord inner).text = "NSArray" ++ '<' :: (inner ++ ['>']) := rfl

/-- Words with a section each, a deep one between `sides` flat ones on either side. -/
def sectionWords (sides depth : Nat) : List TypeWord :=
  List.replicate sides (sectionWord plainArgument) ++
    sectionWord (inside (stacked 0 depth)) :: List.replicate sides (sectionWord plainArgument)

theorem sectionWords_succ (sides depth : Nat) : sectionWords (sides + 1) depth =
    (sectionWord plainArgument :: sectionWords sides depth) ++ [sectionWord plainArgument] := by
  rw [sectionWords, List.replicate_succ, List.cons_append, List.cons_append, sectionWords, List.append_assoc,
    List.cons_append, ← List.replicate_succ', List.replicate_succ]

def sections (sides depth : Nat) : Declaration := ofParts none (sectionWords sides depth) 1 "rows"

theorem typeName_sections (sides depth : Nat) :
    (sections sides depth).typeName = "NSArray" ++ '<' :: (inside (stacked sides depth) ++ ['>']) := by
  show joinWith " " ((sectionWords sides depth).map TypeWord.text) = _
  induction sides with
  | zero =>
    have hs : sectionWords 0 depth = [sectionWord (inside (stacked 0 depth))] := rfl
    rw [hs, List.map_singleton, joinWith, List.intercalate_singleton, text_sectionWord]
  | succ sides ih =>
    have hn : (sectionWords sides depth).map TypeWord.text ≠ [] := by simp [sectionWords]
    have hf : Layer.beside.front = plainArgument ++ '>' :: (" " ++ "NSArray") := rfl
    have hb : Layer.beside.back = " " ++ ("NSArray" ++ '<' :: plainArgument) := rfl
    rw [sectionWords_succ, List.map_append, List.map_cons, List.map_singleton, joinWith_concat (List.cons_ne_nil _ _),
      joinWith_cons _ hn, ih, inside_stacked_succ, hf, hb, text_sectionWord]
    generalize ("NSArray" : Text) = array
    generalize (" " : Text) = gap
    simp only [List.append_assoc, List.cons_append, List.nil_append]

theorem forall_mem_sectionWords {P : TypeWord → Prop} {sides depth : Nat} (hp : P (sectionWord plainArgument))
    (hd : P (sectionWord (inside (stacked 0 depth)))) : ∀ w ∈ sectionWords sides depth, P w := by
  intro w hw
  rcases List.mem_append.1 hw with hw | hw
  · exact List.eq_of_mem_replicate hw ▸ hp
  rcases List.mem_cons.1 hw with hw | hw
  · exact hw ▸ hd
  · exact List.eq_of_mem_replicate hw ▸ hp

/-! ## Lines with these types -/

theorem nested_of_forall {limit : Nat} {t u : Text} (h : ∀ c ∈ t, ScanState.isGenericsChar c = true)
    (hu : Token.Nested limit u) : Token.Nested limit (t ++ u) := by
  induction t with
  | nil => exact hu
  | cons c t ih =>
    obtain ⟨hc, ht⟩ := List.forall_mem_cons.1 h
    exact .char hc (ih ht)

theorem nested_plainArgument (limit : Nat) : Token.Nested limit plainArgument :=
  nested_of_forall (t := plainArgument) (u := []) (List.all_eq_true.1 (by decide)) .nil

theorem nested_inside_around {depth limit : Nat} (h : depth ≤ limit) :
    Token.Nested limit (inside (stacked 0 depth)) := by
  induction depth generalizing limit with
  | zero => exact nested_plainArgument limit
  | succ depth ih =>
    obtain ⟨limit, rfl⟩ := Nat.exists_eq_add_of_lt h
    have hi : Token.Nested (depth + limit) (inside (stacked 0 depth)) := ih (Nat.le_add_right depth limit)
    rw [inside_around_succ]
    exact nested_of_forall (List.all_eq_true.1 (by decide)) (.group hi .nil)

theorem wellFormed_sectionWord {inner : Text} (h : Token.Nested (Token.maxDepth - 1) inner) :
    (sectionWord inner).token.WellFormed := by
  have hn : Token.IsName "NSArray" := ⟨by decide, List.all_eq_true.1 (by decide)⟩
  exact ⟨hn, .inr ⟨inner, h, rfl⟩⟩

theorem not_mem_annotations_sectionWord (inner : Text) : (sectionWord inner).token ∉ Token.annotations := by
  intro h
  obtain ⟨w, -, hw⟩ := List.mem_map.1 h
  cases (Token.word.inj hw).2

/-- Any number of sections that nest within the limit makes a line that is read. -/
theorem parse_sections {depth : Nat} (hd : depth < Token.maxDepth) (sides : Nat) :
    parse (sections sides depth).render = .ok (sections sides depth) := by
  have hwf : ∀ w ∈ sectionWords sides depth, w.token.WellFormed :=
    forall_mem_sectionWords (wellFormed_sectionWord (nested_plainArgument _))
      (wellFormed_sectionWord (nested_inside_around (by omega)))
  have hs : ∀ w ∈ sectionWords sides depth, w.Starts :=
    forall_mem_sectionWords ⟨'N', rfl, by decide⟩ ⟨'N', rfl, by decide⟩
  have hna : ∀ w ∈ sectionWords sides depth, w.token ∉ Token.annotations :=
    forall_mem_sectionWords (not_mem_annotations_sectionWord _) (not_mem_annotations_sectionWord _)
  have ha : ∀ t ∈ partTokens (sectionWords sides depth) 1 "rows", t ∉ Token.annotations := by
    intro t ht
    rcases List.mem_append.1 ht with ht | ht
    · obtain ⟨w, hw, rfl⟩ := List.mem_map.1 ht
      exact hna w hw
    · have hr : ∀ t ∈ List.replicate 1 Token.pointer ++ [.word "rows" []], t ∉ Token.annotations := by decide
      exact hr t ht
  exact parse_of_declares (declares_render_ofParts hwf (by simp [sectionWords]) hs (by decide) (by simp)
    (List.filter_eq_self.2 fun t ht => decide_eq_true (ha t ht)))

/-- The flat sections do not add to the depth of the brackets. -/
theorem balanced_sections (sides depth : Nat) : Balanced (depth + 1) (sections sides depth).typeName := by
  have hw : ∀ {inner : Text}, Token.Nested depth inner → Balanced (depth + 1) (sectionWord inner).text := fun h =>
    (balanced_of_not_mem (t := "NSArray") (by decide)).append h.balanced.wrap
  exact balanced_typeName (by simp [sectionWords])
    (forall_mem_sectionWords (hw (nested_plainArgument _))
      (hw (nested_inside_around (Nat.le_refl depth))))

theorem count_sections (sides depth : Nat) :
    (sections sides depth).typeName.count '<' = 2 * sides + (depth + 1) := by
  have hf : ("NSArray" : Text).count '<' = 0 := by decide
  have hb : (['>'] : Text).count '<' = 0 := by decide
  rw [typeName_sections, List.count_append, hf, List.count_cons_self, List.count_append, count_inside_stacked, hb]
  omega

theorem walk_sections (sides depth : Nat) :
    walk (sections sides depth).typeName [] = ⟨some [elementClass], sides + (depth + 1)⟩ := by
  rw [typeName_sections, walk_around_inside (by decide), length_stacked, Nat.add_assoc]

/-! ## The limit and the walk -/

structure BoundsCalls (d : Declaration) : Prop where
  /-- The calls that are counted are those of the walk. -/
  found_eq : (walk d.typeName []).found = d.elementClasses?
  /-- A limit holds exactly where one call more is not nested. -/
  le_iff : ∀ limit, d.callDepth ≤ limit ↔ ¬Nests (limit + 1) d.typeName []
  /-- The brackets of the type nest at most as deep as those of a word may. -/
  balanced : Balanced Token.maxDepth d.typeName
  /-- Half of the bracket pairs and half of the depth of the brackets bound the calls. -/
  two_mul_le : ∀ limit, Balanced limit d.typeName → 2 * d.callDepth ≤ d.typeName.count '<' + limit
  /-- Where no type on the way has sections side by side, the limit bounds the calls. -/
  le_maxDepth : OuterPaired d.typeName → (∀ a, NestedArgument d.typeName a → OuterPaired a) →
    d.callDepth ≤ Token.maxDepth

theorem boundsCalls_of_balanced {d : Declaration} (hb : Balanced Token.maxDepth d.typeName) : BoundsCalls d where
  found_eq := found_walk d.typeName []
  le_iff limit := by
    rw [← le_depth_walk_iff, callDepth]
    omega
  balanced := hb
  two_mul_le _ hl := two_mul_depth_walk_le hl []
  le_maxDepth hp hn := depth_walk_le_of_outerPaired hb hp hn []

/-- For every depth of the brackets within the limit there are types that reach the bound by the
    bracket pairs with any number of calls. -/
theorem exists_callDepth_eq {depth : Nat} (hd : depth < Token.maxDepth) (sides : Nat) :
    ∃ line d, parse line = .ok d ∧ Balanced (depth + 1) d.typeName ∧
      d.typeName.count '<' = 2 * sides + (depth + 1) ∧ d.elementClasses? = some [elementClass] ∧
        d.callDepth = sides + (depth + 1) := by
  have hw := walk_sections sides depth
  have hf : (walk (sections sides depth).typeName []).found = (sections sides depth).elementClasses? := found_walk _ []
  refine ⟨_, _, parse_sections hd sides, balanced_sections sides depth, count_sections sides depth, ?_, ?_⟩
  · rw [← hf, hw]
  · rw [callDepth, hw]

/-- The limit on the brackets of a word bounds the calls of the walk where no type that it meets
    has sections side by side. Otherwise only the bracket pairs of the type bound them. -/
theorem callDepth_of_parse {line : Text} {d : Declaration} (h : parse line = .ok d) : BoundsCalls d :=
  boundsCalls_of_balanced (wellFormed_of_parse h).isTypeName.balanced

/-- Three words, the middle one as deep as a word may be: with the sections beside it the walk nests
    one call more than the limit, and finds one class in each. -/
theorem callDepth_of_parse_three_sections :
    let deepWord : Text := joinWith "<" (["NSArray", "NSNumber", "NSValue", "NSData", "NSDate", "NSURL", "NSUUID",
      "NSLocale", "NSTimeZone", "NSCalendar", "NSIndexSet", "NSIndexPath", "NSError", "NSNull", "NSUnit", "NSSet",
      "NSDictionary"] : List Text) ++ List.replicate Token.maxDepth '>'
    let d : Declaration :=
      ⟨"NSArray<NSString e> " ++ (deepWord ++ " NSArray<e>"), "x", none, some ⟨"NSArray", .secureCollection⟩, 1⟩
    parse d.render = .ok d ∧ BoundsCalls d ∧ d.typeName.count '<' = Token.maxDepth + 2 ∧
      d.callDepth = Token.maxDepth + 1 ∧ Nests (Token.maxDepth + 1) d.typeName [] := by
  intro deepWord d
  have h : parse d.render = .ok d := by decide +kernel
  have hd : d.callDepth = Token.maxDepth + 1 := by decide +kernel
  exact ⟨h, callDepth_of_parse h, by decide +kernel, hd, le_depth_walk_iff.1 (Nat.le_of_eq hd.symm)⟩

end Declaration

end PropertyArchive
