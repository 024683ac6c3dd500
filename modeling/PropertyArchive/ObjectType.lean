/-
  PropertyArchive.ObjectType — object types such as `NSDictionary<NSString *, NSNumber *>`:
  the class they name and the classes of their elements.

  - `baseName` is the first word before the first `<` that is not a class qualifier;
    `resolve?` is the well-known class of that name.
  - `arguments` are the generic arguments: the text between the first `<` and the last
    `>`, cut at the commas outside every bracket, each without the blanks and markers
    around it. An argument is shorter than the type it stands in
    (`length_lt_of_mem_arguments`), so the walk over nested arguments ends.
  - `elementClasses?` are the classes of all arguments, an argument before the arguments
    nested in it, each class once. One argument without a well-known class leaves the
    whole list unknown.
-/
import PropertyArchive.ObjectClass

namespace PropertyArchive.ObjectType

open Text

/-- Words that may stand around a class name without being part of it. -/
def classQualifiers : List Text := ["__kindof", "const"]

/-- The text before the first `<`, or all of it. -/
def beforeGenerics (typeName : Text) : Text := typeName.takeWhile (· ≠ '<')

/-- The class name that a type starts with; empty where it names none. -/
def baseName (typeName : Text) : Text :=
  ((words (beforeGenerics typeName)).find? (· ∉ classQualifiers)).getD []

def resolve? (typeName : Text) : Option ObjectClass := ObjectClass.lookup? (baseName typeName)

def anyObject : Text := "id"

/-- The bare or protocol-qualified type of any object. -/
def isAnyObject (typeName : Text) : Bool := baseName typeName == anyObject

/-! ## Generic arguments -/

/-- The text between the first `<` and the last `>` after it. -/
def generics? (typeName : Text) : Option Text :=
  match cutAt '<' typeName with
  | none => none
  | some (_, rest) => (cutAtLast '>' rest).map (·.1)

/-- Cuts at the commas outside every bracket, given how many brackets are open. A closing
bracket too many opens nothing. -/
def cutArguments (depth : Nat) : Text → List Text
  | [] => [[]]
  | c :: t =>
    if c = ',' ∧ depth = 0 then [] :: cutArguments depth t
    else
      let inner := if c = '<' then depth + 1 else if c = '>' then depth - 1 else depth
      (cutArguments inner t).modifyHead (c :: ·)

/-- An argument without the blanks around it and the markers at its end. Only spaces count
as blanks between markers. -/
def bareArgument (argument : Text) : Text :=
  trim (dropEndWhile (fun c => c == '*' || c == ' ') (trim argument))

/-- The generic arguments of a type in order, without those that are blank. -/
def arguments (typeName : Text) : List Text :=
  match generics? typeName with
  | none => []
  | some inner => ((cutArguments 0 inner).map bareArgument).filter (· ≠ [])

/-! ## Arguments are shorter than their type -/

theorem length_dropWhile_le (p : Char → Bool) (t : Text) : (t.dropWhile p).length ≤ t.length := by
  simpa using (List.dropWhile_sublist p).length_le

theorem length_dropEndWhile_le (p : Char → Bool) (t : Text) : (dropEndWhile p t).length ≤ t.length := by
  simpa [dropEndWhile] using length_dropWhile_le p t.reverse

theorem length_trim_le (t : Text) : (trim t).length ≤ t.length :=
  Nat.le_trans (length_dropEndWhile_le isBlank _) (length_dropWhile_le isBlank t)

theorem length_bareArgument_le (t : Text) : (bareArgument t).length ≤ t.length :=
  Nat.le_trans (length_trim_le _) (Nat.le_trans (length_dropEndWhile_le _ _) (length_trim_le t))

theorem length_le_of_mem_cutArguments {depth : Nat} {t a : Text} (h : a ∈ cutArguments depth t) :
    a.length ≤ t.length := by
  induction t generalizing depth a with
  | nil => simp_all [cutArguments]
  | cons c t ih =>
    simp only [cutArguments] at h
    split at h
    · cases h with
      | head => simp
      | tail _ h => exact Nat.le_succ_of_le (ih h)
    · generalize (if c = '<' then depth + 1 else if c = '>' then depth - 1 else depth) = inner at h
      cases hp : cutArguments inner t with
      | nil => simp [hp] at h
      | cons p ps =>
        rw [hp, List.modifyHead_cons] at h
        cases h with
        | head => simpa using ih (hp ▸ List.mem_cons_self : p ∈ cutArguments inner t)
        | tail _ h => exact Nat.le_succ_of_le (ih (hp ▸ List.mem_cons_of_mem _ h : _ ∈ cutArguments inner t))

theorem length_lt_of_generics? {t inner : Text} (h : generics? t = some inner) :
    inner.length < t.length := by
  unfold generics? at h
  split at h
  · cases h
  · rename_i before rest e
    obtain ⟨rfl, -⟩ := cutAt_eq_some_iff.1 e
    obtain ⟨⟨a, b⟩, e', rfl⟩ := Option.map_eq_some_iff.1 h
    obtain ⟨rfl, -⟩ := cutAtLast_eq_some_iff.1 e'
    simp
    omega

theorem length_lt_of_mem_arguments {t a : Text} (h : a ∈ arguments t) : a.length < t.length := by
  unfold arguments at h
  split at h
  · cases h
  · rename_i inner e
    obtain ⟨hm, -⟩ := List.mem_filter.1 h
    obtain ⟨piece, hp, rfl⟩ := List.mem_map.1 hm
    exact Nat.lt_of_le_of_lt (Nat.le_trans (length_bareArgument_le piece) (length_le_of_mem_cutArguments hp))
      (length_lt_of_generics? e)

/-! ## Element classes -/

def addClass (found : List ObjectClass) (c : ObjectClass) : List ObjectClass :=
  if c ∈ found then found else found ++ [c]

/-- Adds the classes of the arguments of a type, outer before inner; `none` where one of
them is not well known. -/
def addElements (typeName : Text) (found : List ObjectClass) : Option (List ObjectClass) :=
  (arguments typeName).attach.foldlM
    (fun found ⟨argument, _⟩ =>
      match resolve? argument with
      | none => none
      | some c => addElements argument (addClass found c))
    found
termination_by typeName.length
decreasing_by exact length_lt_of_mem_arguments ‹_›

/-- The walk over the arguments, each resolved before its own arguments are added. -/
theorem addElements_eq (typeName : Text) (found : List ObjectClass) :
    addElements typeName found = (arguments typeName).foldlM
      (fun found argument => (resolve? argument).bind fun c => addElements argument (addClass found c))
      found := by
  rw [addElements]
  conv => rhs; rw [← List.attach_map_subtype_val (arguments typeName), List.foldlM_map]
  congr 1
  funext found ⟨argument, _⟩
  cases h : resolve? argument <;> simp [h]

/-- The classes of the arguments of a type, nested ones too, each once and in the order in
which they are first met; `none` where one of them is not well known. -/
def elementClasses? (typeName : Text) : Option (List ObjectClass) := addElements typeName []

end PropertyArchive.ObjectType
