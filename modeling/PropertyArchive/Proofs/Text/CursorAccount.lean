/-
  PropertyArchive.Proofs.Text.CursorAccount — no step of a cursor loses, repeats or invents
  text.

  (1) What a step takes (`perform_reads`). For each operation `Reads` says, from the unread
  text alone, what the step reports and which text it takes: one character, a keyword that
  no identifier character follows, the longest run of a class (`LongestRun`), the text before
  the first delimiter together with the delimiter. A step that finds nothing takes nothing.
  The cursor then stands behind what was taken (`Cursor.take`), so every cursor of a run
  stands in the text that the run started with (`text_after`).

  (2) The same cursor with a byte offset for a place (`OffsetCursor`). It cuts the unread
  text from the data at its position, and moves by the size of a character, the length of a
  keyword, the index of a delimiter, or the index where a run ends. A cut that is not at a
  character boundary has no result, and then the step has none. Started in the same place
  both cursors take the same steps (`perform?_offset`, `run?_offset`): the offset is always
  the length of what was read, and no cut fails.

  Together (`run_accounts`): whatever the steps, every one of them accounts for the whole text.
-/
import Mathlib.Data.List.Infix
import Mathlib.Data.List.TakeWhile
import PropertyArchive.Text.Cursor
import PropertyArchive.Proofs.Text.ByteOffset

namespace PropertyArchive

open Text

namespace Cursor

/-! ## What a step takes -/

/-- The longest beginning of `t` whose characters all satisfy `p`. -/
structure LongestRun (p : Char → Bool) (t run : Text) : Prop where
  isPrefix : run <+: t
  all : ∀ x ∈ run, p x = true
  longest : ∀ longer, longer <+: t → (∀ x ∈ longer, p x = true) → longer <+: run

theorem longestRun_takeWhile (p : Char → Bool) (t : Text) : LongestRun p t (t.takeWhile p) where
  isPrefix := List.takeWhile_prefix p
  all _ hx := List.mem_takeWhile_imp hx
  longest longer hl hp := by
    obtain ⟨rest, rfl⟩ := hl
    rw [List.takeWhile_append_of_pos hp]
    exact List.prefix_append _ _

/-- `keyword` stands at the start of `t` and no identifier character follows it. -/
def OpensWith (keyword t : Text) : Prop :=
  ∃ after, t = keyword ++ after ∧ ∀ x ∈ after.head?, isIdentifierChar x = false

/-- `Reads c s reply taken`: at `c` the step `s` is to report `reply` and to take `taken`. -/
inductive Reads (c : Cursor) : Step → Reply → Text → Prop where
  | isEmpty {found} (h : found = true ↔ c.text = []) : Reads c .isEmpty (.flag found) []
  | peek : Reads c .peek (.char c.rest.head?) []
  | take {x rest} (h : c.rest = x :: rest) : Reads c .take (.char (some x)) [x]
  | takeEnd (h : c.rest = []) : Reads c .take (.char none) []
  | takeChar {d rest} (h : c.rest = d :: rest) : Reads c (.takeChar d) (.flag true) [d]
  | missChar {d} (h : c.rest.head? ≠ some d) : Reads c (.takeChar d) (.flag false) []
  | takeKeyword {keyword} (h : OpensWith keyword c.rest) : Reads c (.takeKeyword keyword) (.flag true) keyword
  | missKeyword {keyword} (h : ¬OpensWith keyword c.rest) : Reads c (.takeKeyword keyword) (.flag false) []
  | skipBlanks {run} (h : LongestRun isBlank c.rest run) : Reads c .skipBlanks .nothing run
  | takeWhile {p run} (h : LongestRun p c.rest run) : Reads c (.takeWhile p) (.text (some run)) run
  | takeIdentifier {run} (h : LongestRun isIdentifierChar c.rest run) :
      Reads c .takeIdentifier (.text (some run)) run
  | takeUntil {d before after} (h : c.rest = before ++ d :: after) (hd : d ∉ before) :
      Reads c (.takeUntil d) (.text (some before)) (before ++ [d])
  | missDelimiter {d} (h : d ∉ c.rest) : Reads c (.takeUntil d) (.text none) []

/-- `c'` stands behind `taken`, which `c` still had to read. -/
structure Took (c : Cursor) (taken : Text) (c' : Cursor) : Prop where
  before : c'.before = c.before ++ taken
  rest : c.rest = taken ++ c'.rest

theorem took_nothing (c : Cursor) : Took c [] c := ⟨(List.append_nil _).symm, rfl⟩

/-- The text that a cursor stands in is not touched. -/
theorem Took.text {c c' : Cursor} {taken : Text} (h : Took c taken c') : c'.text = c.text := by
  rw [Cursor.text, Cursor.text, h.before, h.rest, List.append_assoc]

theorem takeChar?_cases (d : Char) (c : Cursor) :
    (∃ c', c.takeChar? d = some c' ∧ c.rest = d :: c'.rest ∧ Took c [d] c') ∨
      (c.takeChar? d = none ∧ c.rest.head? ≠ some d) := by
  rcases c with ⟨before, _ | ⟨x, rest⟩⟩
  · exact .inr ⟨rfl, nofun⟩
  · by_cases hx : x = d
    · exact .inl ⟨⟨before ++ [x], rest⟩, by simp [takeChar?, hx], by rw [hx], ⟨by rw [hx], by rw [hx]; rfl⟩⟩
    · exact .inr ⟨by simp [takeChar?, hx], by simpa using hx⟩

theorem takeKeyword?_cases (keyword : Text) (c : Cursor) :
    (∃ c', c.takeKeyword? keyword = some c' ∧ OpensWith keyword c.rest ∧ Took c keyword c') ∨
      (c.takeKeyword? keyword = none ∧ ¬OpensWith keyword c.rest) := by
  cases hp : keyword.isPrefixOf? c.rest with
  | none =>
    refine .inr ⟨by simp [takeKeyword?, hp], fun ⟨after, h, _⟩ => ?_⟩
    rw [List.isPrefixOf?_eq_some_iff_append_eq.2 h.symm] at hp
    cases hp
  | some after =>
    have hrest : c.rest = keyword ++ after := (List.isPrefixOf?_eq_some_iff_append_eq.1 hp).symm
    cases ha : after.head?.any isIdentifierChar with
    | false =>
      refine .inl ⟨⟨c.before ++ keyword, after⟩, by simp [takeKeyword?, hp, ha], ⟨after, hrest, ?_⟩, ⟨rfl, hrest⟩⟩
      exact fun x hx => by simpa [Option.mem_def.1 hx] using ha
    | true =>
      refine .inr ⟨by simp [takeKeyword?, hp, ha], fun ⟨after', h, hn⟩ => ?_⟩
      obtain rfl := List.append_cancel_left (hrest.symm.trans h)
      obtain ⟨x, hx, hi⟩ := (Option.any_eq_true _ _).1 ha
      rw [hn x hx] at hi
      cases hi

theorem takeUntil?_cases (d : Char) (c : Cursor) :
    (∃ taken c', c.takeUntil? d = some (taken, c') ∧ c.rest = taken ++ d :: c'.rest ∧ d ∉ taken ∧
        Took c (taken ++ [d]) c') ∨
      (c.takeUntil? d = none ∧ d ∉ c.rest) := by
  cases h : cutAt d c.rest with
  | none => exact .inr ⟨by rw [takeUntil?, h]; rfl, cutAt_eq_none_iff.1 h⟩
  | some parts =>
    obtain ⟨hrest, hd⟩ := cutAt_eq_some_iff.1 h
    exact .inl ⟨parts.1, ⟨c.before ++ (parts.1 ++ [d]), parts.2⟩, by rw [takeUntil?, h]; rfl, hrest, hd,
      ⟨rfl, by simpa using hrest⟩⟩

theorem took_takeWhile (p : Char → Bool) (c : Cursor) : Took c (c.takeWhile p).1 (c.takeWhile p).2 :=
  ⟨rfl, List.takeWhile_append_dropWhile.symm⟩

/-- Each step reports and takes what it is to, and the cursor then stands behind it. -/
theorem perform_reads (c : Cursor) (s : Step) :
    ∃ taken, Reads c s (c.perform s).1 taken ∧ Took c taken (c.perform s).2 := by
  cases s with
  | isEmpty => exact ⟨[], .isEmpty List.isEmpty_iff, took_nothing c⟩
  | peek => exact ⟨[], .peek, took_nothing c⟩
  | take =>
    rcases c with ⟨before, _ | ⟨x, rest⟩⟩
    · exact ⟨[], .takeEnd rfl, took_nothing _⟩
    · exact ⟨[x], .take rfl, ⟨rfl, rfl⟩⟩
  | takeChar d =>
    rcases c.takeChar?_cases d with ⟨c', h, hr, ht⟩ | ⟨h, hr⟩
    · exact ⟨[d], by simpa [perform, h] using .takeChar hr, by simpa [perform, h] using ht⟩
    · exact ⟨[], by simpa [perform, h] using .missChar hr, by simpa [perform, h] using took_nothing c⟩
  | takeKeyword keyword =>
    rcases c.takeKeyword?_cases keyword with ⟨c', h, ho, ht⟩ | ⟨h, ho⟩
    · exact ⟨keyword, by simpa [perform, h] using .takeKeyword ho, by simpa [perform, h] using ht⟩
    · exact ⟨[], by simpa [perform, h] using .missKeyword ho, by simpa [perform, h] using took_nothing c⟩
  | skipBlanks => exact ⟨_, .skipBlanks (longestRun_takeWhile _ _), c.took_takeWhile isBlank⟩
  | takeWhile p => exact ⟨_, .takeWhile (longestRun_takeWhile _ _), c.took_takeWhile p⟩
  | takeIdentifier => exact ⟨_, .takeIdentifier (longestRun_takeWhile _ _), c.took_takeWhile isIdentifierChar⟩
  | takeUntil d =>
    rcases c.takeUntil?_cases d with ⟨taken, c', h, hr, hd, ht⟩ | ⟨h, hr⟩
    · exact ⟨taken ++ [d], by simpa [perform, h] using .takeUntil hr hd, by simpa [perform, h] using ht⟩
    · exact ⟨[], by simpa [perform, h] using .missDelimiter hr, by simpa [perform, h] using took_nothing c⟩

inductive Reply.IsMiss : Reply → Prop where
  | flag : Reply.IsMiss (.flag false)
  | char : Reply.IsMiss (.char none)
  | text : Reply.IsMiss (.text none)

/-- A look ahead and a step that found nothing take nothing. -/
theorem Reads.eq_nil {c : Cursor} {s : Step} {reply : Reply} {taken : Text} (h : Reads c s reply taken)
    (hm : s = .peek ∨ Reply.IsMiss reply) : taken = [] := by
  cases h with
  | isEmpty | peek | takeEnd | missChar | missKeyword | missDelimiter => rfl
  | take | takeChar | takeKeyword | skipBlanks | takeWhile | takeIdentifier | takeUntil => rcases hm with hm | hm <;> cases hm

theorem Took.eq_of_nil {c c' : Cursor} (h : Took c [] c') : c' = c := by
  rcases c with ⟨before, rest⟩
  rcases c' with ⟨before', rest'⟩
  obtain ⟨hb, hr⟩ := h
  simp_all

/-! ## Runs -/

def after (c : Cursor) (steps : List Step) : Cursor := steps.foldl (fun c s => (c.perform s).2) c

theorem text_perform (c : Cursor) (s : Step) : (c.perform s).2.text = c.text := by
  obtain ⟨taken, -, ht⟩ := c.perform_reads s
  exact ht.text

theorem text_after (c : Cursor) (steps : List Step) : (c.after steps).text = c.text := by
  induction steps generalizing c with
  | nil => rfl
  | cons s steps ih => exact (ih _).trans (c.text_perform s)

theorem run_append (c : Cursor) (earlier later : List Step) :
    c.run (earlier ++ later) = c.run earlier ++ (c.after earlier).run later := by
  induction earlier generalizing c with
  | nil => rfl
  | cons s earlier ih => rw [List.cons_append, run, ih, run, List.cons_append]; rfl

end Cursor

/-! ## The cursor by offset -/

structure OffsetCursor where
  data : Text
  position : Nat

namespace OffsetCursor

variable (c : OffsetCursor)

def ofText (t : Text) : OffsetCursor := ⟨t, 0⟩

def advance (n : Nat) : OffsetCursor := { c with position := c.position + n }

/-- The unread text; `none` where the position is no character boundary. -/
def rest? : Option Text := (splitBytes? c.position c.data).map Prod.snd

def takeWhile? (p : Char → Bool) : Option (Text × OffsetCursor) := do
  let rest ← c.rest?
  let stop := (byteIndex? (!p ·) rest).getD (byteLength rest)
  let (taken, _) ← splitBytes? stop rest
  return (taken, c.advance stop)

/-- What a step reports and where it leaves the cursor; `none` where it cuts a text at an
offset that is no character boundary. -/
def perform? : Cursor.Step → Option (Cursor.Reply × OffsetCursor)
  | .isEmpty => some (.flag c.data.isEmpty, c)
  | .peek => do return (.char (← c.rest?).head?, c)
  | .take => do
    match (← c.rest?).head? with
    | none => return (.char none, c)
    | some x => return (.char (some x), c.advance x.utf8Size)
  | .takeChar d => do
    if (← c.rest?).head? = some d then return (.flag true, c.advance d.utf8Size) else return (.flag false, c)
  | .takeKeyword keyword => do
    match keyword.isPrefixOf? (← c.rest?) with
    | none => return (.flag false, c)
    | some after =>
      if after.head?.any isIdentifierChar then return (.flag false, c)
      else return (.flag true, c.advance (byteLength keyword))
  | .skipBlanks => do return (.nothing, (← c.takeWhile? isBlank).2)
  | .takeWhile p => do
    let (taken, c') ← c.takeWhile? p
    return (.text (some taken), c')
  | .takeIdentifier => do
    let (taken, c') ← c.takeWhile? isIdentifierChar
    return (.text (some taken), c')
  | .takeUntil d => do
    let rest ← c.rest?
    match byteIndex? (· == d) rest with
    | none => return (.text none, c)
    | some index =>
      let (taken, _) ← splitBytes? index rest
      return (.text (some taken), c.advance (index + d.utf8Size))

def run? (c : OffsetCursor) : List Cursor.Step → Option (List (Cursor.Reply × OffsetCursor))
  | [] => some []
  | s :: steps => do
    let (reply, c') ← c.perform? s
    return (reply, c') :: (← c'.run? steps)

end OffsetCursor

namespace Cursor

def offset (c : Cursor) : OffsetCursor := ⟨c.text, byteLength c.before⟩

theorem rest?_offset (c : Cursor) : c.offset.rest? = some c.rest := by
  rw [OffsetCursor.rest?, offset, text, splitBytes?_append, Option.map_some]

theorem isValid_offset (c : Cursor) : String.Pos.Raw.IsValid (String.ofList c.text) ⟨c.offset.position⟩ := by
  rw [← isSome_splitBytes?, offset, text, splitBytes?_append]
  rfl

/-- Behind a text the offset is larger by the length of the text. -/
theorem Took.offset {c c' : Cursor} {taken : Text} (h : Took c taken c') :
    c'.offset = c.offset.advance (byteLength taken) := by
  rw [Cursor.offset, Cursor.offset, h.text, h.before, byteLength_append, OffsetCursor.advance]

theorem takeWhile?_offset (p : Char → Bool) (c : Cursor) :
    c.offset.takeWhile? p = some ((c.takeWhile p).1, (c.takeWhile p).2.offset) := by
  have hcut : splitBytes? (byteLength (c.rest.takeWhile p)) c.rest = some (c.rest.takeWhile p, c.rest.dropWhile p) :=
    splitBytes?_eq_some_iff.2 ⟨List.takeWhile_append_dropWhile.symm, rfl⟩
  simp only [OffsetCursor.takeWhile?, rest?_offset, Option.bind_eq_bind, Option.bind_some, byteIndex?_getD, hcut,
    (c.took_takeWhile p).offset]
  rfl

/-- Each step does the same by offset, and none of its cuts fails. -/
theorem perform?_offset (c : Cursor) (s : Step) :
    c.offset.perform? s = some ((c.perform s).1, (c.perform s).2.offset) := by
  cases s with
  | isEmpty => rfl
  | peek => simp [OffsetCursor.perform?, perform, rest?_offset, peek?]
  | take =>
    simp only [OffsetCursor.perform?, rest?_offset]
    rcases c with ⟨before, _ | ⟨x, rest⟩⟩
    · rfl
    · have ht : Took ⟨before, x :: rest⟩ [x] ⟨before ++ [x], rest⟩ := ⟨rfl, rfl⟩
      simp [perform, take?, ht.offset]
  | takeChar d =>
    simp only [OffsetCursor.perform?, rest?_offset]
    rcases c.takeChar?_cases d with ⟨c', h, hr, ht⟩ | ⟨h, hr⟩
    · simp [perform, h, hr, ht.offset]
    · simp [perform, h, hr]
  | takeKeyword keyword =>
    simp only [OffsetCursor.perform?, rest?_offset, perform, takeKeyword?, Option.bind_eq_bind, Option.bind_some]
    cases hp : keyword.isPrefixOf? c.rest with
    | none => rfl
    | some after =>
      have ht : Took c keyword ⟨c.before ++ keyword, after⟩ :=
        ⟨rfl, (List.isPrefixOf?_eq_some_iff_append_eq.1 hp).symm⟩
      cases ha : after.head?.any isIdentifierChar with
      | false => simp [ha, ht.offset]
      | true => simp [ha]
  | skipBlanks => simp [OffsetCursor.perform?, takeWhile?_offset, perform, skipBlanks]
  | takeWhile p => simp [OffsetCursor.perform?, takeWhile?_offset, perform]
  | takeIdentifier => simp [OffsetCursor.perform?, takeWhile?_offset, perform, takeIdentifier]
  | takeUntil d =>
    simp only [OffsetCursor.perform?, rest?_offset, byteIndex?_eq_cutAt, Option.bind_eq_bind, Option.bind_some]
    rcases c.takeUntil?_cases d with ⟨taken, c', h, hr, hd, ht⟩ | ⟨h, hr⟩
    · have hsplit : splitBytes? (byteLength taken) c.rest = some (taken, d :: c'.rest) :=
        splitBytes?_eq_some_iff.2 ⟨hr, rfl⟩
      simp [perform, h, cutAt_eq_some_iff.2 ⟨hr, hd⟩, hsplit, ht.offset]
    · simp [perform, h, cutAt_eq_none_iff.2 hr]

theorem run?_offset (c : Cursor) (steps : List Step) :
    c.offset.run? steps = some ((c.run steps).map fun (reply, c') => (reply, c'.offset)) := by
  induction steps generalizing c with
  | nil => rfl
  | cons s steps ih => simp [OffsetCursor.run?, perform?_offset, ih, run]

/-! ## The account of a run -/

/-- What holds at one step of a run over `t`, from `c` to `c'`: both cursors stand in `t`, at
character boundaries, with the rest of `t` unread; the reply is the right one, and the
cursor moved over the text that it reports and over nothing else. -/
structure Accounts (t : Text) (s : Step) (c : Cursor) (reply : Reply) (c' : Cursor) : Prop where
  whole : c.before ++ c.rest = t ∧ c'.before ++ c'.rest = t
  boundary : String.Pos.Raw.IsValid (String.ofList t) ⟨c.offset.position⟩ ∧
    String.Pos.Raw.IsValid (String.ofList t) ⟨c'.offset.position⟩
  rest : c.offset.rest? = some c.rest ∧ c'.offset.rest? = some c'.rest
  reads : ∃ taken, Reads c s reply taken ∧ c'.before = c.before ++ taken ∧ c.rest = taken ++ c'.rest
  unmoved : s = .peek ∨ Reply.IsMiss reply → c' = c

theorem accounts_perform {t : Text} {c : Cursor} (s : Step) (h : c.text = t) :
    Accounts t s c (c.perform s).1 (c.perform s).2 := by
  subst h
  obtain ⟨taken, hr, ht⟩ := c.perform_reads s
  exact
    { whole := ⟨rfl, ht.text⟩
      boundary := ⟨c.isValid_offset, ht.text ▸ isValid_offset _⟩
      rest := ⟨c.rest?_offset, rest?_offset _⟩
      reads := ⟨taken, hr, ht.before, ht.rest⟩
      unmoved := fun hm => Took.eq_of_nil (hr.eq_nil hm ▸ ht) }

/-- Whatever the steps, no slice by offset fails, the offsets are those of the cursor, and
every step accounts for the whole text. -/
theorem run_accounts (t : Text) :
    (∀ steps, (OffsetCursor.ofText t).run? steps =
      some (((ofText t).run steps).map fun (reply, c') => (reply, c'.offset))) ∧
    ∀ earlier s later, ∃ c reply c',
      (ofText t).run (earlier ++ s :: later) = (ofText t).run earlier ++ (reply, c') :: c'.run later ∧
      c = (ofText t).after earlier ∧ Accounts t s c reply c' := by
  refine ⟨(ofText t).run?_offset, fun earlier s later => ?_⟩
  have htext : ((ofText t).after earlier).text = t := text_after _ _
  exact ⟨_, _, _, run_append _ _ _, rfl, accounts_perform s htext⟩

end Cursor

end PropertyArchive
