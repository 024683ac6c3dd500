/-
  PropertyArchive.Proofs.Declaration.TokenLoop — the tokens of a body read in two loops, with a
  byte offset for a place and a number for the open brackets.

  A turn of the token loop reads a marker or a name. A name with a bracket section behind it
  leads into the bracket loop, where each turn reads one character. The section is then cut
  from the text at its first bracket, at the difference of two lengths. A turn has no result
  where a difference is negative or a cut is at no character boundary (`LoopPlace.turn?`).

  What a turn does with the unread text is said once for each loop (`TokenTurn`,
  `BracketTurn`). A turn of the token loop always has a result (`readToken?_offset`); one of
  the bracket loop has it if a bracket is open in front of each closing one
  (`readBracket?_offset`).
-/
import PropertyArchive.Proofs.Declaration.Grammar
import PropertyArchive.Proofs.Text.CursorAccount

namespace PropertyArchive

open Text

/-! ## The loops -/

inductive LoopPlace where
  /-- In the token loop. -/
  | atToken (tokens : List Token) (cursor : OffsetCursor)
  /-- In the bracket loop, with `depth` brackets open in the section of `name`, which starts `start`. -/
  | inBrackets (tokens : List Token) (name start : Text) (depth : Nat) (cursor : OffsetCursor)

inductive Turn where
  | goesOn (place : LoopPlace)
  | ends (answer : Except Refusal (List Token))

/-- The difference of two numbers; `none` where it is negative. -/
def difference? (m n : Nat) : Option Nat := if n ≤ m then some (m - n) else none

namespace LoopPlace

def start (body : Text) : LoopPlace := .atToken [] (.ofText body)

def cursor : LoopPlace → OffsetCursor
  | atToken _ cursor => cursor
  | inBrackets _ _ _ _ cursor => cursor

def readWord? (tokens : List Token) (cursor : OffsetCursor) : Option Turn := do
  let (name, cursor) ← cursor.takeWhile? isIdentifierChar
  let (_, cursor) ← cursor.takeWhile? isBlank
  let rest ← cursor.rest?
  if rest.head? = some '<' then return .goesOn (.inBrackets tokens name rest 0 cursor)
  else return .goesOn (.atToken (tokens ++ [.word name []]) cursor)

def readToken? (tokens : List Token) (cursor : OffsetCursor) : Option Turn := do
  let (_, cursor) ← cursor.takeWhile? isBlank
  match (← cursor.rest?).head? with
  | none => return .ends (.ok tokens)
  | some c =>
    if c = '*' then return .goesOn (.atToken (tokens ++ [.pointer]) (cursor.advance c.utf8Size))
    else if isIdentifierChar c then readWord? tokens cursor
    else return .ends (.error (ScanState.refusal c))

def readBracket? (tokens : List Token) (name start : Text) (depth : Nat) (cursor : OffsetCursor) : Option Turn := do
  match (← cursor.rest?).head? with
  | none => return .ends (.error .unbalancedGenerics)
  | some c =>
    let cursor := cursor.advance c.utf8Size
    if c = '<' then
      if Token.maxDepth < depth + 1 then return .ends (.error (.nestingLimit Token.maxDepth))
      else return .goesOn (.inBrackets tokens name start (depth + 1) cursor)
    else if c = '>' then
      let depth ← difference? depth 1
      if depth = 0 then
        let consumed ← difference? (byteLength start) (byteLength (← cursor.rest?))
        let (taken, _) ← splitBytes? consumed start
        return .goesOn (.atToken (tokens ++ [.word name taken]) cursor)
      else return .goesOn (.inBrackets tokens name start depth cursor)
    else if ScanState.isGenericsChar c then return .goesOn (.inBrackets tokens name start depth cursor)
    else return .ends (.error (ScanState.refusal c))

/-- One turn; `none` where a difference is negative or a cut is at no character boundary. -/
def turn? : LoopPlace → Option Turn
  | atToken tokens cursor => readToken? tokens cursor
  | inBrackets tokens name start depth cursor => readBracket? tokens name start depth cursor

def after? : LoopPlace → Nat → Option LoopPlace
  | p, 0 => some p
  | p, n + 1 =>
    match p.turn? with
    | some (.goesOn q) => q.after? n
    | _ => none

end LoopPlace

/-! ## What a turn does with the unread text -/

inductive TokenTurn (tokens : List Token) (c : Cursor) : Turn → Prop where
  | finished : IsGap c.rest → TokenTurn tokens c (.ends (.ok tokens))
  | marker {gap : Text} {c' : Cursor} : IsGap gap → c.Took (gap ++ ['*']) c' →
      TokenTurn tokens c (.goesOn (.atToken (tokens ++ [.pointer]) c'.offset))
  | bare {gap name gap' : Text} {c' : Cursor} : IsGap gap → Token.IsName name → IsGap gap' →
      c.Took (gap ++ (name ++ gap')) c' → (∀ x ∈ (gap' ++ c'.rest).head?, isIdentifierChar x = false) →
      (∀ x ∈ c'.rest.head?, isBlank x = false ∧ x ≠ '<') →
      TokenTurn tokens c (.goesOn (.atToken (tokens ++ [.word name []]) c'.offset))
  | opens {gap name gap' : Text} {c' : Cursor} : IsGap gap → Token.IsName name → IsGap gap' →
      c.Took (gap ++ (name ++ gap')) c' → c'.rest.head? = some '<' →
      TokenTurn tokens c (.goesOn (.inBrackets tokens name c'.rest 0 c'.offset))
  | refused {gap rest : Text} {x : Char} : IsGap gap → c.rest = gap ++ x :: rest → isBlank x = false → x ≠ '*' →
      isIdentifierChar x = false → TokenTurn tokens c (.ends (.error (ScanState.refusal x)))

inductive BracketTurn (tokens : List Token) (name start : Text) (depth : Nat) (c : Cursor) : Turn → Prop where
  | unclosed : c.rest = [] → BracketTurn tokens name start depth c (.ends (.error .unbalancedGenerics))
  | tooDeep {rest : Text} : c.rest = '<' :: rest → Token.maxDepth ≤ depth →
      BracketTurn tokens name start depth c (.ends (.error (.nestingLimit Token.maxDepth)))
  | opens {c' : Cursor} : c.Took ['<'] c' → depth < Token.maxDepth →
      BracketTurn tokens name start depth c (.goesOn (.inBrackets tokens name start (depth + 1) c'.offset))
  | closes {c' : Cursor} : c.Took ['>'] c' → 2 ≤ depth →
      BracketTurn tokens name start depth c (.goesOn (.inBrackets tokens name start (depth - 1) c'.offset))
  | completes {taken : Text} {c' : Cursor} : c.Took ['>'] c' → depth = 1 → start = taken ++ c'.rest →
      BracketTurn tokens name start depth c (.goesOn (.atToken (tokens ++ [.word name taken]) c'.offset))
  | keeps {x : Char} {c' : Cursor} : c.Took [x] c' → ScanState.isGenericsChar x = true →
      BracketTurn tokens name start depth c (.goesOn (.inBrackets tokens name start depth c'.offset))
  | refused {x : Char} {rest : Text} : c.rest = x :: rest → x ≠ '<' → x ≠ '>' → ScanState.isGenericsChar x = false →
      BracketTurn tokens name start depth c (.ends (.error (ScanState.refusal x)))

/-- Only a completed section leads back into the token loop. -/
theorem BracketTurn.of_atToken {tokens tokens' : List Token} {name start : Text} {depth : Nat} {c : Cursor}
    {cursor' : OffsetCursor} (h : BracketTurn tokens name start depth c (.goesOn (.atToken tokens' cursor'))) :
    ∃ taken c', c.Took ['>'] c' ∧ depth = 1 ∧ start = taken ++ c'.rest ∧ tokens' = tokens ++ [.word name taken] ∧
      cursor' = c'.offset := by
  cases h with
  | completes ht hd hs => exact ⟨_, _, ht, hd, hs, rfl, rfl⟩

namespace Cursor

variable {c : Cursor} {x : Char} {rest : Text}

/-- Behind a character the offset is larger by its size. -/
theorem offset_advance (h : c.rest = x :: rest) :
    c.offset.advance x.utf8Size = (⟨c.before ++ [x], rest⟩ : Cursor).offset := by
  have ht : c.Took [x] ⟨c.before ++ [x], rest⟩ := ⟨rfl, h⟩
  rw [ht.offset]
  simp

theorem Took.append {c c' c'' : Cursor} {taken taken' : Text} (h : c.Took taken c') (h' : c'.Took taken' c'') :
    c.Took (taken ++ taken') c'' :=
  ⟨by rw [h'.before, h.before, List.append_assoc], by rw [h.rest, h'.rest, List.append_assoc]⟩

/-- What taking a run leaves does not start with a character of the class. -/
theorem exists_takeWhile (p : Char → Bool) (c : Cursor) : ∃ run c', c.takeWhile p = (run, c') ∧ c.Took run c' ∧
    (∀ x ∈ run, p x = true) ∧ ∀ x ∈ c'.rest.head?, p x = false := by
  refine ⟨_, _, rfl, c.took_takeWhile p, fun x hx => List.mem_takeWhile_imp hx, fun x hx => ?_⟩
  have hn := List.head?_dropWhile_not p c.rest
  have hx : (c.rest.dropWhile p).head? = some x := hx
  rw [hx] at hn
  exact hn

end Cursor

namespace LoopPlace

theorem readWord?_offset (tokens : List Token) {before c : Cursor} {gap rest : Text} {x : Char} (hg : IsGap gap)
    (ht : before.Took gap c) (hx : c.rest = x :: rest) (hi : isIdentifierChar x = true) :
    ∃ turn, readWord? tokens c.offset = some turn ∧ TokenTurn tokens before turn := by
  obtain ⟨name, c₁, hname, ht₁, hn₁, hlong⟩ := c.exists_takeWhile isIdentifierChar
  obtain ⟨gap', c₂, hgap, ht₂, hg', hblank⟩ := c₁.exists_takeWhile isBlank
  have htook := ht.append (ht₁.append ht₂)
  have hn : Token.IsName name := by
    refine ⟨?_, hn₁⟩
    rintro rfl
    have hhead : x ∈ c₁.rest.head? := by
      rw [← List.nil_append c₁.rest, ← ht₁.rest, hx]
      rfl
    rw [hlong x hhead] at hi
    cases hi
  rw [ht₂.rest] at hlong
  simp only [readWord?, Cursor.takeWhile?_offset, hname, hgap, Cursor.rest?_offset, Option.bind_eq_bind, Option.bind_some]
  by_cases ho : c₂.rest.head? = some '<'
  · rw [if_pos ho]
    exact ⟨_, rfl, .opens hg hn hg' htook ho⟩
  · rw [if_neg ho]
    refine ⟨_, rfl, .bare hg hn hg' htook hlong fun y hy => ⟨hblank y hy, ?_⟩⟩
    rintro rfl
    exact ho hy

/-- A turn of the token loop always has a result. -/
theorem readToken?_offset (tokens : List Token) (c : Cursor) :
    ∃ turn, readToken? tokens c.offset = some turn ∧ TokenTurn tokens c turn := by
  obtain ⟨gap, c', hgap, htook, hg, hblank⟩ := c.exists_takeWhile isBlank
  simp only [readToken?, Cursor.takeWhile?_offset, hgap, Cursor.rest?_offset, Option.bind_eq_bind, Option.bind_some]
  cases hr : c'.rest with
  | nil =>
    have hc : c.rest = gap := by rw [htook.rest, hr, List.append_nil]
    exact ⟨_, rfl, .finished (hc ▸ hg)⟩
  | cons x rest =>
    simp only [List.head?_cons]
    by_cases hm : x = '*'
    · subst hm
      have hstar : c'.Took ['*'] ⟨c'.before ++ ['*'], rest⟩ := ⟨rfl, hr⟩
      rw [if_pos rfl, Cursor.offset_advance hr]
      exact ⟨_, rfl, .marker hg (htook.append hstar)⟩
    · rw [if_neg hm]
      cases hi : isIdentifierChar x with
      | true => exact readWord?_offset tokens hg htook hr hi
      | false =>
        have hc : c.rest = gap ++ x :: rest := by rw [htook.rest, hr]
        exact ⟨_, rfl, .refused hg hc (hblank x (by rw [hr]; rfl)) hm hi⟩

theorem difference?_of_le {m n : Nat} (h : n ≤ m) : difference? m n = some (m - n) := if_pos h

/-- The difference of the lengths of a text and its rest is where the rest starts. -/
theorem splitBytes?_difference (taken rest : Text) :
    byteLength rest ≤ byteLength (taken ++ rest) ∧
      splitBytes? (byteLength (taken ++ rest) - byteLength rest) (taken ++ rest) = some (taken, rest) := by
  rw [byteLength_append, Nat.add_sub_cancel]
  exact ⟨Nat.le_add_left _ _, splitBytes?_append taken rest⟩

/-- A turn of the bracket loop has a result if a bracket is open in front of a closing one, and the
    unread text ends the text that the section starts. -/
theorem readBracket?_offset (tokens : List Token) (name read : Text) {depth : Nat} {c : Cursor}
    (hd : c.rest.head? = some '>' → 1 ≤ depth) :
    ∃ turn, readBracket? tokens name (read ++ c.rest) depth c.offset = some turn ∧
      BracketTurn tokens name (read ++ c.rest) depth c turn := by
  simp only [readBracket?, Cursor.rest?_offset, Option.bind_eq_bind, Option.bind_some]
  cases hr : c.rest with
  | nil => exact ⟨_, rfl, .unclosed hr⟩
  | cons x rest =>
    have ht : c.Took [x] ⟨c.before ++ [x], rest⟩ := ⟨rfl, hr⟩
    simp only [List.head?_cons, Cursor.offset_advance hr, Cursor.rest?_offset, Option.bind_some]
    by_cases ho : x = '<'
    · subst ho
      rw [if_pos rfl]
      by_cases hm : Token.maxDepth < depth + 1
      · rw [if_pos hm]
        exact ⟨_, rfl, .tooDeep hr (Nat.le_of_lt_succ hm)⟩
      · rw [if_neg hm]
        exact ⟨_, rfl, .opens ht (Nat.lt_of_not_le fun h => hm (Nat.lt_succ_of_le h))⟩
    rw [if_neg ho]
    by_cases hk : x = '>'
    · subst hk
      have h1 : 1 ≤ depth := hd (by rw [hr]; rfl)
      rw [if_pos rfl, difference?_of_le h1, Option.bind_some]
      by_cases hz : depth - 1 = 0
      · obtain ⟨hle, hs⟩ := splitBytes?_difference (read ++ ['>']) rest
        have he : read ++ ['>'] ++ rest = read ++ '>' :: rest := by simp
        rw [he] at hle hs
        rw [if_pos hz, difference?_of_le hle, Option.bind_some, hs]
        exact ⟨_, rfl, .completes ht (by omega) he.symm⟩
      · rw [if_neg hz]
        exact ⟨_, rfl, .closes ht (by omega)⟩
    rw [if_neg hk]
    cases hg : ScanState.isGenericsChar x with
    | true => exact ⟨_, rfl, .keeps ht hg⟩
    | false => exact ⟨_, rfl, .refused hr ho hk hg⟩

end LoopPlace

end PropertyArchive
