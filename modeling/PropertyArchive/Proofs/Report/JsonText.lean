/-
  PropertyArchive.Proofs.Report.JsonText — the text of a JSON value gives the value back.

  `Json.read?` reads JSON by its grammar: layout between any two tokens, each escape of a quoted
  text, lists and objects of any depth. It knows nothing of the margins and lines that
  `Json.render` writes. `read?_render`: it finds the value in the printed text, so nothing that
  a report holds is lost when it is printed.

  The induction is over the value. What it carries is `Spells`: a text is read to its end and no
  further, whatever stands behind it, as long as no number goes on there. The items of a list and
  the fields of an object are one case (`readBlock_block`), with the reader of an item as a
  parameter.
-/
import PropertyArchive.Proofs.Text.Pieces
import PropertyArchive.Report.Json

namespace PropertyArchive

open Text

namespace Json

/-! ## Reading -/

def isLayout (c : Char) : Bool := c = ' ' || c = '\n' || c = '\r' || c = '\t'

def skip (t : Text) : Text := t.dropWhile isLayout

/-- What stands behind a character that has to come first. -/
def expect? (c : Char) : Text → Option Text
  | [] => none
  | x :: t => if x = c then some t else none

theorem expect?_cons (c : Char) (t : Text) : expect? c (c :: t) = some t := if_pos rfl

def hexDigit? (c : Char) : Option Nat := (List.range 16).find? fun n => Nat.digitChar n = c.toLower

def charOfCode? (digits : Text) : Option Char := do
  let code := (← digits.mapM hexDigit?).foldl (16 * · + ·) 0
  if code.isValidChar then some (Char.ofNat code) else none

def charOfEscape? (c : Char) : Option Char :=
  if c = 'n' then some '\n'
  else if c = 'r' then some '\r'
  else if c = 't' then some '\t'
  else if c = 'b' then some '\x08'
  else if c = 'f' then some '\x0c'
  else if c = '"' || c = '\\' || c = '/' then some c
  else none

/-- The rest of a quoted text, behind its opening quote. -/
def readQuoted : Text → Option (Text × Text)
  | [] => none
  | c :: t =>
    if c = '"' then some ([], t)
    else if c = '\\' then
      match t with
      | 'u' :: a :: b :: c :: d :: t => do
        let x ← charOfCode? [a, b, c, d]
        let (rest, t) ← readQuoted t
        some (x :: rest, t)
      | x :: t => do
        let x ← charOfEscape? x
        let (rest, t) ← readQuoted t
        some (x :: rest, t)
      | [] => none
    else do
      let (rest, t) ← readQuoted t
      some (c :: rest, t)

def readNumber (t : Text) : Option (Json × Text) :=
  let digits := t.takeWhile Char.isDigit
  if digits = [] then none else some (.number (Nat.ofDigitChars 10 digits 0), t.dropWhile Char.isDigit)

section

variable {α : Type} (one : Text → Option (α × Text)) (closing : Char)

/-- At most `n` items up to the closing character, with commas between them. -/
def readSeries : Nat → Text → Option (List α × Text)
  | 0, _ => none
  | n + 1, t => do
    let (a, t) ← one t
    match skip t with
    | [] => none
    | c :: t =>
      if c = closing then some ([a], t)
      else if c = ',' then do
        let (as, t) ← readSeries n (skip t)
        some (a :: as, t)
      else none

/-- The rest of a list or an object, behind the opening character. -/
def readBlock (t : Text) : Option (List α × Text) :=
  match skip t with
  | [] => none
  | c :: rest => if c = closing then some ([], rest) else readSeries one closing t.length (c :: rest)

end

def readField (one : Text → Option (Json × Text)) (t : Text) : Option ((Text × Json) × Text) := do
  let (key, t) ← readQuoted (← expect? '"' t)
  let (j, t) ← one (skip (← expect? ':' (skip t)))
  some ((key, j), t)

/-- A value at the head of the text, with less than `depth` levels in it. -/
def readValue : (depth : Nat) → Text → Option (Json × Text)
  | 0, _ => none
  | _ + 1, [] => none
  | depth + 1, c :: t =>
    if c = '"' then (readQuoted t).map (Prod.map .text id)
    else if c = '[' then (readBlock (readValue depth) ']' t).map (Prod.map .list id)
    else if c = '\x7b' then (readBlock (readField (readValue depth)) '\x7d' t).map (Prod.map .object id)
    else readNumber (c :: t)

/-- No value has more levels than its text has characters. -/
def read? (t : Text) : Option Json := do
  let (j, rest) ← readValue (t.length + 1) (skip t)
  if skip rest = [] then some j else none

/-! ## Quoted texts -/

theorem charOfCode?_hex {n : Nat} (h : n < 32) :
    charOfCode? ['0', '0', Nat.digitChar (n / 16), Nat.digitChar (n % 16)] = some (Char.ofNat n) := by
  have hall : ∀ n : Fin 32, charOfCode? ['0', '0', Nat.digitChar (n / 16), Nat.digitChar (n % 16)] =
      some (Char.ofNat n) := by decide
  exact hall ⟨n, h⟩

theorem readQuoted_plain {c : Char} (hq : c ≠ '"') (hb : c ≠ '\\') (t : Text) :
    readQuoted (c :: t) = (readQuoted t).map (Prod.map (c :: ·) id) := by
  rw [readQuoted.eq_def]
  simp only [hq, hb, if_false]
  cases readQuoted t <;> rfl

theorem readQuoted_letter (letter : Char) {c : Char} (h : charOfEscape? letter = some c) (t : Text) :
    readQuoted ('\\' :: letter :: t) = (readQuoted t).map (Prod.map (c :: ·) id) := by
  have hu : letter ≠ 'u' := by
    rintro rfl
    cases h
  rw [readQuoted, if_neg (by decide), if_pos rfl, h]
  · cases readQuoted t <;> rfl
  · exact fun _ _ _ _ _ he _ => hu he

theorem readQuoted_code {p q r s x : Char} (h : charOfCode? [p, q, r, s] = some x) (t : Text) :
    readQuoted ('\\' :: 'u' :: p :: q :: r :: s :: t) = (readQuoted t).map (Prod.map (x :: ·) id) := by
  rw [readQuoted, if_neg (by decide), if_pos rfl, h]
  cases readQuoted t <;> rfl

/-- An escaped character is read as the character. -/
theorem readQuoted_escape (c : Char) (t : Text) :
    readQuoted (escape c ++ t) = (readQuoted t).map (Prod.map (c :: ·) id) := by
  unfold escape
  split_ifs with hq hb hn hr ht hbs hff hc
  · exact readQuoted_letter '"' (congrArg some hq.symm) t
  · exact readQuoted_letter '\\' (congrArg some hb.symm) t
  · exact readQuoted_letter 'n' (congrArg some hn.symm) t
  · exact readQuoted_letter 'r' (congrArg some hr.symm) t
  · exact readQuoted_letter 't' (congrArg some ht.symm) t
  · exact readQuoted_letter 'b' (congrArg some hbs.symm) t
  · exact readQuoted_letter 'f' (congrArg some hff.symm) t
  · exact readQuoted_code ((charOfCode?_hex hc).trans (congrArg some (Char.ofNat_toNat c))) t
  · exact readQuoted_plain hq hb t

theorem readQuoted_flatMap (t rest : Text) : readQuoted (t.flatMap escape ++ '"' :: rest) = some (t, rest) := by
  induction t with
  | nil => rw [List.flatMap_nil, List.nil_append, readQuoted.eq_def]; rfl
  | cons c t ih =>
    rw [List.flatMap_cons, List.append_assoc, readQuoted_escape, ih]
    rfl

theorem quote_append (t rest : Text) : quote t ++ rest = '"' :: (t.flatMap escape ++ '"' :: rest) := by
  simp [quote]

/-! ## Layout -/

/-- Layout in front of a token is passed over, and no character of the token. -/
theorem skip_append {gap t : Text} (hg : ∀ c ∈ gap, isLayout c = true) (ht : ∀ c ∈ t.head?, isLayout c = false) :
    skip (gap ++ t) = t := by
  rw [skip, List.dropWhile_append_of_pos hg]
  cases t with
  | nil => rfl
  | cons c t => rw [List.dropWhile_cons_of_neg (by simp [ht c rfl])]

theorem isLayout_margin (depth : Nat) : ∀ c ∈ ("\n" : Text) ++ margin depth, isLayout c = true := by
  refine List.forall_mem_cons.2 ⟨by decide, fun c hc => ?_⟩
  rw [List.eq_of_mem_replicate hc]
  decide

/-! ## Values in their texts -/

variable {α : Type} {one : Text → Option (α × Text)}

/-- Behind a number there is no further digit. -/
def EndsNumber (rest : Text) : Prop := ∀ c ∈ rest.head?, c.isDigit = false

/-- A reader finds the value at the head of a text that goes on behind it. -/
structure Spells {α : Type} (one : Text → Option (α × Text)) (t : Text) (a : α) : Prop where
  starts : ∃ c s, t = c :: s ∧ isLayout c = false ∧ c ≠ ']' ∧ c ≠ '\x7d'
  reads : ∀ rest, EndsNumber rest → one (t ++ rest) = some (a, rest)

theorem Spells.skip_gap {t gap : Text} {a : α} (h : Spells one t a) (hg : ∀ c ∈ gap, isLayout c = true) (rest : Text) :
    skip (gap ++ (t ++ rest)) = t ++ rest := by
  obtain ⟨c, s, rfl, hc, -⟩ := h.starts
  exact skip_append hg fun x hx => Option.some.inj hx ▸ hc

/-- A token that starts with an opening mark. -/
theorem Spells.of_mark {t body : Text} {a : α} (mark : Char) (hm : mark ∈ ['"', '[', '\x7b']) (ht : t = mark :: body)
    (hr : ∀ rest, one (mark :: (body ++ rest)) = some (a, rest)) : Spells one t a where
  starts := by
    have hmarks : ∀ mark ∈ ['"', '[', '\x7b'], isLayout mark = false ∧ mark ≠ ']' ∧ mark ≠ '\x7d' := by simp [isLayout]
    exact ⟨mark, body, ht, hmarks mark hm⟩
  reads := fun rest _ => ht ▸ hr rest

theorem ne_nil_of_spells {ts : List Text} {as : List α} (h : List.Forall₂ (Spells one) ts as) : ∀ t ∈ ts, t ≠ [] := by
  induction h with
  | nil => exact List.forall_mem_nil _
  | cons ht _ ih =>
    obtain ⟨c, s, rfl, -⟩ := ht.starts
    exact List.forall_mem_cons.2 ⟨List.cons_ne_nil c s, ih⟩

/-! ## Numbers -/

/-- A digit is none of the characters that the other tokens start with. -/
theorem ne_of_isDigit {c : Char} (h : c.isDigit = true) :
    isLayout c = false ∧ ∀ mark ∈ ['"', '[', ']', '\x7b', '\x7d'], c ≠ mark := by
  have hne : ∀ mark : Char, mark.isDigit = false → c ≠ mark := by
    rintro mark hm rfl
    rw [h] at hm
    cases hm
  refine ⟨?_, ?_⟩
  · simp [isLayout, hne ' ' rfl, hne '\n' rfl, hne '\r' rfl, hne '\t' rfl]
  · simp [hne '"' rfl, hne '[' rfl, hne ']' rfl, hne '\x7b' rfl, hne '\x7d' rfl]

theorem isDigit_ofNat (n : Nat) : ∀ c ∈ ofNat n, c.isDigit = true :=
  fun _ hc => Nat.isDigit_of_mem_toDigits (by decide) (by decide) hc

theorem EndsNumber.append {gap rest : Text} (hg : ∀ c ∈ gap, isLayout c = true) (hr : EndsNumber rest) :
    EndsNumber (gap ++ rest) := by
  cases gap with
  | nil => exact hr
  | cons c gap =>
    intro x hx
    cases hx
    by_contra hd
    have hn := (ne_of_isDigit (by simpa using hd)).1
    rw [hg c List.mem_cons_self] at hn
    cases hn

theorem readNumber_ofNat (n : Nat) {rest : Text} (hr : EndsNumber rest) :
    readNumber (ofNat n ++ rest) = some (number n, rest) := by
  have ht : rest.takeWhile Char.isDigit = [] ∧ rest.dropWhile Char.isDigit = rest := by
    cases rest with
    | nil => exact ⟨rfl, rfl⟩
    | cons c rest => simp [hr c rfl]
  have hne : ofNat n ≠ [] := Nat.toDigits_ne_nil
  have hn : Nat.ofDigitChars 10 (ofNat n) 0 = n := Nat.ofDigitChars_toDigits (by decide) (by decide)
  unfold readNumber
  rw [List.takeWhile_append_of_pos (isDigit_ofNat n), List.dropWhile_append_of_pos (isDigit_ofNat n), ht.1, ht.2,
    List.append_nil]
  show (if ofNat n = [] then none else _) = _
  rw [if_neg hne, hn]

/-! ## Lists and objects -/

section

variable {closing : Char} {ts : List Text} {as : List α}

theorem readSeries_last {n : Nat} {t u rest : Text} {a : α} (ha : one t = some (a, u)) (hu : skip u = closing :: rest) :
    readSeries one closing (n + 1) t = some ([a], rest) := by
  rw [readSeries, ha]
  show (match skip u with | [] => _ | c :: t => _) = _
  rw [hu]
  exact if_pos rfl

theorem readSeries_next {n : Nat} {t v : Text} {a : α} (ha : one t = some (a, ',' :: v)) (hc : ',' ≠ closing) :
    readSeries one closing (n + 1) t = (readSeries one closing n (skip v)).map (Prod.map (a :: ·) id) := by
  rw [readSeries, ha]
  show (if ',' = closing then _ else _) = _
  rw [if_neg hc]
  show (readSeries one closing n (skip v)).bind _ = _
  cases readSeries one closing n (skip v) <;> rfl

/-- Items start with the first of them, so layout in front of it is passed over. -/
theorem exists_head_joinWith {t : Text} {a : α} (h : Spells one t a) (gap : Text) (ts : List Text) (rest : Text) :
    ∃ c s, joinWith gap (t :: ts) ++ rest = c :: s ∧ isLayout c = false ∧ c ≠ ']' ∧ c ≠ '\x7d' := by
  obtain ⟨c, s, rfl, hc⟩ := h.starts
  obtain ⟨more, hmore⟩ := prefix_joinWith gap (c :: s) ts
  exact ⟨c, s ++ more ++ rest, by rw [← hmore]; rfl, hc⟩

theorem skip_joinWith {t : Text} {a : α} (h : Spells one t a) {front gap : Text}
    (hf : ∀ c ∈ front, isLayout c = true) (ts : List Text) (rest : Text) :
    skip (front ++ (joinWith gap (t :: ts) ++ rest)) = joinWith gap (t :: ts) ++ rest := by
  obtain ⟨c, s, hs, hc, -⟩ := exists_head_joinWith h gap ts rest
  rw [hs]
  exact skip_append hf fun x hx => Option.some.inj hx ▸ hc

section

variable {gap last : Text}

/-- Items with a comma and layout between them are read one by one. -/
theorem readSeries_joinWith (h : List.Forall₂ (Spells one) ts as) (hn : ts ≠ [])
    (hc : closing = ']' ∨ closing = '\x7d') (hg : ∀ c ∈ gap, isLayout c = true) (hl : ∀ c ∈ last, isLayout c = true)
    {n : Nat} (hlen : ts.length ≤ n) (rest : Text) :
    readSeries one closing n (joinWith (',' :: gap) ts ++ (last ++ closing :: rest)) = some (as, rest) := by
  have hclosing : isLayout closing = false ∧ closing.isDigit = false ∧ ',' ≠ closing := by
    rcases hc with rfl | rfl <;> decide
  have hskip : skip (last ++ closing :: rest) = closing :: rest :=
    skip_append hl fun c hc => Option.some.inj hc ▸ hclosing.1
  have hend : EndsNumber (last ++ closing :: rest) := .append hl fun c hc => Option.some.inj hc ▸ hclosing.2.1
  induction h generalizing n with
  | nil => exact absurd rfl hn
  | @cons t a ts as ht hts ih =>
    obtain ⟨n, rfl⟩ : ∃ m, n = m + 1 := ⟨n - 1, by simp at hlen; omega⟩
    cases hts with
    | nil =>
      rw [joinWith, List.intercalate_singleton]
      exact readSeries_last (ht.reads _ hend) hskip
    | @cons t' a' ts as ht' hts =>
      have hmore := List.cons_ne_nil t' ts
      have hcomma : ∀ v : Text, EndsNumber (',' :: v) := by
        intro v c hc
        cases hc
        rfl
      rw [joinWith_cons t hmore, List.append_assoc, List.append_assoc, List.cons_append,
        readSeries_next (ht.reads _ (hcomma _)) hclosing.2.2, skip_joinWith ht' hg,
        ih hmore (by simpa using hlen)]
      rfl

/-- Layout may stand in front of the items, too. -/
theorem readBlock_joinWith (h : List.Forall₂ (Spells one) ts as) (hn : ts ≠ [])
    (hc : closing = ']' ∨ closing = '\x7d') (hg : ∀ c ∈ gap, isLayout c = true) (hl : ∀ c ∈ last, isLayout c = true)
    (rest : Text) :
    readBlock one closing (gap ++ (joinWith (',' :: gap) ts ++ (last ++ closing :: rest))) = some (as, rest) := by
  have hlen : ts.length ≤ (gap ++ (joinWith (',' :: gap) ts ++ (last ++ closing :: rest))).length := by
    have hj := length_le_length_joinWith (',' :: gap) (ne_nil_of_spells h)
    simp only [List.length_append]
    omega
  have hseries := readSeries_joinWith h hn hc hg hl hlen rest
  cases h with
  | nil => exact absurd rfl hn
  | @cons t a ts as ht hts =>
    obtain ⟨c, s, hs, -, hb⟩ := exists_head_joinWith ht (',' :: gap) ts (last ++ closing :: rest)
    have hne : c ≠ closing := by rcases hc with rfl | rfl <;> simp [hb]
    rw [readBlock, skip_joinWith ht hg, hs]
    rw [hs] at hseries
    exact (if_neg hne).trans hseries

end

theorem block_of_ne_nil (hn : ts ≠ []) (opening : Char) (depth : Nat) : block depth [opening] [closing] ts =
    opening :: (("\n" ++ margin (depth + 1)) ++
      (joinWith (',' :: ("\n" ++ margin (depth + 1))) ts ++ (("\n" ++ margin depth) ++ [closing]))) := by
  rw [block, if_neg hn, joinWith_map_append hn]
  simp

/-- What is printed between two brackets is read. -/
theorem readBlock_block (h : List.Forall₂ (Spells one) ts as) (hc : closing = ']' ∨ closing = '\x7d') (opening : Char)
    (depth : Nat) : ∃ body, block depth [opening] [closing] ts = opening :: body ∧
      ∀ rest, readBlock one closing (body ++ rest) = some (as, rest) := by
  by_cases hn : ts = []
  · subst hn
    cases h
    refine ⟨[closing], rfl, fun rest => ?_⟩
    have hs : skip (closing :: rest) = closing :: rest := by rcases hc with rfl | rfl <;> rfl
    show (match skip (closing :: rest) with | [] => _ | c :: t => _) = _
    rw [hs]
    exact if_pos rfl
  · refine ⟨_, block_of_ne_nil hn opening depth, fun rest => ?_⟩
    have hr := readBlock_joinWith h hn hc (isLayout_margin (depth + 1)) (isLayout_margin depth) rest
    simpa only [List.append_assoc, List.singleton_append] using hr

end

theorem Spells.field {one : Text → Option (Json × Text)} {t : Text} {j : Json} (h : Spells one t j) (key : Text) :
    Spells (readField one) (quote key ++ ": " ++ t) (key, j) where
  starts := by
    refine ⟨'"', key.flatMap escape ++ '"' :: (": " ++ t), ?_, rfl, by decide, by decide⟩
    rw [List.append_assoc, quote_append]
  reads := by
    intro rest hr
    have hs : skip ([' '] ++ (t ++ rest)) = t ++ rest := h.skip_gap (List.forall_mem_singleton.2 rfl) rest
    have ht : quote key ++ ": " ++ t ++ rest = '"' :: (key.flatMap escape ++ '"' :: ':' :: ([' '] ++ (t ++ rest))) := by
      rw [List.append_assoc, List.append_assoc, quote_append]
      rfl
    rw [ht, readField, expect?_cons]
    show (readQuoted _).bind _ = _
    rw [readQuoted_flatMap]
    show (one (skip ([' '] ++ (t ++ rest)))).bind _ = _
    rw [hs, h.reads rest hr]
    rfl

theorem length_lt_length_block {depth : Nat} {opening closing : Char} {ts : List Text} {t : Text} (h : t ∈ ts) :
    t.length < (block depth [opening] [closing] ts).length := by
  have hi : t <:+: joinWith ",\n" (ts.map (margin (depth + 1) ++ ·)) :=
    (List.suffix_append _ t).isInfix.trans (infix_joinWith (List.mem_map_of_mem h))
  rw [block, if_neg (List.ne_nil_of_mem h)]
  have := hi.length_le
  simp only [List.length_append, List.length_singleton]
  omega

/-! ## The round trip -/

theorem spells_number (n levels : Nat) : Spells (readValue (levels + 1)) (ofNat n) (number n) := by
  obtain ⟨c, s, hs⟩ : ∃ c s, ofNat n = c :: s := List.exists_cons_of_ne_nil Nat.toDigits_ne_nil
  have hc : c.isDigit = true := isDigit_ofNat n c (hs ▸ List.mem_cons_self)
  obtain ⟨hl, hne⟩ := ne_of_isDigit hc
  refine ⟨⟨c, s, hs, hl, hne _ (by decide), hne _ (by decide)⟩, fun rest hr => ?_⟩
  have hread : readNumber (c :: (s ++ rest)) = some (number n, rest) := by
    rw [← List.cons_append, ← hs]
    exact readNumber_ofNat n hr
  rw [hs, List.cons_append, readValue, if_neg (hne _ (by decide)), if_neg (hne _ (by decide)),
    if_neg (hne _ (by decide)), hread]

theorem spells_text (t : Text) (levels : Nat) : Spells (readValue (levels + 1)) (quote t) (text t) := by
  have hq : quote t = '"' :: (t.flatMap escape ++ ['"']) := rfl
  refine .of_mark '"' (by decide) hq fun rest => ?_
  show (readQuoted _).map _ = _
  rw [List.append_assoc, List.singleton_append, readQuoted_flatMap]
  rfl

theorem spells_list {levels depth : Nat} {ts : List Text} {items : List Json}
    (h : List.Forall₂ (Spells (readValue levels)) ts items) :
    Spells (readValue (levels + 1)) (block depth "[" "]" ts) (list items) := by
  obtain ⟨body, hb, hr⟩ := readBlock_block h (.inl rfl) '[' depth
  refine .of_mark '[' (by decide) hb fun rest => ?_
  show (readBlock _ _ _).map _ = _
  rw [hr]
  rfl

theorem spells_object {levels depth : Nat} {ts : List Text} {fields : List (Text × Json)}
    (h : List.Forall₂ (Spells (readField (readValue levels))) ts fields) :
    Spells (readValue (levels + 1)) (block depth "\x7b" "\x7d" ts) (object fields) := by
  obtain ⟨body, hb, hr⟩ := readBlock_block h (.inr rfl) '\x7b' depth
  refine .of_mark '\x7b' (by decide) hb fun rest => ?_
  show (readBlock _ _ _).map _ = _
  rw [hr]
  rfl

mutual

theorem spells_renderAt (depth : Nat) : ∀ (j : Json) {levels : Nat}, (renderAt depth j).length < levels →
    Spells (readValue levels) (renderAt depth j) j
  | number n, levels + 1, _ => spells_number n levels
  | text t, levels + 1, _ => spells_text t levels
  | list items, levels + 1, hl => by
    have hlt : ∀ t ∈ renderItems (depth + 1) items, t.length < levels := fun t ht =>
      Nat.lt_of_lt_of_le (length_lt_length_block ht) (Nat.le_of_lt_succ hl)
    exact spells_list (spells_renderItems (depth + 1) items hlt)
  | object fields, levels + 1, hl => by
    have hlt : ∀ t ∈ renderFields (depth + 1) fields, t.length < levels := fun t ht =>
      Nat.lt_of_lt_of_le (length_lt_length_block ht) (Nat.le_of_lt_succ hl)
    exact spells_object (spells_renderFields (depth + 1) fields hlt)

theorem spells_renderItems (depth : Nat) : ∀ (items : List Json) {levels : Nat},
    (∀ t ∈ renderItems depth items, t.length < levels) →
      List.Forall₂ (Spells (readValue levels)) (renderItems depth items) items
  | [], _, _ => .nil
  | j :: items, levels, hl => by
    obtain ⟨hj, hitems⟩ := List.forall_mem_cons.1 hl
    exact .cons (spells_renderAt depth j hj) (spells_renderItems depth items hitems)

theorem spells_renderFields (depth : Nat) : ∀ (fields : List (Text × Json)) {levels : Nat},
    (∀ t ∈ renderFields depth fields, t.length < levels) →
      List.Forall₂ (Spells (readField (readValue levels))) (renderFields depth fields) fields
  | [], _, _ => .nil
  | (key, j) :: fields, levels, hl => by
    obtain ⟨hj, hfields⟩ := List.forall_mem_cons.1 hl
    have hj : (renderAt depth j).length < levels := by
      simp only [List.length_append] at hj
      omega
    exact .cons ((spells_renderAt depth j hj).field key) (spells_renderFields depth fields hfields)

end

/-- The reader finds the value in its printed text. -/
theorem read?_render (j : Json) : read? (j.render ++ ("\n" : Text)) = some j := by
  have h : Spells (readValue ((j.render ++ ("\n" : Text)).length + 1)) j.render j :=
    spells_renderAt 0 j (Nat.lt_succ_of_le (List.prefix_append ..).length_le)
  have hskip : skip (j.render ++ ("\n" : Text)) = j.render ++ ("\n" : Text) :=
    h.skip_gap (List.forall_mem_nil _) ("\n" : Text)
  have hend : EndsNumber ("\n" : Text) := by
    intro c hc
    cases hc
    rfl
  rw [read?, hskip, h.reads _ hend]
  rfl

end Json

end PropertyArchive
