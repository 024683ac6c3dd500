/-
  PropertyArchive.Proofs.Text.Pieces — the words and the lines of a text.

  A text is cut into words at its blanks and into lines at its line feeds. No character is
  lost but those that it is cut at (`exists_mem_words`), no line holds a line feed
  (`not_mem_of_mem_lines`), and lines that hold none come back from their joined text
  (`lines_joinWith`). A text is one line, or a line and a text behind its line feed
  (`induction_on_lines`); behind any line feed the cut begins anew (`lines_append_newline`),
  and there is one line more than there are line feeds (`length_lines`).

  `sourceLines` are the lines as a file has them: a carriage return in front of a line feed
  is part of the line end, and a line feed at the end starts no further line. Behind each
  line feed both cuts go on alike, and a line differs at most in the carriage return at
  its end (`sourceLines_append`).

  Equal joined texts have equal pieces where the gap starts with a character that no piece
  holds (`joinWith_cancel`), since a cut at the first occurrence of a character fixes both
  sides of it (`append_cons_cancel`).

  `toCrlf` and `toLf` put a carriage return in front of each line feed and take it away.
  The trimmed lines are the same (`map_trim_lines_toCrlf`, `map_trim_lines_toLf`).
-/
import PropertyArchive.Proofs.Text.Trim

namespace PropertyArchive.Text

/-! ## Pieces -/

/-- What the cuts make of a text behind its first character. -/
theorem splitOnP_cons_cases (p : Char → Bool) (c : Char) (t : Text) :
    (p c = true ∧ (c :: t).splitOnP p = [] :: t.splitOnP p) ∨
      (p c = false ∧ ∃ first pieces, t.splitOnP p = first :: pieces ∧ (c :: t).splitOnP p = (c :: first) :: pieces) := by
  rw [List.splitOnP_cons_eq_if_modifyHead]
  cases hc : p c with
  | true => exact .inl ⟨rfl, rfl⟩
  | false =>
    obtain ⟨first, pieces, hs⟩ := List.exists_cons_of_ne_nil (List.splitOnP_ne_nil p t)
    rw [hs]
    exact .inr ⟨rfl, first, pieces, rfl, rfl⟩

/-- A character that the text is not cut at stands in one of the pieces. -/
theorem exists_mem_splitOnP {p : Char → Bool} {c : Char} {t : Text} (h : c ∈ t) (hc : p c = false) :
    ∃ piece ∈ t.splitOnP p, c ∈ piece := by
  induction t with
  | nil => cases h
  | cons x t ih =>
    rcases splitOnP_cons_cases p x t with ⟨hx, e⟩ | ⟨-, first, pieces, hs, e⟩
    · have hne : c ≠ x := fun hcx => by rw [hcx, hx] at hc; cases hc
      obtain ⟨piece, hm, hp⟩ := ih ((List.mem_cons.1 h).resolve_left hne)
      exact ⟨piece, e ▸ List.mem_cons_of_mem _ hm, hp⟩
    · rw [hs] at ih
      rw [e]
      rcases List.mem_cons.1 h with rfl | h
      · exact ⟨c :: first, List.mem_cons_self, List.mem_cons_self⟩
      · obtain ⟨piece, hm, hp⟩ := ih h
        rcases List.mem_cons.1 hm with rfl | hm
        · exact ⟨x :: piece, List.mem_cons_self, List.mem_cons_of_mem _ hp⟩
        · exact ⟨piece, List.mem_cons_of_mem _ hm, hp⟩

theorem not_of_mem_splitOnP {p : Char → Bool} {t piece : Text} (h : piece ∈ t.splitOnP p) :
    ∀ c ∈ piece, p c = false := by
  induction t generalizing piece with
  | nil =>
    rw [List.splitOnP_nil, List.mem_singleton] at h
    simp [h]
  | cons x t ih =>
    rcases splitOnP_cons_cases p x t with ⟨-, e⟩ | ⟨hx, first, pieces, hs, e⟩
    · rw [e] at h
      rcases List.mem_cons.1 h with rfl | h
      · simp
      · exact ih h
    · rw [hs] at ih
      rw [e] at h
      rcases List.mem_cons.1 h with rfl | h
      · exact List.forall_mem_cons.2 ⟨hx, ih List.mem_cons_self⟩
      · exact ih (List.mem_cons_of_mem _ h)

theorem not_mem_of_mem_splitOn {d : Char} {t piece : Text} (h : piece ∈ t.splitOn d) : d ∉ piece := by
  rw [List.splitOn_eq_splitOnP] at h
  intro hm
  have hn := not_of_mem_splitOnP h d hm
  simp at hn

/-- Behind a character that the text is cut at the cut begins anew. -/
theorem splitOn_append_cons (d : Char) (a b : Text) : (a ++ d :: b).splitOn d = a.splitOn d ++ b.splitOn d := by
  simp only [List.splitOn_eq_splitOnP]
  exact List.splitOnP_append_cons a b (by simp)

/-- A character of a joined text stands in the gap or in one of the pieces. -/
theorem mem_joinWith {gap : Text} {pieces : List Text} {c : Char} (h : c ∈ joinWith gap pieces) :
    c ∈ gap ∨ ∃ piece ∈ pieces, c ∈ piece := by
  induction pieces with
  | nil => cases h
  | cons first pieces ih =>
    cases pieces with
    | nil => exact .inr ⟨first, List.mem_cons_self, by simpa [joinWith] using h⟩
    | cons second pieces =>
      rw [joinWith, List.intercalate_cons_cons, List.append_assoc, List.mem_append, List.mem_append] at h
      rcases h with h | h | h
      · exact .inr ⟨first, List.mem_cons_self, h⟩
      · exact .inl h
      · rcases ih h with h | ⟨piece, hm, h⟩
        · exact .inl h
        · exact .inr ⟨piece, List.mem_cons_of_mem _ hm, h⟩

/-- What holds of the last piece, and passes from a text to the text with a piece and a gap in
    front of it, holds of the joined text. -/
theorem joinWith_induction {P : Text → Prop} {gap : Text} {pieces : List Text} (hn : pieces ≠ [])
    (last : ∀ piece ∈ pieces, P piece) (join : ∀ piece ∈ pieces, ∀ t, P t → P (piece ++ (gap ++ t))) :
    P (joinWith gap pieces) := by
  induction pieces with
  | nil => exact absurd rfl hn
  | cons first pieces ih =>
    obtain ⟨hfirst, hlast⟩ := List.forall_mem_cons.1 last
    obtain ⟨jfirst, hjoin⟩ := List.forall_mem_cons.1 join
    cases pieces with
    | nil => simpa [joinWith] using hfirst
    | cons second pieces =>
      rw [joinWith, List.intercalate_cons_cons, List.append_assoc]
      exact jfirst _ (ih (List.cons_ne_nil second pieces) hlast hjoin)

/-- A gap stands behind the first of several pieces … -/
theorem joinWith_cons {gap : Text} {pieces : List Text} (first : Text) (h : pieces ≠ []) :
    joinWith gap (first :: pieces) = first ++ (gap ++ joinWith gap pieces) := by
  cases pieces with
  | nil => exact absurd rfl h
  | cons second pieces => rw [joinWith, List.intercalate_cons_cons, List.append_assoc, joinWith]

/-- … and in front of the last. -/
theorem joinWith_concat {gap : Text} {pieces : List Text} (h : pieces ≠ []) (last : Text) :
    joinWith gap (pieces ++ [last]) = joinWith gap pieces ++ (gap ++ last) := by
  induction pieces with
  | nil => exact absurd rfl h
  | cons first pieces ih =>
    by_cases hp : pieces = []
    · subst hp
      simp [joinWith, List.intercalate_cons_cons]
    · rw [List.cons_append, joinWith_cons first (by simp), ih hp, joinWith_cons first hp, List.append_assoc,
        List.append_assoc]

/-- A gap behind joined texts is a gap behind each of them. -/
theorem joinWith_append_gap {gap : Text} {pieces : List Text} (h : pieces ≠ []) :
    joinWith gap pieces ++ gap = pieces.flatMap (· ++ gap) := by
  induction pieces with
  | nil => exact absurd rfl h
  | cons first pieces ih =>
    cases pieces with
    | nil => simp [joinWith]
    | cons second pieces =>
      rw [List.flatMap_cons, ← ih (List.cons_ne_nil second pieces), joinWith, List.intercalate_cons_cons,
        List.append_assoc, List.append_assoc, List.append_assoc]
      rfl

/-- The front of every piece stands once in front, and then behind each gap. -/
theorem joinWith_map_append {gap front : Text} {ts : List Text} (hn : ts ≠ []) :
    joinWith gap (ts.map (front ++ ·)) = front ++ joinWith (gap ++ front) ts := by
  induction ts with
  | nil => exact absurd rfl hn
  | cons t ts ih =>
    by_cases h : ts = []
    · subst h
      simp [joinWith]
    · rw [List.map_cons, joinWith_cons _ (by simpa using h), joinWith_cons _ h, ih h]
      simp only [List.append_assoc]

theorem prefix_joinWith (gap t : Text) (ts : List Text) : t <+: joinWith gap (t :: ts) := by
  cases ts with
  | nil => simp [joinWith]
  | cons s ts =>
    rw [joinWith_cons t (List.cons_ne_nil s ts)]
    exact List.prefix_append ..

theorem infix_joinWith {gap t : Text} {ts : List Text} (h : t ∈ ts) : t <:+: joinWith gap ts := by
  induction ts with
  | nil => cases h
  | cons s ts ih =>
    rcases List.mem_cons.1 h with rfl | h
    · exact (prefix_joinWith gap t ts).isInfix
    · rw [joinWith_cons s (List.ne_nil_of_mem h)]
      exact (ih h).trans ((List.suffix_append ..).trans (List.suffix_append ..)).isInfix

theorem length_le_length_joinWith (gap : Text) {ts : List Text} (h : ∀ t ∈ ts, t ≠ []) :
    ts.length ≤ (joinWith gap ts).length := by
  induction ts with
  | nil => exact Nat.zero_le _
  | cons t ts ih =>
    obtain ⟨ht, hts⟩ := List.forall_mem_cons.1 h
    have htl : 0 < t.length := List.length_pos_of_ne_nil ht
    by_cases hn : ts = []
    · subst hn
      simpa [joinWith] using Nat.one_le_of_lt htl
    · have := ih hts
      rw [joinWith_cons t hn]
      simp only [List.length_append, List.length_cons]
      omega

/-! ## Pieces of equal texts -/

/-- A cut at the first occurrence of a character fixes what stands on either side of it. -/
theorem append_cons_cancel {d : Char} {a a' b b' : Text} (ha : d ∉ a) (ha' : d ∉ a')
    (h : a ++ d :: b = a' ++ d :: b') : a = a' ∧ b = b' := by
  have hc : cutAt d (a ++ d :: b) = some (a, b) := cutAt_eq_some_iff.2 ⟨rfl, ha⟩
  have hc' : cutAt d (a ++ d :: b) = some (a', b') := cutAt_eq_some_iff.2 ⟨h, ha'⟩
  rw [hc] at hc'
  cases hc'
  exact ⟨rfl, rfl⟩

theorem flatMap_append_cancel {d : Char} {gap : Text} {ps qs : List Text} (hp : ∀ p ∈ ps, d ∉ p) (hq : ∀ q ∈ qs, d ∉ q)
    (h : ps.flatMap (· ++ d :: gap) = qs.flatMap (· ++ d :: gap)) : ps = qs := by
  induction ps generalizing qs with
  | nil =>
    cases qs with
    | nil => rfl
    | cons q qs => simp at h
  | cons p ps ih =>
    cases qs with
    | nil => simp at h
    | cons q qs =>
      obtain ⟨hp, hps⟩ := List.forall_mem_cons.1 hp
      obtain ⟨hq, hqs⟩ := List.forall_mem_cons.1 hq
      rw [List.flatMap_cons, List.flatMap_cons, List.append_assoc, List.append_assoc] at h
      obtain ⟨rfl, hrest⟩ := append_cons_cancel hp hq h
      rw [ih hps hqs (List.append_cancel_left hrest)]

/-- Pieces come back from their joined text where none of them is empty or holds the character
    that the gap starts with. -/
theorem joinWith_cancel {d : Char} {gap : Text} {ps qs : List Text} (hp : ∀ p ∈ ps, p ≠ [] ∧ d ∉ p)
    (hq : ∀ q ∈ qs, q ≠ [] ∧ d ∉ q) (h : joinWith (d :: gap) ps = joinWith (d :: gap) qs) : ps = qs := by
  have hne : ∀ {p : Text} {ps : List Text}, p ≠ [] → joinWith (d :: gap) (p :: ps) ≠ [] := by
    intro p ps hp
    cases ps <;> simp [joinWith, List.intercalate_cons_cons, hp]
  cases ps with
  | nil =>
    cases qs with
    | nil => rfl
    | cons q qs => exact absurd h.symm (hne (hq q List.mem_cons_self).1)
  | cons p ps =>
    cases qs with
    | nil => exact absurd h (hne (hp p List.mem_cons_self).1)
    | cons q qs =>
      have hgap := congrArg (· ++ d :: gap) h
      simp only [joinWith_append_gap (List.cons_ne_nil _ _)] at hgap
      exact flatMap_append_cancel (fun p hm => (hp p hm).2) (fun q hm => (hq q hm).2) hgap

/-! ## Words -/

/-- Every character but the blanks stands in a word. -/
theorem exists_mem_words {c : Char} {t : Text} (h : c ∈ t) (hc : isBlank c = false) : ∃ w ∈ words t, c ∈ w := by
  obtain ⟨w, hw, hcw⟩ := exists_mem_splitOnP h hc
  exact ⟨w, List.mem_filter.2 ⟨hw, by simpa using List.ne_nil_of_mem hcw⟩, hcw⟩

/-! ## Lines -/

theorem not_mem_of_mem_lines {t line : Text} (h : line ∈ lines t) : '\n' ∉ line := not_mem_of_mem_splitOn h

/-- Lines without line feeds are the lines of their joined text. -/
theorem lines_joinWith {ls : List Text} (h : ∀ l ∈ ls, '\n' ∉ l) (hn : ls ≠ []) : lines (joinWith "\n" ls) = ls :=
  List.splitOn_intercalate '\n' h hn

theorem lines_of_not_mem {t : Text} (h : '\n' ∉ t) : lines t = [t] := List.splitOn_eq_singleton h

/-- The first line and the lines behind its line feed. -/
theorem lines_append {a : Text} (h : '\n' ∉ a) (b : Text) : lines (a ++ '\n' :: b) = a :: lines b :=
  List.splitOn_append_cons_self_of_not_mem h b

/-- Lines that are each ended by a line feed, and what follows the last of them. -/
theorem lines_flatMap_newline {ls : List Text} (h : ∀ l ∈ ls, '\n' ∉ l) :
    lines (ls.flatMap (· ++ ("\n" : Text))) = ls ++ [[]] := by
  induction ls with
  | nil => exact lines_of_not_mem List.not_mem_nil
  | cons l ls ih =>
    obtain ⟨hl, hls⟩ := List.forall_mem_cons.1 h
    rw [List.flatMap_cons, List.append_assoc]
    exact (lines_append hl _).trans (congrArg (l :: ·) (ih hls))

/-- Behind a line feed the cut begins anew. -/
theorem lines_append_newline (a b : Text) : lines (a ++ '\n' :: b) = lines a ++ lines b := splitOn_append_cons '\n' a b

@[elab_as_elim]
theorem induction_on_lines {P : Text → Prop} (last : ∀ t, '\n' ∉ t → P t)
    (more : ∀ a b, '\n' ∉ a → P b → P (a ++ '\n' :: b)) (t : Text) : P t := by
  by_cases ht : '\n' ∈ t
  · obtain ⟨a, b, rfl, ha⟩ := List.eq_append_cons_of_mem ht
    exact more a b ha (induction_on_lines last more b)
  · exact last t ht
termination_by t.length
decreasing_by
  subst_vars
  simp
  omega

theorem length_lines (t : Text) : (lines t).length = t.count '\n' + 1 := by
  induction t using induction_on_lines with
  | last t ht => rw [lines_of_not_mem ht, List.count_eq_zero.2 ht, List.length_singleton]
  | more a b ha ih => simp [lines_append ha, ih, List.count_eq_zero.2 ha]

/-! ## Lines as a file has them -/

/-- The lines of a text, each ended by a line feed or by a carriage return and a line feed;
    the last one may also end with the text. -/
def sourceLines : Text → List Text
  | [] => []
  | c :: t =>
    if c = '\n' then [] :: sourceLines t
    else if c = '\r' ∧ t.head? = some '\n' then sourceLines t
    else
      match sourceLines t with
      | [] => [[c]]
      | line :: lines => (c :: line) :: lines

theorem sourceLines_of_not_mem {t : Text} (h : '\n' ∉ t) (hn : t ≠ []) : sourceLines t = [t] := by
  induction t with
  | nil => exact absurd rfl hn
  | cons c t ih =>
    obtain ⟨hc, ht⟩ := List.ne_and_not_mem_of_not_mem_cons h
    have hh : ¬ (c = '\r' ∧ t.head? = some '\n') := fun e => ht (List.mem_of_mem_head? e.2)
    rw [sourceLines, if_neg hc.symm, if_neg hh]
    cases t with
    | nil => rfl
    | cons d t => rw [ih ht (List.cons_ne_nil d t)]

/-- Whether a line feed comes first, where a text is cut at its first line feed. -/
theorem head?_append_newline_iff {a b : Text} (h : '\n' ∉ a) : (a ++ '\n' :: b).head? = some '\n' ↔ a = [] := by
  cases a with
  | nil => simp
  | cons c a => simpa using fun e : c = '\n' => h (e ▸ List.mem_cons_self)

theorem sourceLines_append {a : Text} (h : '\n' ∉ a) (b : Text) :
    ∃ line, (a = line ∨ a = line ++ ['\r']) ∧ sourceLines (a ++ '\n' :: b) = line :: sourceLines b := by
  induction a with
  | nil => exact ⟨[], .inl rfl, rfl⟩
  | cons c a ih =>
    obtain ⟨hc, ha⟩ := List.ne_and_not_mem_of_not_mem_cons h
    obtain ⟨line, hl, e⟩ := ih ha
    rw [List.cons_append, sourceLines, if_neg hc.symm]
    simp only [head?_append_newline_iff ha]
    by_cases hr : c = '\r' ∧ a = []
    · obtain ⟨rfl, rfl⟩ := hr
      exact ⟨[], .inr rfl, rfl⟩
    · rw [if_neg hr, e]
      refine ⟨c :: line, ?_, rfl⟩
      rcases hl with rfl | rfl
      · exact .inl rfl
      · exact .inr rfl

example : sourceLines "a\r\n\r\nb\rc\r\n" = ["a".toList, [], "b\rc".toList] := by decide

/-! ## Trimmed lines -/

/-- A carriage return at the end of a line is trimmed away. -/
theorem trim_eq_of_return {a line : Text} (h : a = line ∨ a = line ++ ['\r']) : trim a = trim line := by
  rcases h with rfl | rfl
  · rfl
  · exact trim_append_gap (isGap_cons.2 ⟨rfl, isGap_nil⟩)

theorem map_trim_lines_append_gap (t : Text) {gap : Text} (hg : IsGap gap) (hn : '\n' ∉ gap) :
    (lines (t ++ gap)).map trim = (lines t).map trim := by
  induction t using induction_on_lines with
  | last t ht =>
    have hm : '\n' ∉ t ++ gap := fun h => (List.mem_append.1 h).elim ht hn
    rw [lines_of_not_mem hm, lines_of_not_mem ht, List.map_singleton, trim_append_gap hg, List.map_singleton]
  | more a b ha ih =>
    rw [List.append_assoc, List.cons_append, lines_append ha, lines_append ha, List.map_cons, ih, List.map_cons]

def toCrlf (t : Text) : Text := t.flatMap fun c => if c = '\n' then ['\r', '\n'] else [c]

theorem toCrlf_of_not_mem {t : Text} (h : '\n' ∉ t) : toCrlf t = t := by
  induction t with
  | nil => rfl
  | cons c t ih =>
    obtain ⟨hc, ht⟩ := List.ne_and_not_mem_of_not_mem_cons h
    rw [toCrlf, List.flatMap_cons, if_neg hc.symm, ← toCrlf, ih ht]
    rfl

theorem toCrlf_append {a : Text} (h : '\n' ∉ a) (b : Text) :
    toCrlf (a ++ '\n' :: b) = (a ++ ['\r']) ++ '\n' :: toCrlf b := by
  rw [toCrlf, List.flatMap_append, ← toCrlf, toCrlf_of_not_mem h, List.append_assoc]
  rfl

def toLf : Text → Text
  | [] => []
  | c :: t => if c = '\r' ∧ t.head? = some '\n' then toLf t else c :: toLf t

theorem toLf_of_not_mem {t : Text} (h : '\n' ∉ t) : toLf t = t := by
  induction t with
  | nil => rfl
  | cons c t ih =>
    obtain ⟨-, ht⟩ := List.ne_and_not_mem_of_not_mem_cons h
    rw [toLf, if_neg fun e => ht (List.mem_of_mem_head? e.2), ih ht]

theorem toLf_append {a : Text} (h : '\n' ∉ a) (b : Text) :
    ∃ line, (a = line ∨ a = line ++ ['\r']) ∧ toLf (a ++ '\n' :: b) = line ++ '\n' :: toLf b := by
  have hb : toLf ('\n' :: b) = '\n' :: toLf b := if_neg (by simp)
  induction a with
  | nil => exact ⟨[], .inl rfl, hb⟩
  | cons c a ih =>
    obtain ⟨-, ha⟩ := List.ne_and_not_mem_of_not_mem_cons h
    obtain ⟨line, hl, e⟩ := ih ha
    rw [List.cons_append, toLf]
    simp only [head?_append_newline_iff ha]
    by_cases hr : c = '\r' ∧ a = []
    · obtain ⟨rfl, rfl⟩ := hr
      rw [if_pos ⟨rfl, rfl⟩]
      exact ⟨[], .inr rfl, hb⟩
    · rw [if_neg hr, e]
      refine ⟨c :: line, ?_, rfl⟩
      rcases hl with rfl | rfl
      · exact .inl rfl
      · exact .inr rfl

theorem map_trim_lines_toCrlf (t : Text) : (lines (toCrlf t)).map trim = (lines t).map trim := by
  induction t using induction_on_lines with
  | last t ht => rw [toCrlf_of_not_mem ht]
  | more a b ha ih =>
    have hr : '\n' ∉ a ++ ['\r'] := by simpa using ha
    rw [toCrlf_append ha, lines_append hr, lines_append ha, List.map_cons, List.map_cons,
      trim_eq_of_return (.inr rfl), ih]

theorem map_trim_lines_toLf (t : Text) : (lines (toLf t)).map trim = (lines t).map trim := by
  induction t using induction_on_lines with
  | last t ht => rw [toLf_of_not_mem ht]
  | more a b ha ih =>
    obtain ⟨line, hl, e⟩ := toLf_append ha b
    have hn : '\n' ∉ line := fun h => ha (by rcases hl with rfl | rfl <;> simp [h])
    rw [e, lines_append hn, lines_append ha, List.map_cons, List.map_cons, trim_eq_of_return hl, ih]

end PropertyArchive.Text
