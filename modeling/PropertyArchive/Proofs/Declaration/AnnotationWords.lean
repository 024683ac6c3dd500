/-
  PropertyArchive.Proofs.Declaration.AnnotationWords — annotation words make no difference.

  `Token.Annotates` puts one annotation word between two tokens of a body, or at one of its
  ends. The new body spells the old tokens and the word (`Annotates.exists_spells`), and the
  words are dropped before anything else looks at the tokens; so the line has the result
  that it had, whether or not that is a declaration (`Surround.Encloses.annotate`).

  `annotations_transparent`: by induction on how many words were put in, a line has the
  result that it has without them, wherever they stand.
-/
import Mathlib.Logic.Relation
import PropertyArchive.Proofs.Declaration.Surround
import PropertyArchive.Proofs.Declaration.WellFormed

namespace PropertyArchive

open Text

/-! ## One word more -/

namespace Token

/-- A blank between two bodies keeps their tokens apart. -/
theorem Spells.append_blank {a b : Text} {c : Char} {ts us : List Token} (ha : Spells a ts) (hc : isBlank c = true)
    (hb : Spells b us) : Spells (a ++ c :: b) (ts ++ us) := by
  induction ha with
  | nil => exact .blank hc hb
  | blank hd _ ih => exact .blank hd ih
  | pointer _ ih => exact .pointer ih
  | @bare name t ts hn ht _ ih =>
    rw [List.append_assoc]
    refine .bare hn (fun x hx => ?_) ih
    rw [List.head?_append, Option.mem_def, Option.or_eq_some_iff] at hx
    rcases hx with hx | ⟨-, hx⟩
    · exact ht x hx
    · cases hx
      exact not_isIdentifierChar_of_isBlank hc
  | generic hn hg hb _ ih =>
    simp only [List.append_assoc]
    exact .generic hn hg hb ih

/-- An annotation word comes in where a body falls apart into two bodies and its tokens into
    theirs, with a blank on either side. -/
inductive Annotates : Text → Text → Prop
  | insert {a b word : Text} {ts us : List Token} : scan a = .ok ts → scan b = .ok us →
      scan (a ++ b) = .ok (ts ++ us) → word ∈ annotationWords → Annotates (a ++ b) (a ++ ' ' :: (word ++ ' ' :: b))

namespace Annotates

variable {body body' : Text}

/-- Without annotation words the tokens are the same. -/
theorem exists_spells (h : Annotates body body') :
    ∃ ts ts', Spells body ts ∧ Spells body' ts' ∧ dropAnnotations ts' = dropAnnotations ts := by
  cases h with
  | @insert a b word ts us ha hb hab hw =>
    have hname := isName_of_mem_annotationWords word hw
    -- The word stays bare: a body with tokens never starts with a bracket, not even behind blanks.
    have hword : Spells (word ++ ' ' :: b) (.word word [] :: us) :=
      .bare hname (fun c hc => by cases hc; decide) (.blank (by decide) (scan_eq_ok_iff.1 hb))
    have hm : .word word [] ∈ annotations := List.mem_map_of_mem hw
    refine ⟨ts ++ us, ts ++ .word word [] :: us, scan_eq_ok_iff.1 hab, ?_, ?_⟩
    · exact (scan_eq_ok_iff.1 ha).append_blank (by decide) hword
    · simp [dropAnnotations, hm]

/-- A text around the body starts with an identifier character only if it did before. -/
theorem head?_append (h : Annotates body body') (before after : Text) {c : Char}
    (hc : c ∈ (before ++ (body' ++ after)).head?) (hi : isIdentifierChar c = true) :
    c ∈ (before ++ (body ++ after)).head? := by
  cases h with
  | @insert a b word =>
    have hl : before ++ ((a ++ ' ' :: (word ++ ' ' :: b)) ++ after) =
        (before ++ a) ++ ' ' :: (word ++ ' ' :: b ++ after) := by simp
    rw [hl, List.head?_append, Option.mem_def, Option.or_eq_some_iff] at hc
    rcases hc with hc | ⟨-, hc⟩
    · rw [List.append_assoc, ← List.append_assoc, List.head?_append, hc]
      rfl
    · cases hc
      exact absurd hi (by decide)

end Annotates

end Token

/-! ## Annotated lines -/

namespace Surround

variable {s : Surround} {front body body' back line : Text}

/-- Of a body that is scanned, the tokens that are no annotation word decide the result. -/
theorem Encloses.parse_eq (h : s.Encloses front body back line) {ts : List Token} (hs : Token.Spells body ts) :
    Declaration.parse line = match s.trailingFault? with
      | some e => .error e
      | none => Declaration.ofBareTokens s.attributes (Token.dropAnnotations ts) := by
  have hb : '^' ∉ front ++ (body ++ back) := fun hm => hs.not_mem (by decide) ((h.pares.mem_iff (by decide)).2 hm)
  have hscan : Token.scan (front ++ (body ++ back)) = .ok ts := h.pares.scan_eq ▸ Token.scan_eq_ok_iff.2 hs
  rw [h.line_eq, parse_line h.onBoundary (h.takes (hs.not_mem (by decide))), read, if_neg hb, hscan,
    ← Token.filter_not_isAnnotating hs.wellFormed]
  rfl

/-- The keyword stays a word of its own. -/
theorem onBoundary_annotate (hk : s.OnBoundary (front ++ (body ++ back))) (ha : Token.Annotates body body') :
    s.OnBoundary (front ++ (body' ++ back)) := by
  intro c hc
  cases hi : isIdentifierChar c with
  | false => rfl
  | true =>
    have hm := ha.head?_append (s.modifiersText ++ front) (back ++ s.endingText) (by simpa using hc) hi
    rw [← hk c (by simpa using hm), hi]

/-- One more annotation word leaves a line in its surround, and with its result. -/
theorem Encloses.annotate (h : s.Encloses front body back line) (ha : Token.Annotates body body') :
    s.Encloses front body' back (s.line (front ++ (body' ++ back))) ∧
      Declaration.parse (s.line (front ++ (body' ++ back))) = Declaration.parse line := by
  obtain ⟨ts, ts', hs, hs', hd⟩ := ha.exists_spells
  have ht : s.Takes body' := .of_spells hs'
  have h' : s.Encloses front body' back (s.line (front ++ (body' ++ back))) :=
    ⟨h.isGap_front, h.isGap_back, rfl, onBoundary_annotate h.onBoundary ha, ht.no_modifiers⟩
  exact ⟨h', by rw [h'.parse_eq hs', h.parse_eq hs, hd]⟩

theorem Encloses.annotates (h : s.Encloses front body back line)
    (ha : Relation.ReflTransGen Token.Annotates body body') :
    s.Encloses front body' back (s.line (front ++ (body' ++ back))) ∧
      Declaration.parse (s.line (front ++ (body' ++ back))) = Declaration.parse line := by
  induction ha with
  | refl =>
    rw [← h.line_eq]
    exact ⟨h, rfl⟩
  | tail _ ha ih =>
    obtain ⟨h', hp⟩ := ih
    obtain ⟨h'', hp'⟩ := h'.annotate ha
    exact ⟨h'', hp'.trans hp⟩

end Surround

namespace Declaration

/-- A line with a frame is the body of the frame in a surround without a fault; and with
    annotation words in that body, any number of them and anywhere between its tokens, it is
    the new body in the same surround and has the same result. -/
theorem annotations_transparent {line body' : Text} {frame : DeclarationFrame}
    (hf : DeclarationFrame.Frames line frame) (ha : Relation.ReflTransGen Token.Annotates frame.body body') :
    (∃ (s : Surround) (front back : Text), s.attributes = frame.attributes ∧ s.trailingFault? = none ∧
      s.Encloses front frame.body back line) ∧
    ∀ (s : Surround) (front back : Text), s.Encloses front frame.body back line →
      s.Encloses front body' back (s.line (front ++ (body' ++ back))) ∧
        parse (s.line (front ++ (body' ++ back))) = parse line :=
  ⟨Surround.exists_encloses_of_frames hf, fun _ _ _ h => h.annotates ha⟩

/-- In front of the type and between the markers of a line that is refused. -/
theorem annotations_transparent_refused_line :
    DeclarationFrame.Frames "@property NSString * x *; // a" ⟨none, "NSString * x *"⟩ ∧
      Relation.ReflTransGen Token.Annotates "NSString * x *" " IBOutlet NSString * __weak  x *" ∧
      parse "@property  IBOutlet NSString * __weak  x *; // a" = parse "@property NSString * x *; // a" := by
  have ho : DeclarationFrame.Opens "@property NSString * x *; // a" " NSString * x *; // a" :=
    ⟨by decide +kernel, fun c hc => by cases hc; decide⟩
  have hm : DeclarationFrame.Modifies " NSString * x *; // a" none "NSString * x *; // a" :=
    @DeclarationFrame.Modifies.absent [' '] "NSString * x *; // a" (by decide) fun c hc => by cases hc; decide
  have he : DeclarationFrame.Ends "NSString * x *; // a" "NSString * x *" :=
    @DeclarationFrame.Ends.commented "NSString * x *" [' '] [' ', 'a'] (by decide) (by decide)
  have hf : DeclarationFrame.Frames "@property NSString * x *; // a" ⟨none, "NSString * x *"⟩ := ⟨_, _, ho, hm, he⟩
  have hmarker : Token.Annotates "NSString * x *" "NSString * __weak  x *" :=
    @Token.Annotates.insert "NSString *" " x *" "__weak" [.word "NSString" [], .pointer] [.word "x" [], .pointer]
      (by decide +kernel) (by decide +kernel) (by decide +kernel) (by decide)
  have hfront : Token.Annotates "NSString * __weak  x *" " IBOutlet NSString * __weak  x *" :=
    @Token.Annotates.insert [] "NSString * __weak  x *" "IBOutlet" []
      [.word "NSString" [], .pointer, .word "__weak" [], .word "x" [], .pointer]
      (by decide +kernel) (by decide +kernel) (by decide +kernel) (by decide)
  have ha : Relation.ReflTransGen Token.Annotates "NSString * x *" " IBOutlet NSString * __weak  x *" :=
    .tail (.single hmarker) hfront
  let s : Surround := ⟨[], none, some " // a", by decide, by simp, by simp⟩
  have henc : s.Encloses [' '] "NSString * x *" [] "@property NSString * x *; // a" :=
    ⟨by decide, by decide, by decide +kernel, fun c hc => by cases hc; decide, fun _ c hc => by cases hc; decide⟩
  exact ⟨hf, ha, ((annotations_transparent hf ha).2 s [' '] [] henc).2⟩

end Declaration

end PropertyArchive
