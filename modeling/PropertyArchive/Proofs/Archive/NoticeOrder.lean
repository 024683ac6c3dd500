/-
  PropertyArchive.Proofs.Archive.NoticeOrder — the notices of the generated methods, and
  the order in which they are given.

  A class property has one notice, that it is left out. Any other property has at most
  one, that its decode has a weaker check than asked (`fallback?`): its class cannot be
  checked, or it is a collection whose elements are unknown or not named. A decode gives
  exactly that notice (`log_decodeText`), an encode none.

  A walk gives the notices of its properties in the order of the declarations
  (`log_visitInstance`). So the encoding method gives those of the class properties and
  the decoding method those of all properties, in order; both methods together give the
  first list and then the second. `statements` chooses its properties before it decodes
  them: it gives the notices of the decoding method, those of the class properties first.

  `notices_in_order` puts this together and says it of the messages that are logged: one
  wording for a class property (`skipText`) and one for each reason to check less
  (`FallsBack`).
-/
import PropertyArchive.Proofs.Archive.CheckedDecoding
import PropertyArchive.Proofs.Archive.InstanceState

namespace PropertyArchive

open Text

/-! ## The notice of a declaration -/

def Notice.isSkip : Notice → Bool
  | classProperty _ => true
  | _ => false

namespace DecodeRequest

def elementNotice? (d : Declaration) (c : ObjectClass) : Option Notice :=
  if c.isCollection then
    match d.elementClasses? with
    | none => some (.unknownElementClasses c d.name)
    | some [] => some (.noElementClasses c d.name)
    | some _ => none
  else none

theorem log_checked (d : Declaration) (c : ObjectClass) : (checked d c).log = (elementNotice? d c).toList := by
  unfold checked elementNotice?
  split
  · rcases d.elementClasses? with _ | _ | _ <;> rfl
  · rfl

theorem elementNotice?_eq_some_iff {d : Declaration} {c : ObjectClass} {n : Notice} :
    elementNotice? d c = some n ↔ c.isCollection = true ∧
      (d.elementClasses? = none ∧ n = .unknownElementClasses c d.name ∨
        d.elementClasses? = some [] ∧ n = .noElementClasses c d.name) := by
  unfold elementNotice?
  rcases d.elementClasses? with _ | _ | _ <;> simp [eq_comm (b := n)]

end DecodeRequest

namespace DecodeStatement

variable {options : CodeOptions} {d : Declaration}

def fallback? (options : CodeOptions) (d : Declaration) : Option Notice :=
  if options.decoding = .secure then
    d.objectClass.bind fun c =>
      if c.isSecure then DecodeRequest.elementNotice? d c else some (.unchecked c d.name)
  else none

theorem fallback?_eq_some_iff {n : Notice} : fallback? options d = some n ↔
    options.decoding = .secure ∧ ∃ c, d.objectClass = some c ∧
      (c.isSecure = false ∧ n = .unchecked c d.name ∨
        c.isCollection = true ∧ d.elementClasses? = none ∧ n = .unknownElementClasses c d.name ∨
          c.isCollection = true ∧ d.elementClasses? = some [] ∧ n = .noElementClasses c d.name) := by
  unfold fallback?
  by_cases ho : options.decoding = .secure
  · rw [if_pos ho, Option.bind_eq_some_iff, and_iff_right ho]
    refine exists_congr fun c => and_congr_right fun _ => ?_
    cases hs : c.isSecure with
    | true => simp [DecodeRequest.elementNotice?_eq_some_iff, and_or_left]
    | false =>
      have hk : ¬c.isCollection = true := fun hk => by
        rw [ObjectClass.isSecure_of_isCollection hk] at hs
        cases hs
      simp [hk, eq_comm (b := n)]
  · simp [ho]

theorem isSkip_of_fallback? {n : Notice} (h : fallback? options d = some n) : n.isSkip = false := by
  obtain ⟨-, c, -, ⟨-, rfl⟩ | ⟨-, -, rfl⟩ | ⟨-, -, rfl⟩⟩ := fallback?_eq_some_iff.1 h <;> rfl

theorem log_objectRequest (options : CodeOptions) (d : Declaration) :
    (objectRequest options d).log = (fallback? options d).toList := by
  unfold objectRequest fallback?
  cases d.objectClass with
  | none => cases options.decoding <;> rfl
  | some c =>
    cases options.decoding with
    | plain => rfl
    | cast => rfl
    | secure =>
      cases hs : c.isSecure with
      | true => simpa [hs] using DecodeRequest.log_checked d c
      | false => simp [hs]

/-- A decode of the class checks less than asked, and the message says why. -/
def FallsBack (d : Declaration) (c : ObjectClass) (message : Text) : Prop :=
  c.isSecure = false ∧ message =
      c.name ++ " does not adopt NSSecureCoding, decoding '" ++ d.name ++ "' without a class check" ∨
    c.isCollection = true ∧ d.elementClasses? = none ∧ message =
        "'" ++ d.name ++ "' has unregistered element classes, decoding the " ++ c.name ++ " only" ∨
      c.isCollection = true ∧ d.elementClasses? = some [] ∧ message =
        "'" ++ d.name ++ "' declares no element classes, decoding the " ++ c.name ++ " only"

def fallbackText? (options : CodeOptions) (d : Declaration) : Option Text := (fallback? options d).map Notice.message

theorem fallbackText?_eq_some_iff {message : Text} : fallbackText? options d = some message ↔
    options.decoding = .secure ∧ ∃ c, d.objectClass = some c ∧ FallsBack d c message := by
  rw [fallbackText?, Option.map_eq_some_iff]
  constructor
  · rintro ⟨n, hn, rfl⟩
    obtain ⟨ho, c, hc, ⟨hs, rfl⟩ | ⟨hk, he, rfl⟩ | ⟨hk, he, rfl⟩⟩ := fallback?_eq_some_iff.1 hn
    · exact ⟨ho, c, hc, .inl ⟨hs, rfl⟩⟩
    · exact ⟨ho, c, hc, .inr (.inl ⟨hk, he, rfl⟩)⟩
    · exact ⟨ho, c, hc, .inr (.inr ⟨hk, he, rfl⟩)⟩
  · rintro ⟨ho, c, hc, ⟨hs, rfl⟩ | ⟨hk, he, rfl⟩ | ⟨hk, he, rfl⟩⟩
    · exact ⟨_, fallback?_eq_some_iff.2 ⟨ho, c, hc, .inl ⟨hs, rfl⟩⟩, rfl⟩
    · exact ⟨_, fallback?_eq_some_iff.2 ⟨ho, c, hc, .inr (.inl ⟨hk, he, rfl⟩)⟩, rfl⟩
    · exact ⟨_, fallback?_eq_some_iff.2 ⟨ho, c, hc, .inr (.inr ⟨hk, he, rfl⟩)⟩, rfl⟩

end DecodeStatement

namespace Archive

open DecodeStatement

variable {options : CodeOptions} {ds : List Declaration}

theorem log_decodeText {line : Text} {d : Declaration} (h : Declaration.parse line = .ok d) :
    (decodeText options d).log = (fallback? options d).toList := by
  rw [decodeText, Logged.log_map, ofDeclaration_eq_map, Logged.log_map, asked]
  by_cases hcall : d.archiveCall = .object
  · rw [if_pos hcall, log_objectRequest]
  · have hc : d.objectClass = none := by
      by_contra hc
      obtain ⟨c, hc⟩ := Option.ne_none_iff_exists'.1 hc
      exact hcall (Declaration.archiveCall_of_objectClass h hc)
    have hf : fallback? options d = none := by simp [fallback?, hc]
    rw [if_neg hcall, hf]
    rfl

/-! ## Walks -/

/-- The notice of a property where `fallback` gives those of the instance properties. -/
def noticeOf (fallback : Declaration → Option Notice) (d : Declaration) : Option Notice :=
  if d.isClassProperty then some (.classProperty d.name) else fallback d

def skips (ds : List Declaration) : List Notice :=
  (ds.filter (·.isClassProperty)).map fun d => .classProperty d.name

/-- A walk gives the notice of each property, in order. -/
theorem log_visitInstance {α : Type} {visit : Declaration → Logged α} {fallback : Declaration → Option Notice}
    (h : ∀ d ∈ ds, (visit d).log = (fallback d).toList) :
    (visitInstance visit ds).log = ds.filterMap (noticeOf fallback) := by
  induction ds with
  | nil => rfl
  | cons d ds ih =>
    have hd := h d List.mem_cons_self
    have ih := ih fun d' hd' => h d' (List.mem_cons_of_mem _ hd')
    cases hc : d.isClassProperty with
    | true => simp [visitInstance, noticeOf, hc, ih]
    | false => cases hf : fallback d <;> simp [visitInstance, noticeOf, hc, ih, hd, hf]

theorem skips_eq_filterMap (ds : List Declaration) : skips ds = ds.filterMap (noticeOf fun _ => none) := by
  rw [skips, ← List.filterMap_eq_map, List.filterMap_filter]
  rfl

theorem isSkip_of_mem_skips {n : Notice} (h : n ∈ skips ds) : n.isSkip = true := by
  obtain ⟨d, -, rfl⟩ := List.mem_map.1 h
  rfl

section Filter

variable {fallback : Declaration → Option Notice}

theorem filter_isSkip (h : ∀ d n, fallback d = some n → n.isSkip = false) (ds : List Declaration) :
    (ds.filterMap (noticeOf fallback)).filter Notice.isSkip = skips ds := by
  rw [List.filter_filterMap, skips_eq_filterMap]
  refine List.filterMap_congr fun d _ => ?_
  unfold noticeOf
  split
  · rfl
  · cases hf : fallback d with
    | none => rfl
    | some n => simp [h d n hf]

theorem filter_not_isSkip (h : ∀ d n, fallback d = some n → n.isSkip = false) (ds : List Declaration) :
    (ds.filterMap (noticeOf fallback)).filter (!·.isSkip) = (instanceState ds).filterMap fallback := by
  rw [List.filter_filterMap, instanceState, List.filterMap_filter]
  refine List.filterMap_congr fun d _ => ?_
  unfold noticeOf
  cases d.isClassProperty with
  | true => rfl
  | false =>
    cases hf : fallback d with
    | none => rfl
    | some n => simp [h d n hf]

end Filter

/-! ## The methods -/

theorem log_encodingMethod (options : CodeOptions) (ds : List Declaration) :
    (encodingMethod options ds).log = skips ds := by
  rw [encodingMethod, Logged.log_bind, Logged.log_pure, List.append_nil, statementLines, skips_eq_filterMap]
  exact log_visitInstance fun _ _ => by rfl

theorem log_decodingMethod (hds : ∀ d ∈ ds, ∃ line, Declaration.parse line = .ok d) :
    (decodingMethod options ds).log = ds.filterMap (noticeOf (fallback? options)) := by
  rw [decodingMethod, Logged.log_bind, Logged.log_pure, List.append_nil, statementLines]
  refine log_visitInstance fun d hd => ?_
  obtain ⟨line, hp⟩ := hds d hd
  rw [Logged.log_map, log_decodeText hp]

theorem log_methods (options : CodeOptions) (ds : List Declaration) :
    (methods options ds).log = (encodingMethod options ds).log ++ (decodingMethod options ds).log := by
  simp [methods]

theorem log_statements (hds : ∀ d ∈ ds, ∃ line, Declaration.parse line = .ok d) :
    (statements options ds).log = skips ds ++ (instanceState ds).filterMap (fallback? options) := by
  have hskip : (visitInstance pure ds).log = skips ds :=
    (log_visitInstance fun _ _ => by rfl).trans (skips_eq_filterMap ds).symm
  have hdecode : ((instanceState ds).mapM (decodeText options)).log = (instanceState ds).filterMap (fallback? options) := by
    rw [Logged.log_mapM, List.filterMap_eq_flatMap_toList]
    refine List.flatMap_congr fun d hd => ?_
    obtain ⟨line, hp⟩ := hds d (List.mem_filter.1 hd).1
    exact log_decodeText hp
  rw [statements, Logged.log_bind, hskip, value_visitInstance_pure, Logged.log_bind, hdecode, Logged.log_pure, List.append_nil]

/-! ## Messages -/

def messages (log : List Notice) : List Text := log.map Notice.message

def skipText (d : Declaration) : Text := "skipping class property '" ++ d.name ++ "'"

theorem messages_append (log log' : List Notice) : messages (log ++ log') = messages log ++ messages log' :=
  List.map_append

theorem messages_skips (ds : List Declaration) : messages (skips ds) = (ds.filter (·.isClassProperty)).map skipText :=
  List.map_map

theorem messages_fallbacks (options : CodeOptions) (ds : List Declaration) :
    messages (ds.filterMap (fallback? options)) = ds.filterMap (fallbackText? options) :=
  List.map_filterMap ..

theorem messages_notices (options : CodeOptions) (ds : List Declaration) :
    messages (ds.filterMap (noticeOf (fallback? options))) =
      ds.filterMap fun d => if d.isClassProperty then some (skipText d) else fallbackText? options d := by
  rw [messages, List.map_filterMap]
  refine List.filterMap_congr fun d _ => ?_
  unfold noticeOf
  split <;> rfl

structure NotesInOrder (options : CodeOptions) (ds : List Declaration) : Prop where
  encoding : messages (encodingMethod options ds).log = (ds.filter (·.isClassProperty)).map skipText
  /-- In the order of the declarations, at most one for each. -/
  decoding : messages (decodingMethod options ds).log =
    ds.filterMap fun d => if d.isClassProperty then some (skipText d) else fallbackText? options d
  fallback_iff : ∀ d message, fallbackText? options d = some message ↔
    options.decoding = .secure ∧ ∃ c, d.objectClass = some c ∧ FallsBack d c message
  methods : (methods options ds).log = (encodingMethod options ds).log ++ (decodingMethod options ds).log
  /-- Those of the decoding method, the class properties first and each part in its order … -/
  statements : (statements options ds).log =
    (decodingMethod options ds).log.filter Notice.isSkip ++ (decodingMethod options ds).log.filter (!·.isSkip)
  /-- … which are these messages. -/
  statementTexts : messages (Archive.statements options ds).log =
    (ds.filter (·.isClassProperty)).map skipText ++ (instanceState ds).filterMap (fallbackText? options)
  /-- Both methods name each class property twice. -/
  twice : messages ((Archive.methods options ds).log.filter Notice.isSkip) =
    (ds.filter (·.isClassProperty)).map skipText ++ (ds.filter (·.isClassProperty)).map skipText
  /-- Both methods name each fallback once. -/
  once : messages ((Archive.methods options ds).log.filter (!·.isSkip)) =
    (instanceState ds).filterMap (fallbackText? options)

/-- What is logged mirrors the methods: one message for each class property that a method leaves
out, one for each decode with a weaker check than asked, in the order in which they are met. -/
theorem notices_in_order (options : CodeOptions) (hds : ∀ d ∈ ds, ∃ line, Declaration.parse line = .ok d) :
    NotesInOrder options ds := by
  have hf : ∀ d n, fallback? options d = some n → n.isSkip = false := fun _ _ => isSkip_of_fallback?
  have hskips : (skips ds).filter Notice.isSkip = skips ds := List.filter_eq_self.2 fun _ => isSkip_of_mem_skips
  have hrest : (skips ds).filter (!·.isSkip) = [] :=
    List.filter_eq_nil_iff.2 fun n hn => by simp [isSkip_of_mem_skips hn]
  exact
    { encoding := by rw [log_encodingMethod, messages_skips]
      decoding := by rw [log_decodingMethod hds, messages_notices]
      fallback_iff := fun _ _ => fallbackText?_eq_some_iff
      methods := log_methods options ds
      statements := by
        rw [log_statements hds, log_decodingMethod hds, filter_isSkip hf, filter_not_isSkip hf]
      statementTexts := by
        rw [log_statements hds, messages_append, messages_skips, messages_fallbacks]
      twice := by
        rw [log_methods, log_encodingMethod, log_decodingMethod hds, List.filter_append, hskips, filter_isSkip hf,
          messages_append, messages_skips]
      once := by
        rw [log_methods, log_encodingMethod, log_decodingMethod hds, List.filter_append, hrest,
          filter_not_isSkip hf, List.nil_append, messages_fallbacks] }

/-- A class property between two weaker checks is noted before both. -/
theorem notices_in_order_around_class_property :
    let ds : List Declaration :=
      [⟨"NSPredicate", "rule", none, some ⟨"NSPredicate", .coding⟩, 1⟩,
        ⟨"NSString", "shared", some "class", some ⟨"NSString", .secure⟩, 1⟩,
        ⟨"NSArray", "names", none, some ⟨"NSArray", .secureCollection⟩, 1⟩]
    (∀ d ∈ ds, ∃ line, Declaration.parse line = .ok d) ∧
      NotesInOrder { decoding := .secure } ds ∧
      messages (statements { decoding := .secure } ds).log =
        ["skipping class property 'shared'",
          "NSPredicate does not adopt NSSecureCoding, decoding 'rule' without a class check",
          "'names' declares no element classes, decoding the NSArray only"] := by
  intro ds
  have hds : ∀ d ∈ ds, ∃ line, Declaration.parse line = .ok d := by
    simp only [ds, List.forall_mem_cons]
    exact ⟨⟨"@property NSPredicate *rule;", by decide +kernel⟩,
      ⟨"@property (class) NSString *shared;", by decide +kernel⟩,
      ⟨"@property NSArray *names;", by decide +kernel⟩, by simp⟩
  exact ⟨hds, notices_in_order _ hds, by decide +kernel⟩

end Archive

end PropertyArchive
