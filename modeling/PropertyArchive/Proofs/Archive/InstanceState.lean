/-
  PropertyArchive.Proofs.Archive.InstanceState — what is archived is what is restored.

  The state of an instance is its declarations without the class properties, in order
  (`instanceState`). A walk that visits the instance properties visits exactly these
  (`value_visitInstance`), so the bodies of both methods, and the bare statements, are one
  statement for each of them (`encodes`, `decodes`). Both statements of a property carry
  its name as their key (`keyOf?_encodeText`, `keyOf?_decodeText`): the key stands between
  the last two quotation marks, and a name holds none. `archived_is_restored` puts this
  together: every instance property is written once and read once, under one key and in
  the order of the declarations.
-/
import PropertyArchive.Archive.Method
import PropertyArchive.Proofs.Declaration.Recognition

namespace PropertyArchive.Archive

open Text

/-! ## The state of an instance -/

/-- All but the class properties. -/
def instanceState (ds : List Declaration) : List Declaration := ds.filter (!·.isClassProperty)

def encodes (options : CodeOptions) (ds : List Declaration) : List Text :=
  (instanceState ds).map (encodeText options)

def decodes (options : CodeOptions) (ds : List Declaration) : List Text :=
  (instanceState ds).map fun d => (decodeText options d).value

def encodeBody (options : CodeOptions) (ds : List Declaration) : List Text :=
  (encodes options ds).map fun statement => options.indent ++ statement ++ ";"

def decodeBody (options : CodeOptions) (ds : List Declaration) : List Text :=
  (decodes options ds).map fun statement => options.indent ++ options.indent ++ statement ++ ";"

variable {options : CodeOptions} {ds : List Declaration}

theorem length_encodes (options : CodeOptions) (ds : List Declaration) :
    (encodes options ds).length = (instanceState ds).length := List.length_map _

theorem length_decodes (options : CodeOptions) (ds : List Declaration) :
    (decodes options ds).length = (instanceState ds).length := List.length_map _

theorem instanceState_append (ds₁ ds₂ : List Declaration) :
    instanceState (ds₁ ++ ds₂) = instanceState ds₁ ++ instanceState ds₂ := List.filter_append ..

theorem encodeBody_append (ds₁ ds₂ : List Declaration) :
    encodeBody options (ds₁ ++ ds₂) = encodeBody options ds₁ ++ encodeBody options ds₂ := by
  simp only [encodeBody, encodes, instanceState_append, List.map_append]

theorem decodeBody_append (ds₁ ds₂ : List Declaration) :
    decodeBody options (ds₁ ++ ds₂) = decodeBody options ds₁ ++ decodeBody options ds₂ := by
  simp only [decodeBody, decodes, instanceState_append, List.map_append]

/-! ## Walks over the declarations -/

/-- A walk visits the state of an instance, in order. -/
theorem value_visitInstance {α : Type} (visit : Declaration → Logged α) (ds : List Declaration) :
    (visitInstance visit ds).value = (instanceState ds).map fun d => (visit d).value := by
  induction ds with
  | nil => rfl
  | cons d ds ih =>
    by_cases hc : d.isClassProperty = true
    · simp [visitInstance, instanceState, hc, ih]
    · simp [visitInstance, instanceState, hc, ih]

theorem value_visitInstance_pure (ds : List Declaration) : (visitInstance pure ds).value = instanceState ds := by
  simp only [value_visitInstance, Logged.value_pure, List.map_id']

theorem value_statementLines (indent : Text) (statement : Declaration → Logged Text) (ds : List Declaration) :
    (statementLines indent statement ds).value =
      ((instanceState ds).map fun d => (statement d).value).map fun text => indent ++ text ++ ";" := by
  rw [statementLines, value_visitInstance, List.map_map]
  rfl

theorem value_encodingMethod : (encodingMethod options ds).value =
    joinWith "\n" (encodeOpening options ++ encodeBody options ds ++ encodeClosing) := by
  rw [encodingMethod, Logged.value_bind, value_statementLines]
  rfl

theorem value_decodingMethod : (decodingMethod options ds).value =
    joinWith "\n" (decodeOpening options ++ decodeBody options ds ++ decodeClosing options) := by
  rw [decodingMethod, Logged.value_bind, value_statementLines]
  rfl

theorem value_statements : (statements options ds).value = encodes options ds ++ decodes options ds := by
  rw [statements, Logged.value_bind, value_visitInstance_pure, Logged.value_bind, Logged.value_mapM]
  rfl

/-! ## Keys -/

/-- The text between the last two quotation marks of a statement. -/
def keyOf? (statement : Text) : Option Text :=
  (cutAtLast '"' statement).bind fun cut => (cutAtLast '"' cut.1).map (·.2)

theorem keyOf?_append {before key after : Text} (hk : '"' ∉ key) (ha : '"' ∉ after) :
    keyOf? (before ++ (keyLiteral key ++ after)) = some key := by
  have h₁ : cutAtLast '"' (before ++ (keyLiteral key ++ after)) = some (before ++ ['@', '"'] ++ key, after) :=
    cutAtLast_eq_some_iff.2 ⟨by simp [keyLiteral], ha⟩
  have h₂ : cutAtLast '"' (before ++ ['@', '"'] ++ key) = some (before ++ ['@'], key) :=
    cutAtLast_eq_some_iff.2 ⟨by simp, hk⟩
  rw [keyOf?, h₁, Option.bind_some, h₂]
  rfl

theorem keyOf?_encodeText {d : Declaration} (hn : '"' ∉ d.name) : keyOf? (encodeText options d) = some d.name := by
  have he : ∃ before, encodeText options d = before ++ (keyLiteral d.name ++ ("]" : Text)) := ⟨_, List.append_assoc ..⟩
  obtain ⟨before, he⟩ := he
  rw [he]
  exact keyOf?_append hn (by decide)

/-- Every message to the coder ends with its key. -/
theorem exists_render_eq (key : Text) (request : DecodeRequest) :
    ∃ message, request.render key = message ++ keyLiteral key := by
  cases request <;> exact ⟨_, rfl⟩

theorem name_ofDeclaration (options : CodeOptions) (d : Declaration) :
    (DecodeStatement.ofDeclaration options d).value.name = d.name := by
  unfold DecodeStatement.ofDeclaration
  split <;> rfl

theorem coder_ofDeclaration (options : CodeOptions) (d : Declaration) :
    (DecodeStatement.ofDeclaration options d).value.coder = options.coder := by
  unfold DecodeStatement.ofDeclaration
  split <;> rfl

theorem keyOf?_render {s : DecodeStatement} (hn : '"' ∉ s.name) : keyOf? s.render = some s.name := by
  have hd : ∃ before, s.render = before ++ (keyLiteral s.name ++ ("]" : Text)) := by
    obtain ⟨message, hm⟩ := exists_render_eq s.name s.request
    rw [DecodeStatement.render, hm, ← List.append_assoc, List.append_assoc]
    exact ⟨_, rfl⟩
  obtain ⟨before, hd⟩ := hd
  rw [hd]
  exact keyOf?_append hn (by decide)

theorem keyOf?_decodeText {d : Declaration} (hn : '"' ∉ d.name) :
    keyOf? (decodeText options d).value = some d.name := by
  rw [← name_ofDeclaration options d] at hn ⊢
  exact keyOf?_render hn

theorem quote_not_mem_name {line : Text} {d : Declaration} (h : Declaration.parse line = .ok d) : '"' ∉ d.name := by
  intro hm
  have hc := List.all_eq_true.1 (all_isIdentifierChar (Declaration.isIdentifier_name_of_parse h)) '"' hm
  exact absurd hc (by decide)

/-! ## Written once, read once -/

structure ArchivesState (options : CodeOptions) (ds : List Declaration) : Prop where
  /-- All that archive, then all that restore. -/
  statements_eq : (statements options ds).value = encodes options ds ++ decodes options ds
  length_eq : (statements options ds).value.length = 2 * (instanceState ds).length
  /-- A property has one key in both halves: its name. -/
  key_eq : ∀ i d, (instanceState ds)[i]? = some d →
    (statements options ds).value[i]?.bind keyOf? = some d.name ∧
      (statements options ds).value[(instanceState ds).length + i]?.bind keyOf? = some d.name
  encoding_eq : (encodingMethod options ds).value = joinWith "\n"
    (["- (void)encodeWithCoder:(NSCoder *)" ++ options.coder ++ " \x7b"] ++
      (if options.initializer = .coder then [options.indent ++ "[super encodeWithCoder:" ++ options.coder ++ "];"]
        else []) ++
      encodeBody options ds ++ [("\x7d" : Text)])
  decoding_eq : (decodingMethod options ds).value = joinWith "\n"
    (["- (instancetype)initWithCoder:(NSCoder *)" ++ options.coder ++ " \x7b",
        options.indent ++ "if (self = " ++
          (if options.initializer = .coder then "[super initWithCoder:" ++ options.coder ++ "]" else "[super init]") ++
          ") \x7b"] ++
      decodeBody options ds ++ [options.indent ++ "\x7d", options.indent ++ "return self;", "\x7d"])
  methods_eq : (methods options ds).value =
    joinWith "\n" [(encodingMethod options ds).value, [], (decodingMethod options ds).value]
  /-- Bodies of joined declarations are joined bodies. -/
  append : ∀ ds₁ ds₂, ds = ds₁ ++ ds₂ →
    encodeBody options ds = encodeBody options ds₁ ++ encodeBody options ds₂ ∧
      decodeBody options ds = decodeBody options ds₁ ++ decodeBody options ds₂

/-- Every instance property is written once and read once, under its name and in the order
    of the declarations; class properties are neither written nor read. -/
theorem archived_is_restored (options : CodeOptions)
    (hds : ∀ d ∈ ds, ∃ line, Declaration.parse line = .ok d) : ArchivesState options ds where
  statements_eq := value_statements
  length_eq := by
    rw [value_statements, List.length_append, length_encodes, length_decodes]
    omega
  key_eq := by
    intro i d hi
    obtain ⟨line, hp⟩ := hds d (List.mem_filter.1 (List.mem_of_getElem? hi)).1
    have hn := quote_not_mem_name hp
    have hlt : i < (instanceState ds).length := (List.getElem?_eq_some_iff.1 hi).1
    rw [value_statements]
    constructor
    · have he : (encodes options ds)[i]? = some (encodeText options d) := by
        rw [encodes, List.getElem?_map, hi, Option.map_some]
      rw [List.getElem?_append_left (by rwa [length_encodes]), he, Option.bind_some]
      exact keyOf?_encodeText hn
    · have hr : (decodes options ds)[i]? = some (decodeText options d).value := by
        rw [decodes, List.getElem?_map, hi, Option.map_some]
      rw [← length_encodes options ds, List.getElem?_append_right (Nat.le_add_right _ _),
        Nat.add_sub_cancel_left, hr, Option.bind_some]
      exact keyOf?_decodeText hn
  encoding_eq := by
    rw [value_encodingMethod, encodeOpening, superEncode]
    cases options.initializer <;> rfl
  decoding_eq := by
    rw [value_decodingMethod, decodeOpening, superCall]
    cases options.initializer <;> rfl
  methods_eq := by
    simp [methods, joinWith]
  append := by
    rintro ds₁ ds₂ rfl
    exact ⟨encodeBody_append ds₁ ds₂, decodeBody_append ds₁ ds₂⟩

/-- A class property between an unsigned scalar and a checked collection is left out. -/
theorem archived_is_restored_around_class_property :
    let ds : List Declaration :=
      [⟨"unsigned long", "flags", none, none, 0⟩,
        ⟨"NSString", "shared", some "class", some ⟨"NSString", .secure⟩, 1⟩,
        ⟨"NSArray<NSString *>", "names", some "copy", some ⟨"NSArray", .secureCollection⟩, 1⟩]
    (∀ d ∈ ds, ∃ line, Declaration.parse line = .ok d) ∧
      ArchivesState { decoding := .secure, initializer := .coder } ds := by
  intro ds
  have hds : ∀ d ∈ ds, ∃ line, Declaration.parse line = .ok d := by
    simp only [ds, List.forall_mem_cons]
    exact ⟨⟨"@property unsigned long flags;", by decide +kernel⟩,
      ⟨"@property (class) NSString *shared;", by decide +kernel⟩,
      ⟨"@property (copy) NSArray<NSString *> *names;", by decide +kernel⟩, by simp⟩
  exact ⟨hds, archived_is_restored _ hds⟩

end PropertyArchive.Archive
