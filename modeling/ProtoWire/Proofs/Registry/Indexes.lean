import ProtoWire.Proofs.Message.Registered

/-!
# The indexes of a registry

An extension is entered under its name first and under its number second, and its name is
freed again where the number is taken. `Registry.perform` answers one call that registers a
type or an extension and says what the registry is then, also where the call fails, and
`Registry.performAll` makes calls one after another. Main statement:

* `consistent_performAll`: after any calls, the two indexes of extensions hold the same ones
  under distinct keys, message extensions hold a type of the registry, and the next call
  enters what it registers or, where it fails, changes no lookup.
-/

set_option autoImplicit false

namespace ProtoWire.Registry

variable {registry later : Registry}

/-! ## Calls -/

/-- A call that registers something. -/
inductive Request where
  | type (descriptor : MessageDescriptor) (storage : Storage)
  | extension (descriptor : ExtensionDescriptor)

/-- What a call registered. -/
inductive Entry where
  | type (type : MessageType)
  | extension (type : ExtensionType)

/-- Makes a call: what it registered or why it failed, and what the registry is then. -/
def perform (registry : Registry) : Request → Except Failure Entry × Registry
  | .type descriptor storage =>
      match registry.enterType descriptor storage with
      | (.ok type, later) => (.ok (.type type), later)
      | (.error error, later) => (.error (.schema error), later)
  | .extension descriptor =>
      match registry.enterExtension descriptor with
      | (.ok type, later) => (.ok (.extension type), later)
      | (.error failure, later) => (.error failure, later)

/-- Makes calls one after another, whether they fail or not. -/
def performAll (registry : Registry) (requests : List Request) : Registry :=
  requests.foldl (fun registry request => (registry.perform request).2) registry

/-! ## What a call does to the lookups -/

/-- The lookups of a later registry find what those of the registry find. -/
structure SameLookups (registry later : Registry) : Prop where
  types : ∀ name, later.type? name = registry.type? name
  names : ∀ name, later.extensionNamed? name = registry.extensionNamed? name
  numbers : ∀ extendee number,
    later.extension? extendee number = registry.extension? extendee number

/-- The lookups of a later registry find, besides, a type that is new under its name. -/
structure AddsType (registry later : Registry) (type : MessageType) : Prop where
  fresh : registry.type? type.fullName = none
  types : ∀ name,
    later.type? name = if name = type.fullName then some type else registry.type? name
  names : ∀ name, later.extensionNamed? name = registry.extensionNamed? name
  numbers : ∀ extendee number,
    later.extension? extendee number = registry.extension? extendee number

/-- The lookups of a later registry find, besides, an extension that is new under its name
and under its number. -/
structure AddsExtension (registry later : Registry) (type : ExtensionType) : Prop where
  freshName : registry.extensionNamed? type.fullName = none
  freshNumber : registry.extension? type.extendee type.number = none
  types : ∀ name, later.type? name = registry.type? name
  names : ∀ name, later.extensionNamed? name =
    if name = type.fullName then some type else registry.extensionNamed? name
  numbers : ∀ extendee number, later.extension? extendee number =
    if extendee = type.extendee ∧ number = type.number then some type
    else registry.extension? extendee number

theorem SameLookups.refl (registry : Registry) : registry.SameLookups registry :=
  ⟨fun _ => rfl, fun _ => rfl, fun _ _ => rfl⟩

/-- A type that is entered is found under its name, and all other lookups are as before. -/
theorem addsType_of_enterType {descriptor : MessageDescriptor} {storage : Storage}
    {type : MessageType} (h : registry.enterType descriptor storage = (.ok type, later)) :
    registry.AddsType later type := by
  obtain ⟨fresh, -, rfl⟩ := eq_of_enterType h
  refine ⟨fresh, ?_, fun _ => rfl, fun _ _ => rfl⟩
  intro name
  rw [type?_append]
  split
  · next same =>
      subst same
      simp [fresh]
  · next other =>
      have unmatched : (type.fullName == name) = false := beq_eq_false_iff_ne.2 (Ne.symm other)
      simp [unmatched]

/-- An extension that is entered is found under its name and under its number, and all other lookups
are as before. -/
theorem addsExtension_of_enterExtension {descriptor : ExtensionDescriptor} {type : ExtensionType}
    (h : registry.enterExtension descriptor = (.ok type, later)) :
    registry.AddsExtension later type := by
  obtain ⟨-, -, -, freshName, freshNumber, rfl⟩ := eq_of_enterExtension h
  refine ⟨freshName, freshNumber, fun _ => rfl, ?_, ?_⟩
  · intro name
    rw [extensionNamed?] at freshName
    rw [extensionNamed?, extensionNamed?, List.find?_append]
    split
    · next same =>
        subst same
        rw [freshName]
        simp
    · next other =>
        have unmatched : (type.fullName == name) = false := beq_eq_false_iff_ne.2 (Ne.symm other)
        simp [unmatched]
  · intro extendee number
    rw [extension?] at freshNumber
    rw [extension?, extension?, List.find?_append]
    split
    · next same =>
        obtain ⟨rfl, rfl⟩ := same
        rw [freshNumber]
        simp
    · next other =>
        have unmatched : (type.extendee == extendee && type.number == number) = false := by
          rw [Bool.and_eq_false_iff, beq_eq_false_iff_ne, beq_eq_false_iff_ne]
          by_contra both
          push Not at both
          exact other ⟨both.1.symm, both.2.symm⟩
        simp [unmatched]

/-- What a call did: what it registered is found from then on, and a call that failed changed
no lookup. -/
def Answers (registry : Registry) : Except Failure Entry × Registry → Prop
  | (.ok (.type type), later) => registry.AddsType later type
  | (.ok (.extension type), later) => registry.AddsExtension later type
  | (.error _, later) => registry.SameLookups later

/-- A request that succeeds adds what it is about, and one that fails changes no lookup. -/
theorem answers_perform (registry : Registry) (request : Request) :
    registry.Answers (registry.perform request) := by
  cases request with
  | type descriptor storage =>
      rw [perform]
      split
      · next entered => exact addsType_of_enterType entered
      · next failed =>
          rw [eq_of_enterType_error failed]
          exact .refl registry
  | extension descriptor =>
      rw [perform]
      split
      · next entered => exact addsExtension_of_enterExtension entered
      · next failed =>
          rw [eq_of_enterExtension_error failed]
          exact .refl registry

/-! ## Any calls -/

/-- What makes the indexes of a registry consistent. -/
structure Consistent (registry : Registry) : Prop where
  names : (registry.extensionNames.map (·.fullName)).Nodup
  numbers : (registry.extensions.map fun type => (type.extendee, type.number)).Nodup
  matched : ∀ name type, registry.extensionNamed? name = some type ↔
    type.fullName = name ∧ registry.extension? type.extendee type.number = some type
  valued : ∀ extendee number type, registry.extension? extendee number = some type →
    type.descriptor.field.kind.isMessage = true →
      ∃ valueType, type.valueType = some valueType ∧ valueType.registry = registry.id ∧
        registry.type? (type.descriptor.field.messageType.getD "") = some valueType

/-- What every call keeps: the registry is sound, and no key is entered twice. -/
structure Indexed (registry : Registry) : Prop where
  sound : registry.Sound
  names : (registry.extensionNames.map (·.fullName)).Nodup
  numbers : (registry.extensions.map fun type => (type.extendee, type.number)).Nodup

theorem indexed_empty (id : RegistryId) : (Registry.empty id).Indexed :=
  ⟨sound_empty id, by simp [empty], by simp [empty]⟩

/-- One more extension leaves the keys of an index distinct if its key is new. -/
theorem nodup_keys_append {κ : Type} {key : ExtensionType → κ} {types : List ExtensionType}
    {type : ExtensionType} (nodup : (types.map key).Nodup)
    (fresh : ∀ other ∈ types, key other ≠ key type) : ((types ++ [type]).map key).Nodup := by
  rw [List.map_append, List.nodup_append]
  refine ⟨nodup, by simp, ?_⟩
  intro taken mem new entered
  obtain ⟨other, earlier, rfl⟩ := List.mem_map.1 mem
  rw [List.map_singleton, List.mem_singleton] at entered
  rw [entered]
  exact fresh other earlier

/-- Entering an extension enters no key twice. -/
theorem Indexed.enterExtension {descriptor : ExtensionDescriptor} {type : ExtensionType}
    (indexed : registry.Indexed) (h : registry.enterExtension descriptor = (.ok type, later)) :
    later.Indexed := by
  have registered : registry.registerExtension descriptor = .ok (type, later) := by
    rw [registerExtension, h]
  obtain ⟨-, -, -, freshName, freshNumber, eq⟩ := eq_of_enterExtension h
  refine ⟨indexed.sound.registerExtension registered, ?_, ?_⟩
  · rw [eq]
    apply nodup_keys_append indexed.names
    intro other mem
    rw [extensionNamed?, List.find?_eq_none] at freshName
    simpa using freshName other mem
  · rw [eq]
    apply nodup_keys_append indexed.numbers
    intro other mem
    rw [extension?, List.find?_eq_none] at freshNumber
    simpa using freshNumber other mem

/-- One call keeps the indexes in order. -/
theorem Indexed.perform (indexed : registry.Indexed) (request : Request) :
    (registry.perform request).2.Indexed := by
  cases request with
  | type descriptor storage =>
      rw [Registry.perform]
      split
      · next type later entered =>
          have registered : registry.register descriptor storage = .ok (type, later) := by
            rw [register, entered]
          obtain ⟨-, -, rfl⟩ := eq_of_enterType entered
          exact ⟨indexed.sound.register registered, indexed.names, indexed.numbers⟩
      · next failed =>
          rw [eq_of_enterType_error failed]
          exact indexed
  | extension descriptor =>
      rw [Registry.perform]
      split
      · next entered => exact indexed.enterExtension entered
      · next failed =>
          rw [eq_of_enterExtension_error failed]
          exact indexed

/-- So do any calls, one after another. -/
theorem Indexed.performAll (indexed : registry.Indexed) (requests : List Request) :
    (registry.performAll requests).Indexed := by
  induction requests generalizing registry with
  | nil => exact indexed
  | cons request requests ih => exact ih (indexed.perform request)

theorem mem_of_extension? {extendee : String} {number : Nat} {type : ExtensionType}
    (found : registry.extension? extendee number = some type) : type ∈ registry.extensions :=
  List.mem_of_find?_eq_some found

/-- Names tell the extensions of a registry apart. -/
theorem Sound.extensionNamed?_eq_some_iff (sound : registry.Sound) {name : String}
    {type : ExtensionType} :
    registry.extensionNamed? name = some type ↔
      type.fullName = name ∧ type ∈ registry.extensions := by
  constructor
  · intro found
    rw [extensionNamed?] at found
    have mem := List.mem_of_find?_eq_some found
    rw [sound.indexes] at mem
    exact ⟨by simpa using List.find?_some found, mem⟩
  · rintro ⟨rfl, mem⟩
    exact sound.extensionNamed type mem

/-- Where no key is entered twice, both indexes find the same extensions, whose value types are
registered. -/
theorem Indexed.consistent (indexed : registry.Indexed) : registry.Consistent where
  names := indexed.names
  numbers := indexed.numbers
  matched := by
    intro name type
    rw [indexed.sound.extensionNamed?_eq_some_iff]
    refine and_congr_right fun _ => ⟨indexed.sound.extensionNumbered type, ?_⟩
    intro found
    exact mem_of_extension? found
  valued := by
    intro extendee number type found isMessage
    have mem := mem_of_extension? found
    have isSome := indexed.sound.extensionValue type mem
    rw [isMessage] at isSome
    obtain ⟨valueType, value⟩ := Option.isSome_iff_exists.1 isSome
    have held := indexed.sound.extensionValueType type mem valueType value
    refine ⟨valueType, value, indexed.sound.home valueType held, ?_⟩
    rw [indexed.sound.extensionValueName type mem valueType value]
    exact indexed.sound.named valueType held

/-- Whatever calls were made on a new registry, valid or not, its indexes of extensions are
consistent, and the next call enters exactly what it registers or, where it fails, leaves
every lookup as it was. -/
theorem consistent_performAll (id : RegistryId) (requests : List Request) :
    ((Registry.empty id).performAll requests).Consistent ∧
      ∀ request, ((Registry.empty id).performAll requests).Answers
        (((Registry.empty id).performAll requests).perform request) :=
  ⟨((indexed_empty id).performAll requests).consistent, answers_perform _⟩

/-- An extension of nodes whose number is taken is refused after its name was entered, and
the name is free then. -/
example :
    let registry := (Registry.empty ⟨0⟩).performAll
      [.type nodeDescriptor .full, .extension labelType.descriptor]
    let answer := registry.perform (.extension ⟨"a.title", "a.Node", .plain "title" 100 .bytes⟩)
    (registry.enterName ⟨⟨"a.title", "a.Node", .plain "title" 100 .bytes⟩, none⟩).isSome = true ∧
      answer.2.extensionNamed? "a.title" = none ∧
      answer.2.extensionNamed? "a.label" = some labelType := by
  decide

end ProtoWire.Registry
