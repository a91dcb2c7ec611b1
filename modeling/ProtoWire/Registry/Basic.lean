import ProtoWire.Failure
import ProtoWire.Schema.FieldTable

/-!
# Registries

A registry holds message types under their full names and extensions in two
indexes, one by their full names and one by the pair of extended type and number.
Types name each other and may be registered in any order, so what they name is
looked up when a table is first needed.
-/

set_option autoImplicit false

namespace ProtoWire

/-- A registry, with the tables and codecs worked out so far. -/
structure Registry where
  id : RegistryId
  /-- A dropped registry resolves nothing any more; what was worked out stays. -/
  dropped : Bool
  /-- The registered message types, no two of one name. -/
  types : List MessageType
  /-- The index of the extensions by extended type and number, no two of one pair. -/
  extensions : List ExtensionType
  /-- The index of the extensions by name, no two of one name. -/
  extensionNames : List ExtensionType
  /-- The tables asked for so far, by the name of the type. A failure is kept too. -/
  tables : List (String × Except Unbuildable FieldTable)
  /-- The codecs of the extensions met so far, by the name of the extension. -/
  codecs : List (String × FieldCodec)

/-- How a search for required fields and extension ranges ended: whether it found any,
and the names of the types that are visited by then, those visited before among them. -/
structure InitSearch (before : List String) where
  found : Bool
  visited : List String
  keeps : before ⊆ visited

namespace InitSearch

/-- The end of a search that visits nothing more. -/
def ended (found : Bool) (before : List String) : InitSearch before :=
  ⟨found, before, List.Subset.refl before⟩

/-- The search as part of one that began with fewer types visited. -/
def since {earlier before : List String} (search : InitSearch before)
    (fewer : earlier ⊆ before) : InitSearch earlier :=
  ⟨search.found, search.visited, List.Subset.trans fewer search.keeps⟩

end InitSearch

namespace Registry

/-- A registry that holds nothing. -/
def empty (id : RegistryId) : Registry :=
  ⟨id, false, [], [], [], [], []⟩

/-- The message type of a full name. -/
def type? (registry : Registry) (name : String) : Option MessageType :=
  registry.types.find? fun type => type.fullName == name

/-- The extension of a full name. -/
def extensionNamed? (registry : Registry) (name : String) : Option ExtensionType :=
  registry.extensionNames.find? fun type => type.fullName == name

/-- The extension of a type under a number. -/
def extension? (registry : Registry) (extendee : String) (number : Nat) :
    Option ExtensionType :=
  registry.extensions.find? fun type => type.extendee == extendee && type.number == number

/-- Checks the fields of a type and resolves the types of their values, one for
each field. The numbers in front are those of the fields before. -/
def resolveFields (registry : Registry) (type : MessageType) :
    List Nat → List FieldDescriptor → Except Unbuildable (List (Option MessageType))
  | _, [] => .ok []
  | seen, field :: fields =>
      let fail (defect : Defect) : Except Unbuildable (List (Option MessageType)) :=
        .error ⟨type.fullName, some field.number, defect⟩
      let next (valueType : Option MessageType) :
          Except Unbuildable (List (Option MessageType)) :=
        match resolveFields registry type (field.number :: seen) fields with
        | .ok valueTypes => .ok (valueType :: valueTypes)
        | .error error => .error error
      if !isFieldNumber field.number then fail .fieldNumberOutOfRange
      else if seen.contains field.number then fail .duplicateFieldNumber
      else if field.oneof.any (type.descriptor.oneofs.length ≤ ·) then fail .oneofOutOfRange
      else if field.oneof.isSome && field.isRepeated then fail .repeatedOneofMember
      else if field.kind.isMessage then
        match field.messageType with
        | none => fail .missingMessageType
        | some name =>
            match registry.type? name with
            | none => fail .unregisteredMessageType
            | some valueType => next (some valueType)
      else next none

/-- Checks a type on its own and resolves the types of its fields' values. -/
def resolve (registry : Registry) (type : MessageType) :
    Except Unbuildable (List (Option MessageType)) :=
  let fail (defect : Defect) : Except Unbuildable (List (Option MessageType)) :=
    .error ⟨type.fullName, none, defect⟩
  if type.descriptor.messageSet && !type.storage.extensions then fail .messageSetNoExtensions
  else if type.descriptor.messageSet && !type.storage.unknownFields then
    fail .messageSetNoUnknown
  else if type.descriptor.messageSet && !type.fields.isEmpty then fail .messageSetFields
  else registry.resolveFields type [] type.fields

/-- Searches depth first from the types on the stack, whose top is in front, and
returns the types found behind those found before. Every type found is checked.
The limit is on the types taken from the stack. -/
def explore (registry : Registry) :
    Nat → List MessageType → List MessageType → Except Unbuildable (List MessageType)
  | _, found, [] => .ok found
  | 0, found, _ => .ok found
  | limit + 1, found, type :: stack =>
      if found.any fun other => other.fullName == type.fullName then
        explore registry limit found stack
      else
        match registry.resolve type with
        | .error error => .error error
        | .ok valueTypes =>
            explore registry limit (type :: found)
              ((valueTypes.filterMap fun valueType => valueType).reverse ++ stack)

/-- The number of fields that some types declare. -/
def fieldCount : List MessageType → Nat
  | [] => 0
  | type :: types => type.fields.length + fieldCount types

/-- The types that a type reaches through its fields, itself included, given the
value types of its own fields. A type is put on the stack at most once for each
field that names it, which bounds the search. -/
def reachableFrom (registry : Registry) (type : MessageType)
    (valueTypes : List (Option MessageType)) : Except Unbuildable (List MessageType) :=
  let stack := (valueTypes.filterMap fun valueType => valueType).reverse
  registry.explore (stack.length + fieldCount registry.types) [type] stack

/-- How much of a search is left at most: one step for each type that has not been
visited, and one for each of its fields and for their end. -/
def unvisited : List MessageType → List String → Nat
  | [], _ => 0
  | type :: types, visited =>
      (if type.fullName ∈ visited then 0 else type.fields.length + 2) + unvisited types visited

theorem unvisited_le (types : List MessageType) {before after : List String}
    (more : before ⊆ after) : unvisited types after ≤ unvisited types before := by
  induction types with
  | nil => exact Nat.le_refl _
  | cons first types ih =>
      simp only [unvisited]
      split
      · omega
      · next new =>
          rw [if_neg fun old => new (more old)]
          omega

theorem unvisited_visit_le {types : List MessageType} {type : MessageType} (mem : type ∈ types)
    {before : List String} (new : type.fullName ∉ before) :
    unvisited types (type.fullName :: before) + (type.fields.length + 2) ≤
      unvisited types before := by
  induction types with
  | nil => simp at mem
  | cons first types ih =>
      rcases List.mem_cons.1 mem with rfl | mem
      · have := unvisited_le types (List.subset_cons_self type.fullName before)
        simp only [unvisited, if_neg new, if_pos List.mem_cons_self]
        omega
      · have := ih mem
        have one := unvisited_le [first] (List.subset_cons_self type.fullName before)
        simp only [unvisited] at one ⊢
        omega

mutual

/-- Visits a type, unless it was visited before, and searches it and then what its
fields lead to, depth first, until something is found. -/
def searchType (registry : Registry) (type : MessageType) (before : List String) :
    InitSearch before :=
  if type.fullName ∈ before then .ended false before
  else if !type.descriptor.extensionRanges.isEmpty then
    (InitSearch.ended true (type.fullName :: before)).since (List.subset_cons_self _ _)
  else
    (searchFields registry type.fields (type.fullName :: before)).since
      (List.subset_cons_self _ _)
termination_by unvisited registry.types before +
  if type ∈ registry.types then 0 else type.fields.length + 2
decreasing_by
  next new _ =>
    split
    · next mem =>
        have := unvisited_visit_le mem new
        omega
    · have := unvisited_le registry.types (List.subset_cons_self type.fullName before)
      omega

/-- Searches some fields one after another, and the types of their values. -/
def searchFields (registry : Registry) (fields : List FieldDescriptor)
    (before : List String) : InitSearch before :=
  match fields with
  | [] => .ended false before
  | field :: fields =>
      if field.isRequired then .ended true before
      else
        match _ : field.valueTypeName?.bind registry.type? with
        | none => searchFields registry fields before
        | some valueType =>
            let inner := searchType registry valueType before
            if inner.found then inner
            else (searchFields registry fields inner.visited).since inner.keeps
termination_by unvisited registry.types before + fields.length + 1
decreasing_by
  · simp
  · next value =>
      obtain ⟨name, -, found⟩ := Option.bind_eq_some_iff.1 value
      rw [if_pos (List.mem_of_find?_eq_some found)]
      omega
  · exact Nat.succ_lt_succ
      (Nat.add_lt_add_of_le_of_lt (unvisited_le _ inner.keeps) (Nat.lt_succ_self _))

end

theorem searchFields_cons (registry : Registry) (field : FieldDescriptor)
    (fields : List FieldDescriptor) (before : List String) :
    registry.searchFields (field :: fields) before =
      if field.isRequired then .ended true before
      else
        match field.valueTypeName?.bind registry.type? with
        | none => registry.searchFields fields before
        | some valueType =>
            let inner := registry.searchType valueType before
            if inner.found then inner
            else (registry.searchFields fields inner.visited).since inner.keeps := by
  rw [searchFields]
  split
  · rfl
  · split <;> simp only [*]

/-- Whether a type, or any type that it reaches through its fields, has required fields
or leaves numbers open for extensions. -/
def needsInitCheck (registry : Registry) (type : MessageType) : Bool :=
  (registry.searchType type []).found

/-- Works out the table of a type. It exists only if the tables of all types it
reaches exist too. -/
def buildTable (registry : Registry) (type : MessageType) : Except Unbuildable FieldTable :=
  if registry.dropped then .error ⟨type.fullName, none, .registryDropped⟩
  else
    match registry.resolve type with
    | .error error => .error error
    | .ok valueTypes =>
        match registry.reachableFrom type valueTypes with
        | .error error => .error error
        | .ok _ => .ok (.build type valueTypes (registry.needsInitCheck type))

/-- Enters a message type under its name: the type or a failure, and what the
registry is then. -/
def enterType (registry : Registry) (descriptor : MessageDescriptor) (storage : Storage) :
    Except Misuse MessageType × Registry :=
  if (registry.type? descriptor.fullName).isSome then
    (.error (.duplicateType descriptor.fullName), registry)
  else
    let type : MessageType := ⟨descriptor, storage, registry.id⟩
    (.ok type, { registry with types := registry.types ++ [type] })

/-- Registers a message type. -/
def register (registry : Registry) (descriptor : MessageDescriptor) (storage : Storage) :
    Except Misuse (MessageType × Registry) :=
  match registry.enterType descriptor storage with
  | (.ok type, later) => .ok (type, later)
  | (.error error, _) => .error error

/-- Resolves the type of an extension's values, which the registry must hold and
which, with all types it reaches, must be without defect. -/
def resolveExtension (registry : Registry) (descriptor : ExtensionDescriptor) :
    Except Failure (Option MessageType) :=
  if !descriptor.field.kind.isMessage then .ok none
  else
    let name := descriptor.field.messageType.getD ""
    match registry.type? name with
    | none => .error (.schema (.unregisteredValueType descriptor.fullName name))
    | some valueType =>
        match registry.resolve valueType with
        | .error error => .error (.build error)
        | .ok valueTypes =>
            match registry.reachableFrom valueType valueTypes with
            | .error error => .error (.build error)
            | .ok _ => .ok (some valueType)

/-- Enters an extension in the index by name, unless the name is taken. -/
def enterName (registry : Registry) (type : ExtensionType) : Option Registry :=
  if (registry.extensionNamed? type.fullName).isSome then none
  else some { registry with extensionNames := registry.extensionNames ++ [type] }

/-- Takes a name out of the index by name. -/
def freeName (registry : Registry) (name : String) : Registry :=
  { registry with
    extensionNames := registry.extensionNames.filter fun type => type.fullName != name }

/-- Enters an extension in the index by number, unless the number is taken. -/
def enterNumber (registry : Registry) (type : ExtensionType) : Option Registry :=
  if (registry.extension? type.extendee type.number).isSome then none
  else some { registry with extensions := registry.extensions ++ [type] }

/-- Enters an extension in both indexes, first under its name. If its number is
taken, the name is freed again. -/
def enterIndexes (registry : Registry) (type : ExtensionType) :
    Except Failure ExtensionType × Registry :=
  match registry.enterName type with
  | none => (.error (.schema (.duplicateExtensionName type.fullName)), registry)
  | some named =>
      match named.enterNumber type with
      | none =>
          (.error (.schema (.duplicateExtension type.number type.extendee)),
            named.freeName type.fullName)
      | some numbered => (.ok type, numbered)

/-- Checks an extension and enters it: the extension or a failure, and what the
registry is then. -/
def enterExtension (registry : Registry) (descriptor : ExtensionDescriptor) :
    Except Failure ExtensionType × Registry :=
  if !isFieldNumber descriptor.field.number then
    (.error (.schema (.invalidExtensionNumber descriptor.fullName descriptor.field.number)),
      registry)
  else if descriptor.field.oneof.isSome then
    (.error (.schema (.extensionInOneof descriptor.fullName)), registry)
  else
    match registry.resolveExtension descriptor with
    | .error failure => (.error failure, registry)
    | .ok valueType => registry.enterIndexes ⟨descriptor, valueType⟩

/-- Registers an extension. -/
def registerExtension (registry : Registry) (descriptor : ExtensionDescriptor) :
    Except Failure (ExtensionType × Registry) :=
  match registry.enterExtension descriptor with
  | (.ok type, later) => .ok (type, later)
  | (.error failure, _) => .error failure

end Registry

end ProtoWire
