import Mathlib.Data.List.Forall2
import ProtoWire.Registry.Store

/-!
# Resolution of fields

A type resolves when each of its fields is without defect and names a type that the
registry holds (`resolve_eq_ok_iff`). Resolution and everything built from it looks at the
registered types only, so it does not change when tables and codecs are kept
(`buildTable_congr`), and a type that resolves does so for good: more types in the registry
leave the answer as it is (`resolve_mono`).
-/

set_option autoImplicit false

namespace ProtoWire.Registry

variable {registry later : Registry} {type : MessageType}

/-! ## Looking up types -/

theorem mem_types_of_type? {name : String} (h : registry.type? name = some type) :
    type ∈ registry.types ∧ type.fullName = name := by
  refine ⟨List.mem_of_find?_eq_some h, ?_⟩
  simpa using List.find?_some h

theorem type?_append (name : String) (more : List MessageType) :
    { registry with types := registry.types ++ more }.type? name =
      (registry.type? name).or (more.find? fun type => type.fullName == name) := by
  simp only [type?, List.find?_append]

/-- Whatever type the one registry finds under a name, the other finds too. -/
def Extends (registry later : Registry) : Prop :=
  ∀ name type, registry.type? name = some type → later.type? name = some type

/-! ## One field -/

/-- A field is without defect in a type, and its values are of the given type. -/
structure Resolves (registry : Registry) (type : MessageType) (field : FieldDescriptor)
    (valueType : Option MessageType) : Prop where
  number : isFieldNumber field.number = true
  oneof : field.oneof.any (type.descriptor.oneofs.length ≤ ·) = false
  member : (field.oneof.isSome && field.isRepeated) = false
  value : valueType = field.valueTypeName?.bind registry.type?
  named : field.kind.isMessage = true → valueType.isSome = true

/-- A field that resolves resolves in the same way where more types are registered. -/
theorem Resolves.mono {field : FieldDescriptor} {valueType : Option MessageType}
    (h : registry.Resolves type field valueType) (more : registry.Extends later) :
    later.Resolves type field valueType := by
  refine ⟨h.number, h.oneof, h.member, ?_, h.named⟩
  -- only fields of messages look a type up, and what they found stays
  by_cases isMessage : field.kind.isMessage = true
  · obtain ⟨found, eq⟩ := Option.isSome_iff_exists.1 (h.named isMessage)
    have value := h.value
    rw [eq] at value ⊢
    cases name : field.valueTypeName? with
    | none => simp [name] at value
    | some name' =>
        rw [name, Option.bind_some] at value
        exact (more name' found value.symm).symm
  · rw [h.value]
    simp [FieldDescriptor.valueTypeName?, isMessage]

/-- Values are messages exactly for the message kinds. -/
theorem Resolves.isSome_value {field : FieldDescriptor} {valueType : Option MessageType}
    (h : registry.Resolves type field valueType) :
    valueType.isSome = field.kind.isMessage := by
  cases isMessage : field.kind.isMessage with
  | true => exact h.named isMessage
  | false => simp [h.value, FieldDescriptor.valueTypeName?, isMessage]

theorem Resolves.mem_types {field : FieldDescriptor} {valueType : MessageType}
    (h : registry.Resolves type field (some valueType)) : valueType ∈ registry.types := by
  have value := h.value
  cases name : field.valueTypeName? with
  | none => simp [name] at value
  | some name' =>
      rw [name, Option.bind_some] at value
      exact (mem_types_of_type? value.symm).1

/-! ## All fields of a type -/

/-- Fields resolve one by one, each with a number that none before it has. -/
theorem resolveFields_cons_eq_ok_iff {seen : List Nat} {field : FieldDescriptor}
    {fields : List FieldDescriptor} {valueTypes : List (Option MessageType)} :
    registry.resolveFields type seen (field :: fields) = .ok valueTypes ↔
      ∃ valueType rest, valueTypes = valueType :: rest ∧ registry.Resolves type field valueType ∧
        field.number ∉ seen ∧
        registry.resolveFields type (field.number :: seen) fields = .ok rest := by
  constructor
  · intro h
    -- the checks come in their order, and each is passed
    simp only [resolveFields] at h
    split at h
    · simp at h
    · next number =>
        split at h
        · simp at h
        · next fresh =>
            split at h
            · simp at h
            · next oneof =>
                split at h
                · simp at h
                · next member =>
                    simp only [Bool.not_eq_true', Bool.not_eq_false] at number
                    simp only [List.contains_eq_mem, decide_eq_true_eq] at fresh
                    simp only [Bool.not_eq_true] at oneof member
                    split at h
                    -- a message field names a type that is found
                    · next isMessage =>
                        split at h
                        · simp at h
                        · next name named =>
                            split at h
                            · simp at h
                            · next valueType found =>
                                split at h
                                · next rest eq =>
                                    cases h
                                    refine ⟨some valueType, rest, rfl,
                                      ⟨number, oneof, member, ?_, fun _ => rfl⟩, fresh, eq⟩
                                    simp [FieldDescriptor.valueTypeName?, isMessage, named, found]
                                · simp at h
                    -- any other field has no type to look up
                    · next plain =>
                        split at h
                        · next rest eq =>
                            cases h
                            refine ⟨none, rest, rfl,
                              ⟨number, oneof, member, ?_, fun isMessage => ?_⟩, fresh, eq⟩
                            · simp [FieldDescriptor.valueTypeName?, plain]
                            · exact absurd isMessage plain
                        · simp at h
  · rintro ⟨valueType, rest, rfl, ⟨number, oneof, member, value, named⟩, fresh, eq⟩
    simp only [resolveFields, number, oneof, member, eq]
    by_cases isMessage : field.kind.isMessage = true
    · have held := named isMessage
      cases name : field.messageType with
      | none => simp [value, FieldDescriptor.valueTypeName?, isMessage, name] at held
      | some name' =>
          simp only [FieldDescriptor.valueTypeName?, isMessage, if_true, name,
            Option.bind_some] at value
          subst value
          obtain ⟨found, eq'⟩ := Option.isSome_iff_exists.1 held
          simp [isMessage, fresh, eq']
    · have none : valueType = none := by
        simp [value, FieldDescriptor.valueTypeName?, isMessage]
      simp [isMessage, fresh, none]

/-- The fields of a type resolve if each is without defect and no number occurs twice. -/
theorem resolveFields_eq_ok_iff {seen : List Nat} {fields : List FieldDescriptor}
    {valueTypes : List (Option MessageType)} :
    registry.resolveFields type seen fields = .ok valueTypes ↔
      List.Forall₂ (registry.Resolves type) fields valueTypes ∧
        (fields.map (·.number)).Nodup ∧ ∀ field ∈ fields, field.number ∉ seen := by
  induction fields generalizing seen valueTypes with
  | nil => simp [resolveFields, eq_comm]
  | cons field fields ih =>
      rw [resolveFields_cons_eq_ok_iff]
      constructor
      · rintro ⟨valueType, rest, rfl, resolves, fresh, eq⟩
        -- the numbers seen so far grow by that of the first field
        obtain ⟨all, distinct, unseen⟩ := ih.1 eq
        refine ⟨.cons resolves all, ?_, ?_⟩
        · rw [List.map_cons, List.nodup_cons]
          refine ⟨?_, distinct⟩
          intro mem
          obtain ⟨other, inside, same⟩ := List.mem_map.1 mem
          exact unseen other inside (by simp [same])
        · intro other mem
          rcases List.mem_cons.1 mem with rfl | inside
          · exact fresh
          · intro seen'
            exact unseen other inside (List.mem_cons_of_mem _ seen')
      · rintro ⟨all, distinct, unseen⟩
        cases all with
        | cons resolves rest =>
            rw [List.map_cons, List.nodup_cons] at distinct
            refine ⟨_, _, rfl, resolves, unseen field List.mem_cons_self,
              ih.2 ⟨rest, distinct.2, ?_⟩⟩
            intro other inside seen'
            rcases List.mem_cons.1 seen' with same | seen'
            · exact distinct.1 (List.mem_map.2 ⟨other, inside, same⟩)
            · exact unseen other (List.mem_cons_of_mem _ inside) seen'

/-- A type resolves if its fields do; a message set has places for extensions and for
unknown fields, and no fields. -/
theorem resolve_eq_ok_iff {valueTypes : List (Option MessageType)} :
    registry.resolve type = .ok valueTypes ↔
      (type.descriptor.messageSet = true → type.storage.extensions = true ∧
        type.storage.unknownFields = true ∧ type.fields = []) ∧
      registry.resolveFields type [] type.fields = .ok valueTypes := by
  simp only [resolve]
  -- only message sets are restricted in their places and fields
  cases type.descriptor.messageSet with
  | false => simp
  | true =>
      cases type.storage.extensions with
      | false => simp
      | true =>
          cases type.storage.unknownFields with
          | false => simp
          | true => by_cases fields : type.fields = [] <;> simp [fields]

/-- More types in the registry leave a type resolved as it was. -/
theorem resolve_mono {valueTypes : List (Option MessageType)}
    (h : registry.resolve type = .ok valueTypes) (more : registry.Extends later) :
    later.resolve type = .ok valueTypes := by
  obtain ⟨shape, fields⟩ := resolve_eq_ok_iff.1 h
  obtain ⟨all, distinct, unseen⟩ := resolveFields_eq_ok_iff.1 fields
  -- what is asked of the numbers does not depend on the registry
  refine resolve_eq_ok_iff.2 ⟨shape, resolveFields_eq_ok_iff.2 ⟨?_, distinct, unseen⟩⟩
  exact all.imp fun _ _ resolves => resolves.mono more

/-! ## What resolution depends on -/

theorem resolveFields_congr (same : later.types = registry.types) (seen : List Nat)
    (fields : List FieldDescriptor) :
    later.resolveFields type seen fields = registry.resolveFields type seen fields := by
  induction fields generalizing seen with
  | nil => rfl
  | cons field fields ih => simp only [resolveFields, type?, same, ih]

/-- Resolution looks at the registered types only. -/
theorem resolve_congr (same : later.types = registry.types) (type : MessageType) :
    later.resolve type = registry.resolve type := by
  simp only [resolve, resolveFields_congr same]

theorem explore_congr (same : later.types = registry.types) (limit : Nat)
    (found stack : List MessageType) :
    later.explore limit found stack = registry.explore limit found stack := by
  induction limit generalizing found stack with
  | zero => cases stack <;> rfl
  | succ limit ih =>
      cases stack with
      | nil => rfl
      | cons type stack => simp only [explore, resolve_congr same, ih]

/-- The same of the search for required fields. -/
theorem search_congr (same : later.types = registry.types) :
    (∀ type before, later.searchType type before = registry.searchType type before) ∧
      ∀ fields before, later.searchFields fields before = registry.searchFields fields before := by
  have types : later.type? = registry.type? := funext fun name => by rw [type?, type?, same]
  apply searchType.mutual_induct registry
  case case1 =>
    intro type before old
    rw [searchType, searchType, if_pos old, if_pos old]
  case case2 =>
    intro type before new open'
    rw [searchType, searchType, if_neg new, if_neg new, if_pos open', if_pos open']
  case case3 =>
    intro type before new closed ih
    rw [searchType, searchType, if_neg new, if_neg new, if_neg closed, if_neg closed, ih]
  case case4 =>
    intro before
    rw [searchFields, searchFields]
  case case5 =>
    intro before field fields required
    rw [searchFields_cons, searchFields_cons, if_pos required, if_pos required]
  case case6 =>
    intro before field fields optional value ih
    simp only [searchFields_cons, types, if_neg optional, value, ih]
  case case7 =>
    intro before field fields optional valueType value inner found ih
    simp only [searchFields_cons, types, if_neg optional, value]
    rw [ih, if_pos found, if_pos found]
  case case8 =>
    intro before field fields optional valueType value inner unfound ih rest
    simp only [searchFields_cons, types, if_neg optional, value]
    rw [ih, if_neg unfound, if_neg unfound, rest]

theorem needsInitCheck_congr (same : later.types = registry.types) (type : MessageType) :
    later.needsInitCheck type = registry.needsInitCheck type := by
  rw [needsInitCheck, needsInitCheck, (search_congr same).1]

/-- A table depends on the registered types, and on whether the registry is still there. -/
theorem buildTable_congr (same : later.types = registry.types)
    (dropped : later.dropped = registry.dropped) (type : MessageType) :
    later.buildTable type = registry.buildTable type := by
  simp only [buildTable, reachableFrom, dropped, resolve_congr same, explore_congr same,
    needsInitCheck_congr same, same]

end ProtoWire.Registry
