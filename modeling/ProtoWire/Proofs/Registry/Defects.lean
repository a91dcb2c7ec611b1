import ProtoWire.Proofs.Registry.Exploration
import ProtoWire.Proofs.Registry.Reachable

/-!
# Defects of types

What can be wrong with a type is said here without the checks that look for it: `TypeDefect` is
about the type as a whole and `FieldDefect` about one of its fields. A type is checked as a whole
first and then field by field, each time in the order in which the defects are listed, and the
first defect is the one that is reported (`firstDefect_of_resolve`). A type resolves if it has no
defect (`resolvable_iff`). So the table of a type can be built just if the type and all types that
it reaches are without defect, and otherwise the error is the first defect of one of them
(`Store.Reachable.table_flawless_or_defect`).
-/

set_option autoImplicit false

namespace ProtoWire

namespace Registry

variable {registry : Registry} {type : MessageType}

/-! ## Defects -/

/-- What is wrong with a type as a whole. -/
def TypeDefect (type : MessageType) : Defect → Prop
  | .messageSetNoExtensions =>
      type.descriptor.messageSet = true ∧ type.storage.extensions = false
  | .messageSetNoUnknown =>
      type.descriptor.messageSet = true ∧ type.storage.unknownFields = false
  | .messageSetFields => type.descriptor.messageSet = true ∧ type.fields ≠ []
  | _ => False

/-- What is wrong with a field of a type that stands behind the given other ones. The largest
number of a field is `2 ^ 29 - 1`. -/
def FieldDefect (registry : Registry) (type : MessageType) (before : List FieldDescriptor)
    (field : FieldDescriptor) : Defect → Prop
  | .fieldNumberOutOfRange => ¬(1 ≤ field.number ∧ field.number ≤ 536870911)
  | .duplicateFieldNumber => ∃ earlier ∈ before, earlier.number = field.number
  | .oneofOutOfRange => ∃ oneof, field.oneof = some oneof ∧ type.descriptor.oneofs.length ≤ oneof
  | .repeatedOneofMember => (∃ oneof, field.oneof = some oneof) ∧ field.cardinality = .repeated
  | .missingMessageType => field.kind.isMessage = true ∧ field.messageType = none
  | .unregisteredMessageType =>
      field.kind.isMessage = true ∧ ∃ name, field.messageType = some name ∧
        ∀ other ∈ registry.types, other.fullName ≠ name
  | _ => False

/-- None of the defects that are listed in front of a place is there. -/
def ClearBefore (has : Defect → Prop) (place : Nat) : Prop :=
  ∀ other, other.ctorIdx < place → ¬ has other

/-- Of the defects that there are, the one that is listed first. -/
def IsFirst (has : Defect → Prop) (defect : Defect) : Prop :=
  has defect ∧ ClearBefore has defect.ctorIdx

/-- The first defect of a type, with the number of the field that has it. The type as a whole
comes first, and then its fields in order of declaration. -/
inductive FirstDefect (registry : Registry) (type : MessageType) : Option Nat → Defect → Prop
  | whole {defect : Defect} : IsFirst (TypeDefect type) defect →
      FirstDefect registry type none defect
  | field {before after : List FieldDescriptor} {field : FieldDescriptor} {defect : Defect} :
      (∀ defect, ¬ TypeDefect type defect) → type.fields = before ++ field :: after →
      (∀ front earlier back, before = front ++ earlier :: back →
        ∀ defect, ¬ registry.FieldDefect type front earlier defect) →
      IsFirst (registry.FieldDefect type before field) defect →
      FirstDefect registry type (some field.number) defect

/-- A type that is as it should be. A message set has places for extensions and unknown fields and
declares no fields. The numbers of fields are legal and distinct, members of oneofs are no lists
and name a oneof of the type, and the types of messages are registered. -/
structure Flawless (registry : Registry) (type : MessageType) : Prop where
  places : type.descriptor.messageSet = true →
    type.storage.extensions = true ∧ type.storage.unknownFields = true ∧ type.fields = []
  numbers : ∀ field ∈ type.fields, 1 ≤ field.number ∧ field.number ≤ 536870911
  distinct : (type.fields.map (·.number)).Nodup
  oneofs : ∀ field ∈ type.fields, ∀ oneof, field.oneof = some oneof →
    oneof < type.descriptor.oneofs.length ∧ field.cardinality ≠ .repeated
  named : ∀ field ∈ type.fields, field.kind.isMessage = true →
    ∃ name, field.messageType = some name ∧ ∃ other ∈ registry.types, other.fullName = name

/-! ## Single checks -/

theorem type?_eq_none_iff {name : String} :
    registry.type? name = none ↔ ∀ other ∈ registry.types, other.fullName ≠ name := by
  rw [type?, List.find?_eq_none]
  simp

theorem isSome_type?_iff {name : String} :
    (registry.type? name).isSome = true ↔ ∃ other ∈ registry.types, other.fullName = name := by
  rw [type?, List.find?_isSome]
  simp

/-- A defect that is not there either. -/
theorem ClearBefore.next {has : Defect → Prop} {defect : Defect}
    (clear : ClearBefore has defect.ctorIdx) (absent : ¬ has defect) :
    ClearBefore has (defect.ctorIdx + 1) := by
  intro other earlier
  rcases Nat.lt_succ_iff_lt_or_eq.1 earlier with before | same
  · exact clear other before
  · have eq : other = defect := by
      cases other <;> cases defect <;> first | rfl | cases same
    exact eq ▸ absent

/-- The last of the defects is not there either. -/
theorem ClearBefore.none {has : Defect → Prop}
    (clear : ClearBefore has Defect.registryDropped.ctorIdx) (absent : ¬ has .registryDropped)
    (defect : Defect) : ¬ has defect := by
  apply clear.next absent
  cases defect <;> decide

/-! ## The fields -/

variable {seen : List Nat} {before fields : List FieldDescriptor} {field : FieldDescriptor}

theorem clearBefore_fieldDefect :
    ClearBefore (registry.FieldDefect type before field) Defect.fieldNumberOutOfRange.ctorIdx := by
  intro other earlier
  cases other <;> first | exact False.elim | exact absurd earlier (by decide)

/-- Either the first field is found to have a defect, or it has none and the fields behind it
decide. -/
def Examined (registry : Registry) (type : MessageType) (seen : List Nat)
    (before : List FieldDescriptor) (field : FieldDescriptor) (fields : List FieldDescriptor) :
    Prop :=
  (∃ defect, IsFirst (registry.FieldDefect type before field) defect ∧
    registry.resolveFields type seen (field :: fields) =
      .error ⟨type.fullName, some field.number, defect⟩) ∨
  ((∀ defect, ¬ registry.FieldDefect type before field defect) ∧
    ∃ valueType, registry.resolveFields type seen (field :: fields) =
      match registry.resolveFields type (field.number :: seen) fields with
      | .ok valueTypes => .ok (valueType :: valueTypes)
      | .error error => .error error)

/-- The type of a field's values is looked at when the field has passed the other checks. -/
theorem examined_of_clear (number : isFieldNumber field.number = true) (fresh : field.number ∉ seen)
    (oneof : field.oneof.any (type.descriptor.oneofs.length ≤ ·) = false)
    (member : (field.oneof.isSome && field.isRepeated) = false)
    (clear : ClearBefore (registry.FieldDefect type before field)
      Defect.missingMessageType.ctorIdx) :
    registry.Examined type seen before field fields := by
  have last : ¬ registry.FieldDefect type before field .registryDropped := False.elim
  cases isMessage : field.kind.isMessage with
  -- the values of any other field have no type to look up
  | false =>
      have untyped : ClearBefore (registry.FieldDefect type before field)
          Defect.unregisteredMessageType.ctorIdx :=
        clear.next fun defect => absurd defect.1 (by simp [isMessage])
      have all : ClearBefore (registry.FieldDefect type before field)
          Defect.registryDropped.ctorIdx :=
        untyped.next fun defect => absurd defect.1 (by simp [isMessage])
      refine .inr ⟨all.none last, none, ?_⟩
      simp only [resolveFields, number, List.contains_eq_mem, fresh, oneof, member, isMessage]
      rfl
  | true =>
      cases named : field.messageType with
      | none =>
          refine .inl ⟨.missingMessageType, ⟨⟨isMessage, named⟩, clear⟩, ?_⟩
          simp [resolveFields, number, fresh, oneof, member, isMessage, named]
      | some name =>
          have typed : ClearBefore (registry.FieldDefect type before field)
              Defect.unregisteredMessageType.ctorIdx :=
            clear.next fun defect => by simp [defect.2] at named
          cases found : registry.type? name with
          | none =>
              have here : registry.FieldDefect type before field .unregisteredMessageType :=
                ⟨isMessage, name, named, type?_eq_none_iff.1 found⟩
              refine .inl ⟨_, ⟨here, typed⟩, ?_⟩
              simp [resolveFields, number, fresh, oneof, member, isMessage, named, found]
          | some valueType =>
              have all : ClearBefore (registry.FieldDefect type before field)
                  Defect.registryDropped.ctorIdx := by
                refine typed.next ?_
                rintro ⟨-, name', named', missing⟩
                rw [named, Option.some.injEq] at named'
                rw [← named', ← type?_eq_none_iff, found] at missing
                cases missing
              refine .inr ⟨all.none last, some valueType, ?_⟩
              simp only [resolveFields, number, List.contains_eq_mem, fresh, oneof, member,
                isMessage, named, found]
              rfl

/-- A field is checked for one defect after the other. -/
theorem examined (same : ∀ number, number ∈ seen ↔ ∃ earlier ∈ before, earlier.number = number) :
    registry.Examined type seen before field fields := by
  -- each check knows that those before it found nothing
  have first : ClearBefore (registry.FieldDefect type before field)
      Defect.fieldNumberOutOfRange.ctorIdx := clearBefore_fieldDefect
  cases number : isFieldNumber field.number with
  | false =>
      have here : registry.FieldDefect type before field .fieldNumberOutOfRange := by
        intro legal
        rw [isFieldNumber_iff.2 legal] at number
        cases number
      exact .inl ⟨_, ⟨here, first⟩, by simp [resolveFields, number]⟩
  | true =>
      have second : ClearBefore (registry.FieldDefect type before field)
          Defect.duplicateFieldNumber.ctorIdx :=
        first.next fun defect => defect (isFieldNumber_iff.1 number)
      by_cases old : field.number ∈ seen
      · have here : registry.FieldDefect type before field .duplicateFieldNumber := (same _).1 old
        exact .inl ⟨_, ⟨here, second⟩, by simp [resolveFields, number, old]⟩
      have third : ClearBefore (registry.FieldDefect type before field)
          Defect.oneofOutOfRange.ctorIdx :=
        second.next fun defect => old ((same _).2 defect)
      cases oneof : field.oneof.any (type.descriptor.oneofs.length ≤ ·) with
      | true =>
          have here : registry.FieldDefect type before field .oneofOutOfRange := by
            simpa [FieldDefect, Option.any_eq_true] using oneof
          exact .inl ⟨_, ⟨here, third⟩, by simp [resolveFields, number, old, oneof]⟩
      | false =>
          have fourth : ClearBefore (registry.FieldDefect type before field)
              Defect.repeatedOneofMember.ctorIdx := by
            refine third.next fun defect => ?_
            obtain ⟨index, eq, outside⟩ := defect
            simp [eq, outside] at oneof
          cases member : field.oneof.isSome && field.isRepeated with
          | true =>
              have here : registry.FieldDefect type before field .repeatedOneofMember := by
                simpa [FieldDefect, Option.isSome_iff_exists, FieldDescriptor.isRepeated]
                  using member
              exact .inl ⟨_, ⟨here, fourth⟩, by simp [resolveFields, number, old, oneof, member]⟩
          | false =>
              apply examined_of_clear number old oneof member
              refine fourth.next fun defect => ?_
              obtain ⟨⟨index, eq⟩, repeated⟩ := defect
              simp [eq, FieldDescriptor.isRepeated, repeated] at member

/-- What is reported of some fields is the first defect of the first field that has any. -/
theorem firstDefect_of_resolveFields (same : ∀ number, number ∈ seen ↔
      ∃ earlier ∈ before, earlier.number = number) {error : Unbuildable}
    (h : registry.resolveFields type seen fields = .error error) :
    ∃ front field after, fields = front ++ field :: after ∧
      (∀ start earlier rest, front = start ++ earlier :: rest →
        ∀ defect, ¬ registry.FieldDefect type (before ++ start) earlier defect) ∧
      IsFirst (registry.FieldDefect type (before ++ front) field) error.defect ∧
      error.messageType = type.fullName ∧ error.field = some field.number := by
  induction fields generalizing seen before with
  | nil => cases h
  | cons field fields ih =>
      have outcome : registry.Examined type seen before field fields := examined same
      rcases outcome with ⟨defect, first, found⟩ | ⟨clear, valueType, goesOn⟩
      · rw [h, Except.error.injEq] at found
        subst found
        refine ⟨[], field, fields, rfl, ?_, by simpa using first, rfl, rfl⟩
        intro start earlier rest none
        simp at none
      · rw [h] at goesOn
        cases rest : registry.resolveFields type (field.number :: seen) fields with
        | ok valueTypes => simp [rest] at goesOn
        | error error' =>
            rw [rest, Except.error.injEq] at goesOn
            subst goesOn
            -- the fields behind are checked with this one in front of them
            have same' : ∀ number, number ∈ field.number :: seen ↔
                ∃ earlier ∈ before ++ [field], earlier.number = number := by
              intro number
              simp only [List.mem_cons, same, List.mem_append, List.not_mem_nil, or_false]
              constructor
              · rintro (rfl | ⟨earlier, mem, eq⟩)
                · exact ⟨field, .inr rfl, rfl⟩
                · exact ⟨earlier, .inl mem, eq⟩
              · rintro ⟨earlier, mem | rfl, eq⟩
                · exact .inr ⟨earlier, mem, eq⟩
                · exact .inl eq.symm
            obtain ⟨front, other, after, rfl, clear', first, name, number⟩ := ih same' rest
            refine ⟨field :: front, other, after, rfl, ?_, by simpa using first, name, number⟩
            intro start earlier back split
            rcases List.cons_eq_append_iff.1 split with ⟨rfl, eq⟩ | ⟨start', rfl, eq⟩
            · cases eq
              simpa using clear
            · simpa using clear' start' earlier back eq

/-! ## Types -/

theorem clearBefore_typeDefect :
    ClearBefore (TypeDefect type) Defect.messageSetNoExtensions.ctorIdx :=
  fun _ earlier => absurd earlier (Nat.not_lt_zero _)

/-- Either a type is found to have a defect as a whole, or it has none and its fields decide. -/
theorem examined_whole (registry : Registry) (type : MessageType) :
    (∃ defect, IsFirst (TypeDefect type) defect ∧
      registry.resolve type = .error ⟨type.fullName, none, defect⟩) ∨
    ((∀ defect, ¬ TypeDefect type defect) ∧
      registry.resolve type = registry.resolveFields type [] type.fields) := by
  cases set : type.descriptor.messageSet with
  | false =>
      refine .inr ⟨fun defect has => ?_, by simp [resolve, set]⟩
      cases defect <;> simp [TypeDefect, set] at has
  | true =>
      cases extensions : type.storage.extensions with
      | false =>
          exact .inl ⟨.messageSetNoExtensions, ⟨⟨set, extensions⟩, clearBefore_typeDefect⟩,
            by simp [resolve, set, extensions]⟩
      | true =>
          have second : ClearBefore (TypeDefect type) Defect.messageSetNoUnknown.ctorIdx :=
            clearBefore_typeDefect.next fun defect => absurd defect.2 (by simp [extensions])
          cases unknown : type.storage.unknownFields with
          | false =>
              exact .inl ⟨.messageSetNoUnknown, ⟨⟨set, unknown⟩, second⟩,
                by simp [resolve, set, extensions, unknown]⟩
          | true =>
              by_cases fields : type.fields = []
              · refine .inr ⟨fun defect has => ?_,
                  by simp [resolve, set, extensions, unknown, fields]⟩
                cases defect <;> simp [TypeDefect, extensions, unknown, fields] at has
              · have third : ClearBefore (TypeDefect type) Defect.messageSetFields.ctorIdx :=
                  second.next fun defect => absurd defect.2 (by simp [unknown])
                exact .inl ⟨.messageSetFields, ⟨⟨set, fields⟩, third⟩,
                  by simp [resolve, set, extensions, unknown, fields]⟩

/-- What is reported of a type is its first defect. -/
theorem firstDefect_of_resolve {error : Unbuildable} (h : registry.resolve type = .error error) :
    error.messageType = type.fullName ∧ registry.FirstDefect type error.field error.defect := by
  rcases registry.examined_whole type with ⟨defect, first, found⟩ | ⟨clear, goesOn⟩
  · rw [h, Except.error.injEq] at found
    subst found
    exact ⟨rfl, .whole first⟩
  · rw [goesOn] at h
    have none : ∀ number, number ∈ [] ↔
        ∃ earlier ∈ ([] : List FieldDescriptor), earlier.number = number := by
      simp
    obtain ⟨front, field, after, split, clear', first, name, number⟩ :=
      firstDefect_of_resolveFields none h
    rw [number]
    exact ⟨name, .field clear split clear' first⟩

/-- A field that resolves is as it should be. -/
theorem Resolves.member_of {valueType : Option MessageType}
    (h : registry.Resolves type field valueType) {oneof : Nat} (member : field.oneof = some oneof) :
    oneof < type.descriptor.oneofs.length ∧ field.cardinality ≠ .repeated := by
  have inside := h.oneof
  have single := h.member
  simp only [member, Option.any_some, decide_eq_false_iff_not, Nat.not_le, Option.isSome_some,
    Bool.true_and, FieldDescriptor.isRepeated, beq_eq_false_iff_ne] at inside single
  exact ⟨inside, single⟩

theorem Resolves.named_of {valueType : Option MessageType}
    (h : registry.Resolves type field valueType) (isMessage : field.kind.isMessage = true) :
    ∃ name, field.messageType = some name ∧ ∃ other ∈ registry.types, other.fullName = name := by
  have found := h.named isMessage
  rw [h.value, FieldDescriptor.valueTypeName?, if_pos isMessage] at found
  cases named : field.messageType with
  | none => simp [named] at found
  | some name =>
      rw [named, Option.bind_some, isSome_type?_iff] at found
      exact ⟨name, rfl, found⟩

/-- A field that is as it should be resolves. -/
theorem Flawless.resolves (h : registry.Flawless type) (mem : field ∈ type.fields) :
    registry.Resolves type field (field.valueTypeName?.bind registry.type?) where
  number := isFieldNumber_iff.2 (h.numbers field mem)
  oneof := by
    cases member : field.oneof with
    | none => rfl
    | some oneof => simpa using (h.oneofs field mem oneof member).1
  member := by
    cases member : field.oneof with
    | none => rfl
    | some oneof =>
        simpa [FieldDescriptor.isRepeated] using (h.oneofs field mem oneof member).2
  value := rfl
  named := by
    intro isMessage
    obtain ⟨name, named, registered⟩ := h.named field mem isMessage
    rw [FieldDescriptor.valueTypeName?, if_pos isMessage, named, Option.bind_some]
    exact isSome_type?_iff.2 registered

/-- A type resolves just if it is as it should be. -/
theorem resolvable_iff : registry.Resolvable type ↔ registry.Flawless type := by
  constructor
  · rintro ⟨valueTypes, resolved⟩
    obtain ⟨places, fields⟩ := resolve_eq_ok_iff.1 resolved
    obtain ⟨all, distinct, -⟩ := resolveFields_eq_ok_iff.1 fields
    rw [eq_map_of_resolve resolved, List.forall₂_map_right_iff, List.forall₂_same] at all
    exact ⟨places, fun field mem => isFieldNumber_iff.1 (all field mem).number, distinct,
      fun field mem _ member => (all field mem).member_of member,
      fun field mem isMessage => (all field mem).named_of isMessage⟩
  · intro flawless
    refine ⟨type.fields.map fun field => field.valueTypeName?.bind registry.type?,
      resolve_eq_ok_iff.2 ⟨flawless.places, resolveFields_eq_ok_iff.2 ⟨?_, flawless.distinct, ?_⟩⟩⟩
    · rw [List.forall₂_map_right_iff, List.forall₂_same]
      exact fun field mem => flawless.resolves mem
    · simp

theorem whole_iff : registry.Whole type ↔
    ∀ other, registry.Reaches type other → registry.Flawless other := by
  simp only [Whole, resolvable_iff]

/-- While the registry is there, only a type that is reached can keep a table from being built. -/
theorem exists_of_buildTable_error (sound : registry.Sound) (mem : type ∈ registry.types)
    (alive : registry.dropped = false) {error : Unbuildable}
    (h : registry.buildTable type = .error error) :
    ∃ other, registry.Reaches type other ∧ registry.resolve other = .error error := by
  rw [buildTable, alive, if_neg Bool.false_ne_true] at h
  cases resolved : registry.resolve type with
  | error error' =>
      rw [resolved] at h
      cases h
      exact ⟨type, .refl, resolved⟩
  | ok valueTypes =>
      have spec := reachableFrom_spec sound mem resolved
      cases search : registry.reachableFrom type valueTypes with
      | error error' =>
          rw [search] at spec
          simp only [resolved, search, Except.error.injEq] at h
          exact h ▸ spec
      | ok reachable => simp [resolved, search] at h

end Registry

/-! ## Tables -/

namespace Store

variable {store : Store} {type : MessageType}

/-- A table that is asked for for the first time is there just if the type and all types that it
reaches are as they should be. Otherwise the error is the first defect of one of these types. -/
theorem Reachable.table_flawless_or_defect (h : store.Reachable) (held : store.Holds type)
    (alive : (store.registry type.registry).dropped = false)
    (fresh : (store.registry type.registry).tables.lookup type.fullName = none) :
    ((∃ table, ((Coding.table type).run store).1 = .ok table) ↔
      ∀ other, (store.registry type.registry).Reaches type other →
        (store.registry type.registry).Flawless other) ∧
    ∀ error, ((Coding.table type).run store).1 = .error error →
      ∃ other, (store.registry type.registry).Reaches type other ∧
        error.messageType = other.fullName ∧
        (store.registry type.registry).FirstDefect other error.field error.defect := by
  have sound := h.sound.registry type.registry
  have asked : ((Coding.table type).run store).1 =
      (store.registry type.registry).buildTable type := by
    have answer : ((Coding.table type).run store).1 =
        (store.registry type.registry).tableOf type := rfl
    rw [answer, Registry.tableOf, fresh, Option.getD_none]
  rw [asked, ← Registry.whole_iff]
  refine ⟨?_, fun error failed => ?_⟩
  · rw [Registry.exists_buildTable_iff sound held, alive]
    exact and_iff_right rfl
  · obtain ⟨other, reached, found⟩ :=
      Registry.exists_of_buildTable_error sound held alive failed
    obtain ⟨name, first⟩ := Registry.firstDefect_of_resolve found
    exact ⟨other, reached, name, first⟩

end Store

/-! ## Folders and notes -/

/-- A type that holds notes and messages of its own type. -/
def folderType : MessageType :=
  ⟨⟨"f.Folder", .proto3,
    [{ FieldDescriptor.plain "folders" 2 .message with
        cardinality := .repeated, messageType := some "f.Folder" },
      { FieldDescriptor.plain "note" 1 .message with messageType := some "f.Note" }],
    [], [], false⟩, .full, ⟨0⟩⟩

/-- A type that leads back to folders, whose second field has the given number. -/
def noteType (second : Nat) : MessageType :=
  ⟨⟨"f.Note", .proto3,
    [{ FieldDescriptor.plain "folder" 1 .group with messageType := some "f.Folder" },
      .plain "text" second .string], [], [], false⟩, .full, ⟨0⟩⟩

def folderStore (second : Nat) : Store :=
  .holding [folderType, noteType second]

theorem reachable_folderStore (second : Nat) : (folderStore second).Reachable := by
  have folder : ((Store.holding []).registry ⟨0⟩).register folderType.descriptor .full =
      .ok (folderType, (Store.holding [folderType]).registry ⟨0⟩) := rfl
  have note : ((Store.holding [folderType]).registry ⟨0⟩).register
      (noteType second).descriptor .full =
      .ok (noteType second, (folderStore second).registry ⟨0⟩) := rfl
  have first : (Store.holding [folderType]).Reachable :=
    .register Store.reachable_holding_nil folder
  exact .register first note

namespace Store

/-- Folders and notes reach each other. With two fields of one number in notes, folders have no
table either. -/
theorem table_flawless_or_defect_folder :
    (∀ other, ((folderStore 2).registry ⟨0⟩).Reaches folderType other →
      ((folderStore 2).registry ⟨0⟩).Flawless other) ∧
    ((Coding.table folderType).run (folderStore 1)).1 =
      .error ⟨"f.Note", some 1, .duplicateFieldNumber⟩ ∧
    ∃ other, ((folderStore 1).registry ⟨0⟩).Reaches folderType other ∧
      "f.Note" = other.fullName ∧
      ((folderStore 1).registry ⟨0⟩).FirstDefect other (some 1) .duplicateFieldNumber := by
  have held : ∀ second, (folderStore second).Holds folderType := fun _ => List.mem_cons_self
  have failed : ((Coding.table folderType).run (folderStore 1)).1 =
      .error ⟨"f.Note", some 1, .duplicateFieldNumber⟩ := rfl
  obtain ⟨good, -⟩ := (reachable_folderStore 2).table_flawless_or_defect (held 2) rfl rfl
  obtain ⟨-, bad⟩ := (reachable_folderStore 1).table_flawless_or_defect (held 1) rfl rfl
  exact ⟨good.1 ⟨_, rfl⟩, failed, bad _ failed⟩

end Store

end ProtoWire
