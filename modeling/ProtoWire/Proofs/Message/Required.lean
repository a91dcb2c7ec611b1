import ProtoWire.Message.Initialized
import ProtoWire.Proofs.Message.Matching
import ProtoWire.Proofs.Registry.InitCheck

/-!
# Initialized messages

A message is initialized if its required fields are set and those of all messages inside it are,
too (`MessageOf.HasRequired`, `MessageOf.Throughout`). The check does not look into messages whose
tables do not ask for it. It loses nothing by that (`exists_isInitialized_iff`): where no reached
type may lack a field, no message does, since nothing is attached to a message whose type has no
extension ranges (`throughout_hasRequired_of_not_mayLack`). The values of extensions are looked
into although the search for reached types does not follow them, because a type with extension
ranges is one that may lack fields.
-/

set_option autoImplicit false

namespace ProtoWire

open Coding (Ensures ensures_pure yields_table)

/-- All required fields of the message are set. -/
def MessageOf.HasRequired (message : Message) : Prop :=
  ∀ field ∈ message.type.fields, field.isRequired = true →
    (message.get? field.number).isSome = true

/-! ## One message -/

section

variable {registry : Registry} {message : Message} {table : FieldTable}

/-- The entries that are required are those of the required fields. -/
theorem Registry.Builds.hasRequired_iff (builds : registry.Builds message.type table) :
    MessageOf.hasRequired table message = true ↔ message.HasRequired := by
  simp only [MessageOf.hasRequired, List.all_eq_true, Bool.or_eq_true, Bool.not_eq_true']
  constructor
  · intro all field mem required
    obtain ⟨position, declared⟩ := List.mem_iff_getElem?.1 mem
    obtain ⟨entry, listed, valueType, -, rfl⟩ := builds.exists_entry declared
    have number := builds.get?_of_mem listed
    rw [Registry.number_entry] at number
    rw [number]
    refine (all _ listed).resolve_left ?_
    simp [FieldTable.entry, required]
  · intro all entry listed
    obtain ⟨field, valueType, declared, -, eq⟩ := builds.field_of_mem listed
    cases required : field.isRequired with
    | false =>
        left
        rw [eq]
        exact required
    | true =>
        right
        have set := all field (List.mem_of_getElem? declared) required
        have number : entry.number = field.number := by
          rw [eq]
          rfl
        rwa [← number, builds.get?_of_mem listed] at set

end

/-! ## Types that cannot lack fields -/

namespace MessageOf

variable {store : Store} {message : Message} {table : FieldTable}

/-- A message has a required field or an extension only if its type may lack fields. -/
theorem mayLackFields_of_required {field : FieldDescriptor} (mem : field ∈ message.type.fields)
    (required : field.isRequired = true) : Registry.mayLackFields message.type = true := by
  rw [Registry.mayLackFields, Bool.or_eq_true]
  exact .inr (List.any_eq_true.2 ⟨field, mem, required⟩)

theorem mayLackFields_of_isExtensionNumber {number : Nat}
    (inRange : message.type.descriptor.isExtensionNumber number = true) :
    Registry.mayLackFields message.type = true := by
  rw [Registry.mayLackFields, Bool.or_eq_true]
  left
  cases ranges : message.type.descriptor.extensionRanges with
  | nil => simp [MessageDescriptor.isExtensionNumber, ranges] at inRange
  | cons range ranges => rfl

/-- Attached extensions have numbers of the message's extension ranges. -/
def InRange (message : Message) : Prop :=
  ∀ entry ∈ message.attached,
    message.type.descriptor.isExtensionNumber entry.type.number = true

/-- If no type that is reached may lack a field then nothing is missing, at any depth. -/
theorem throughout_hasRequired_of_not_mayLack (sound : store.Sound)
    (held : store.Holds message.type) (shaped : message.Shaped)
    (matched : message.Matched store.catalog) (ranged : message.Throughout InRange)
    (complete : ¬ (store.registry message.type.registry).MayLack message.type) :
    message.Throughout HasRequired := by
  induction message using MessageOf.induction with
  | step message ih =>
      have own : Registry.mayLackFields message.type ≠ true :=
        fun lacks => complete ⟨message.type, .refl, lacks⟩
      refine .intro ?_ fun inner mem => ?_
      · intro field mem required
        exact absurd (mayLackFields_of_required mem required) own
      obtain ⟨table, found, matching⟩ := matched.here
      have builds := sound.builds_of_table held found
      rcases matching.of_mem_children builds shaped.slots mem with
        ⟨entry, listed, value⟩ | ⟨entry, listed, -⟩
      -- what a field holds is reached from the type
      · obtain ⟨held', home⟩ := sound.home_of_mem (builds.mem_types_of_mem listed value)
        refine ih inner mem held' (shaped.of_mem mem) (matched.of_mem mem) (ranged.of_mem mem) ?_
        rw [home]
        intro lacks
        exact complete (lacks.of_reaches (.single (builds.links_of_mem listed value)))
      -- and nothing is attached
      · exact absurd (mayLackFields_of_isExtensionNumber (ranged.here entry listed)) own

end MessageOf

/-! ## The check -/

section

variable {store : Store} {message : Message} {table : FieldTable} {P : Message → Prop}

/-- All elements are tried until one fails. -/
theorem Coding.ensures_all {α : Type} {test : α → Coding Bool} {P : α → Prop} {xs : List α}
    (each : ∀ x ∈ xs, Ensures store (test x) fun passed => passed = true ↔ P x) :
    Ensures store (Coding.all test xs) fun passed => passed = true ↔ ∀ x ∈ xs, P x := by
  induction xs with
  | nil => exact ensures_pure (by simp)
  | cons x xs ih =>
      rw [Coding.all]
      apply (each x List.mem_cons_self).bind
      intro first holds
      cases first with
      | true =>
          refine (ih fun y mem => each y (List.mem_cons_of_mem _ mem)).mono fun rest holds' => ?_
          rw [holds', List.forall_mem_cons, ← holds]
          simp
      | false =>
          have fails : ¬ P x := fun passes => Bool.false_ne_true (holds.2 passes)
          exact ensures_pure (by simp [fails])

/-- The number is enough for the lists that nest in the value. -/
theorem Value.ensures_allMessages {test : MessageType → Message → Coding Bool} {type : MessageType}
    {depth : Nat} {value : Value} (bound : value.height ≤ depth)
    (each : ∀ inner ∈ value.messages,
      Ensures store (test type inner) fun passed => passed = true ↔ P inner) :
    Ensures store (value.allMessages test type depth) fun passed =>
      passed = true ↔ ∀ inner ∈ value.messages, P inner := by
  induction depth generalizing value with
  | zero =>
      cases value with
      | message inner => simp [Value.height] at bound
      | list items => simp [Value.height] at bound
      | _ => exact ensures_pure (by simp [Value.messages])
  | succ depth ih =>
      cases value with
      | message inner =>
          rw [Value.allMessages]
          exact (each inner (by simp)).mono fun passed holds => by simpa using holds
      | list items =>
          rw [Value.allMessages]
          have items' : ∀ item ∈ items, Ensures store (item.allMessages test type depth)
              fun passed => passed = true ↔ ∀ inner ∈ item.messages, P inner := by
            intro item mem
            have lower := height_le_itemsHeight mem
            rw [Value.height] at bound
            refine ih (by omega) fun inner deep => each inner ?_
            exact Value.mem_messages_of_mem_items mem deep
          refine (Coding.ensures_all items').mono fun passed holds => ?_
          rw [holds, Value.messages_list]
          simp only [List.forall_mem_flatMap]
      | _ => exact ensures_pure (by simp [Value.messages])

namespace MessageOf

/-- The children are the messages in the slots of fields and those in extensions. -/
theorem forall_mem_children_iff {registry : Registry}
    (builds : registry.Builds message.type table)
    (slots : message.slots.length = message.type.fields.length) :
    (∀ inner ∈ message.children, P inner) ↔
      (∀ entry ∈ table.entries, ∀ value, message.slot? entry.position = some value →
        ∀ inner ∈ value.messages, P inner) ∧
      ∀ entry ∈ message.attached, ∀ inner ∈ entry.value.messages, P inner := by
  constructor
  · intro all
    refine ⟨fun entry _ value slot inner inside => ?_, fun entry listed inner inside => ?_⟩
    · exact all inner (mem_children_of_slot? slot inside)
    · exact all inner (mem_children_of_attached listed inside)
  · rintro ⟨fields, attached⟩ inner mem
    obtain ⟨value, held, inside⟩ := List.mem_flatMap.1 mem
    rcases mem_values_iff.1 held with ⟨position, slot⟩ | ⟨entry, listed, rfl⟩
    · have bound := lt_length_of_slot? slot
      rw [slots] at bound
      obtain ⟨entry, listed, valueType, -, rfl⟩ :=
        builds.exists_entry (List.getElem?_eq_getElem bound)
      exact fields _ listed value slot inner inside
    · exact attached entry listed inner inside

/-- A value is tried as one of its declared type; where none is declared it holds no messages. -/
theorem ensures_nested {nested : MessageType → Value → Coding Bool} {value : Value}
    (each : ∀ type, (∀ inner ∈ value.messages, inner.type = type) →
      Ensures store (nested type value) fun passed =>
        passed = true ↔ ∀ inner ∈ value.messages, P inner)
    {valueType : Option MessageType}
    (declared : ∀ inner ∈ value.messages, valueType = some inner.type) :
    Ensures store
      (match valueType with
        | some type => nested type value
        | none => return true)
      fun passed => passed = true ↔ ∀ inner ∈ value.messages, P inner := by
  cases valueType with
  | none =>
      have none : value.messages = [] :=
        List.eq_nil_iff_forall_not_mem.2 fun inner inside => by simpa using declared inner inside
      exact ensures_pure (by simp [none])
  | some type => exact each type fun inner inside => (Option.some.inj (declared inner inside)).symm

/-- A message passes if its required fields are set and the messages inside it pass. -/
theorem ensures_checkBody {registry : Registry} (builds : registry.Builds message.type table)
    (slots : message.slots.length = message.type.fields.length) (matching : message.Matches table)
    {nested : MessageType → Value → Coding Bool}
    (each : ∀ value ∈ message.values, ∀ type, (∀ inner ∈ value.messages, inner.type = type) →
      Ensures store (nested type value) fun passed =>
        passed = true ↔ ∀ inner ∈ value.messages, P inner) :
    Ensures store (checkBody nested table message) fun passed =>
      passed = true ↔ message.HasRequired ∧ ∀ inner ∈ message.children, P inner := by
  rw [checkBody, forall_mem_children_iff builds slots, ← builds.hasRequired_iff]
  cases required : hasRequired table message with
  | false => exact ensures_pure (by simp)
  | true =>
      simp only [Bool.not_true, Bool.false_eq_true, if_false, true_and]
      refine (Coding.ensures_all (P := fun entry : FieldEntry =>
        ∀ value, message.slot? entry.position = some value →
          ∀ inner ∈ value.messages, P inner) fun entry listed => ?_).bind ?_
      · cases slot : message.slot? entry.position with
        | none => cases entry.codec.valueType <;> exact ensures_pure (by simp)
        | some value =>
            have tried := ensures_nested (each value (mem_values_of_slot? slot)) fun inner =>
              (matching.fields entry listed value slot).valueType_of_mem
            cases valueType : entry.codec.valueType <;>
              simpa only [valueType, Option.some.injEq, forall_eq'] using tried
      · intro fields holds
        cases fields with
        | false =>
            refine ensures_pure ?_
            have fails := mt holds.2 Bool.false_ne_true
            simp [fails]
        | true =>
            have fields := holds.1 rfl
            simp only [Bool.not_true, Bool.false_eq_true, if_false]
            refine (Coding.ensures_all (P := fun entry : Attached =>
              ∀ inner ∈ entry.value.messages, P inner) fun entry listed => ?_).mono ?_
            · exact ensures_nested (each entry.value (mem_values_of_attached listed)) fun inner =>
                (matching.attached entry listed).valueType_of_mem
            · intro attached holds'
              rw [holds']
              exact (and_iff_right fields).symm

/-- A message is checked rightly if the messages inside it are. -/
theorem ensures_checkAt_of_children (reachable : store.Reachable) {depth : Nat}
    (held : store.Holds message.type) (shaped : message.Shaped)
    (matched : message.Matched store.catalog) (ranged : message.Throughout InRange)
    (bound : message.height ≤ depth)
    (inside : ∀ lower, depth = lower + 1 → ∀ inner ∈ message.children,
      Ensures store (checkAt lower inner.type inner) fun passed =>
        passed = true ↔ inner.Throughout HasRequired) :
    Ensures store (checkAt depth message.type message) fun passed =>
      passed = true ↔ message.Throughout HasRequired := by
  have sound := reachable.sound
  obtain ⟨table, found, matching⟩ := matched.here
  have builds := sound.builds_of_table held found
  rw [checkAt]
  apply (yields_table sound held).bind_ensures
  rw [found]
  cases flag : table.needsInitCheck with
  | false =>
      have complete : ¬ (store.registry message.type.registry).MayLack message.type := by
        rw [← reachable.needsInitCheck_iff held found, flag]
        exact Bool.false_ne_true
      have throughout :=
        throughout_hasRequired_of_not_mayLack sound held shaped matched ranged complete
      simp only [flag, Bool.not_false, if_true]
      exact ensures_pure (iff_of_true rfl throughout)
  | true =>
      simp only [flag, Bool.not_true, Bool.false_eq_true, if_false]
      rw [throughout_iff]
      cases depth with
      | zero =>
          -- nothing nests in a message of no height
          refine ensures_checkBody builds shaped.slots matching fun value held' type _ => ?_
          refine ensures_pure (iff_of_true rfl fun inner deep => ?_)
          have := height_lt_of_mem (mem_children_of_mem held' deep)
          omega
      | succ lower =>
          refine ensures_checkBody builds shaped.slots matching fun value held' type same => ?_
          refine Value.ensures_allMessages (Nat.le_refl _) fun inner deep => ?_
          rw [← same inner deep]
          exact inside lower rfl inner (mem_children_of_mem held' deep)

/-- The check finds whether a message, and every message inside it, has its required fields. -/
theorem ensures_checkAt (reachable : store.Reachable) {depth : Nat}
    (held : store.Holds message.type) (known : message.Carries store.Knows)
    (shaped : message.Shaped) (matched : message.Matched store.catalog)
    (ranged : message.Throughout InRange) (bound : message.height ≤ depth) :
    Ensures store (checkAt depth message.type message) fun passed =>
      passed = true ↔ message.Throughout HasRequired := by
  -- induction on the number that bounds the height, which each level of messages lowers
  induction depth generalizing message with
  | zero =>
      refine ensures_checkAt_of_children reachable held shaped matched ranged bound ?_
      intro lower eq
      omega
  | succ depth ih =>
      refine ensures_checkAt_of_children reachable held shaped matched ranged bound ?_
      intro lower eq inner mem
      obtain rfl : depth = lower := by omega
      obtain ⟨table, found, matching⟩ := matched.here
      have held' := matching.holds_of_mem reachable.sound held found known.here shaped.slots mem
      have lower := height_lt_of_mem mem
      exact ih held' (known.of_mem mem) (shaped.of_mem mem) (matched.of_mem mem)
        (ranged.of_mem mem) (by omega)

/-- A message whose values match their declarations, and whose extensions have numbers of the
extension ranges, is found initialized just if it and every message inside it has its required
fields. -/
theorem exists_isInitialized_iff (reachable : store.Reachable) (held : store.Holds message.type)
    (known : message.Carries store.Knows) (shaped : message.Shaped)
    (matched : message.Matched store.catalog) (ranged : message.Throughout InRange) :
    ∃ answer, ((message.type.isInitialized message).run store).1 = .ok answer ∧
      (answer = true ↔ message.Throughout HasRequired) := by
  have checked := ensures_checkAt reachable held known shaped matched ranged (Nat.le_refl _)
  obtain ⟨table, found, -⟩ := matched.here
  have initialized : Ensures store (message.type.isInitialized message) fun result =>
      ∃ answer, result = .ok answer ∧ (answer = true ↔ message.Throughout HasRequired) := by
    rw [MessageType.isInitialized]
    apply (yields_table reachable.sound held).bind_ensures
    rw [found]
    apply checked.bind
    intro answer holds
    exact ensures_pure ⟨answer, rfl, holds⟩
  exact initialized.run.1

end MessageOf

end

/-! ## A form attached to a node -/

/-- A form, whose one field is required. -/
def formType : MessageType :=
  ⟨⟨"a.Form", .proto2, [{ FieldDescriptor.plain "id" 1 .int32 with cardinality := .required }],
    [], [], false⟩, .full, ⟨0⟩⟩

/-- An extension of nodes that holds a form, which no field of a node reaches. -/
def formExtension : ExtensionType :=
  ⟨⟨"a.form", "a.Node",
    { FieldDescriptor.plain "form" 101 .message with messageType := some "a.Form" }⟩, some formType⟩

def formStore : Store :=
  ⟨[{ Registry.empty ⟨0⟩ with
    types := [nodeType, formType], extensions := [labelType, formExtension],
    extensionNames := [labelType, formExtension] }]⟩

theorem reachable_formStore : formStore.Reachable := by
  have typed : (nodeStore.registry ⟨0⟩).register formType.descriptor .full =
      .ok (formType, { nodeStore.registry ⟨0⟩ with types := [nodeType, formType] }) := rfl
  have first := Store.Reachable.register reachable_nodeStore typed
  have extended : ((nodeStore.update { nodeStore.registry ⟨0⟩ with
      types := [nodeType, formType] }).registry ⟨0⟩).registerExtension formExtension.descriptor =
        .ok (formExtension, formStore.registry ⟨0⟩) := rfl
  exact .registerExtension first extended

namespace MessageOf

/-- A form with nothing in it. -/
def blankForm : Message :=
  ⟨formType, [none], .empty, some [], some []⟩

/-- A node with the blank form attached. -/
def formNode : Message :=
  ⟨nodeType, [none, none], .empty, some [], some [⟨formExtension, .message blankForm⟩]⟩

/-- A node that holds the node with the form. -/
def formHolder : Message :=
  ⟨nodeType, [none, some (.message formNode)], .empty, some [], some []⟩

theorem throughout_formHolder {P : Message → Prop} :
    formHolder.Throughout P ↔ P formHolder ∧ P formNode ∧ P blankForm := by
  have outer : formHolder.children = [formNode] := by
    simp [formHolder, children, values, attached]
  have middle : formNode.children = [blankForm] := by
    simp [formNode, children, values, attached]
  have inner : blankForm.children = [] := by
    simp [blankForm, children, values, attached]
  rw [throughout_iff, outer, List.forall_mem_singleton, throughout_iff, middle,
    List.forall_mem_singleton, throughout_iff, inner]
  simp

theorem matched_formHolder : formHolder.Matched formStore.catalog := by
  refine throughout_formHolder.2 ⟨⟨_, rfl, ?_, ?_⟩, ⟨_, rfl, ?_, ?_⟩, ⟨_, rfl, ?_, ?_⟩⟩
  · intro entry mem value slot
    rcases List.mem_pair.1 mem with rfl | rfl
    · cases slot
    · cases slot
      exact ⟨rfl, rfl⟩
  · simp [formHolder, attached]
  · intro entry mem value slot
    rcases List.mem_pair.1 mem with rfl | rfl <;> cases slot
  · intro entry mem
    rw [List.mem_singleton.1 mem]
    exact ⟨rfl, rfl⟩
  · intro entry mem value slot
    rw [List.mem_singleton.1 mem] at slot
    cases slot
  · simp [blankForm, attached]

/-- The form lacks its field, and the node that the form is attached to two levels down is looked
into. -/
theorem exists_isInitialized_iff_formHolder :
    ((nodeType.isInitialized formHolder).run formStore).1 = .ok false ∧
      ¬ formHolder.Throughout HasRequired := by
  have held : formStore.Holds formHolder.type := List.mem_cons_self
  have known : formHolder.Carries formStore.Knows := by
    refine throughout_formHolder.2 ⟨?_, ?_, ?_⟩
    · simp [formHolder, attached]
    · intro entry mem
      rw [List.mem_singleton.1 mem]
      exact ⟨⟨0⟩, List.mem_cons_of_mem _ List.mem_cons_self⟩
    · simp [blankForm, attached]
  have shaped : formHolder.Shaped := by
    refine .intro rfl rfl fun inner mem => ?_
    simp [formHolder, children, values, attached] at mem
    subst mem
    refine .intro rfl rfl fun inner mem => ?_
    simp [formNode, children, values, attached] at mem
    subst mem
    refine .intro rfl rfl ?_
    simp [blankForm, children, values, attached]
  have ranged : formHolder.Throughout InRange := by
    refine throughout_formHolder.2 ⟨?_, ?_, ?_⟩
    · simp [InRange, formHolder, attached]
    · intro entry mem
      rw [List.mem_singleton.1 mem]
      rfl
    · simp [InRange, blankForm, attached]
  obtain ⟨answer, run, correct⟩ :=
    exists_isInitialized_iff reachable_formStore held known shaped matched_formHolder ranged
  have lacks : ¬ formHolder.Throughout HasRequired := by
    intro all
    have set := (throughout_formHolder.1 all).2.2 _ List.mem_cons_self rfl
    exact Bool.false_ne_true set
  have no : answer = false := by
    rw [← Bool.not_eq_true, correct]
    exact lacks
  exact ⟨no ▸ run, lacks⟩

end MessageOf

end ProtoWire
