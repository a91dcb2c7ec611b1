import ProtoWire.Proofs.Message.Effect
import ProtoWire.Proofs.Message.Preservation

/-!
# Members of oneofs

At most one member of each oneof holds a value, in every message that operations lead to and in
all messages inside it (`throughout_exclusive_of_made`). The operations are those that change
messages: setting and clearing fields and extensions, replacing the unknown bytes, and merging
input, which may have failed.

One way to fail is left out. When a record fails inside a message field, what was read of the
nested message is kept in the slot of the field, and its siblings are not unset. If one of them
held a value, two members of the oneof do afterwards (`Intrudes`, `not_exclusive_of_failed_merge`).
A failure at the field that leaves its slot empty is not one of these.
-/

set_option autoImplicit false

namespace ProtoWire

namespace MessageOf

/-- No two members of one oneof hold values. -/
def Exclusive (message : Message) : Prop :=
  ∀ position other, message.type.areSiblings position other = true →
    (message.slot? position).isSome = true → message.slot? other = none

variable {message after : Message}

/-! ## Slots after a change -/

/-- What the slots hold decides. -/
theorem Exclusive.congr (h : message.Exclusive) (type : after.type = message.type)
    (slots : ∀ position, after.slot? position = message.slot? position) : after.Exclusive := by
  intro position other siblings held
  rw [type] at siblings
  rw [slots] at held ⊢
  exact h position other siblings held

theorem exclusive_newMessage (type : MessageType) : type.newMessage.Exclusive :=
  fun _ _ siblings _ => slot?_newMessage_of_areSiblings siblings

/-- Fields that are in no oneof have no siblings. -/
theorem exclusive_of_plain (plain : ∀ field ∈ message.type.fields, field.oneof = none) :
    message.Exclusive := by
  intro position other siblings _
  obtain ⟨-, oneof, member, -⟩ := MessageType.areSiblings_iff.1 siblings
  obtain ⟨field, declared, eq⟩ := Option.bind_eq_some_iff.1 member
  rw [plain field (List.mem_of_getElem? declared)] at eq
  cases eq

/-- A value is put into a slot whose siblings hold nothing. -/
theorem Exclusive.putSlot (h : message.Exclusive) {position : Nat}
    (alone : ∀ other, message.type.areSiblings position other = true → message.slot? other = none)
    (slot : Option Value) : (message.putSlot position slot).Exclusive := by
  intro first second siblings held
  have siblings' : message.type.areSiblings first second = true := siblings
  by_cases left : first = position
  · subst left
    rw [slot?_putSlot_of_ne message (MessageType.areSiblings_iff.1 siblings').1]
    exact alone second siblings'
  · rw [slot?_putSlot_of_ne message left] at held
    by_cases right : second = position
    -- the other slot is that of a sibling, which holds nothing
    · subst right
      rw [MessageType.areSiblings_comm] at siblings'
      rw [alone first siblings'] at held
      simp at held
    · rw [slot?_putSlot_of_ne message right]
      exact h first second siblings' held

theorem Exclusive.unset (h : message.Exclusive) (position : Nat) :
    (message.putSlot position none).Exclusive := by
  intro first second siblings held
  rw [slot?_putSlot] at held ⊢
  split at held
  · simp at held
  · split
    · rfl
    · exact h first second siblings held

/-- Unsetting the siblings makes room for any value. -/
theorem Exclusive.putField (h : message.Exclusive) (position : Nat) (value : Value) :
    (message.putField position value).Exclusive := by
  have cleared : (message.clearSiblings position).Exclusive := by
    intro first second siblings held
    rw [type_clearSiblings] at siblings
    rw [slot?_clearSiblings] at held ⊢
    split at held
    · simp at held
    · split
      · rfl
      · exact h first second siblings held
  have alone : ∀ other, (message.clearSiblings position).type.areSiblings position other = true →
      (message.clearSiblings position).slot? other = none := by
    intro other siblings
    rw [type_clearSiblings] at siblings
    rw [slot?_clearSiblings, if_pos siblings]
  refine (cleared.putSlot alone (some value)).congr ?_ ?_
  · rw [type_putField]
    exact (type_clearSiblings message position).symm
  -- whether the siblings are unset before or after makes no difference
  · intro other
    rw [MessageOf.putField, slot?_clearSiblings, slot?_putSlot, slot?_putSlot,
      length_slots_clearSiblings, slot?_clearSiblings]
    have type : (message.putSlot position (some value)).type = message.type := rfl
    rw [type]
    by_cases same : other = position
    · subst same
      rw [MessageType.areSiblings_self]
      simp
    · simp [same]

/-! ## Merging -/

/-- The value of the field or extension of a number. -/
def at? (message : Message) (number : Nat) : Option Value :=
  match message.type.descriptor.position? number with
  | some position => message.slot? position
  | none => (message.extension? number).map AttachedOf.value

end MessageOf

/-- The message that a path leads into, and the rest of the path. -/
def Value.enter? : Value → Path → Option (Message × Path)
  | .message inner, path => some (inner, path)
  | .list items, .index position :: path =>
      match items[position]? with
      | some (.message inner) => some (inner, path)
      | _ => none
  | _, _ => none

namespace MessageOf

/-- At some message that the path leads through, it enters the message that was put into a field
beside a sibling that holds a value. -/
inductive Intrudes : Message → Path → Prop
  | here {message inner : Message} {number position other : Nat} {field : FieldDescriptor}
      {value : Value} {path : Path} :
      message.type.descriptor.position? number = some position →
      message.type.fields[position]? = some field → field.kind.isMessage = true →
      message.slot? position = some (.message inner) →
      message.type.areSiblings position other = true → message.slot? other = some value →
      Intrudes message (.field number :: path)
  | inside {message inner : Message} {number : Nat} {value : Value} {path rest : Path} :
      message.at? number = some value → value.enter? path = some (inner, rest) →
      Intrudes inner rest → Intrudes message (.field number :: path)

/-- The error, if there is one, does not lead into a message that was put beside a set sibling. -/
def Spares (after : Message) (failure : Option Malformed) : Prop :=
  ∀ error, failure = some error → ¬ after.Intrudes error.path

end MessageOf

namespace Place

variable {coupling : Coupling} {message : Message} {place : Place}

theorem at?_eq_held? (offered : coupling.Offers message.type place) :
    message.at? place.number = place.held? message := by
  cases offered with
  | field builds mem =>
      rw [MessageOf.at?, number, builds.position?_of_mem mem]
      rfl
  | extension _ _ _ undeclared _ =>
      rw [MessageOf.at?, number, undeclared]
      rfl

end Place

namespace Registry

/-- A repeated field is no member of a oneof. -/
theorem Builds.areSiblings_of_repeated {registry : Registry} {type : MessageType}
    {table : FieldTable} (builds : registry.Builds type table) {entry : FieldEntry}
    (mem : entry ∈ table.entries) (repeated : entry.codec.arrangement.isRepeated = true)
    (other : Nat) : type.areSiblings entry.position other = false := by
  obtain ⟨field, valueType, declared, resolves, eq⟩ := builds.field_of_mem mem
  rw [eq] at repeated
  have cardinality : field.isRepeated = true :=
    (Arrangement.isRepeated_ofField _ _).symm.trans repeated
  have outside := resolves.member
  rw [cardinality, Bool.and_true] at outside
  have oneof : type.oneofAt entry.position = none := by
    rw [MessageType.oneofAt, declared, Option.bind_some]
    simpa using outside
  rw [MessageType.areSiblings, oneof]

end Registry

namespace MessageOf

variable {coupling : Coupling} {nested : Effect} {message after : Message} {place : Place}
  {slot : Option Value} {failure : Option Malformed}

/-- The siblings of a message field that the error leads into hold nothing, if the field has a slot
for the message. -/
theorem unset_of_spares {registry : Registry} {table : FieldTable} {entry : FieldEntry}
    (builds : registry.Builds message.type table) (mem : entry ∈ table.entries)
    (inside : entry.position < message.slots.length)
    {type : MessageType} (value : entry.codec.valueType = some type) {inner : Message}
    {error : Malformed}
    (spares : (message.putSlot entry.position (some (.message inner))).Spares
      (some (error.under (.field entry.number))))
    {other : Nat} (siblings : message.type.areSiblings entry.position other = true) :
    message.slot? other = none := by
  obtain ⟨field, valueType, declared, -, eq⟩ := builds.field_of_mem mem
  have isMessage : field.kind.isMessage = true := by
    have kind : entry.codec.kind = field.kind := by rw [eq]; rfl
    rw [← kind, ← (builds.legal_of_mem mem).value]
    exact Option.isSome_of_eq_some value
  -- a sibling that holds a value would be one that the error leads beside
  cases held : message.slot? other with
  | none => rfl
  | some value' =>
      have ne := (MessageType.areSiblings_iff.1 siblings).1
      have intrudes : (message.putSlot entry.position
          (some (.message inner))).Intrudes (.field entry.number :: error.path) :=
        .here (builds.position?_of_mem mem) declared isMessage
          (slot?_putSlot_self message inside _) siblings
          ((slot?_putSlot_of_ne message ne _).trans held)
      exact absurd intrudes (spares _ rfl)

/-- Reading a record keeps the members of the message's own oneofs apart. -/
theorem Exclusive.leave (h : message.Exclusive) (offered : coupling.Offers message.type place)
    (reads : place.codec.Reads nested (place.held? message) slot failure)
    (spares : (place.leave message slot failure).Spares
      (failure.map (·.under (.field place.number)))) :
    (place.leave message slot failure).Exclusive := by
  cases offered with
  -- extensions are in no oneof
  | @extension extension codec _ _ _ _ _ =>
      cases failure <;> cases slot <;> exact h.congr rfl fun _ => rfl
  | @field registry table entry builds mem =>
      cases failure with
      | none =>
          -- what was read without failure unsets its siblings
          have held : ∃ value, slot = some value := by cases reads <;> exact ⟨_, rfl⟩
          obtain ⟨value, rfl⟩ := held
          exact h.putField entry.position value
      | some error =>
          have put : (∀ other, message.type.areSiblings entry.position other = true →
              message.slot? other = none) → (message.putSlot entry.position slot).Exclusive :=
            fun alone => h.putSlot alone slot
          have repeated : entry.codec.arrangement.isRepeated = true →
              (message.putSlot entry.position slot).Exclusive := by
            intro repeated
            refine put fun other siblings => ?_
            rw [builds.areSiblings_of_repeated mem repeated] at siblings
            simp at siblings
          cases reads with
          | refused =>
              -- the slot is put back as it was
              refine h.congr rfl fun position => ?_
              refine (slot?_putSlot message entry.position position _).trans ?_
              split
              · next here =>
                  rw [here.1]
                  rfl
              · rfl
          | scalars isRepeated => exact repeated isRepeated
          | item isRepeated => exact repeated isRepeated
          | single value =>
              by_cases inside : entry.position < message.slots.length
              · exact put fun other => unset_of_spares builds mem inside value spares
              -- without a slot for it, what was read is not kept
              · refine h.congr rfl fun position => ?_
                refine (slot?_putSlot message entry.position position _).trans ?_
                rw [if_neg fun here => inside here.2]

/-- Merging keeps members of oneofs apart if it does so in the messages inside. -/
theorem Merges.exclusive
    (inside : ∀ message after failure, nested message after failure →
      message.Throughout Exclusive → after.Spares failure → after.Throughout Exclusive)
    (h : Merges coupling nested message after failure) (start : message.Throughout Exclusive)
    (spares : after.Spares failure) : after.Throughout Exclusive := by
  induction h with
  | refl => exact start
  | refuse => exact start
  | trans _ _ ih ih' => exact ih' (ih start (by simp [Spares])) spares
  | clearCachedSize => exact start.change start.here fun _ mem => .inr mem
  | keepUnknown => exact start.change start.here fun _ mem => .inr mem
  | @read message place slot failure offered reads =>
      refine start.change (start.here.leave offered reads spares) fun value mem => ?_
      rcases Place.mem_values_leave mem with before | ⟨eq, held⟩
      · exact .inr before
      left
      have there : (place.leave message slot failure).at? place.number = some value := by
        rw [← held]
        apply Place.at?_eq_held?
        rw [Place.type_leave]
        exact offered
      -- what was read is what the error leads into
      have apart : ∀ error inner rest, failure = some error →
          value.enter? error.path = some (inner, rest) → ¬ inner.Intrudes rest := by
        intro error inner rest failed enters intrudes
        refine spares _ (congrArg (Option.map _) failed) ?_
        exact .inside there enters intrudes
      refine reads.throughout inside exclusive_newMessage
        (fun value held => Place.throughout_of_held? start held) ?_ ?_ value eq
      · intro inner eq' error failed
        cases eq.symm.trans eq'
        exact apart error inner error.path failed rfl
      -- the path leads to the new item first, and from there into the message
      · intro items inner inside eq' failed error failed'
        cases eq.symm.trans eq'
        rw [failed'] at failed
        refine apart _ inner error.path failed ?_
        simp [Malformed.under, Value.enter?]

theorem MergesWithin.exclusive {depth : Nat}
    (h : MergesWithin coupling depth message after failure) :
    message.Throughout Exclusive → after.Spares failure → after.Throughout Exclusive := by
  apply MergesWithin.induction _ _ h
  · intro message fault _ start _
    exact start
  · intro nested inside message after failure merges
    exact merges.exclusive inside

/-! ## Setting and clearing -/

/-- A field that is put back to its initial value has no siblings, or holds nothing then. -/
theorem Exclusive.reset (h : message.Exclusive) (position : Nat) :
    (message.putSlot position
      ((message.type.fields[position]?).bind message.type.initialSlot)).Exclusive := by
  cases initial : (message.type.fields[position]?).bind message.type.initialSlot with
  | none => exact h.unset position
  | some value =>
      obtain ⟨field, declared, initial'⟩ := Option.bind_eq_some_iff.1 initial
      refine h.putSlot (fun other siblings => ?_) _
      rw [message.type.initialSlot_of_mayBeAbsent
        (mayBeAbsent_of_areSiblings siblings declared)] at initial'
      simp at initial'

/-- What a merge leaves, whether it succeeded or failed. -/
theorem throughout_exclusive_merge {store later : Store} (reachable : store.Reachable)
    {type : MessageType} (held : store.Holds type) (h : message.Throughout Exclusive)
    {bytes : Bytes} {failure : Option Failure}
    (run : (type.merge message bytes).run store = ((after, failure), later))
    (spares : ∀ error, failure = some (.decode error) → ¬ after.Intrudes error.path) :
    after.Throughout Exclusive := by
  rcases MessageType.merges_of_run reachable held run with rfl | ⟨error, merges, leads⟩
  · exact h
  · exact merges.exclusive h fun malformed eq => spares malformed (leads malformed eq)

end MessageOf

/-! ## A oneof of a number and a message -/

/-- A number or another choice. -/
def choiceDescriptor : MessageDescriptor :=
  ⟨"a.Choice", .proto2,
    [{ FieldDescriptor.plain "number" 1 .int32 with oneof := some 0 },
      { FieldDescriptor.plain "nested" 2 .message with
        oneof := some 0
        messageType := some "a.Choice" }],
    [⟨"kind", false⟩], [], false⟩

def choiceType : MessageType := ⟨choiceDescriptor, .full, ⟨0⟩⟩

/-- A store in which choices are registered. -/
def choiceStore : Store :=
  ⟨[{ Registry.empty ⟨0⟩ with types := [choiceType] }]⟩

theorem reachable_choiceStore : choiceStore.Reachable := by
  have registered : ((Store.empty.add fun registry => registry).2.registry ⟨0⟩).register
      choiceDescriptor .full = .ok (choiceType, choiceStore.registry ⟨0⟩) := rfl
  exact .register (.add .empty) registered

/-- A choice with the given slots. -/
def choice (number nested : Option Value) : Message :=
  ⟨choiceType, [number, nested], .empty, some [], some []⟩

namespace MessageOf

variable {message : Message}

/-! ## Sessions with a message -/

/-- The messages that operations lead to, starting from new messages. Copies are the messages
themselves, and messages inside may be taken out. Of the merges that failed, those are left out
in which the error leads into a message that was put beside a set sibling. -/
inductive Made : Message → Prop
  | new (type : MessageType) : Made type.newMessage
  | inner {message inner : Message} : Made message → inner ∈ message.children → Made inner
  | set {message after : Message} {number : Nat} {value : Value} :
      Made message → (∀ inner ∈ value.messages, Made inner) →
      message.set number value = .ok after → Made after
  | clear {message after : Message} {number : Nat} :
      Made message → message.clear number = .ok after → Made after
  | setExtension {message after : Message} {type : ExtensionType} {value : Value} :
      Made message → (∀ inner ∈ value.messages, Made inner) →
      message.setExtension type value = .ok after → Made after
  | withoutExtension {message : Message} (number : Nat) :
      Made message → Made (message.withoutExtension number)
  | setUnknown {message after : Message} {bytes : Bytes} :
      Made message → message.setUnknown bytes = .ok after → Made after
  | merge {store later : Store} {type : MessageType} {message after : Message} {bytes : Bytes}
      {failure : Option Failure} :
      store.Reachable → store.Holds type → Made message →
      (type.merge message bytes).run store = ((after, failure), later) →
      (∀ error, failure = some (.decode error) → ¬ after.Intrudes error.path) → Made after

theorem made_choice_number : (choice (some (.int32 5)) none).Made := by
  have set : choiceType.newMessage.set 1 (.int32 5) = .ok (choice (some (.int32 5)) none) := rfl
  exact .set (.new choiceType) (by simp [Value.messages]) set

/-- In every message that operations lead to, and in all messages inside it, at most one member
of each oneof holds a value. -/
theorem throughout_exclusive_of_made (made : message.Made) : message.Throughout Exclusive := by
  induction made with
  | new type => exact throughout_newMessage (exclusive_newMessage type)
  | inner _ mem ih => exact ih.of_mem mem
  | set _ _ h ih inside =>
      obtain ⟨position, rfl⟩ := eq_putField_of_set h
      exact ih.set inside h (ih.here.putField position _)
  | clear _ h ih =>
      obtain ⟨position, rfl⟩ := eq_putSlot_of_clear h
      exact ih.clear h (ih.here.reset position)
  | setExtension _ _ h ih inside =>
      obtain ⟨rfl, -⟩ := of_setExtension h
      exact ih.setExtension inside h ih.here
  | withoutExtension number _ ih => exact ih.withoutExtension number ih.here
  | setUnknown _ h ih =>
      obtain rfl := eq_of_setUnknown h
      exact ih.setUnknown h ih.here
  | merge reachable held _ run spares ih =>
      exact throughout_exclusive_merge reachable held ih run spares

/-- A number is replaced by a choice, and merging into that one fails after its number was
read. -/
theorem throughout_exclusive_choice :
    (choice none (some (.message (choice (some (.int32 7)) none)))).Made ∧
      (choice none (some (.message (choice (some (.int32 7)) none)))).Throughout Exclusive := by
  have held : choiceStore.Holds choiceType := List.mem_singleton_self choiceType
  have replaced : (choiceType.merge (choice (some (.int32 5)) none) [18, 2, 18, 0]).run
      choiceStore = ((choice none (some (.message (choice none (some (.message
        (choice none none)))))), none), _) := rfl
  have failed : (choiceType.merge (choice none (some (.message (choice none (some (.message
      (choice none none))))))) [18, 3, 8, 7, 255]).run choiceStore =
        ((choice none (some (.message (choice (some (.int32 7)) none))),
          some (.decode ⟨.invalidVarint, [.field 2]⟩)), _) := rfl
  -- the number is no longer set when the error leads into the choice beside it
  have spares : ∀ error, some (Failure.decode ⟨.invalidVarint, [.field 2]⟩) =
      some (.decode error) →
        ¬ (choice none (some (.message (choice (some (.int32 7)) none)))).Intrudes error.path := by
    rintro _ ⟨⟩ intrudes
    cases intrudes with
    | @here _ _ _ _ other _ _ _ position _ _ _ siblings beside =>
        obtain rfl : 1 = _ := Option.some.inj position
        match other with
        | 0 => simp [choice, slot?] at beside
        | 1 => exact absurd rfl (MessageType.areSiblings_iff.1 siblings).1
        | other + 2 => simp [choice, slot?] at beside
    | inside there enters intrudes =>
        obtain rfl := Option.some.inj there
        cases enters
        cases intrudes
  have made := Made.merge reachable_choiceStore held made_choice_number replaced (by simp)
  have made' := Made.merge reachable_choiceStore held made failed spares
  exact ⟨made', throughout_exclusive_of_made made'⟩

/-- A merge that fails inside a choice leaves the choice beside the number that was set. -/
theorem not_exclusive_of_failed_merge :
    choiceStore.Reachable ∧ choiceStore.Holds choiceType ∧
      (choice (some (.int32 5)) none).Made ∧
      ((choiceType.merge (choice (some (.int32 5)) none) [18, 1, 255]).run choiceStore).1 =
        (choice (some (.int32 5)) (some (.message (choice none none))),
          some (.decode ⟨.invalidVarint, [.field 2]⟩)) ∧
      ¬ (choice (some (.int32 5)) (some (.message (choice none none)))).Exclusive := by
  have held : choiceStore.Holds choiceType := List.mem_singleton_self choiceType
  refine ⟨reachable_choiceStore, held, made_choice_number, rfl, fun exclusive => ?_⟩
  have unset := exclusive 0 1 rfl rfl
  simp [choice, slot?] at unset

end MessageOf

end ProtoWire
