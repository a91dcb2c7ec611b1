import ProtoWire.Proofs.Message.Stopping
import ProtoWire.Proofs.Message.Visiting

/-!
# Extensions coded by themselves

If all extensions in a message belong to its own registry, and the registry codes them by their
own codecs (`Store.Native`), then what coding a part of the message returns does not depend on what
was coded before it (`Store.home`, `Coding.Coupled.yields`). So the size of a message is the sum of
what its extensions and fields come to by themselves (`MessageOf.ensures_sizeBody_alone`), and what
is written of it are the outputs that its extensions have by themselves, in ascending order of
number, and its fields and unknown bytes behind them (`MessageOf.ensures_writeBody_alone`). This
holds for any caches, trusted or not.

An extension whose value does not match it has an output that failed (`MessageOf.failed_alone`).
-/

set_option autoImplicit false

namespace ProtoWire

open Coding (Coupled coupled_pure Ensures Yields ensures_pure)

/-! ## Coding within one registry -/

namespace Store

variable {store : Store} {id : RegistryId}

/-- Two runs, each after some coding in which extensions were attached to messages of their own
registries only. The types and the extensions that are asked for belong to one registry, which codes
these extensions by their own codecs. -/
def home (store : Store) (id : RegistryId) : Coupling where
  linked first second := store.Grows first ∧ store.Grows second
  types type := store.Holds type ∧ type.registry = id
  extensions _ := store.Native id
  mayLack := True

theorem Sound.lawful_home (sound : store.Sound) : (store.home id).Lawful := by
  have values : ∀ type, store.Native id type →
      type.codec.Legal ∧ ∀ valueType, type.valueType = some valueType →
        store.Holds valueType ∧ valueType.registry = id := by
    rintro type ⟨declared, -⟩
    refine ⟨(sound.registry id).legal_codec declared, fun valueType value => ?_⟩
    exact sound.home_of_mem ((sound.registry id).extensionValueType type declared valueType value)
  refine ⟨?_, ?_, fun _ => values⟩
  · rintro type ⟨held, rfl⟩ first second ⟨grows, grows'⟩
    obtain ⟨run, after⟩ := Coding.yields_table sound held first grows
    obtain ⟨run', after'⟩ := Coding.yields_table sound held second grows'
    refine ⟨run.trans run'.symm, ⟨fun _ _ => trivial, fun table eq => ?_⟩, after, after'⟩
    have builds := sound.builds_of_table held (run.symm.trans eq)
    exact ⟨_, builds, fun entry mem valueType value =>
      sound.home_of_mem (builds.mem_types_of_mem mem value)⟩
  · rintro owner type ⟨held, rfl⟩ native first second ⟨grows, grows'⟩
    obtain ⟨run, after⟩ := Coding.yields_extensionCodec sound held native.declared first grows
    obtain ⟨run', after'⟩ := Coding.yields_extensionCodec sound held native.declared second grows'
    refine ⟨run.trans run'.symm, ?_, after, after'⟩
    have coded : store.catalog.codec owner type = type.codec := native.coded
    rw [run, coded]
    exact values type native

end Store

/-- A run that is coupled with itself returns in every store that has grown what it returns in the
first one. -/
theorem Coding.Coupled.yields {α : Type} {store : Store} {id : RegistryId} {program : Coding α}
    {assertion : α → Prop} (h : Coupled (store.home id).linked program program assertion) :
    Ensures store program fun result => assertion result ∧ result = (program.run store).1 := by
  refine ⟨(program.run store).1, fun later grows => ?_, ?_, rfl⟩
  · obtain ⟨same, -, link⟩ := h later store ⟨grows, .refl⟩
    exact ⟨same, link.1⟩
  · exact (h store store ⟨.refl, .refl⟩).2.1

namespace MessageOf

/-! ## One extension after the other -/

/-- Sizes extensions one after the other and adds the sizes up. -/
def sizeInTurn (one : Attached → Coding (Attached × Nat)) :
    List Attached → Coding (List Attached × Nat)
  | [] => return ([], 0)
  | entry :: entries => do
      let (entry, first) ← one entry
      let (entries, rest) ← sizeInTurn one entries
      return (entry :: entries, first + rest)

/-- Writes extensions one after the other, up to the first that cannot be encoded. -/
def writeInTurn (one : Attached → Coding (Attached × Output)) :
    List Attached → Coding (List Attached × Output)
  | [] => return ([], .empty)
  | entry :: entries => do
      let (entry, first) ← one entry
      if first.failed then return (entry :: entries, first)
      else
        let (entries, rest) ← writeInTurn one entries
        return (entry :: entries, first.andThen rest)

section

variable {store : Store} {kept : Attached → Prop} {entries : List Attached}

theorem ensures_sizeInTurn {one : Attached → Coding (Attached × Nat)} {size : Attached → Nat}
    (alone : ∀ entry ∈ entries, Ensures store (one entry) fun sized =>
      kept sized.1 ∧ sized.2 = size entry) :
    Ensures store (sizeInTurn one entries) fun sized =>
      (∀ entry ∈ sized.1, kept entry) ∧ sized.2 = total (entries.map size) := by
  induction entries with
  | nil => exact ensures_pure ⟨by simp, rfl⟩
  | cons entry entries ih =>
      rw [List.forall_mem_cons] at alone
      rw [sizeInTurn]
      apply alone.1.bind
      rintro ⟨after, first⟩ ⟨here, size⟩
      apply (ih alone.2).bind
      rintro ⟨others, rest⟩ ⟨there, sizes⟩
      exact ensures_pure ⟨List.forall_mem_cons.2 ⟨here, there⟩, congrArg₂ (· + ·) size sizes⟩

theorem ensures_writeInTurn {one : Attached → Coding (Attached × Output)}
    {output : Attached → Output} (before : ∀ entry ∈ entries, kept entry)
    (alone : ∀ entry ∈ entries, Ensures store (one entry) fun written =>
      kept written.1 ∧ written.2 = output entry) :
    Ensures store (writeInTurn one entries) fun written =>
      (∀ entry ∈ written.1, kept entry) ∧ written.2 = .concat (entries.map output) := by
  induction entries with
  | nil => exact ensures_pure ⟨by simp, rfl⟩
  | cons entry entries ih =>
      rw [List.forall_mem_cons] at before alone
      rw [writeInTurn, List.map_cons, Output.concat]
      apply alone.1.bind
      rintro ⟨after, first⟩ ⟨here, eq⟩
      simp only at eq
      subst eq
      simp only
      split
      · next failed =>
          exact ensures_pure ⟨List.forall_mem_cons.2 ⟨here, before.2⟩,
            (Output.andThen_of_failed failed _).symm⟩
      · apply (ih before.2 alone.2).bind
        rintro ⟨others, rest⟩ ⟨there, eq'⟩
        exact ensures_pure ⟨List.forall_mem_cons.2 ⟨here, there⟩,
          congrArg (Output.andThen _) eq'⟩

end

/-! ## Sizing one extension -/

variable {measure : Message → Coding (Message × Nat)} {nested : NestedWriter}

/-- Sizes an extension of a message of type `owner`. -/
def sizeExtension (measure : Message → Coding (Message × Nat)) (owner : MessageType)
    (entry : Attached) : Coding (Attached × Nat) := do
  let codec ← Coding.extensionCodec owner entry.type
  let (value, size) ← codec.size measure entry.value
  return (⟨entry.type, value⟩, size)

/-- Sizes an item of a message set of type `owner`. -/
def sizeItem (measure : Message → Coding (Message × Nat)) (owner : MessageType)
    (entry : Attached) : Coding (Attached × Nat) := do
  let _ ← Coding.extensionCodec owner entry.type
  match itemMessage entry with
  | .error _ => return (entry, 0)
  | .ok message =>
      let (message, body) ← measure message
      return (⟨entry.type, .message message⟩,
        itemTags + Varint.size entry.type.number + Varint.size body + body)

theorem sizeAttached_eq_sizeInTurn (owner : MessageType) (entries : List Attached) :
    sizeAttached measure owner entries = sizeInTurn (sizeExtension measure owner) entries := by
  induction entries with
  | nil => rfl
  | cons entry entries ih => simp [sizeAttached, sizeInTurn, sizeExtension, ih]

theorem sizeItems_eq_sizeInTurn (owner : MessageType) (entries : List Attached) :
    sizeItems measure owner entries = sizeInTurn (sizeItem measure owner) entries := by
  induction entries with
  | nil => rfl
  | cons entry entries ih =>
      rw [sizeItems, sizeInTurn, ih]
      simp only [sizeItem, bind_assoc]
      congr 1
      funext codec
      cases itemMessage entry <;> simp

/-- Sizes an extension as its message is coded, that is as an item of a message set or not. -/
def sizeOne (measure : Message → Coding (Message × Nat)) (isSet : Bool) (owner : MessageType) :
    Attached → Coding (Attached × Nat) :=
  if isSet then sizeItem measure owner else sizeExtension measure owner

theorem coupled_sizeOne {coupling : Coupling} (lawful : coupling.Lawful)
    (measures : coupling.Measures measure measure) (isSet : Bool) {owner : MessageType}
    (admitted : coupling.types owner) {entry : Attached}
    (carried : entry.Borne coupling.extensions owner) :
    Coupled coupling.linked (sizeOne measure isSet owner entry) (sizeOne measure isSet owner entry)
      fun sized => sized.1.Borne coupling.extensions owner := by
  cases isSet with
  | false =>
      apply (lawful.codec owner entry.type admitted carried.type).bind
      rintro codec ⟨-, allowed⟩
      apply (FieldCodec.coupled_size measures allowed carried.value).bind
      rintro ⟨after, size⟩ value
      exact coupled_pure ⟨carried.type, value⟩
  | true =>
      apply (lawful.codec owner entry.type admitted carried.type).bind
      rintro codec -
      cases item : itemMessage entry with
      | error fault => exact coupled_pure carried
      | ok inner =>
          obtain ⟨value, type⟩ := eq_message_of_itemMessage item
          have inside := carried.value
          rw [value, Value.bears_message] at inside
          apply (measures inner ((lawful.own owner entry.type carried.type).2 _ type) inside).bind
          rintro ⟨after, body⟩ passes
          exact coupled_pure ⟨carried.type, Value.bears_message.2 passes.carries⟩

/-- What an extension adds to the size of a message if it is sized in the store as it is. -/
def sizeAlone (measure : Message → Coding (Message × Nat)) (store : Store) (isSet : Bool)
    (owner : MessageType) (entry : Attached) : Nat :=
  ((sizeOne measure isSet owner entry).run store).1.2

/-- What the fields add to the size; a message set has none. -/
def fieldsAlone (measure : Message → Coding (Message × Nat)) (store : Store) (table : FieldTable)
    (message : Message) : Nat :=
  if table.isMessageSet then 0
  else ((sizeFields measure table.writingOrder message).run store).1.2

/-- The size of a message whose extensions and fields are sized by themselves. -/
def sumAlone (measure : Message → Coding (Message × Nat)) (store : Store) (table : FieldTable)
    (message : Message) : Nat :=
  total (message.attached.map (sizeAlone measure store table.isMessageSet message.type)) +
    fieldsAlone measure store table message + (message.unknown.getD []).length

/-- Sizing fields looks at slots only. -/
theorem run_sizeFields_congr {entries : List FieldEntry} {message other : Message}
    (slots : message.slots = other.slots) (store : Store) :
    ((sizeFields measure entries message).run store).1.2 =
      ((sizeFields measure entries other).run store).1.2 := by
  induction entries generalizing message other store with
  | nil => rfl
  | cons entry entries ih =>
      have same : message.slot? entry.position = other.slot? entry.position := by
        rw [slot?, slot?, slots]
      rw [sizeFields, sizeFields, same]
      cases other.slot? entry.position with
      | none => exact ih slots store
      | some value =>
          simp only [Coding.run_bind, Coding.run_pure]
          congr 1
          apply ih
          rw [putSlot, putSlot, slots]

section

variable {store : Store} {id : RegistryId} {message : Message} {table : FieldTable}

/-- Fields have the same sizes by themselves when other extensions are attached. -/
theorem Carries.ensures_sizeFields (measures : (store.home id).Measures measure measure)
    {entries : List FieldEntry} (allowed : ∀ entry ∈ entries, (store.home id).Allows entry.codec)
    {other : Message} (carries : other.Carries (store.Native id))
    (slots : other.slots = message.slots) :
    Ensures store (sizeFields measure entries other) fun sized =>
      sized.2 = ((sizeFields measure entries message).run store).1.2 := by
  refine (coupled_sizeFields measures allowed carries).yields.mono ?_
  rintro sized ⟨-, rfl⟩
  exact run_sizeFields_congr slots store

/-- The size of a message's content is the sum of what its extensions and its fields come to by
themselves. -/
theorem ensures_sizeBody_alone (lawful : (store.home id).Lawful)
    (measures : (store.home id).Measures measure measure)
    (allowed : ∀ entry ∈ table.writingOrder, (store.home id).Allows entry.codec)
    (admitted : (store.home id).types message.type)
    (carries : message.Carries (store.Native id)) :
    Ensures store (sizeBody measure table message) fun sized =>
      sized.2 = message.sumAlone measure store table := by
  have alone : ∀ entry ∈ message.attached,
      Ensures store (sizeOne measure table.isMessageSet message.type entry) fun sized =>
        sized.1.Borne (store.home id).extensions message.type ∧
          sized.2 = sizeAlone measure store table.isMessageSet message.type entry := by
    intro entry mem
    have borne := (carries_iff_bears.1 carries).borne mem
    refine (coupled_sizeOne lawful measures _ admitted borne).yields.mono ?_
    rintro sized ⟨carried, rfl⟩
    exact ⟨carried, rfl⟩
  rw [sizeBody, sumAlone, fieldsAlone]
  cases isSet : table.isMessageSet with
  | true =>
      rw [isSet] at alone
      simp only [if_true, sizeItems_eq_sizeInTurn]
      apply (ensures_sizeInTurn alone).bind
      rintro ⟨entries, items⟩ ⟨-, sizes⟩
      exact ensures_pure (congrArg (· + _) sizes)
  | false =>
      rw [isSet] at alone
      simp only [Bool.false_eq_true, if_false, sizeAttached_eq_sizeInTurn]
      apply (ensures_sizeInTurn alone).bind
      rintro ⟨entries, extensions⟩ ⟨carried, sizes⟩
      have replaced := @Bears.replace (store.home id) message carries entries carried
      have slots : (message.withAttached entries).slots = message.slots := rfl
      apply (Carries.ensures_sizeFields measures allowed replaced slots).bind
      rintro ⟨after, fields⟩ size
      refine ensures_pure ?_
      simp only at sizes size ⊢
      rw [sizes, size]

end

/-! ## Writing one extension -/

/-- Writes an extension of a message of type `owner`. -/
def writeExtension (nested : NestedWriter) (owner : MessageType) (entry : Attached) :
    Coding (Attached × Output) := do
  let codec ← Coding.extensionCodec owner entry.type
  let (value, output) ← codec.write nested entry.value
  return (⟨entry.type, value⟩, output.under (.field entry.type.number))

/-- Writes an item of a message set of type `owner`. -/
def writeSetItem (nested : NestedWriter) (owner : MessageType) (entry : Attached) :
    Coding (Attached × Output) := do
  let _ ← Coding.extensionCodec owner entry.type
  let (after, output) ← writeItem nested entry
  return (after, output.under (.field entry.type.number))

theorem writeAttached_eq_writeInTurn (owner : MessageType) (entries : List Attached) :
    writeAttached nested owner entries = writeInTurn (writeExtension nested owner) entries := by
  induction entries with
  | nil => rfl
  | cons entry entries ih => simp [writeAttached, writeInTurn, writeExtension, ih]

theorem writeItems_eq_writeInTurn (owner : MessageType) (entries : List Attached) :
    writeItems nested owner entries = writeInTurn (writeSetItem nested owner) entries := by
  induction entries with
  | nil => rfl
  | cons entry entries ih =>
      rw [writeItems, writeInTurn, ih]
      simp only [writeSetItem, bind_assoc]
      congr 1
      funext codec
      rw [writeItem]
      cases itemMessage entry with
      | error fault => simp
      | ok inner =>
          simp only [bind_assoc]
          congr 1
          funext result
          cases result <;> simp

/-- Writes an extension as its message is coded, that is as an item of a message set or not. -/
def writeOne (nested : NestedWriter) (isSet : Bool) (owner : MessageType) :
    Attached → Coding (Attached × Output) :=
  if isSet then writeSetItem nested owner else writeExtension nested owner

/-- The output of an extension that is written in the store as it is, by its own codec. -/
def outputAlone (nested : NestedWriter) (store : Store) (isSet : Bool) (entry : Attached) :
    Output :=
  (if isSet then ((writeItem nested entry).run store).1.2
    else ((entry.type.codec.write nested entry.value).run store).1.2).under
      (.field entry.type.number)

/-- What is written of a message behind its extensions: the fields, which a message set has not, and
the unknown bytes. -/
def outputBehind (nested : NestedWriter) (store : Store) (table : FieldTable) (message : Message) :
    Output :=
  (if table.isMessageSet then Output.empty
    else ((writeFields nested table.writingOrder message).run store).1.2).andThen
      (.ofBytes (message.unknown.getD []))

/-- The outputs of the extensions by themselves, in ascending order of number, and what comes behind
them. -/
def outputInTurn (nested : NestedWriter) (store : Store) (table : FieldTable) (message : Message) :
    Output :=
  (Output.concat (message.attachedByNumber.map
    (outputAlone nested store table.isMessageSet))).andThen
      (outputBehind nested store table message)

/-- Writing fields looks at slots only. -/
theorem run_writeFields_congr {entries : List FieldEntry} {message other : Message}
    (slots : message.slots = other.slots) (store : Store) :
    ((writeFields nested entries message).run store).1.2 =
      ((writeFields nested entries other).run store).1.2 := by
  induction entries generalizing message other store with
  | nil => rfl
  | cons entry entries ih =>
      have same : message.slot? entry.position = other.slot? entry.position := by
        rw [slot?, slot?, slots]
      rw [writeFields, writeFields, same]
      cases other.slot? entry.position with
      | none => exact ih slots store
      | some value =>
          simp only [Coding.run_bind]
          split
          · rfl
          · simp only [Coding.run_bind, Coding.run_pure]
            congr 1
            apply ih
            rw [putSlot, putSlot, slots]

section

variable {store : Store} {id : RegistryId} {message : Message} {table : FieldTable}

/-- An extension that is written among others has the output that it has by itself. -/
theorem ensures_writeOne_alone (lawful : (store.home id).Lawful) (sound : store.Sound)
    (writes : (store.home id).Writes nested nested) (isSet : Bool) {owner : MessageType}
    (admitted : (store.home id).types owner) {entry : Attached}
    (carried : entry.Borne (store.home id).extensions owner) :
    Ensures store (writeOne nested isSet owner entry) fun written =>
      written.1.Borne (store.home id).extensions owner ∧
        written.2 = outputAlone nested store isSet entry := by
  obtain ⟨held, rfl⟩ := admitted
  have coded : store.catalog.codec owner entry.type = entry.type.codec :=
    carried.type.coded
  have asked := Coding.yields_extensionCodec sound held carried.type.declared
  cases isSet with
  | false =>
      rw [coded] at asked
      have allowed : (store.home owner.registry).Allows entry.type.codec :=
        (lawful.own owner entry.type carried.type).2
      apply asked.bind_ensures
      apply (FieldCodec.coupled_write writes allowed carried.value).yields.bind
      rintro ⟨after, output⟩ ⟨⟨value, -⟩, eq⟩
      refine ensures_pure ⟨⟨carried.type, value⟩, ?_⟩
      rw [outputAlone, ← eq]
      rfl
  | true =>
      apply asked.bind_ensures
      apply (coupled_writeItem lawful writes carried).yields.bind
      rintro ⟨after, output⟩ ⟨⟨carried', -⟩, eq⟩
      refine ensures_pure ⟨carried', ?_⟩
      rw [outputAlone, ← eq]
      rfl

/-- What is written of a message's content are the outputs that its extensions have by themselves,
in ascending order of number, and what comes behind them. -/
theorem ensures_writeBody_alone (lawful : (store.home id).Lawful) (sound : store.Sound)
    (writes : (store.home id).Writes nested nested)
    (allowed : ∀ entry ∈ table.writingOrder, (store.home id).Allows entry.codec)
    (admitted : (store.home id).types message.type)
    (carries : message.Carries (store.Native id)) :
    Ensures store (writeBody nested table message) fun written =>
      written.2 = message.outputInTurn nested store table := by
  have before : ∀ entry ∈ message.attachedByNumber,
      entry.Borne (store.home id).extensions message.type :=
    fun entry mem => (carries_iff_bears.1 carries).borne (mem_attachedByNumber.1 mem)
  have alone := fun entry mem => ensures_writeOne_alone lawful sound writes table.isMessageSet
    admitted (before entry mem)
  rw [writeBody, outputInTurn, outputBehind]
  cases isSet : table.isMessageSet with
  | true =>
      rw [isSet] at alone
      simp only [if_true, writeItems_eq_writeInTurn, Output.empty_andThen]
      apply (ensures_writeInTurn before alone).bind
      rintro ⟨visited, items⟩ ⟨-, eq⟩
      exact ensures_pure (congrArg (Output.andThen · _) eq)
  | false =>
      rw [isSet] at alone
      simp only [Bool.false_eq_true, if_false, writeAttached_eq_writeInTurn]
      apply (ensures_writeInTurn before alone).bind
      rintro ⟨visited, first⟩ ⟨carried, eq⟩
      simp only at eq
      subst eq
      simp only
      split
      · next failed => exact ensures_pure (Output.andThen_of_failed failed _).symm
      · have refreshed := @Bears.refreshAttached (store.home id) message carries visited carried
        apply (coupled_writeFields writes allowed refreshed).yields.bind
        rintro ⟨after, fields⟩ ⟨-, eq'⟩
        refine ensures_pure ?_
        have slots : (message.refreshAttached visited).slots = message.slots := rfl
        have same : fields = ((writeFields nested table.writingOrder message).run store).1.2 :=
          (congrArg Prod.snd eq').trans (run_writeFields_congr slots store)
        rw [← same]

end

/-! ## Messages -/

section

variable {store : Store} {message : Message} {table : FieldTable}

/-- How messages inside a message are coded when it is. -/
def nestedWriter (trust : Bool) (message : Message) : NestedWriter :=
  ⟨measureAt trust message.height, marshalAt trust message.height⟩

theorem writes_nestedWriter {id : RegistryId} (lawful : (store.home id).Lawful) (trust : Bool)
    (message : Message) :
    (store.home id).Writes (message.nestedWriter trust) (message.nestedWriter trust) := by
  have writes := @writes_writeOr (store.home id) 0 0 lawful (fun _ => rfl) trust message.height
  rw [measureOr_zero, writeOr_zero] at writes
  exact writes

/-- The fields of a table hold messages of the registry of its type. -/
theorem allows_home (sound : store.Sound) (held : store.Holds message.type)
    (found : store.catalog.table message.type = .ok table) :
    ∀ entry ∈ table.writingOrder, (store.home message.type.registry).Allows entry.codec := by
  intro entry mem valueType value
  have builds := sound.builds_of_table held found
  exact sound.home_of_mem
    (builds.mem_types_of_mem (builds.perm_writingOrder.mem_iff.1 mem) value)

/-- Sizing a message returns the size that is trusted, or the sum of what its extensions and fields
come to by themselves. -/
theorem run_size_alone (sound : store.Sound) (held : store.Holds message.type)
    (carries : message.Carries (store.Native message.type.registry)) (trust : Bool) :
    ((message.size trust).run store).1.2 =
      match if trust then message.cache.get? else none with
      | some size => .ok size
      | none => (store.catalog.table message.type).map
          (message.sumAlone (measureAt trust message.height) store) := by
  have lawful : (store.home message.type.registry).Lawful := sound.lawful_home
  have measures := (writes_nestedWriter lawful trust message).measure
  have ensured : Ensures store (message.size trust) fun sized => sized.2 =
      match if trust then message.cache.get? else none with
      | some size => .ok size
      | none => (store.catalog.table message.type).map
          (message.sumAlone (measureAt trust message.height) store) := by
    rw [size, measureWith]
    cases (if trust then message.cache.get? else none) with
    | some size => exact ensures_pure rfl
    | none =>
        apply (Coding.yields_table sound held).bind_ensures
        cases found : store.catalog.table message.type with
        | error error => exact ensures_pure rfl
        | ok table =>
            have allowed := allows_home sound held found
            apply (ensures_sizeBody_alone lawful measures allowed ⟨held, rfl⟩ carries).bind
            rintro ⟨after, size⟩ eq
            exact ensures_pure (congrArg Except.ok eq)
  exact ensured.run.1

/-- Marshaling a message appends the outputs that its extensions have by themselves, in ascending
order of number, and what comes behind them. -/
theorem run_marshal_alone (sound : store.Sound) (held : store.Holds message.type)
    (carries : message.Carries (store.Native message.type.registry)) (trust : Bool) :
    (((message.marshal trust).run store).1.bytes, ((message.marshal trust).run store).1.failure) =
      match store.catalog.table message.type with
      | .error error => ([], some (.build error))
      | .ok table =>
          let output := message.outputInTurn (message.nestedWriter trust) store table
          (output.bytes, output.failure.map .encode) := by
  have lawful : (store.home message.type.registry).Lawful := sound.lawful_home
  have writes := writes_nestedWriter lawful trust message
  have ensured : Ensures store (message.marshal trust) fun marshaled =>
      (marshaled.bytes, marshaled.failure) =
        match store.catalog.table message.type with
        | .error error => ([], some (.build error))
        | .ok table =>
            let output := message.outputInTurn (message.nestedWriter trust) store table
            (output.bytes, output.failure.map .encode) := by
    rw [marshal]
    apply (Coding.yields_table sound held).bind_ensures
    cases found : store.catalog.table message.type with
    | error error => exact ensures_pure rfl
    | ok table =>
        have allowed := allows_home sound held found
        apply (ensures_writeBody_alone lawful sound writes allowed ⟨held, rfl⟩ carries).bind
        rintro ⟨after, output⟩ eq
        simp only at eq
        subst eq
        exact ensures_pure rfl
  exact ensured.run.1

end

end MessageOf

/-! ## Failed outputs -/

namespace Output

@[simp]
theorem failed_failHere (fault : ValueFault) : (failHere fault).failed = true :=
  rfl

@[simp]
theorem failed_under (output : Output) (step : PathStep) :
    (output.under step).failed = output.failed := by
  simp [failed, Output.under]

@[simp]
theorem failed_andThen (first second : Output) :
    (first.andThen second).failed = (first.failed || second.failed) := by
  cases failed : first.failed with
  | true => rw [andThen_of_failed failed, failed, Bool.true_or]
  | false => rw [andThen, if_neg (by simp [failed]), Bool.false_or, Output.failed, Output.failed]

/-- Outputs one after another fail as the first of them does that failed. -/
theorem failure_concat {front back : List Output} {output : Output}
    (written : ∀ other ∈ front, other.failed = false) (failed : output.failed = true) :
    (concat (front ++ output :: back)).failed = true ∧
      (concat (front ++ output :: back)).failure = output.failure := by
  induction front with
  | nil => rw [List.nil_append, concat, andThen_of_failed failed]; exact ⟨failed, rfl⟩
  | cons first front ih =>
      rw [List.forall_mem_cons] at written
      obtain ⟨whole, failure⟩ := ih written.2
      rw [List.cons_append, concat]
      refine ⟨by rw [failed_andThen, whole, Bool.or_true], ?_⟩
      rw [andThen, if_neg (by simp [written.1]), failure]

end Output

/-! ## Values that do not match -/

namespace FieldCodec

variable {codec : FieldCodec} {value : Value} {items : List Value}

theorem exists_item_of_not_matches (repeated : codec.arrangement.isRepeated = true)
    (differs : ¬ codec.Matches (.list items)) : ∃ item ∈ items, ¬ codec.MatchesOne item := by
  by_contra none
  push Not at none
  exact differs ((matches_iff_items repeated).2 ⟨items, rfl, none⟩)

theorem payload?_of_not_matchesOne (scalar : codec.kind.isMessage = false)
    (differs : ¬ codec.MatchesOne value) : codec.kind.payload? value = none := by
  rw [matchesOne_iff_payload scalar] at differs
  simpa using differs

theorem failed_writeRecord (scalar : codec.kind.isMessage = false)
    (differs : ¬ codec.MatchesOne value) : (codec.writeRecord value).failed = true := by
  rw [writeRecord, payload?_of_not_matchesOne scalar differs]
  rfl

theorem failed_writeRecords (scalar : codec.kind.isMessage = false) (position : Nat)
    (mem : value ∈ items) (differs : ¬ codec.MatchesOne value) :
    (codec.writeRecords position items).failed = true := by
  induction items generalizing position with
  | nil => simp at mem
  | cons item items ih =>
      rw [writeRecords, Output.failed_andThen, Output.failed_under, Bool.or_eq_true]
      rcases List.mem_cons.1 mem with rfl | behind
      · exact .inl (failed_writeRecord scalar differs)
      · exact .inr (ih (position + 1) behind)

theorem failed_writeScalar (scalar : codec.kind.isMessage = false)
    (differs : ¬ codec.Matches value) : (codec.writeScalar value).failed = true := by
  cases arrangement : codec.arrangement with
  | implicit =>
      rw [matches_iff_matchesOne (by rw [arrangement]; rfl)] at differs
      simp only [writeScalar, arrangement, payload?_of_not_matchesOne scalar differs,
        Output.failed_failHere]
  | explicit =>
      rw [matches_iff_matchesOne (by rw [arrangement]; rfl)] at differs
      simp only [writeScalar, arrangement]
      exact failed_writeRecord scalar differs
  | packed =>
      have repeated : codec.arrangement.isRepeated = true := by rw [arrangement]; rfl
      simp only [writeScalar, arrangement]
      cases value with
      | list items =>
          obtain ⟨item, mem, differs⟩ := exists_item_of_not_matches repeated differs
          have nonempty : items.isEmpty = false := by
            cases items <;> simp at mem ⊢
          simp only [writePacked, nonempty, Bool.false_eq_true, if_false]
          cases found : codec.payloads 0 items with
          | ok payloads =>
              have some := isSome_of_payloads_ok found item mem
              rw [payload?_of_not_matchesOne scalar differs] at some
              cases some
          | error error => rfl
      | _ => rfl
  | expanded =>
      have repeated : codec.arrangement.isRepeated = true := by rw [arrangement]; rfl
      simp only [writeScalar, arrangement]
      cases value with
      | list items =>
          obtain ⟨item, mem, differs⟩ := exists_item_of_not_matches repeated differs
          exact failed_writeRecords scalar 0 mem differs
      | _ => rfl

variable {nested : NestedWriter}

theorem failed_writeNested (message : codec.kind.isMessage = true)
    (differs : ¬ codec.MatchesOne value) (store : Store) :
    ((codec.writeNested nested value).run store).1.2.failed = true := by
  cases value with
  | message inner =>
      have other : codec.valueType ≠ some inner.type := fun declared => differs ⟨message, declared⟩
      rw [writeNested, if_pos other]
      rfl
  | _ => rfl

theorem failed_writeEach {write : Value → Coding (Value × Output)} (position : Nat)
    (mem : value ∈ items) (fails : ∀ store, ((write value).run store).1.2.failed = true)
    (store : Store) : ((writeEach write position items).run store).1.2.failed = true := by
  induction items generalizing position store with
  | nil => simp at mem
  | cons item items ih =>
      rw [writeEach, Coding.run_bind]
      simp only
      split
      · next failed => exact failed
      · next written =>
          rw [Coding.run_bind, Coding.run_pure, Output.failed_andThen, Bool.or_eq_true]
          rcases List.mem_cons.1 mem with rfl | behind
          · rw [Output.failed_under] at written
            exact absurd (fails store) written
          · exact .inr (ih (position + 1) behind _)

/-- A value that does not match its codec cannot be written. -/
theorem failed_write (differs : ¬ codec.Matches value) (store : Store) :
    ((codec.write nested value).run store).1.2.failed = true := by
  cases message : codec.kind.isMessage with
  | false =>
      simp only [write, message, Bool.not_false, if_true]
      exact failed_writeScalar message differs
  | true =>
      cases repeated : codec.arrangement.isRepeated with
      | false =>
          rw [matches_iff_matchesOne repeated] at differs
          simp only [write, message, repeated, Bool.not_true, Bool.false_eq_true, if_false]
          exact failed_writeNested message differs store
      | true =>
          simp only [write, message, repeated, Bool.not_true, Bool.false_eq_true, if_false, if_true]
          cases value with
          | list items =>
              obtain ⟨item, mem, differs⟩ := exists_item_of_not_matches repeated differs
              exact failed_writeEach 0 mem (failed_writeNested message differs) store
          | _ => rfl

end FieldCodec

namespace MessageOf

variable {nested : NestedWriter} {store : Store} {isSet : Bool} {entry : Attached}

/-- An extension whose value does not match it cannot be written. -/
theorem failed_alone (differs : ¬ entry.Matches isSet) :
    (outputAlone nested store isSet entry).failed = true := by
  rw [outputAlone, Output.failed_under]
  cases isSet with
  | false => exact FieldCodec.failed_write differs store
  | true =>
      cases item : itemMessage entry with
      | error fault =>
          simp only [if_true, writeItem, item]
          rfl
      | ok inner => exact absurd ⟨inner, eq_message_of_itemMessage item⟩ differs

/-- The error of an extension names it first. -/
theorem head?_path_of_alone {error : Unencodable}
    (failed : (outputAlone nested store isSet entry).failure = some error) :
    error.path.head? = some (.field entry.type.number) := by
  obtain ⟨inside, -, rfl⟩ := Option.map_eq_some_iff.1 failed
  rfl

end MessageOf

end ProtoWire
