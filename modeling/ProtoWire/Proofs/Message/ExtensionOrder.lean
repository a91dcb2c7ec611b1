import ProtoWire.Proofs.Message.Alone
import ProtoWire.Proofs.Message.ExtensionMap
import ProtoWire.Proofs.Message.RoundTrip

/-!
# The order of extensions

The extensions of a message form a map, whose entries may be listed in any order. Setting and
clearing extensions changes that map only (`MessageOf.Edited`), and two messages with the same map
differ in the order of the list at most. Sizing and marshaling do not see it: the sizes are the
same, and so are the bytes and the failure, with the extensions in strictly ascending order of
number. If extensions cannot be encoded then the error names the one with the smallest number
(`MessageOf.coding_of_sameExtensions`).

All extensions have to belong to the registry of the message, which has to code them by their own
codecs. If it keeps the codec of another registry's extension then the error may name an extension
whose value matches (`MessageOf.marshal_gradedNode`). If a message inside carries an extension of
another registry then the size depends on the order (`MessageOf.size_linkedNode`).
-/

set_option autoImplicit false

namespace ProtoWire

/-! ## Lists in another order -/

theorem total_perm {sizes sizes' : List Nat} (perm : sizes.Perm sizes') :
    total sizes = total sizes' := by
  induction perm with
  | nil => rfl
  | cons size _ ih => exact congrArg (size + ·) ih
  | swap size size' sizes => simp only [total]; omega
  | trans _ _ ih ih' => exact ih.trans ih'

theorem attachedHeight_perm {entries entries' : List Attached} (perm : entries.Perm entries') :
    attachedHeight entries = attachedHeight entries' := by
  induction perm with
  | nil => rfl
  | cons entry _ ih => rw [attachedHeight, attachedHeight, ih]
  | swap entry entry' entries => simp only [attachedHeight]; omega
  | trans _ _ ih ih' => exact ih.trans ih'

namespace MessageOf

variable {store : Store} {message after first second : Message} {entries : List Attached}

/-! ## Extension maps -/

/-- What setting and clearing extensions makes of a message. -/
inductive Edited (message : Message) : Message → Prop
  | refl : Edited message message
  | set {before after : Message} {type : ExtensionType} {value : Value} :
      Edited message before → before.setExtension type value = .ok after → Edited message after
  | clear {before : Message} (number : Nat) :
      Edited message before → Edited message (before.withoutExtension number)

/-- Setting and clearing extensions changes nothing else. -/
theorem Edited.eq_withAttached (edited : message.Edited after) :
    after = message.withAttached after.attached := by
  induction edited with
  | refl => cases message with
    | mk type slots cache unknown extensions => cases extensions <;> rfl
  | set _ set ih =>
      obtain ⟨rfl, -⟩ := of_setExtension set
      rw [ih]
      cases place : message.extensions <;> simp [withAttached, attach, attached, place]
  | clear number _ ih =>
      rw [ih]
      cases place : message.extensions <;> simp [withAttached, withoutExtension, attached, place]

/-- Setting and clearing extensions attaches none twice. -/
theorem Edited.distinct (edited : message.Edited after)
    (distinct : (message.attached.map (·.type.number)).Nodup) :
    (after.attached.map (·.type.number)).Nodup := by
  induction edited with
  | refl => exact distinct
  | set _ set ih =>
      obtain ⟨rfl, -⟩ := of_setExtension set
      exact nodup_attach _ ih _
  | clear number _ ih => exact nodup_withoutExtension _ ih number

/-- Messages with the same extension under each number list the same extensions. -/
theorem perm_attached_of_same (distinct : (first.attached.map (·.type.number)).Nodup)
    (distinct' : (second.attached.map (·.type.number)).Nodup)
    (same : ∀ number, first.extension? number = second.extension? number) :
    second.attached.Perm first.attached := by
  refine (List.perm_ext_iff_of_nodup (distinct'.of_map _) (distinct.of_map _)).2 fun entry => ?_
  have found : second.extension? entry.type.number = some entry ↔
      entry ∈ second.attached ∧ entry.type.number = entry.type.number :=
    second.extension?_eq_some_iff distinct'
  rw [← same, first.extension?_eq_some_iff distinct] at found
  simpa using found.symm

/-- Where there is a place for extensions they may be listed in another order. -/
theorem attached_withAttached (perm : entries.Perm message.attached) :
    (message.withAttached entries).attached = entries := by
  cases place : message.extensions with
  | none =>
      rw [attached, place] at perm
      rw [List.perm_nil.1 perm, attached, withAttached, place]
      rfl
  | some before => simp [attached, withAttached, place]

@[simp]
theorem slots_withAttached (message : Message) (entries : List Attached) :
    (message.withAttached entries).slots = message.slots :=
  rfl

theorem withAttached_withAttached (entries entries' : List Attached) :
    (message.withAttached entries).withAttached entries' = message.withAttached entries' := by
  simp [withAttached, Function.comp_def]

/-- The height of a message does not depend on the order. -/
theorem height_withAttached (perm : entries.Perm message.attached) :
    (message.withAttached entries).height = message.height := by
  rw [height_eq, height_eq, withAttached]
  cases place : message.extensions with
  | none => rfl
  | some before =>
      rw [attached, place] at perm
      rw [Option.map_some, extensionsHeight, extensionsHeight, attachedHeight_perm perm]
      rfl

/-- The order in which extensions are listed is not that in which they are written. -/
theorem attachedByNumber_withAttached (distinct : (message.attached.map (·.type.number)).Nodup)
    (perm : entries.Perm message.attached) :
    (message.withAttached entries).attachedByNumber = message.attachedByNumber := by
  rw [attachedByNumber, attachedByNumber, attached_withAttached perm]
  exact sortBy_key_congr ((perm.map _).nodup_iff.2 distinct) distinct fun entry => perm.mem_iff

/-- Extensions with different numbers ascend strictly. -/
theorem ascending_attachedByNumber (distinct : (message.attached.map (·.type.number)).Nodup) :
    message.attachedByNumber.Pairwise (·.type.number < ·.type.number) := by
  have ascending := pairwise_sortBy_key (fun entry : Attached => entry.type.number) message.attached
  have apart : (message.attachedByNumber.map (·.type.number)).Nodup :=
    (message.perm_attachedByNumber.map _).nodup_iff.2 distinct
  exact (ascending.and (List.pairwise_map.1 apart)).imp fun h => Nat.lt_of_le_of_ne h.1 h.2

/-! ## Coding extensions in another order -/

/-- Nor does the sum of what the parts come to. -/
theorem sumAlone_withAttached {measure : Message → Coding (Message × Nat)} {table : FieldTable}
    (perm : entries.Perm message.attached) :
    (message.withAttached entries).sumAlone measure store table =
      message.sumAlone measure store table := by
  have extensions := total_perm
    (perm.map (sizeAlone measure store table.isMessageSet message.type))
  have fields : (message.withAttached entries).fieldsAlone measure store table =
      message.fieldsAlone measure store table := by
    rw [fieldsAlone, fieldsAlone]
    split
    · rfl
    · exact run_sizeFields_congr (message.slots_withAttached entries) store
  rw [sumAlone, sumAlone, attached_withAttached perm, fields]
  exact congrArg (· + _ + _) extensions

/-- Nor what is written, which goes by numbers. -/
theorem outputInTurn_withAttached {nested : NestedWriter} {table : FieldTable}
    (distinct : (message.attached.map (·.type.number)).Nodup)
    (perm : entries.Perm message.attached) :
    (message.withAttached entries).outputInTurn nested store table =
      message.outputInTurn nested store table := by
  have behind : (message.withAttached entries).outputBehind nested store table =
      message.outputBehind nested store table := by
    rw [outputBehind, outputBehind]
    split
    · rfl
    · have fields := @run_writeFields_congr nested table.writingOrder _ _
        (message.slots_withAttached entries) store
      exact congrArg (Output.andThen · _) fields
  rw [outputInTurn, outputInTurn, attachedByNumber_withAttached distinct perm, behind]

theorem Carries.withAttached {extensions : ExtensionType → Prop}
    (carries : message.Carries extensions) (perm : entries.Perm message.attached) :
    (message.withAttached entries).Carries extensions := by
  rw [carries_iff_bears] at carries ⊢
  refine carries.of_borne rfl fun entry mem => ?_
  rw [attached_withAttached perm] at mem
  exact carries.borne (perm.mem_iff.1 mem)

/-- The order in which extensions are listed makes no difference to the size. -/
theorem size_withAttached (sound : store.Sound) (held : store.Holds message.type)
    (carries : message.Carries (store.Native message.type.registry))
    (perm : entries.Perm message.attached) (trust : Bool) :
    (((message.withAttached entries).size trust).run store).1.2 =
      ((message.size trust).run store).1.2 := by
  have other := @run_size_alone store (message.withAttached entries) sound held
    (carries.withAttached perm) trust
  rw [other, run_size_alone sound held carries, height_withAttached perm]
  simp only [show (message.withAttached entries).type = message.type from rfl,
    show (message.withAttached entries).cache = message.cache from rfl]
  split
  · rfl
  · congr 1
    funext table
    exact sumAlone_withAttached perm

/-- The order in which extensions are listed makes no difference to what is written. -/
theorem marshal_withAttached (sound : store.Sound) (held : store.Holds message.type)
    (carries : message.Carries (store.Native message.type.registry))
    (distinct : (message.attached.map (·.type.number)).Nodup)
    (perm : entries.Perm message.attached) (trust : Bool) :
    ((((message.withAttached entries).marshal trust).run store).1.bytes,
        (((message.withAttached entries).marshal trust).run store).1.failure) =
      (((message.marshal trust).run store).1.bytes,
        ((message.marshal trust).run store).1.failure) := by
  have other := @run_marshal_alone store (message.withAttached entries) sound held
    (carries.withAttached perm) trust
  rw [other, run_marshal_alone sound held carries, nestedWriter, height_withAttached perm]
  simp only [show (message.withAttached entries).type = message.type from rfl,
    outputInTurn_withAttached distinct perm, nestedWriter]

/-- An extension that cannot be written stops the marshaling of the message if all extensions of
smaller numbers can be. -/
theorem failure_concat_attachedByNumber
    (distinct : (message.attached.map (·.type.number)).Nodup) {output : Attached → Output}
    {entry : Attached} (mem : entry ∈ message.attached) (failed : (output entry).failed = true)
    (before : ∀ other ∈ message.attached, other.type.number < entry.type.number →
      (output other).failed = false) :
    (Output.concat (message.attachedByNumber.map output)).failed = true ∧
      (Output.concat (message.attachedByNumber.map output)).failure = (output entry).failure := by
  obtain ⟨front, back, split⟩ := List.append_of_mem (mem_attachedByNumber.2 mem)
  have ascending := ascending_attachedByNumber distinct
  rw [split, List.pairwise_append] at ascending
  have written : ∀ other ∈ front.map output, other.failed = false := by
    rw [List.forall_mem_map]
    intro other inFront
    have listed : other ∈ message.attachedByNumber := by
      rw [split]
      exact List.mem_append_left _ inFront
    exact before other (mem_attachedByNumber.1 listed)
      (ascending.2.2 other inFront entry List.mem_cons_self)
  rw [split, List.map_append, List.map_cons]
  exact Output.failure_concat written failed

/-- Two messages that were made of one message by setting and clearing extensions, and that have the
same extensions, are coded alike in whatever order they list them. What is written are the outputs
of the extensions by themselves, in strictly ascending order of number, and the fields and unknown
bytes behind them. Extensions whose values do not match cannot be written, and of those that cannot
be, the one with the smallest number is the one that the error names. -/
theorem coding_of_sameExtensions (reachable : store.Reachable) (held : store.Holds message.type)
    (distinct : (message.attached.map (·.type.number)).Nodup)
    (edited : message.Edited first) (edited' : message.Edited second)
    (same : ∀ number, first.extension? number = second.extension? number)
    (carries : first.Carries (store.Native message.type.registry))
    {entries entries' : List Attached} (listed : entries.Perm first.attached)
    (listed' : entries'.Perm second.attached) (trust : Bool) :
    let one := first.withAttached entries
    let other := second.withAttached entries'
    let written := ((one.marshal trust).run store).1
    ((one.size trust).run store).1.2 = ((other.size trust).run store).1.2 ∧
      written.bytes = ((other.marshal trust).run store).1.bytes ∧
      written.failure = ((other.marshal trust).run store).1.failure ∧
      ∀ table, store.catalog.table message.type = .ok table →
        let output := outputAlone (first.nestedWriter trust) store table.isMessageSet
        (∃ ascending : List Attached, ascending.Perm first.attached ∧
          ascending.Pairwise (·.type.number < ·.type.number) ∧
          ∃ whole, whole = (Output.concat (ascending.map output)).andThen
              (first.outputBehind (first.nestedWriter trust) store table) ∧
            written.bytes = whole.bytes ∧ written.failure = whole.failure.map .encode) ∧
        (∀ entry ∈ first.attached, ¬ entry.Matches table.isMessageSet →
          (output entry).failed = true) ∧
        ∀ entry ∈ first.attached, (output entry).failed = true →
          (∀ smaller ∈ first.attached, smaller.type.number < entry.type.number →
            (output smaller).failed = false) →
          ∃ error, (output entry).failure = some error ∧
            error.path.head? = some (.field entry.type.number) ∧
            written.failure = some (.encode error) := by
  have sound := reachable.sound
  have apart := edited.distinct distinct
  have listed'' := listed'.trans (perm_attached_of_same apart (edited'.distinct distinct) same)
  -- the second message is the first one with its extensions in another order
  have second_eq : second.withAttached entries' = first.withAttached entries' := by
    rw [edited.eq_withAttached, edited'.eq_withAttached, withAttached_withAttached,
      withAttached_withAttached]
  have type : first.type = message.type := by
    rw [edited.eq_withAttached]
    rfl
  rw [← type] at held carries ⊢
  intro one other written
  have size := size_withAttached sound held carries listed trust
  have size' := size_withAttached sound held carries listed'' trust
  obtain ⟨bytes, failure⟩ := Prod.mk.inj
    (marshal_withAttached sound held carries apart listed trust)
  obtain ⟨bytes', failure'⟩ := Prod.mk.inj
    (marshal_withAttached sound held carries apart listed'' trust)
  rw [← second_eq] at size' bytes' failure'
  refine ⟨size.trans size'.symm, bytes.trans bytes'.symm, failure.trans failure'.symm, ?_⟩
  intro table found output
  have marshaled := run_marshal_alone sound held carries trust
  rw [found] at marshaled
  obtain ⟨whole_bytes, whole_failure⟩ := Prod.mk.inj marshaled
  refine ⟨⟨first.attachedByNumber, first.perm_attachedByNumber, ascending_attachedByNumber apart, _,
    rfl, bytes.trans whole_bytes, failure.trans whole_failure⟩, fun _ _ => failed_alone, ?_⟩
  intro entry mem failed before
  obtain ⟨error, eq⟩ := Option.isSome_iff_exists.1 failed
  obtain ⟨stopped, named⟩ := failure_concat_attachedByNumber apart mem failed before
  refine ⟨error, eq, head?_path_of_alone eq, failure.trans (whole_failure.trans ?_)⟩
  rw [outputInTurn, Output.andThen_of_failed stopped, named, eq]
  rfl

end MessageOf

/-! ## Nodes with several extensions -/

/-- A store after another extension was registered in its first registry. -/
def Store.withExtension (store : Store) (type : ExtensionType) : Store :=
  let registry := store.registry ⟨0⟩
  store.update { registry with
    extensions := registry.extensions ++ [type],
    extensionNames := registry.extensionNames ++ [type] }

/-- An extension of nodes. -/
def scoreType : ExtensionType := ⟨⟨"a.score", "a.Node", .plain "score" 102 .int32⟩, none⟩

/-- Another one. -/
def gradeType : ExtensionType := ⟨⟨"a.grade", "a.Node", .plain "grade" 103 .int32⟩, none⟩

/-- A third one, whose values are nodes. -/
def linkType : ExtensionType :=
  ⟨⟨"a.link", "a.Node",
    { FieldDescriptor.plain "link" 104 .message with messageType := some "a.Node" }⟩, some nodeType⟩

/-- The store of nodes, labels and scores. -/
def scoredStore : Store :=
  nodeStore.withExtension scoreType

theorem reachable_scoredStore : scoredStore.Reachable := by
  have registered : (nodeStore.registry ⟨0⟩).registerExtension scoreType.descriptor =
      .ok (scoreType, scoredStore.registry ⟨0⟩) := rfl
  exact .registerExtension reachable_nodeStore registered

namespace MessageOf

/-- A node with a number for a label and a text for a score. -/
def labelledFirst : Message :=
  (nodeType.newMessage.attach ⟨labelType, .int32 1⟩).attach ⟨scoreType, .string "x"⟩

/-- The same made in another way: the score was set first, and the label was another one, which was
taken away. -/
def scoredFirst : Message :=
  (((nodeType.newMessage.attach ⟨scoreType, .string "x"⟩).attach
    ⟨labelType, .string "y"⟩).withoutExtension 100).attach ⟨labelType, .int32 1⟩

theorem edited_labelledFirst : nodeType.newMessage.Edited labelledFirst := by
  have label : nodeType.newMessage.setExtension labelType (.int32 1) =
      .ok (nodeType.newMessage.attach ⟨labelType, .int32 1⟩) := rfl
  have score : (nodeType.newMessage.attach ⟨labelType, .int32 1⟩).setExtension scoreType
      (.string "x") = .ok labelledFirst := rfl
  exact .set (.set .refl label) score

theorem edited_scoredFirst : nodeType.newMessage.Edited scoredFirst := by
  have score : nodeType.newMessage.setExtension scoreType (.string "x") =
      .ok (nodeType.newMessage.attach ⟨scoreType, .string "x"⟩) := rfl
  have label : (nodeType.newMessage.attach ⟨scoreType, .string "x"⟩).setExtension labelType
      (.string "y") = .ok ((nodeType.newMessage.attach ⟨scoreType, .string "x"⟩).attach
        ⟨labelType, .string "y"⟩) := rfl
  have label' : (((nodeType.newMessage.attach ⟨scoreType, .string "x"⟩).attach
      ⟨labelType, .string "y"⟩).withoutExtension 100).setExtension labelType (.int32 1) =
        .ok scoredFirst := rfl
  exact .set (.clear 100 (.set (.set .refl score) label)) label'

theorem extension?_labelledFirst (number : Nat) :
    labelledFirst.extension? number = scoredFirst.extension? number := by
  refine Option.ext fun entry => ?_
  rw [extension?_eq_some_iff _ (edited_labelledFirst.distinct List.nodup_nil),
    extension?_eq_some_iff _ (edited_scoredFirst.distinct List.nodup_nil)]
  exact and_congr_left' (List.Perm.swap _ _ _).mem_iff

theorem carries_labelledFirst : labelledFirst.Carries (scoredStore.Native ⟨0⟩) := by
  have label : scoredStore.Native ⟨0⟩ labelType := ⟨List.mem_cons_self, rfl⟩
  have score : scoredStore.Native ⟨0⟩ scoreType := ⟨List.mem_cons_of_mem _ List.mem_cons_self, rfl⟩
  have new : nodeType.newMessage.Carries (scoredStore.Native ⟨0⟩) :=
    carries_iff_bears.2 (bears_newMessage nodeType)
  exact (new.attach label rfl).attach score rfl

/-- The error names the label of both nodes. -/
theorem coding_of_sameExtensions_node :
    labelledFirst.attached = [⟨labelType, .int32 1⟩, ⟨scoreType, .string "x"⟩] ∧
      scoredFirst.attached = [⟨scoreType, .string "x"⟩, ⟨labelType, .int32 1⟩] ∧
      ((labelledFirst.size false).run scoredStore).1.2 =
        ((scoredFirst.size false).run scoredStore).1.2 ∧
      ((labelledFirst.marshal false).run scoredStore).1.failure =
        ((scoredFirst.marshal false).run scoredStore).1.failure ∧
      ∃ error, ((labelledFirst.marshal false).run scoredStore).1.failure = some (.encode error) ∧
        error.path.head? = some (.field 100) := by
  have held : scoredStore.Holds nodeType := List.mem_singleton_self nodeType
  have distinct : (nodeType.newMessage.attached.map (·.type.number)).Nodup := List.nodup_nil
  obtain ⟨size, -, failure, inside⟩ := coding_of_sameExtensions reachable_scoredStore held
    distinct edited_labelledFirst edited_scoredFirst extension?_labelledFirst
    carries_labelledFirst (.refl _) (.refl _) false
  obtain ⟨-, differs, named⟩ := inside _ rfl
  have mem : (⟨labelType, .int32 1⟩ : Attached) ∈ labelledFirst.attached := List.mem_cons_self
  have failed := differs _ mem Bool.false_ne_true
  have least : ∀ smaller ∈ labelledFirst.attached, ¬ smaller.type.number < 100 := by
    have listed : labelledFirst.attached = [⟨labelType, .int32 1⟩, ⟨scoreType, .string "x"⟩] := rfl
    rw [listed]
    simp [ExtensionType.number, labelType, scoreType, FieldDescriptor.plain]
  obtain ⟨error, -, path, eq⟩ := named _ mem failed fun smaller mem' less =>
    absurd less (least smaller mem')
  exact ⟨rfl, rfl, size, failure, error, eq, path⟩

/-! ### Codecs of another registry -/

/-- The store in which nodes keep the codec of another registry's extension for the label, and in
which scores and grades are registered, too. -/
def mixedScores : Store :=
  (mixedStore.withExtension scoreType).withExtension gradeType

theorem reachable_mixedScores : mixedScores.Reachable := by
  have score : (mixedStore.registry ⟨0⟩).registerExtension scoreType.descriptor =
      .ok (scoreType, (mixedStore.withExtension scoreType).registry ⟨0⟩) := rfl
  have grade : ((mixedStore.withExtension scoreType).registry ⟨0⟩).registerExtension
      gradeType.descriptor = .ok (gradeType, mixedScores.registry ⟨0⟩) := rfl
  exact .registerExtension (.registerExtension reachable_mixedStore score) grade

/-- A node with a label, and with texts for its score and its grade. -/
def gradedNode : Message :=
  ((nodeType.newMessage.attach ⟨labelType, .string "x"⟩).attach ⟨scoreType, .string "y"⟩).attach
    ⟨gradeType, .string "z"⟩

/-- The error names the label, which matches, and not the score, which is the first that does
not. -/
theorem marshal_gradedNode :
    mixedScores.Reachable ∧ gradedNode.Carries (mixedScores.Declares ⟨0⟩) ∧
      gradedNode.attached.map (·.type.number) = [100, 102, 103] ∧
      (∀ entry ∈ gradedNode.attached, entry.Matches false ↔ entry.type.number = 100) ∧
      ((gradedNode.marshal false).run mixedScores).1.failure =
        some (.encode ⟨.wrongVariant .int32, [.field 100]⟩) := by
  have label : mixedScores.Declares ⟨0⟩ labelType := List.mem_cons_self
  have score : mixedScores.Declares ⟨0⟩ scoreType := List.mem_cons_of_mem _ List.mem_cons_self
  have grade : mixedScores.Declares ⟨0⟩ gradeType :=
    List.mem_cons_of_mem _ (List.mem_cons_of_mem _ List.mem_cons_self)
  have new : nodeType.newMessage.Carries (mixedScores.Declares ⟨0⟩) :=
    carries_iff_bears.2 (bears_newMessage nodeType)
  have carries : gradedNode.Carries (mixedScores.Declares ⟨0⟩) :=
    ((new.attach label rfl).attach score rfl).attach grade rfl
  have listed : gradedNode.attached =
      [⟨labelType, .string "x"⟩, ⟨scoreType, .string "y"⟩, ⟨gradeType, .string "z"⟩] := rfl
  refine ⟨reachable_mixedScores, carries, rfl, ?_, by decide⟩
  rw [listed]
  simp only [List.forall_mem_cons]
  refine ⟨iff_of_true rfl rfl, iff_of_false Bool.false_ne_true (by decide),
    iff_of_false Bool.false_ne_true (by decide), by simp⟩

/-- The store of nodes beside another registry, with links registered. -/
def linkedStore : Store :=
  pairStore.withExtension linkType

theorem reachable_linkedStore : linkedStore.Reachable := by
  have registered : ((nodeStore.add fun registry => registry).2.registry ⟨1⟩).registerExtension
      numberType.descriptor = .ok (numberType, pairStore.registry ⟨1⟩) := rfl
  have linked : (pairStore.registry ⟨0⟩).registerExtension linkType.descriptor =
      .ok (linkType, linkedStore.registry ⟨0⟩) := rfl
  exact .registerExtension (.registerExtension (.add reachable_nodeStore) registered) linked

/-- A node with a label, and with a link to a node with the other registry's extension. -/
def linkedNode : Message :=
  (nodeType.newMessage.attach ⟨labelType, .string "xy"⟩).attach
    ⟨linkType, .message (nodeType.newMessage.attach ⟨numberType, .int32 5⟩)⟩

/-- The extensions of the node are those of its registry, but its size depends on their order: the
first of them that is sized decides which codec is kept. -/
theorem size_linkedNode :
    linkedStore.Reachable ∧
      (∀ entry ∈ linkedNode.attached, linkedStore.Declares ⟨0⟩ entry.type) ∧
      ((linkedNode.size false).run linkedStore).1.2 = .ok 8 ∧
      (((linkedNode.withAttached linkedNode.attached.reverse).size false).run linkedStore).1.2 =
        .ok 6 := by
  refine ⟨reachable_linkedStore, ?_, by decide, by decide⟩
  have listed : linkedNode.attached = [⟨labelType, .string "xy"⟩,
      ⟨linkType, .message (nodeType.newMessage.attach ⟨numberType, .int32 5⟩)⟩] := rfl
  rw [listed, List.forall_mem_cons, List.forall_mem_singleton]
  exact ⟨List.mem_cons_self, List.mem_cons_of_mem _ List.mem_cons_self⟩

end MessageOf

end ProtoWire
