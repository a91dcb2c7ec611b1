import ProtoWire.Proofs.Message.Forms
import ProtoWire.Proofs.Message.Matching

/-!
# What stops the writing of a value

A value is written whole, or the writing stops at a culprit inside it: a value that does not match
its declaration, or a message that cannot be written itself. The way to the culprit is a path, and
what was written in front of it stays (`Output.Ends`). Outputs that are put together end where the
first of them does (`Output.ends_concat_map`), so that a list stops at its first culprit
(`FieldCodec.Stops`, `FieldCodec.ends_render`).
-/

set_option autoImplicit false

namespace ProtoWire

/-! ## Culprits -/

/-- What may stop the writing of a message: a value by itself, or a message inside. -/
inductive Culprit where
  | value (fault : ValueFault)
  | message (inner : Message)

/-- What is written of it. -/
def Culprit.output (catalog : Catalog) : Culprit → Output
  | .value fault => .failHere fault
  | .message inner => inner.render catalog

namespace Output

/-- The same output seen from further out, behind what was written before it. -/
def behind (steps : Path) (before : Bytes) (output : Output) : Output :=
  ⟨before ++ output.bytes,
    output.failure.map fun error => { error with path := steps ++ error.path }⟩

/-- Everything was written, or the writing stopped at a culprit, given what holds if everything was
written, and the paths to culprits with what is written in front of them. -/
def Ends (catalog : Catalog) (whole : Prop) (stops : Path → Bytes → Culprit → Prop)
    (output : Output) : Prop :=
  (output.failed = false ∧ whole) ∨
    ∃ steps before culprit, stops steps before culprit ∧ (culprit.output catalog).failed = true ∧
      output = (culprit.output catalog).behind steps before

section

variable {catalog : Catalog} {whole whole' : Prop} {stops stops' : Path → Bytes → Culprit → Prop}
  {output rest : Output}

theorem Ends.mono (h : output.Ends catalog whole stops) (imp : whole → whole')
    (imp' : ∀ steps before culprit, stops steps before culprit → stops' steps before culprit) :
    output.Ends catalog whole' stops' := by
  rcases h with ⟨written, holds⟩ | ⟨steps, before, culprit, here, failed, eq⟩
  · exact .inl ⟨written, imp holds⟩
  · exact .inr ⟨steps, before, culprit, imp' _ _ _ here, failed, eq⟩

theorem ends_ofBytes (bytes : Bytes) (holds : whole) : (ofBytes bytes).Ends catalog whole stops :=
  .inl ⟨rfl, holds⟩

/-- An output that failed at the value itself has stopped there. -/
theorem ends_failHere {fault : ValueFault} (here : stops [] [] (.value fault)) :
    (failHere fault).Ends catalog whole stops :=
  .inr ⟨[], [], .value fault, here, rfl, rfl⟩

/-- Behind a step, the way to what stopped it starts with the step. -/
theorem Ends.under (h : output.Ends catalog whole stops) (step : PathStep) :
    (output.under step).Ends catalog whole fun steps before culprit =>
      ∃ inside, steps = step :: inside ∧ stops inside before culprit := by
  rcases h with ⟨written, holds⟩ | ⟨steps, before, culprit, here, failed, rfl⟩
  · refine .inl ⟨?_, holds⟩
    simpa [failed, Output.under] using written
  · refine .inr ⟨_, _, culprit, ⟨steps, rfl, here⟩, failed, ?_⟩
    cases failure : (culprit.output catalog).failure <;>
      simp [Output.under, behind, failure, Unencodable.under]

/-- One output after another ends where the first does that stops. -/
theorem Ends.andThen (h : output.Ends catalog whole stops) (h' : rest.Ends catalog whole' stops') :
    (output.andThen rest).Ends catalog (whole ∧ whole') fun steps before culprit =>
      stops steps before culprit ∨
        ∃ written behind, output.toPiece = .ok written ∧ before = written ++ behind ∧
          stops' steps behind culprit := by
  rcases h with ⟨written, holds⟩ | ⟨steps, before, culprit, here, failed, rfl⟩
  · have first := eq_ofBytes_of_toPiece (toPiece_of_not_failed written)
    rcases h' with ⟨written', holds'⟩ | ⟨steps, before, culprit, here, failed, rfl⟩
    · refine .inl ⟨?_, holds, holds'⟩
      rw [first]
      exact written'
    · refine .inr ⟨steps, output.bytes ++ before, culprit,
        .inr ⟨_, _, toPiece_of_not_failed written, rfl, here⟩, failed, ?_⟩
      rw [first]
      simp [Output.andThen, ofBytes, Output.failed, behind]
  · refine .inr ⟨steps, before, culprit, .inl here, failed, andThen_of_failed ?_ _⟩
    simpa [Output.failed, behind] using failed

/-- Bytes behind an output do not matter to where it stops. -/
theorem Ends.andThen_ofBytes (h : output.Ends catalog whole stops) (bytes : Bytes) :
    (output.andThen (ofBytes bytes)).Ends catalog whole stops := by
  have last : (ofBytes bytes).Ends catalog True fun _ _ _ => False := ends_ofBytes bytes trivial
  refine (h.andThen last).mono And.left ?_
  rintro steps before culprit (here | ⟨-, -, -, -, nowhere⟩)
  · exact here
  · exact nowhere.elim

/-- A message behind some bytes ends where the message does. -/
theorem ends_framed (front : Bytes) (inner : Message) :
    ((ofBytes front).andThen (inner.render catalog)).Ends catalog
      ((inner.render catalog).failed = false) fun steps before culprit =>
        steps = [] ∧ before = front ∧ culprit = .message inner := by
  cases failed : (inner.render catalog).failed with
  | false => exact .inl ⟨failed, rfl⟩
  | true =>
      refine .inr ⟨[], front, .message inner, ⟨rfl, rfl, rfl⟩, failed, ?_⟩
      cases failure : (inner.render catalog).failure <;>
        simp [Culprit.output, Output.andThen, ofBytes, Output.failed, behind, failure]

/-- Things that are written one after another stop at one of them, behind the pieces of those in
front of it. -/
def StopsAmong {α : Type} (piece : α → Piece) (stops : α → Path → Bytes → Culprit → Prop)
    (items : List α) (steps : Path) (before : Bytes) (culprit : Culprit) : Prop :=
  ∃ front item back written behind, items = front ++ item :: back ∧
    Piece.join (front.map piece) = .ok written ∧ before = written ++ behind ∧
    stops item steps behind culprit

/-- Outputs one after another end where the first of them does that stops. -/
theorem ends_concat_map {α : Type} {write : α → Output} {piece : α → Piece} {whole : α → Prop}
    {stops : α → Path → Bytes → Culprit → Prop} {items : List α}
    (same : ∀ item ∈ items, (write item).toPiece = piece item)
    (each : ∀ item ∈ items, (write item).Ends catalog (whole item) (stops item)) :
    (concat (items.map write)).Ends catalog (∀ item ∈ items, whole item)
      (StopsAmong piece stops items) := by
  induction items with
  | nil => exact ends_ofBytes [] (by simp)
  | cons item items ih =>
      have rest := ih (fun other mem => same other (List.mem_cons_of_mem _ mem))
        fun other mem => each other (List.mem_cons_of_mem _ mem)
      refine ((each item List.mem_cons_self).andThen rest).mono ?_ ?_
      · rintro ⟨first, others⟩
        exact List.forall_mem_cons.2 ⟨first, others⟩
      · rintro steps before culprit (here | ⟨first, behind, eq, rfl, later⟩)
        · exact ⟨[], item, items, [], before, rfl, rfl, rfl, here⟩
        · obtain ⟨front, other, back, written, behind, rfl, joined, rfl, there⟩ := later
          rw [same item List.mem_cons_self] at eq
          have joined' := Piece.join_cons_eq_ok_iff.2 ⟨first, written, eq, joined, rfl⟩
          exact ⟨item :: front, other, back, _, behind, rfl, joined',
            (List.append_assoc _ _ _).symm, there⟩

end

end Output

/-! ## Single values -/

/-- All messages in the value are written whole. -/
def Value.Written (catalog : Catalog) (value : Value) : Prop :=
  ∀ inner ∈ value.messages, (inner.render catalog).failed = false

namespace FieldCodec

/-- What stands in front of a nested message of the given size. -/
def head (codec : FieldCodec) (size : Nat) : Bytes :=
  if codec.kind = .group then codec.tag else codec.tag ++ Varint.write size

/-- What may stop the writing of one value, and what is written in front of it: the head of a
message that is the culprit itself, and nothing in front of any other culprit. -/
inductive StopsOne (catalog : Catalog) (codec : FieldCodec) : Value → Bytes → Culprit → Prop
  | variant {value : Value} : ¬ codec.MatchesOne value →
      (codec.kind.isMessage = true → ∀ inner, value ≠ .message inner) →
      StopsOne catalog codec value [] (.value (.wrongVariant codec.kind))
  | otherType {inner : Message} : codec.kind.isMessage = true →
      codec.valueType ≠ some inner.type →
      StopsOne catalog codec (.message inner) [] (.value .wrongMessageType)
  | inside {inner : Message} : codec.kind.isMessage = true → codec.valueType = some inner.type →
      StopsOne catalog codec (.message inner) (codec.head (inner.tally catalog)) (.message inner)

variable {catalog : Catalog} {codec : FieldCodec} {value : Value}

/-- A scalar matches if it has a payload of the kind. -/
theorem matchesOne_iff_payload (scalar : codec.kind.isMessage = false) :
    codec.MatchesOne value ↔ (codec.kind.payload? value).isSome = true := by
  cases value with
  | message inner =>
      have none : codec.kind.payload? (.message inner) = none := by
        cases codec.kind <;> rfl
      simp [MatchesOne, scalar, none]
  | _ => rfl

theorem not_matchesOne_of_nested (nested : codec.kind.isMessage = true)
    (other : ∀ inner, value ≠ .message inner) : ¬ codec.MatchesOne value := by
  have none : codec.kind.payload? value = none := by
    cases kind : codec.kind <;> simp [kind, Kind.isMessage] at nested <;> rfl
  cases value with
  | message inner => exact absurd rfl (other inner)
  | _ => simp [MatchesOne, none]

/-- A value that stops the writing by itself does not match. -/
theorem StopsOne.not_matchesOne {before : Bytes} {fault : ValueFault}
    (h : codec.StopsOne catalog value before (.value fault)) : ¬ codec.MatchesOne value := by
  cases h with
  | variant differs _ => exact differs
  | otherType _ other => exact fun matching => other matching.2

/-- A message that stops the writing is in the value, and is of the declared type. -/
theorem StopsOne.of_message {before : Bytes} {inner : Message}
    (h : codec.StopsOne catalog value before (.message inner)) :
    inner ∈ value.messages ∧ codec.valueType = some inner.type := by
  cases h with
  | inside _ declared => exact ⟨by simp, declared⟩

/-- One value ends here, or at a message that it is. -/
def EndsOne (catalog : Catalog) (codec : FieldCodec) (value : Value) (output : Output) : Prop :=
  output.Ends catalog (codec.MatchesOne value ∧ value.Written catalog) fun steps before culprit =>
    steps = [] ∧ codec.StopsOne catalog value before culprit

theorem whole_of_payload? (scalar : codec.kind.isMessage = false)
    (h : (codec.kind.payload? value).isSome = true) :
    codec.MatchesOne value ∧ value.Written catalog := by
  refine ⟨(matchesOne_iff_payload scalar).2 h, ?_⟩
  simp [Value.Written, plain_of_payload? h]

/-- A record of a scalar is written whole if the scalar matches, and stops at it otherwise. -/
theorem endsOne_writeRecord (scalar : codec.kind.isMessage = false) :
    codec.EndsOne catalog value (codec.writeRecord value) := by
  rw [writeRecord]
  cases found : codec.kind.payload? value with
  | none =>
      refine Output.ends_failHere ⟨rfl, .variant ?_ (by simp [scalar])⟩
      simp [matchesOne_iff_payload scalar, found]
  | some payload =>
      exact Output.ends_ofBytes _ (whole_of_payload? scalar (by simp [found]))

/-- A message in a field stops the output if it is of another type, or if it cannot be written
itself. -/
theorem endsOne_renderNested (nested : codec.kind.isMessage = true) :
    codec.EndsOne catalog value (codec.renderNested (MessageOf.render catalog) catalog value) := by
  cases value with
  | message inner =>
      simp only [renderNested]
      by_cases declared : codec.valueType = some inner.type
      · rw [if_neg (not_not_intro declared)]
        have holds : (inner.render catalog).failed = false →
            codec.MatchesOne (.message inner) ∧ (Value.message inner).Written catalog :=
          fun written => ⟨⟨nested, declared⟩, by simpa [Value.Written] using written⟩
        have stops : codec.StopsOne catalog (.message inner) (codec.head (inner.tally catalog))
          (.message inner) := .inside nested declared
        rw [head] at stops
        split
        · next group =>
            rw [if_pos group] at stops
            refine ((Output.ends_framed _ inner).andThen_ofBytes _).mono holds ?_
            rintro steps before culprit ⟨rfl, rfl, rfl⟩
            exact ⟨rfl, stops⟩
        · next other =>
            rw [if_neg other] at stops
            refine (Output.ends_framed _ inner).mono holds ?_
            rintro steps before culprit ⟨rfl, rfl, rfl⟩
            exact ⟨rfl, stops⟩
      · rw [if_pos declared]
        exact Output.ends_failHere ⟨rfl, .otherType nested declared⟩
  | _ =>
      refine Output.ends_failHere ⟨rfl, ?_⟩
      exact .variant (not_matchesOne_of_nested nested (by simp)) (by simp)

/-! ## Fields -/

/-- The wire form of one value of a list. -/
def wireOne (form : Message → Piece) (codec : FieldCodec) (value : Value) : Piece :=
  if codec.kind.isMessage then codec.wireNested form value else (codec.writeRecord value).toPiece

/-- What may stop the writing of a field's value, the path there, and what is written in front of
it. Of a packed list nothing is written unless all of it can be. -/
inductive Stops (catalog : Catalog) (codec : FieldCodec) : Value → Path → Bytes → Culprit → Prop
  | single {value : Value} {before : Bytes} {culprit : Culprit} :
      codec.arrangement.isRepeated = false → codec.StopsOne catalog value before culprit →
      Stops catalog codec value [] before culprit
  | notAList {value : Value} : codec.arrangement.isRepeated = true →
      (∀ items, value ≠ .list items) → Stops catalog codec value [] [] (.value .notAList)
  | packed {front back : List Value} {item : Value} : codec.arrangement = .packed →
      (∀ other ∈ front, codec.MatchesOne other) → ¬ codec.MatchesOne item →
      Stops catalog codec (.list (front ++ item :: back)) [.index front.length] []
        (.value (.wrongVariant codec.kind))
  | expanded {front back : List Value} {item : Value} {written before : Bytes}
      {culprit : Culprit} : codec.arrangement = .expanded →
      Piece.join (front.map (codec.wireOne (MessageOf.wireForm catalog))) = .ok written →
      codec.StopsOne catalog item before culprit →
      Stops catalog codec (.list (front ++ item :: back)) [.index front.length] (written ++ before)
        culprit

/-- A value that stops the writing by itself makes the field's value no match. -/
theorem Stops.not_matches {steps : Path} {before : Bytes} {fault : ValueFault}
    (h : codec.Stops catalog value steps before (.value fault)) : ¬ codec.Matches value := by
  intro matching
  cases h with
  | single single stops =>
      exact stops.not_matchesOne ((matches_iff_matchesOne single).1 matching)
  | notAList repeated other =>
      obtain ⟨items, eq, -⟩ := (matches_iff_items repeated).1 matching
      exact other items eq
  | packed packed _ differs =>
      have repeated : codec.arrangement.isRepeated = true := by rw [packed]; rfl
      obtain ⟨items, ⟨⟩, all⟩ := (matches_iff_items repeated).1 matching
      exact differs (all _ (List.mem_append_right _ List.mem_cons_self))
  | expanded expanded _ stops =>
      have repeated : codec.arrangement.isRepeated = true := by rw [expanded]; rfl
      obtain ⟨items, ⟨⟩, all⟩ := (matches_iff_items repeated).1 matching
      exact stops.not_matchesOne (all _ (List.mem_append_right _ List.mem_cons_self))

/-- A message that stops a value is one in it, of the declared type. -/
theorem Stops.of_message {steps : Path} {before : Bytes} {inner : Message}
    (h : codec.Stops catalog value steps before (.message inner)) :
    inner ∈ value.messages ∧ codec.valueType = some inner.type := by
  cases h with
  | single _ stops => exact stops.of_message
  | expanded _ _ stops =>
      obtain ⟨inside, declared⟩ := stops.of_message
      refine ⟨Value.mem_messages_of_mem_items ?_ inside, declared⟩
      exact List.mem_append_right _ List.mem_cons_self

/-- The output for one value of a list. -/
def renderOne (catalog : Catalog) (codec : FieldCodec) (value : Value) : Output :=
  if codec.kind.isMessage then codec.renderNested (MessageOf.render catalog) catalog value
  else codec.writeRecord value

theorem toPiece_renderOne (agrees : ∀ inner ∈ value.messages, inner.Agrees catalog) :
    (codec.renderOne catalog value).toPiece = codec.wireOne (MessageOf.wireForm catalog) value := by
  rw [renderOne, wireOne]
  split
  · exact toPiece_renderNested agrees
  · rfl

/-- Scalars and messages alike: one value is written whole, or stops the output. -/
theorem endsOne_renderOne (catalog : Catalog) (codec : FieldCodec) (value : Value) :
    codec.EndsOne catalog value (codec.renderOne catalog value) := by
  rw [renderOne]
  split
  · next nested => exact endsOne_renderNested nested
  · next scalar => exact endsOne_writeRecord (by simpa using scalar)

theorem endsOne_render (single : codec.arrangement.isRepeated = false) :
    codec.EndsOne catalog value (codec.render (MessageOf.render catalog) catalog value) := by
  cases nested : codec.kind.isMessage with
  | true =>
      simp only [render, nested, single, Bool.not_true, Bool.false_eq_true, if_false]
      exact endsOne_renderNested nested
  | false =>
      have record : codec.EndsOne catalog value (codec.writeRecord value) :=
        endsOne_writeRecord nested
      simp only [render, nested, Bool.not_false, if_true, writeScalar]
      cases arrangement : codec.arrangement with
      | packed | expanded => simp [arrangement, Arrangement.isRepeated] at single
      | explicit => exact record
      | implicit =>
          rw [writeRecord] at record
          cases found : codec.kind.payload? value with
          | none => simpa only [found] using record
          | some payload =>
              simp only [found] at record ⊢
              split
              -- nothing is written of a zero, which matches nevertheless
              · exact Output.ends_ofBytes _ (whole_of_payload? nested (by simp [found]))
              · exact record

/-- Items in records of their own are outputs one after the other. -/
theorem writeRecords_eq_concat (position : Nat) (items : List Value) :
    codec.writeRecords position items =
      .concat ((items.zipIdx position).map fun item =>
        (codec.writeRecord item.1).under (.index item.2)) := by
  induction items generalizing position with
  | nil => rfl
  | cons item items ih => rw [writeRecords, ih, List.zipIdx_cons, List.map_cons, Output.concat]

theorem render_expanded (expanded : codec.arrangement = .expanded) (items : List Value) :
    codec.render (MessageOf.render catalog) catalog (.list items) =
      .concat (items.zipIdx.map fun item =>
        (codec.renderOne catalog item.1).under (.index item.2)) := by
  have repeated : codec.arrangement.isRepeated = true := by rw [expanded]; rfl
  cases nested : codec.kind.isMessage with
  | true => simp [render, renderEach, renderOne, nested, repeated]
  | false => simp [render, writeScalar, writeRecords_eq_concat, renderOne, nested, expanded]

/-- A list matches, and is written whole, if each of its items is. -/
theorem whole_list (repeated : codec.arrangement.isRepeated = true) {items : List Value}
    (each : ∀ item ∈ items, codec.MatchesOne item ∧ item.Written catalog) :
    codec.Matches (.list items) ∧ (Value.list items).Written catalog := by
  refine ⟨(matches_iff_items repeated).2 ⟨items, rfl, fun item mem => (each item mem).1⟩, ?_⟩
  intro inner mem
  rw [Value.messages_list] at mem
  obtain ⟨item, listed, inside⟩ := List.mem_flatMap.1 mem
  exact (each item listed).2 inner inside

/-- A list ends where the first of its items does that stops. -/
theorem ends_render_expanded (expanded : codec.arrangement = .expanded) {items : List Value}
    (agrees : ∀ inner ∈ (Value.list items).messages, inner.Agrees catalog) :
    (codec.render (MessageOf.render catalog) catalog (.list items)).Ends catalog
      (codec.Matches (.list items) ∧ (Value.list items).Written catalog)
      (codec.Stops catalog (.list items)) := by
  have repeated : codec.arrangement.isRepeated = true := by rw [expanded]; rfl
  rw [render_expanded expanded]
  have pieces : ∀ item ∈ items.zipIdx,
      ((codec.renderOne catalog item.1).under (.index item.2)).toPiece =
        (codec.wireOne (MessageOf.wireForm catalog) item.1).under (.index item.2) := by
    intro item mem
    have listed : item.1 ∈ items := by
      rw [(List.mem_zipIdx mem).2.2]
      exact List.getElem_mem _
    rw [Output.toPiece_under, toPiece_renderOne fun inner h =>
      agrees inner (Value.mem_messages_of_mem_items listed h)]
  refine (Output.ends_concat_map pieces fun item _ =>
    (endsOne_renderOne catalog codec item.1).under (.index item.2)).mono ?_ ?_
  · intro all
    have each : ∀ item ∈ items, codec.MatchesOne item ∧ item.Written catalog := by
      intro item mem
      obtain ⟨position, found⟩ := List.mem_iff_getElem?.1 mem
      exact all (item, position) (List.mk_mem_zipIdx_iff_getElem?.2 found)
    exact whole_list repeated each
  · rintro steps before culprit
      ⟨front, ⟨item, position⟩, back, written, behind, split, joined, rfl, inside, rfl, rfl, stops⟩
    obtain ⟨left, right, rfl, rfl, later⟩ := List.zipIdx_eq_append_iff.1 split
    obtain ⟨_, others, rfl, ⟨⟩, -⟩ := List.zipIdx_eq_cons_iff.1 later.symm
    rw [Nat.zero_add]
    exact .expanded expanded (Piece.join_each_eq_ok_iff.1 joined) stops

theorem isSome_of_payloads_ok {position : Nat} {items : List Value} {payloads : List Payload}
    (h : codec.payloads position items = .ok payloads) :
    ∀ item ∈ items, (codec.kind.payload? item).isSome = true := by
  have all := payloads_eq_ok_iff.1 h
  clear h
  induction all with
  | nil => simp
  | cons first _ ih => exact List.forall_mem_cons.2 ⟨by simp [first], ih⟩

/-- The first value without a payload stops a list that is packed. -/
theorem exists_of_payloads_error {position : Nat} {items : List Value} {error : Unencodable}
    (h : codec.payloads position items = .error error) :
    ∃ front item back, items = front ++ item :: back ∧
      (∀ other ∈ front, (codec.kind.payload? other).isSome = true) ∧
      codec.kind.payload? item = none ∧
      error = ⟨.wrongVariant codec.kind, [.index (position + front.length)]⟩ := by
  induction items generalizing position with
  | nil => cases h
  | cons item items ih =>
      rw [payloads, payloadAt] at h
      cases found : codec.kind.payload? item with
      | none =>
          simp only [found] at h
          cases h
          exact ⟨[], item, items, rfl, by simp, found, rfl⟩
      | some payload =>
          simp only [found] at h
          cases rest : codec.payloads (position + 1) items with
          | ok payloads => simp [rest] at h
          | error error' =>
              rw [rest] at h
              cases h
              obtain ⟨front, other, back, rfl, all, none, rfl⟩ := ih rest
              refine ⟨item :: front, other, back, rfl, ?_, none, ?_⟩
              · exact List.forall_mem_cons.2 ⟨by simp [found], all⟩
              · rw [List.length_cons, Nat.add_assoc, Nat.add_comm 1]

/-- A packed list is written only if all of its items have payloads. -/
theorem ends_render_packed (packed : codec.arrangement = .packed)
    (scalar : codec.kind.isMessage = false) {items : List Value} :
    (codec.render (MessageOf.render catalog) catalog (.list items)).Ends catalog
      (codec.Matches (.list items) ∧ (Value.list items).Written catalog)
      (codec.Stops catalog (.list items)) := by
  have repeated : codec.arrangement.isRepeated = true := by rw [packed]; rfl
  have whole : (∀ item ∈ items, (codec.kind.payload? item).isSome = true) →
      codec.Matches (.list items) ∧ (Value.list items).Written catalog := by
    intro all
    exact whole_list repeated fun item mem => whole_of_payload? scalar (all item mem)
  simp only [render, scalar, Bool.not_false, if_true, writeScalar, packed, writePacked]
  cases items with
  | nil => exact Output.ends_ofBytes _ (whole (by simp))
  | cons first items =>
      simp only [List.isEmpty_cons, Bool.false_eq_true, if_false]
      cases found : codec.payloads 0 (first :: items) with
      | ok payloads =>
          exact Output.ends_ofBytes _ (whole (isSome_of_payloads_ok found))
      | error error =>
          obtain ⟨front, item, back, split, all, none, rfl⟩ := exists_of_payloads_error found
          rw [split]
          refine .inr ⟨[.index front.length], [], .value (.wrongVariant codec.kind), ?_, rfl, ?_⟩
          · have differs : ¬ codec.MatchesOne item := by
              simp [matchesOne_iff_payload scalar, none]
            exact .packed packed
              (fun other mem => (matchesOne_iff_payload scalar).2 (all other mem)) differs
          · simp [Culprit.output, Output.fail, Output.failHere, Output.behind, Unencodable.here]

/-- What is no list is refused where a list belongs. -/
theorem render_not_list (repeated : codec.arrangement.isRepeated = true)
    (other : ∀ items, value ≠ .list items) :
    codec.render (MessageOf.render catalog) catalog value = .failHere .notAList := by
  cases value with
  | list items => exact absurd rfl (other items)
  | _ =>
      cases nested : codec.kind.isMessage with
      | true => simp [render, nested, repeated]
      | false =>
          cases arrangement : codec.arrangement with
          | implicit | explicit => simp [arrangement, Arrangement.isRepeated] at repeated
          | packed | expanded => simp [render, nested, writeScalar, arrangement]

/-- A field is written whole if its value matches and the messages in it are written whole, and
otherwise stops at the first culprit. -/
theorem ends_render (legal : codec.Legal)
    (agrees : ∀ inner ∈ value.messages, inner.Agrees catalog) :
    (codec.render (MessageOf.render catalog) catalog value).Ends catalog
      (codec.Matches value ∧ value.Written catalog) (codec.Stops catalog value) := by
  cases repeated : codec.arrangement.isRepeated with
  | false =>
      refine (endsOne_render repeated).mono ?_ ?_
      · rintro ⟨matching, written⟩
        exact ⟨(matches_iff_matchesOne repeated).2 matching, written⟩
      · rintro steps before culprit ⟨rfl, stops⟩
        exact .single repeated stops
  | true =>
      cases value with
      | list items =>
          cases arrangement : codec.arrangement with
          | implicit | explicit => simp [arrangement, Arrangement.isRepeated] at repeated
          | expanded => exact ends_render_expanded arrangement agrees
          | packed =>
              -- messages are not packed
              have packable := legal.packable arrangement
              have scalar : codec.kind.isMessage = false := by
                cases kind : codec.kind <;> simp [kind, Kind.isPackable] at packable <;> rfl
              exact ends_render_packed arrangement scalar
      | _ =>
          rw [render_not_list repeated (by simp)]
          exact Output.ends_failHere (.notAList repeated (by simp))

end FieldCodec

end ProtoWire
