import ProtoWire.Proofs.Wire.Grammar

/-!
# How deeply groups nest

Without a schema, the groups that are open at a place of the input can be counted: each start tag
opens one and each end tag closes one, while payloads are passed over whatever they hold. The
largest number of groups that are open at a time is the `deepest` of the bytes. For a record, it is
the least number of levels with which the grammar admits it (`IsRecord.level`,
`IsRecord.of_deepest`), and in a sequence of records it is reached in one of them
(`exists_lt_deepest`).
-/

set_option autoImplicit false

namespace ProtoWire

/-! ## Tags -/

/-- What follows a payload, and the same bytes after the tag of a group. -/
def pastPayload (wire : WireType) (bytes : Bytes) : Bytes :=
  match wire with
  | .startGroup | .endGroup => bytes
  | _ =>
      match Payload.read wire bytes with
      | .error _ => []
      | .ok (_, rest) => rest

/-- The wire types of the tags, in order. No more tags are read than `limit`. -/
def readTags : Nat → Bytes → List WireType
  | 0, _ => []
  | limit + 1, bytes =>
      match Tag.read bytes with
      | .error _ => []
      | .ok (_, wire, rest) => wire :: readTags limit (pastPayload wire rest)

/-- The wire types of all tags of the bytes. -/
def tags (bytes : Bytes) : List WireType :=
  readTags bytes.length bytes

/-- The largest number of groups that are open at a time, if some are open before the first tag. -/
def peak : Nat → List WireType → Nat
  | opened, [] => opened
  | opened, .startGroup :: tags => peak (opened + 1) tags
  | opened, .endGroup :: tags => max opened (peak (opened - 1) tags)
  | opened, _ :: tags => peak opened tags

/-- The largest number of groups that are open at a time in the bytes. -/
def deepest (bytes : Bytes) : Nat :=
  peak 0 (tags bytes)

variable {closes : Nat → Nat → Prop} {depth number : Nat} {wire : WireType}
  {record bytes rest : Bytes}

theorem length_pastPayload_le (wire : WireType) (bytes : Bytes) :
    (pastPayload wire bytes).length ≤ bytes.length := by
  have payload : (match Payload.read wire bytes with
      | .error _ => []
      | .ok (_, rest) => rest).length ≤ bytes.length := by
    split
    · exact Nat.zero_le _
    · next taken =>
        obtain ⟨front, -, rfl, -⟩ := Payload.append_of_read taken
        simp
  cases wire with
  | startGroup => exact Nat.le_refl _
  | endGroup => exact Nat.le_refl _
  | _ => exact payload

/-- Reading tags does not depend on the limit, as long as it is as large as the bytes. -/
theorem readTags_of_le {limit : Nat} (enough : bytes.length ≤ limit) :
    readTags limit bytes = tags bytes := by
  -- by induction on the limit, for two limits at a time
  have key : ∀ limit limit' (bytes : Bytes), bytes.length ≤ limit → bytes.length ≤ limit' →
      readTags limit bytes = readTags limit' bytes := by
    intro limit
    induction limit with
    | zero =>
        intro limit' bytes short _
        obtain rfl : bytes = [] := List.eq_nil_of_length_eq_zero (by omega)
        cases limit' <;> rfl
    | succ limit ih =>
        intro limit' bytes enough enough'
        cases limit' with
        | zero =>
            obtain rfl : bytes = [] := List.eq_nil_of_length_eq_zero (by omega)
            rfl
        | succ limit' =>
            rw [readTags, readTags]
            cases tag : Tag.read bytes with
            | error fault => rfl
            | ok taken =>
                obtain ⟨number, wire, rest⟩ := taken
                obtain ⟨head, nonempty, rfl, -⟩ := Tag.append_of_read tag
                have long := List.length_pos_iff.2 nonempty
                have shorter := length_pastPayload_le wire rest
                rw [List.length_append] at enough enough'
                simp only
                rw [ih limit' _ (by omega) (by omega)]
  exact key _ _ bytes enough (Nat.le_refl _)

theorem tags_eq_cons (tag : Tag.read bytes = .ok (number, wire, rest)) :
    tags bytes = wire :: tags (pastPayload wire rest) := by
  have nonempty := List.length_pos_iff.2 (Tag.ne_nil_of_read tag)
  obtain ⟨head, nonempty', rfl, -⟩ := Tag.append_of_read tag
  have long := List.length_pos_iff.2 nonempty'
  have shorter := length_pastPayload_le wire rest
  obtain ⟨fewer, length⟩ : ∃ fewer, (head ++ rest).length = fewer + 1 :=
    ⟨(head ++ rest).length - 1, by omega⟩
  rw [List.length_append] at length
  rw [tags, List.length_append, length, readTags, tag]
  simp only
  rw [readTags_of_le (by omega)]

/-! ## Balanced tags -/

theorem le_peak (opened : Nat) (tags : List WireType) : opened ≤ peak opened tags := by
  induction tags generalizing opened with
  | nil => exact Nat.le_refl _
  | cons wire tags ih =>
      cases wire with
      | startGroup => exact Nat.le_of_succ_le (ih (opened + 1))
      | endGroup => exact Nat.le_max_left _ _
      | _ => exact ih opened

/-- The tags leave as many groups open as there were before them, so that what follows is counted
as if they were not there. -/
def Balanced (tags : List WireType) : Prop :=
  ∀ opened more, peak opened (tags ++ more) = max (opened + peak 0 tags) (peak opened more)

theorem balanced_nil : Balanced [] := by
  intro opened more
  rw [List.nil_append, peak, Nat.add_zero, Nat.max_eq_right (le_peak opened more)]

theorem Balanced.append {first second : List WireType} (h : Balanced first) (h' : Balanced second) :
    Balanced (first ++ second) := by
  intro opened more
  have sum := h 0 second
  rw [List.append_assoc, h, h', sum]
  omega

/-- A group of balanced tags opens one group more than they do. -/
theorem Balanced.group {tags : List WireType} (h : Balanced tags) :
    Balanced (.startGroup :: (tags ++ [.endGroup])) ∧
      peak 0 (.startGroup :: (tags ++ [.endGroup])) = peak 0 tags + 1 := by
  have inside : ∀ opened more, peak opened (.startGroup :: (tags ++ .endGroup :: more)) =
      max (opened + 1 + peak 0 tags) (peak opened more) := by
    intro opened more
    rw [peak, h, peak, Nat.add_sub_cancel]
    omega
  have alone : peak 0 (.startGroup :: (tags ++ [.endGroup])) = peak 0 tags + 1 := by
    rw [inside, peak]
    omega
  refine ⟨fun opened more => ?_, alone⟩
  rw [List.cons_append, List.append_assoc, List.singleton_append, inside, alone]
  omega

theorem balanced_single (start : wire ≠ .startGroup) (stop : wire ≠ .endGroup) :
    Balanced [wire] ∧ peak 0 [wire] = 0 := by
  have skip : ∀ opened more, peak opened (wire :: more) = peak opened more := by
    intro opened more
    cases wire <;> first | contradiction | rfl
  refine ⟨fun opened more => ?_, by rw [skip, peak]⟩
  have := le_peak opened more
  rw [List.singleton_append, skip, skip, peak]
  omega

/-! ## Tags of records -/

/-- The tags of the bytes stand before those of what follows, and as many groups are closed in the
bytes as are opened, at most `depth` of them at a time. -/
structure Level (depth : Nat) (bytes : Bytes) : Prop where
  tags_append : ∀ rest, tags (bytes ++ rest) = tags bytes ++ tags rest
  balanced : Balanced (tags bytes)
  le : deepest bytes ≤ depth

theorem Level.deepest_append (h : Level depth bytes) (rest : Bytes) :
    deepest (bytes ++ rest) = max (deepest bytes) (deepest rest) := by
  rw [deepest, h.tags_append, h.balanced, Nat.zero_add]
  rfl

theorem level_flatten {records : List Bytes} (all : ∀ record ∈ records, Level depth record) :
    Level depth records.flatten := by
  induction records with
  | nil => exact ⟨fun _ => rfl, balanced_nil, Nat.zero_le _⟩
  | cons record records ih =>
      have front := all record List.mem_cons_self
      have back := ih fun other mem => all other (List.mem_cons_of_mem _ mem)
      rw [List.flatten_cons]
      refine ⟨fun rest => ?_, ?_, ?_⟩
      · rw [List.append_assoc, front.tags_append, front.tags_append, back.tags_append,
          List.append_assoc]
      · rw [front.tags_append]
        exact front.balanced.append back.balanced
      · rw [front.deepest_append]
        exact Nat.max_le.2 ⟨front.le, back.le⟩

theorem pastPayload_of_read {payload : Payload}
    (h : Payload.read wire bytes = .ok (payload, rest)) :
    pastPayload wire bytes = rest := by
  obtain ⟨start, stop⟩ := Payload.ne_group_of_read h
  rw [pastPayload.eq_def, h]
  cases wire <;> first | contradiction | rfl

/-- The tags of a group are those of what is inside, between its own. -/
theorem Level.tags_group {start stop inside : Bytes} {ender : Nat} (h : Level depth inside)
    (first : Tag.read start = .ok (number, .startGroup, []))
    (last : Tag.read stop = .ok (ender, .endGroup, [])) (rest : Bytes) :
    tags (start ++ (inside ++ stop) ++ rest) =
      .startGroup :: (tags inside ++ .endGroup :: tags rest) := by
  rw [List.append_assoc, List.append_assoc, tags_eq_cons (Tag.read_append first _),
    List.nil_append, pastPayload, h.tags_append, tags_eq_cons (Tag.read_append last rest),
    List.nil_append, pastPayload]

theorem Level.deepest_group {start stop inside : Bytes} {ender : Nat} (h : Level depth inside)
    (first : Tag.read start = .ok (number, .startGroup, []))
    (last : Tag.read stop = .ok (ender, .endGroup, [])) :
    deepest (start ++ (inside ++ stop)) = deepest inside + 1 := by
  have group := h.tags_group first last []
  rw [List.append_nil] at group
  rw [deepest, group]
  exact h.balanced.group.2

/-- No more groups are open in a record than the grammar allows. -/
theorem IsRecord.level (h : IsRecord closes depth record) : Level depth record := by
  induction h with
  | @payload depth number wire tag body payload head value =>
      -- a payload has no tags inside
      have whole : ∀ rest, tags (tag ++ body ++ rest) = wire :: tags rest := by
        intro rest
        obtain ⟨front, -, same, reads⟩ := Payload.append_of_read value
        rw [List.append_nil] at same
        subst same
        rw [List.append_assoc, tags_eq_cons (Tag.read_append head (body ++ rest)), List.nil_append,
          pastPayload_of_read (reads rest)]
      have single : tags (tag ++ body) = [wire] := by
        have alone := whole []
        rwa [List.append_nil] at alone
      obtain ⟨start, stop⟩ := Payload.ne_group_of_read value
      obtain ⟨balanced, flat⟩ := balanced_single start stop
      refine ⟨fun rest => ?_, ?_, ?_⟩
      · rw [whole, single, List.singleton_append]
      · rw [single]
        exact balanced
      · rw [deepest, single, flat]
        exact Nat.zero_le _
  | @group depth number ender start stop records first _ last _ ih =>
      have inside := level_flatten ih
      have group := inside.tags_group first last
      have alone : tags (start ++ (records.flatten ++ stop)) =
          .startGroup :: (tags records.flatten ++ [.endGroup]) := by
        have whole := group []
        rwa [List.append_nil] at whole
      refine ⟨fun rest => ?_, ?_, ?_⟩
      · rw [group, alone, List.cons_append, List.append_assoc, List.singleton_append]
      · rw [alone]
        exact inside.balanced.group.1
      · rw [inside.deepest_group first last]
        exact Nat.succ_le_succ inside.le

/-- A record of a sequence nests no deeper than the sequence. -/
theorem deepest_le_flatten {records : List Bytes} (all : ∀ record ∈ records, Level depth record)
    {record : Bytes} (mem : record ∈ records) : deepest record ≤ deepest records.flatten := by
  induction records with
  | nil => simp at mem
  | cons first records ih =>
      rw [List.flatten_cons, (all first List.mem_cons_self).deepest_append]
      rcases List.mem_cons.1 mem with rfl | later
      · exact Nat.le_max_left _ _
      · exact Nat.le_trans (ih (fun other mem => all other (List.mem_cons_of_mem _ mem)) later)
          (Nat.le_max_right _ _)

/-- A record needs no more levels than groups are open in it. -/
theorem IsRecord.of_deepest (h : IsRecord closes depth record) :
    IsRecord closes (deepest record) record := by
  induction h with
  | payload tag body => exact .payload tag body
  | @group depth number ender start stop records first all last ends ih =>
      have level : ∀ record ∈ records, Level depth record :=
        fun record mem => (all record mem).level
      rw [(level_flatten level).deepest_group first last]
      refine .group first (fun record mem => ?_) last ends
      exact (ih record mem).mono (deepest_le_flatten level mem) fun _ _ => id

/-- Where groups nest more deeply than that in a sequence of records, they do so in one of them. -/
theorem exists_lt_deepest {records : List Bytes} (all : ∀ record ∈ records, Level depth record)
    {levels : Nat} (h : levels < deepest records.flatten) :
    ∃ front record back, records = front ++ record :: back ∧ levels < deepest record := by
  induction records with
  | nil => exact absurd h (Nat.not_lt_zero _)
  | cons record records ih =>
      rw [List.flatten_cons, (all record List.mem_cons_self).deepest_append] at h
      rcases Nat.lt_or_ge levels (deepest record) with here | shallow
      · exact ⟨[], record, records, rfl, here⟩
      · obtain ⟨front, other, back, rfl, there⟩ :=
          ih (fun other mem => all other (List.mem_cons_of_mem _ mem)) (by omega)
        exact ⟨record :: front, other, back, rfl, there⟩

end ProtoWire
