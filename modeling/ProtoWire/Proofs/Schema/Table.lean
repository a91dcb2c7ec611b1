import Mathlib.Data.List.Nodup
import ProtoWire.Proofs.Order
import ProtoWire.Proofs.Registry.Exploration

/-!
# Built tables

The table that a registry builds for a type has one entry for each declared field
(`Builds.exists_entry`, `Builds.field_of_mem`), ascending by number (`Builds.ascending`), and
finds an entry under its number whichever of its parts is asked (`Builds.entry?_eq_some_iff`).
-/

set_option autoImplicit false

namespace ProtoWire

/-! ## The dense array -/

namespace FieldTable

theorem length_layOut (count next : Nat) (entries : List FieldEntry) :
    (layOut count next entries).length = count := by
  induction count generalizing next entries with
  | zero => rfl
  | succ count ih =>
      cases entries with
      | nil => rw [layOut, List.length_cons, ih]
      | cons first entries =>
          rw [layOut]
          split <;> rw [List.length_cons, ih]

/-- At each place of the dense array stands what the search finds under the place's number. -/
theorem getElem?_layOut {count next : Nat} {entries : List FieldEntry}
    (ascending : entries.Pairwise (·.number < ·.number))
    (least : ∀ entry ∈ entries, next ≤ entry.number) {place : Nat} (inside : place < count) :
    (layOut count next entries)[place]? =
      some (entries.find? fun entry => entry.number == next + place) := by
  -- induction on the places that are left; the next place never lies behind the first entry
  induction count generalizing next entries place with
  | zero => exact absurd inside (Nat.not_lt_zero _)
  | succ count ih =>
      cases entries with
      | nil =>
          rw [layOut]
          cases place with
          | zero => rfl
          | succ place =>
              rw [List.getElem?_cons_succ, ih List.Pairwise.nil (by simp) (by omega)]
              rfl
      | cons first entries =>
          obtain ⟨below, sorted⟩ := List.pairwise_cons.1 ascending
          have bound := least first List.mem_cons_self
          rw [layOut]
          split
          -- the first entry has the number of the place, the others lie behind it
          · next here =>
              cases place with
              | zero => simp [here]
              | succ place =>
                  have above : ∀ other ∈ entries, next + 1 ≤ other.number := by
                    intro other mem
                    have := below other mem
                    omega
                  rw [List.getElem?_cons_succ, ih sorted above (by omega),
                    List.find?_cons_of_neg (by simp [here]), Nat.add_right_comm]
                  rfl
          -- nobody has the number of the place, and the entries wait for a later one
          · next elsewhere =>
              have above : ∀ other ∈ first :: entries, next + 1 ≤ other.number := by
                intro other mem
                rcases List.mem_cons.1 mem with rfl | mem
                · omega
                · have := below other mem
                  omega
              cases place with
              | zero =>
                  have missing : (first :: entries).find? (fun entry => entry.number == next + 0) =
                      none := by
                    rw [List.find?_eq_none]
                    intro other mem
                    have := above other mem
                    simp
                    omega
                  rw [List.getElem?_cons_zero, missing]
              | succ place =>
                  rw [List.getElem?_cons_succ, ih ascending above (by omega), Nat.add_right_comm]
                  rfl

end FieldTable

/-! ## Codecs -/

/-- What schemas promise of the codecs of fields and extensions. -/
structure FieldCodec.Legal (codec : FieldCodec) : Prop where
  number : isFieldNumber codec.number = true
  packable : codec.arrangement = .packed → codec.kind.isPackable = true
  value : codec.valueType.isSome = codec.kind.isMessage

theorem Arrangement.isPackable_of_ofField {field : FieldDescriptor} {hasPresence : Bool}
    (h : ofField field hasPresence = .packed) : field.kind.isPackable = true := by
  rw [ofField] at h
  split at h
  · next packed =>
      simp only [FieldDescriptor.isPacked, Bool.and_eq_true] at packed
      exact packed.2
  · split at h
    · simp at h
    · split at h <;> simp at h

theorem Arrangement.ofField_eq_implicit_iff {field : FieldDescriptor} {generation : Generation} :
    ofField field (field.hasPresence generation) = .implicit ↔
      field.mayBeAbsent generation = false := by
  rw [ofField, FieldDescriptor.mayBeAbsent, FieldDescriptor.isPacked]
  cases field.isRepeated <;> cases field.hasPresence generation <;> cases field.packed <;>
    cases field.kind.isPackable <;> simp

theorem Arrangement.isRepeated_ofField (field : FieldDescriptor) (hasPresence : Bool) :
    (ofField field hasPresence).isRepeated = field.isRepeated := by
  rw [ofField, FieldDescriptor.isPacked]
  cases field.isRepeated <;> cases hasPresence <;> cases field.packed <;>
    cases field.kind.isPackable <;> rfl

namespace Registry

variable {registry : Registry} {type : MessageType} {table : FieldTable}

/-- The codec of a registered extension. -/
theorem Sound.legal_codec (sound : registry.Sound) {extension : ExtensionType}
    (mem : extension ∈ registry.extensions) : extension.codec.Legal :=
  ⟨sound.extensionNumber extension mem, Arrangement.isPackable_of_ofField,
    sound.extensionValue extension mem⟩

@[simp]
theorem number_entry (type : MessageType) (position : Nat) (field : FieldDescriptor)
    (valueType : Option MessageType) :
    (FieldTable.entry type position field valueType).number = field.number := rfl

/-! ## Entries and fields -/

theorem Builds.isMessageSet (h : registry.Builds type table) :
    table.isMessageSet = type.descriptor.messageSet := by
  obtain ⟨valueTypes, needsInitCheck, -, rfl⟩ := h
  rfl

/-- The declared fields as entries, in order of declaration. -/
def declaredEntries (type : MessageType) (valueTypes : List (Option MessageType)) :
    List FieldEntry :=
  (type.fields.zip valueTypes).mapIdx fun position pair =>
    FieldTable.entry type position pair.1 pair.2

theorem getElem?_declaredEntries {valueTypes : List (Option MessageType)} {position : Nat}
    {entry : FieldEntry} :
    (declaredEntries type valueTypes)[position]? = some entry ↔
      ∃ field valueType, type.fields[position]? = some field ∧
        valueTypes[position]? = some valueType ∧
        entry = FieldTable.entry type position field valueType := by
  rw [declaredEntries, List.getElem?_mapIdx]
  constructor
  · intro h
    obtain ⟨⟨field, valueType⟩, found, rfl⟩ := Option.map_eq_some_iff.1 h
    obtain ⟨left, right⟩ := List.getElem?_zip_eq_some.1 found
    exact ⟨field, valueType, left, right, rfl⟩
  · rintro ⟨field, valueType, left, right, rfl⟩
    have pair : (type.fields.zip valueTypes)[position]? = some (field, valueType) :=
      List.getElem?_zip_eq_some.2 ⟨left, right⟩
    rw [pair]
    rfl

theorem mem_declaredEntries {valueTypes : List (Option MessageType)} {entry : FieldEntry} :
    entry ∈ declaredEntries type valueTypes ↔
      ∃ position field valueType, type.fields[position]? = some field ∧
        valueTypes[position]? = some valueType ∧
        entry = FieldTable.entry type position field valueType := by
  rw [List.mem_iff_getElem?]
  simp only [getElem?_declaredEntries]

theorem resolves_of_getElem? {valueTypes : List (Option MessageType)}
    (h : registry.resolve type = .ok valueTypes) {position : Nat} {field : FieldDescriptor}
    {valueType : Option MessageType} (left : type.fields[position]? = some field)
    (right : valueTypes[position]? = some valueType) :
    registry.Resolves type field valueType := by
  obtain ⟨all, -, -⟩ := resolveFields_eq_ok_iff.1 (resolve_eq_ok_iff.1 h).2
  have pair : (type.fields.zip valueTypes)[position]? = some (field, valueType) :=
    List.getElem?_zip_eq_some.2 ⟨left, right⟩
  exact (List.forall₂_iff_zip.1 all).2 (List.mem_iff_getElem?.2 ⟨position, pair⟩)

/-- Each entry is that of a declared field, and the field is without defect. -/
theorem Builds.field_of_mem (h : registry.Builds type table) {entry : FieldEntry}
    (mem : entry ∈ table.entries) :
    ∃ field valueType, type.fields[entry.position]? = some field ∧
      registry.Resolves type field valueType ∧
      entry = FieldTable.entry type entry.position field valueType := by
  obtain ⟨valueTypes, needsInitCheck, resolved, rfl⟩ := h
  rw [FieldTable.build, mem_sortBy] at mem
  obtain ⟨position, field, valueType, left, right, rfl⟩ := mem_declaredEntries.1 mem
  exact ⟨field, valueType, left, resolves_of_getElem? resolved left right, rfl⟩

theorem Builds.legal_of_mem (h : registry.Builds type table) {entry : FieldEntry}
    (mem : entry ∈ table.entries) : entry.codec.Legal := by
  obtain ⟨field, valueType, -, resolves, eq⟩ := h.field_of_mem mem
  rw [eq]
  exact ⟨resolves.number, Arrangement.isPackable_of_ofField, resolves.isSome_value⟩

/-- The values of a field are of a type in the registry of the type that declares it. -/
theorem Builds.mem_types_of_mem (h : registry.Builds type table) {entry : FieldEntry}
    (mem : entry ∈ table.entries) {valueType : MessageType}
    (value : entry.codec.valueType = some valueType) : valueType ∈ registry.types := by
  obtain ⟨field, valueType', -, resolves, eq⟩ := h.field_of_mem mem
  rw [eq] at value
  obtain rfl : valueType' = some valueType := value
  exact resolves.mem_types

/-- The type of a field's values is one that the declaring type is linked to. -/
theorem Builds.links_of_mem (h : registry.Builds type table) {entry : FieldEntry}
    (mem : entry ∈ table.entries) {valueType : MessageType}
    (value : entry.codec.valueType = some valueType) : registry.Links type valueType := by
  obtain ⟨field, valueType', declared, resolves, eq⟩ := h.field_of_mem mem
  rw [eq] at value
  obtain rfl : valueType' = some valueType := value
  exact ⟨field, List.mem_of_getElem? declared, resolves.value.symm⟩

/-- Each declared field has an entry. -/
theorem Builds.exists_entry (h : registry.Builds type table) {position : Nat}
    {field : FieldDescriptor} (declared : type.fields[position]? = some field) :
    ∃ entry ∈ table.entries, ∃ valueType, registry.Resolves type field valueType ∧
      entry = FieldTable.entry type position field valueType := by
  obtain ⟨valueTypes, needsInitCheck, resolved, rfl⟩ := h
  obtain ⟨all, -, -⟩ := resolveFields_eq_ok_iff.1 (resolve_eq_ok_iff.1 resolved).2
  -- there are as many types of values as fields
  have inside : position < valueTypes.length := by
    rw [← all.length_eq]
    exact (List.getElem?_eq_some_iff.1 declared).1
  have right := List.getElem?_eq_getElem inside
  refine ⟨_, ?_, valueTypes[position], resolves_of_getElem? resolved declared right, rfl⟩
  rw [FieldTable.build, mem_sortBy]
  exact mem_declaredEntries.2 ⟨position, field, _, declared, right, rfl⟩

theorem nodup_number_declaredEntries {valueTypes : List (Option MessageType)}
    (h : registry.resolve type = .ok valueTypes) :
    ((declaredEntries type valueTypes).map (·.number)).Nodup := by
  obtain ⟨all, distinct, -⟩ := resolveFields_eq_ok_iff.1 (resolve_eq_ok_iff.1 h).2
  have numbers : (declaredEntries type valueTypes).map (·.number) =
      type.fields.map (·.number) := by
    -- entries and fields stand at the same positions
    apply List.ext_getElem?
    intro position
    rw [List.getElem?_map, List.getElem?_map]
    cases found : (declaredEntries type valueTypes)[position]? with
    | some entry =>
        obtain ⟨field, valueType, declared, -, rfl⟩ := getElem?_declaredEntries.1 found
        rw [declared]
        rfl
    | none =>
        have outside := List.getElem?_eq_none_iff.1 found
        rw [declaredEntries, List.length_mapIdx, List.length_zip, ← all.length_eq,
          Nat.min_self] at outside
        rw [List.getElem?_eq_none outside]
        rfl
  rw [numbers]
  exact distinct

/-- The entries ascend by number, and no two have the same one. -/
theorem Builds.ascending (h : registry.Builds type table) :
    table.entries.Pairwise (·.number < ·.number) := by
  obtain ⟨valueTypes, needsInitCheck, resolved, rfl⟩ := h
  have weak : (sortBy (fun a b => decide (a.number ≤ b.number))
      (declaredEntries type valueTypes)).Pairwise (fun a b => a.number ≤ b.number) :=
    pairwise_sortBy_key _ _
  -- sorting gives the weak order only, the strict one needs that the numbers are distinct
  have distinct : (sortBy (fun a b => decide (a.number ≤ b.number))
      (declaredEntries type valueTypes)).Pairwise (fun a b => a.number ≠ b.number) := by
    have nodup := nodup_number_declaredEntries resolved
    rw [← ((perm_sortBy (fun a b : FieldEntry => decide (a.number ≤ b.number))
      _).map (·.number)).nodup_iff] at nodup
    exact List.pairwise_map.1 nodup
  apply (weak.and distinct).imp
  rintro a b ⟨le, ne⟩
  omega

theorem Builds.perm_writingOrder (h : registry.Builds type table) :
    table.writingOrder.Perm table.entries := by
  obtain ⟨valueTypes, needsInitCheck, -, rfl⟩ := h
  simp only [FieldTable.build]
  split
  · exact List.Perm.refl _
  · exact perm_sortBy _ _

/-- No two fields share a slot. -/
theorem Builds.nodup_positions (h : registry.Builds type table) :
    (table.writingOrder.map (·.position)).Nodup := by
  rw [(h.perm_writingOrder.map _).nodup_iff]
  obtain ⟨valueTypes, needsInitCheck, -, rfl⟩ := h
  rw [FieldTable.build, ((perm_sortBy _ _).map _).nodup_iff]
  -- before they are sorted, the entries stand where their positions say
  have positions : (declaredEntries type valueTypes).map (·.position) =
      List.range (declaredEntries type valueTypes).length := by
    apply List.ext_getElem?
    intro position
    rw [List.getElem?_map]
    cases found : (declaredEntries type valueTypes)[position]? with
    | none =>
        have outside := List.getElem?_eq_none_iff.1 found
        rw [List.getElem?_eq_none (by simpa using outside)]
        rfl
    | some entry =>
        have inside := (List.getElem?_eq_some_iff.1 found).1
        obtain ⟨field, valueType, -, -, rfl⟩ := getElem?_declaredEntries.1 found
        rw [List.getElem?_range inside]
        rfl
  have nodup : ((declaredEntries type valueTypes).map (·.position)).Nodup := by
    rw [positions]
    exact List.nodup_range
  exact nodup

theorem Builds.eq_of_position_eq (h : registry.Builds type table) {a b : FieldEntry}
    (left : a ∈ table.entries) (right : b ∈ table.entries) (same : a.position = b.position) :
    a = b := by
  have distinct := h.nodup_positions
  rw [(h.perm_writingOrder.map _).nodup_iff] at distinct
  exact List.inj_on_of_nodup_map distinct left right same

/-- Every declared field is written. -/
theorem Builds.mem_positions_iff (h : registry.Builds type table) {position : Nat} :
    position ∈ table.writingOrder.map (·.position) ↔ position < type.fields.length := by
  constructor
  · intro mem
    obtain ⟨entry, listed, rfl⟩ := List.mem_map.1 mem
    obtain ⟨field, -, declared, -⟩ := h.field_of_mem (h.perm_writingOrder.mem_iff.1 listed)
    exact (List.getElem?_eq_some_iff.1 declared).1
  · intro bound
    obtain ⟨entry, mem, valueType, -, eq⟩ := h.exists_entry (List.getElem?_eq_getElem bound)
    refine List.mem_map.2 ⟨entry, h.perm_writingOrder.mem_iff.2 mem, ?_⟩
    rw [eq]
    rfl

/-- Message sets have places for extensions and unknown fields, and no declared fields. -/
theorem Builds.shape_of_messageSet (h : registry.Builds type table)
    (isSet : table.isMessageSet = true) :
    type.storage.extensions = true ∧ type.storage.unknownFields = true ∧ type.fields = [] := by
  rw [h.isMessageSet] at isSet
  obtain ⟨valueTypes, needsInitCheck, resolved, -⟩ := h
  exact (resolve_eq_ok_iff.1 resolved).1 isSet

/-! ## Looking up a number -/

theorem nodup_of_ascending {entries : List FieldEntry}
    (ascending : entries.Pairwise (·.number < ·.number)) : (entries.map (·.number)).Nodup :=
  List.pairwise_map.2 (ascending.imp Nat.ne_of_lt)

theorem eq_of_number_eq {entries : List FieldEntry}
    (ascending : entries.Pairwise (·.number < ·.number)) {a b : FieldEntry}
    (left : a ∈ entries) (right : b ∈ entries) (same : a.number = b.number) : a = b :=
  List.inj_on_of_nodup_map (nodup_of_ascending ascending) left right same

theorem Builds.searchedEntry?_eq_some_iff (h : registry.Builds type table) {number : Nat}
    {entry : FieldEntry} :
    table.searchedEntry? number = some entry ↔
      entry ∈ table.entries ∧ entry.number = number :=
  find?_key_eq_some_iff (nodup_of_ascending h.ascending)

/-- The dense array answers like the search, as far as it goes. -/
theorem Builds.denseEntry?_eq (h : registry.Builds type table) (number : Nat) :
    table.denseEntry? number =
      if number < table.dense.length then table.searchedEntry? number else none := by
  have ascending := h.ascending
  obtain ⟨valueTypes, needsInitCheck, -, rfl⟩ := h
  rw [FieldTable.denseEntry?]
  split
  · next inside =>
      rw [FieldTable.build, FieldTable.length_layOut] at inside
      have found := FieldTable.getElem?_layOut ascending (fun _ _ => Nat.zero_le _) inside
      rw [Nat.zero_add] at found
      exact congrArg Option.join found
  · next outside =>
      rw [List.getElem?_eq_none (Nat.le_of_not_lt outside)]
      rfl

theorem Builds.entry?_eq_searchedEntry? (h : registry.Builds type table) (number : Nat) :
    table.entry? number = table.searchedEntry? number := by
  rw [FieldTable.entry?, h.denseEntry?_eq]
  split
  · exact Option.or_self
  · exact Option.none_or

/-- The table finds the entry of a number, and nothing under any other number. -/
theorem Builds.entry?_eq_some_iff (h : registry.Builds type table) {number : Nat}
    {entry : FieldEntry} :
    table.entry? number = some entry ↔ entry ∈ table.entries ∧ entry.number = number := by
  rw [h.entry?_eq_searchedEntry?, h.searchedEntry?_eq_some_iff]

theorem position?_eq_none_iff {descriptor : MessageDescriptor} {number : Nat} :
    descriptor.position? number = none ↔ ∀ field ∈ descriptor.fields, field.number ≠ number := by
  rw [MessageDescriptor.position?, Option.map_eq_none_iff, List.find?_eq_none]
  constructor
  · intro none field mem same
    obtain ⟨position, found⟩ := List.mem_iff_getElem?.1 mem
    have listed : (field, position) ∈ descriptor.fields.zipIdx.reverse :=
      List.mem_reverse.2 (List.mem_zipIdx_iff_getElem?.2 found)
    have other := none _ listed
    simp [same] at other
  · intro all entry listed
    have found := List.mem_zipIdx_iff_getElem?.1 (List.mem_reverse.1 listed)
    simpa using all entry.1 (List.mem_of_getElem? found)

/-- The descriptor finds a field of the number at the position that it returns. -/
theorem getElem?_of_position? {descriptor : MessageDescriptor} {number position : Nat}
    (h : descriptor.position? number = some position) :
    ∃ field, descriptor.fields[position]? = some field ∧ field.number = number := by
  rw [MessageDescriptor.position?] at h
  obtain ⟨⟨field, position'⟩, found, rfl⟩ := Option.map_eq_some_iff.1 h
  have listed :=
    List.mem_zipIdx_iff_getElem?.1 (List.mem_reverse.1 (List.mem_of_find?_eq_some found))
  exact ⟨field, listed, by simpa using List.find?_some found⟩

/-- Where no number occurs twice, every field is found under its number. -/
theorem position?_of_nodup {descriptor : MessageDescriptor}
    (distinct : (descriptor.fields.map (·.number)).Nodup) {position : Nat} {field : FieldDescriptor}
    (declared : descriptor.fields[position]? = some field) :
    descriptor.position? field.number = some position := by
  cases found : descriptor.position? field.number with
  | none => exact absurd rfl (position?_eq_none_iff.1 found field (List.mem_of_getElem? declared))
  | some other =>
      obtain ⟨field', declared', same⟩ := getElem?_of_position? found
      rw [position_eq_of_key_eq distinct declared' declared same]

/-- The table knows the numbers of the declared fields. -/
theorem Builds.entry?_eq_none_iff (h : registry.Builds type table) {number : Nat} :
    table.entry? number = none ↔ ∀ field ∈ type.fields, field.number ≠ number := by
  constructor
  · intro undeclared field mem same
    obtain ⟨position, declared⟩ := List.mem_iff_getElem?.1 mem
    obtain ⟨entry, listed, valueType, -, rfl⟩ := h.exists_entry declared
    rw [h.entry?_eq_some_iff.2 ⟨listed, same⟩] at undeclared
    cases undeclared
  · intro undeclared
    cases found : table.entry? number with
    | none => rfl
    | some entry =>
        obtain ⟨listed, same⟩ := h.entry?_eq_some_iff.1 found
        obtain ⟨field, valueType, declared, -, eq⟩ := h.field_of_mem listed
        rw [eq, number_entry] at same
        exact absurd same (undeclared field (List.mem_of_getElem? declared))

/-- The descriptor does not know a number that the table does not know. -/
theorem Builds.position?_eq_none (h : registry.Builds type table) {number : Nat}
    (undeclared : table.entry? number = none) : type.descriptor.position? number = none :=
  position?_eq_none_iff.2 (h.entry?_eq_none_iff.1 undeclared)

/-- The descriptor finds the field of an entry where the entry stands. -/
theorem Builds.position?_of_mem (h : registry.Builds type table) {entry : FieldEntry}
    (mem : entry ∈ table.entries) :
    type.descriptor.position? entry.number = some entry.position := by
  cases found : type.descriptor.position? entry.number with
  | none =>
      obtain ⟨field, valueType, declared, -, eq⟩ := h.field_of_mem mem
      have other := position?_eq_none_iff.1 found field (List.mem_of_getElem? declared)
      rw [eq] at other
      exact absurd rfl other
  | some position =>
      -- the field that is found has the number of the entry, and so it is the entry's
      obtain ⟨field, declared, same⟩ := getElem?_of_position? found
      obtain ⟨other, listed, valueType, -, rfl⟩ := h.exists_entry declared
      rw [← eq_of_number_eq h.ascending listed mem same]
      rfl

end Registry

end ProtoWire
