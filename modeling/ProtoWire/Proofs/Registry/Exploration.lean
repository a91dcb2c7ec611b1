import Mathlib.Logic.Relation
import ProtoWire.Proofs.Registry.Sound

/-!
# The search for reached types

Whether a table can be built is decided by a depth-first search over the graph of types, whose
edges are the message fields. The search is exact (`explore_spec`): with the limit that it is
given it never stops early, so it finds the types that are reached (`Registry.Reaches`) and no
others, or else returns the error of one of them. Hence a table can be built just if the registry
is alive and every reached type resolves (`exists_buildTable_iff`), and what resolves once
resolves for good, with the same types reached (`Whole.mono`).
-/

set_option autoImplicit false

namespace ProtoWire.Registry

variable {registry later : Registry} {type other start : MessageType}
  {valueTypes : List (Option MessageType)}

/-! ## The graph of types -/

/-- Some field of the type holds messages of the other type. -/
def Links (registry : Registry) (type other : MessageType) : Prop :=
  ∃ field ∈ type.fields, field.valueTypeName?.bind registry.type? = some other

/-- The other type is the type itself, or is reached from it through message fields. -/
def Reaches (registry : Registry) : MessageType → MessageType → Prop :=
  Relation.ReflTransGen registry.Links

/-- The type on its own is without defect. -/
def Resolvable (registry : Registry) (type : MessageType) : Prop :=
  ∃ valueTypes, registry.resolve type = .ok valueTypes

/-- The type and all types that it reaches are without defect. -/
def Whole (registry : Registry) (type : MessageType) : Prop :=
  ∀ other, registry.Reaches type other → registry.Resolvable other

theorem Resolvable.nodup_numbers (resolvable : registry.Resolvable type) :
    (type.fields.map (·.number)).Nodup := by
  obtain ⟨valueTypes, resolved⟩ := resolvable
  exact (resolveFields_eq_ok_iff.1 (resolve_eq_ok_iff.1 resolved).2).2.1

theorem Links.mem_types (h : registry.Links type other) : other ∈ registry.types := by
  obtain ⟨field, -, value⟩ := h
  obtain ⟨name, -, found⟩ := Option.bind_eq_some_iff.1 value
  exact (mem_types_of_type? found).1

theorem Reaches.mem_types (h : registry.Reaches type other) (mem : type ∈ registry.types) :
    other ∈ registry.types := by
  cases h with
  | refl => exact mem
  | tail _ last => exact last.mem_types

theorem Whole.of_reaches (h : registry.Whole type) (reached : registry.Reaches type other) :
    registry.Whole other :=
  fun _ further => h _ (reached.trans further)

/-- Resolving a type looks the type of each field's values up. -/
theorem eq_map_of_resolve (h : registry.resolve type = .ok valueTypes) :
    valueTypes = type.fields.map fun field => field.valueTypeName?.bind registry.type? := by
  obtain ⟨all, -, -⟩ := resolveFields_eq_ok_iff.1 (resolve_eq_ok_iff.1 h).2
  have value : ∀ {fields : List FieldDescriptor} {valueTypes : List (Option MessageType)},
      List.Forall₂ (registry.Resolves type) fields valueTypes →
        valueTypes = fields.map fun field => field.valueTypeName?.bind registry.type? := by
    intro fields valueTypes all
    induction all with
    | nil => rfl
    | cons resolves _ ih => rw [List.map_cons, ← ih, resolves.value]
  exact value all

theorem mem_of_resolve (h : registry.resolve type = .ok valueTypes) :
    some other ∈ valueTypes ↔ registry.Links type other := by
  rw [eq_map_of_resolve h, List.mem_map]
  rfl

/-- A type that resolves is linked to the same types in any registry with more types. -/
theorem Links.of_extends (h : later.Links type other) (resolvable : registry.Resolvable type)
    (more : registry.Extends later) : registry.Links type other := by
  obtain ⟨valueTypes, resolved⟩ := resolvable
  rw [← mem_of_resolve resolved]
  exact (mem_of_resolve (resolve_mono resolved more)).2 h

/-- No further types are reached from a whole type when more are registered. -/
theorem Whole.reaches_of_extends (h : registry.Whole type) (more : registry.Extends later)
    (reached : later.Reaches type other) : registry.Reaches type other := by
  induction reached with
  | refl => exact .refl
  | tail _ last ih => exact ih.tail (last.of_extends (h _ ih) more)

/-- A type that is whole stays so. -/
theorem Whole.mono (h : registry.Whole type) (more : registry.Extends later) :
    later.Whole type := by
  intro other reached
  obtain ⟨valueTypes, resolved⟩ := h other (h.reaches_of_extends more reached)
  exact ⟨valueTypes, resolve_mono resolved more⟩

/-! ## The limit of the search -/

/-- The number of fields of the registered types that have not been found. -/
def pending (registry : Registry) (found : List MessageType) : Nat :=
  fieldCount (registry.types.filter fun type => !found.any (·.fullName == type.fullName))

theorem fieldCount_filter_le (types : List MessageType) {p q : MessageType → Bool}
    (fewer : ∀ type, q type = true → p type = true) :
    fieldCount (types.filter q) ≤ fieldCount (types.filter p) := by
  induction types with
  | nil => exact Nat.le_refl _
  | cons first types ih =>
      have := fewer first
      cases here : q first <;> cases there : p first <;>
        simp_all only [List.filter_cons, fieldCount, if_true, if_false, Bool.false_eq_true] <;>
        omega

/-- A type that is left out takes its fields along. -/
theorem fieldCount_filter_add_le {types : List MessageType} {p q : MessageType → Bool}
    (fewer : ∀ type, q type = true → p type = true) (mem : type ∈ types)
    (here : p type = true) (gone : q type = false) :
    fieldCount (types.filter q) + type.fields.length ≤ fieldCount (types.filter p) := by
  induction types with
  | nil => simp at mem
  | cons first types ih =>
      rcases List.mem_cons.1 mem with rfl | mem
      · have := fieldCount_filter_le types fewer
        simp only [List.filter_cons, here, gone, if_true, Bool.false_eq_true, if_false, fieldCount]
        omega
      · have bound := ih mem
        have := fewer first
        cases here' : q first <;> cases there : p first <;>
          simp_all only [List.filter_cons, fieldCount, if_true, if_false, Bool.false_eq_true] <;>
          omega

theorem pending_cons_add_le (mem : type ∈ registry.types) {found : List MessageType}
    (new : (found.any fun other => other.fullName == type.fullName) = false) :
    registry.pending (type :: found) + type.fields.length ≤ registry.pending found := by
  apply fieldCount_filter_add_le _ mem
  · rw [new]
    rfl
  · simp
  · intro other unfound
    rw [List.any_cons, Bool.not_or, Bool.and_eq_true] at unfound
    exact unfound.2

/-! ## The search -/

/-- What the search keeps: all types seen so far are reached from the start, those found resolve
and lead to types that were found or are on the stack, and the limit is enough for the rest. -/
structure Searching (registry : Registry) (start : MessageType) (limit : Nat)
    (found stack : List MessageType) : Prop where
  begun : start ∈ found
  registered : ∀ type ∈ found ++ stack, type ∈ registry.types
  reached : ∀ type ∈ found ++ stack, registry.Reaches start type
  resolvable : ∀ type ∈ found, registry.Resolvable type
  frontier : ∀ type ∈ found, ∀ other, registry.Links type other → other ∈ found ++ stack
  room : stack.length + registry.pending found ≤ limit

/-- The types that a resolved type puts on the stack. -/
theorem mem_stack_of_resolve (h : registry.resolve type = .ok valueTypes) :
    other ∈ (valueTypes.filterMap fun valueType => valueType).reverse ↔
      registry.Links type other := by
  rw [List.mem_reverse, List.mem_filterMap, ← mem_of_resolve h]
  exact ⟨fun ⟨_, mem, eq⟩ => eq ▸ mem, fun mem => ⟨_, mem, rfl⟩⟩

theorem length_stack_of_resolve (h : registry.resolve type = .ok valueTypes) :
    (valueTypes.filterMap fun valueType => valueType).reverse.length ≤ type.fields.length := by
  rw [List.length_reverse]
  refine Nat.le_trans (List.length_filterMap_le _ _) (Nat.le_of_eq ?_)
  rw [eq_map_of_resolve h, List.length_map]

/-- A type that was found before is taken from the stack. -/
theorem Searching.skip (sound : registry.Sound) {limit : Nat} {found stack : List MessageType}
    (h : registry.Searching start (limit + 1) found (type :: stack))
    (old : (found.any fun other => other.fullName == type.fullName) = true) :
    registry.Searching start limit found stack := by
  -- the type that bears the name is the type itself
  obtain ⟨twin, listed, name⟩ := List.any_eq_true.1 old
  obtain rfl : twin = type := by
    refine sound.eq_of_fullName (h.registered twin (by simp [listed]))
      (h.registered type (by simp)) (by simpa using name)
  have fewer : ∀ {other}, other ∈ found ++ stack → other ∈ found ++ twin :: stack := by
    intro other mem
    simp only [List.mem_append, List.mem_cons] at mem ⊢
    tauto
  refine ⟨h.begun, fun other mem => h.registered other (fewer mem),
    fun other mem => h.reached other (fewer mem), h.resolvable, ?_, ?_⟩
  · intro from' mem other link
    have seen := h.frontier from' mem other link
    simp only [List.mem_append, List.mem_cons] at seen ⊢
    rcases seen with found' | rfl | waiting
    · exact .inl found'
    · exact .inl listed
    · exact .inr waiting
  · have := h.room
    rw [List.length_cons] at this
    omega

/-- A new type that resolves is found, and the types of its fields' values wait. -/
theorem Searching.advance {limit : Nat} {found stack : List MessageType}
    (h : registry.Searching start (limit + 1) found (type :: stack))
    (new : (found.any fun other => other.fullName == type.fullName) = false)
    (resolved : registry.resolve type = .ok valueTypes) :
    registry.Searching start limit (type :: found)
      ((valueTypes.filterMap fun valueType => valueType).reverse ++ stack) := by
  have here := h.reached type (by simp)
  -- everything seen was seen before, or is linked to the new type
  have seen : ∀ other, other ∈ (type :: found) ++
      ((valueTypes.filterMap fun valueType => valueType).reverse ++ stack) →
        other ∈ found ++ type :: stack ∨ registry.Links type other := by
    intro other mem
    rw [List.mem_append, List.mem_append, mem_stack_of_resolve resolved] at mem
    simp only [List.mem_append, List.mem_cons] at mem ⊢
    tauto
  refine ⟨List.mem_cons_of_mem _ h.begun, ?_, ?_, ?_, ?_, ?_⟩
  · intro other mem
    rcases seen other mem with before | link
    · exact h.registered other before
    · exact link.mem_types
  · intro other mem
    rcases seen other mem with before | link
    · exact h.reached other before
    · exact here.tail link
  · intro other mem
    rcases List.mem_cons.1 mem with rfl | before
    · exact ⟨valueTypes, resolved⟩
    · exact h.resolvable other before
  · intro from' mem other link
    rw [List.mem_append, List.mem_append, mem_stack_of_resolve resolved]
    rcases List.mem_cons.1 mem with rfl | before
    · exact .inr (.inl link)
    · have waiting := h.frontier from' before other link
      simp only [List.mem_append, List.mem_cons] at waiting ⊢
      tauto
  · have bound := pending_cons_add_le (h.registered type (by simp)) new
    have fields := length_stack_of_resolve resolved
    have := h.room
    rw [List.length_cons] at this
    rw [List.length_append]
    omega

/-- When nothing waits any more, the types found are those that are reached. -/
theorem Searching.done {limit : Nat} {found : List MessageType}
    (h : registry.Searching start limit found []) :
    (∀ type, type ∈ found ↔ registry.Reaches start type) ∧ registry.Whole start := by
  have complete : ∀ type, registry.Reaches start type → type ∈ found := by
    intro type reached
    induction reached with
    | refl => exact h.begun
    | tail _ last ih => simpa using h.frontier _ ih _ last
  refine ⟨fun type => ⟨fun mem => h.reached type (by simpa using mem), complete type⟩, ?_⟩
  intro other reached
  exact h.resolvable other (complete other reached)

/-- The search finds the types that are reached from the start, all of which resolve; or it
returns the error of a type that is reached. -/
theorem explore_spec (sound : registry.Sound) {limit : Nat} {found stack : List MessageType}
    (h : registry.Searching start limit found stack) :
    match registry.explore limit found stack with
    | .ok result =>
        (∀ type, type ∈ result ↔ registry.Reaches start type) ∧ registry.Whole start
    | .error error =>
        ∃ type, registry.Reaches start type ∧ registry.resolve type = .error error := by
  induction limit generalizing found stack with
  | zero =>
      cases stack with
      | nil => exact h.done
      -- something waits, so the limit is not used up
      | cons type stack =>
          have := h.room
          simp at this
  | succ limit ih =>
      cases stack with
      | nil => exact h.done
      | cons type stack =>
          rw [explore]
          cases old : found.any fun other => other.fullName == type.fullName with
          | true =>
              rw [if_pos rfl]
              exact ih (h.skip sound old)
          | false =>
              rw [if_neg Bool.false_ne_true]
              cases resolved : registry.resolve type with
              | error error => exact ⟨type, h.reached type (by simp), resolved⟩
              | ok valueTypes => exact ih (h.advance old resolved)

theorem searching_start (mem : type ∈ registry.types)
    (resolved : registry.resolve type = .ok valueTypes) :
    let stack := (valueTypes.filterMap fun valueType => valueType).reverse
    registry.Searching type (stack.length + fieldCount registry.types) [type] stack := by
  intro stack
  have seen : ∀ other, other ∈ [type] ++ stack → other = type ∨ registry.Links type other := by
    intro other listed
    rw [List.mem_append, List.mem_singleton, mem_stack_of_resolve resolved] at listed
    exact listed
  refine ⟨List.mem_singleton_self type, ?_, ?_, ?_, ?_, ?_⟩
  · intro other listed
    rcases seen other listed with rfl | link
    · exact mem
    · exact link.mem_types
  · intro other listed
    rcases seen other listed with rfl | link
    · exact .refl
    · exact .single link
  · intro other listed
    rw [List.mem_singleton.1 listed]
    exact ⟨valueTypes, resolved⟩
  · intro from' listed other link
    rw [List.mem_singleton.1 listed] at link
    exact List.mem_append_right _ ((mem_stack_of_resolve resolved).2 link)
  · have bound := fieldCount_filter_le registry.types (p := fun _ => true)
      (q := fun other => !([type].any (·.fullName == other.fullName))) (fun _ _ => rfl)
    rw [List.filter_true] at bound
    exact Nat.add_le_add_left bound _

/-- The types that a registered type reaches are found just if all of them resolve. -/
theorem reachableFrom_spec (sound : registry.Sound) (mem : type ∈ registry.types)
    (resolved : registry.resolve type = .ok valueTypes) :
    match registry.reachableFrom type valueTypes with
    | .ok result => (∀ other, other ∈ result ↔ registry.Reaches type other) ∧ registry.Whole type
    | .error error =>
        ∃ other, registry.Reaches type other ∧ registry.resolve other = .error error :=
  explore_spec sound (searching_start mem resolved)

/-- A table can be built just if the registry is alive and every type that is reached resolves. -/
theorem exists_buildTable_iff (sound : registry.Sound) (mem : type ∈ registry.types) :
    (∃ table, registry.buildTable type = .ok table) ↔
      registry.dropped = false ∧ registry.Whole type := by
  rw [buildTable]
  cases dropped : registry.dropped with
  | true => simp
  | false =>
      rw [if_neg Bool.false_ne_true]
      cases resolved : registry.resolve type with
      | error error =>
          -- the type reaches itself
          have broken : ¬ registry.Whole type := by
            intro whole
            obtain ⟨valueTypes, eq⟩ := whole type .refl
            simp [resolved] at eq
          simp [broken]
      | ok valueTypes =>
          have spec := reachableFrom_spec sound mem resolved
          cases search : registry.reachableFrom type valueTypes with
          | error error =>
              rw [search] at spec
              obtain ⟨other, reached, defective⟩ := spec
              have broken : ¬ registry.Whole type := by
                intro whole
                obtain ⟨valueTypes', eq⟩ := whole other reached
                simp [defective] at eq
              simp [search, broken]
          | ok result =>
              rw [search] at spec
              simp [search, spec.2]

end ProtoWire.Registry
