import Mathlib.Data.List.Perm.Subperm
import ProtoWire.Proofs.Registry.Exploration

/-!
# The search for required fields

Whether a type needs its messages looked into is found by a search of its own, which enters the
types of the fields one inside another and shares the names visited among all of them. Where types
lead back to one that is still being searched, the search turns away as if nothing were there. It
is exact nevertheless (`searchType_found_iff`): what a search that finds nothing has visited, on
top of the types visited before it, lacks nothing and leads to visited types only
(`Registry.Clears`), and at the end of the whole search nothing was visited before it. No type is
visited twice, and none that is not reached (`Searched.distinct`, `Searched.reached`).
-/

set_option autoImplicit false

namespace ProtoWire.Registry

variable {registry : Registry} {type other : MessageType} {before : List String}

/-! ## Types that may lack fields -/

/-- Whether messages of a type may lack a required field, nested ones apart. -/
def mayLackFields (type : MessageType) : Bool :=
  !type.descriptor.extensionRanges.isEmpty || type.fields.any (·.isRequired)

theorem mayLackFields_iff :
    mayLackFields type = true ↔
      (∃ field ∈ type.fields, field.cardinality = .required) ∨
        type.descriptor.extensionRanges ≠ [] := by
  simp [mayLackFields, FieldDescriptor.isRequired, or_comm]

/-- Some type that is reached has required fields of its own, or a place for extensions. -/
def MayLack (registry : Registry) (type : MessageType) : Prop :=
  ∃ other, registry.Reaches type other ∧ mayLackFields other = true

theorem MayLack.of_reaches (reached : registry.Reaches type other)
    (h : registry.MayLack other) : registry.MayLack type := by
  obtain ⟨last, further, lacks⟩ := h
  exact ⟨last, reached.trans further, lacks⟩

/-! ## What a search has found and visited -/

/-- The types that were visited after those `before` lack nothing themselves and lead to visited
types only. Types that are still being searched are among those `before`. -/
def Clears (registry : Registry) (before after : List String) : Prop :=
  ∀ type ∈ registry.types, type.fullName ∈ after → type.fullName ∉ before →
    mayLackFields type = false ∧ ∀ other, registry.Links type other → other.fullName ∈ after

theorem clears_refl (registry : Registry) (before : List String) :
    registry.Clears before before :=
  fun _ _ visited new => absurd visited new

theorem Clears.trans {middle after : List String} (first : registry.Clears before middle)
    (second : registry.Clears middle after) (more : middle ⊆ after) :
    registry.Clears before after := by
  intro type mem visited new
  by_cases early : type.fullName ∈ middle
  · obtain ⟨own, closed⟩ := first type mem early new
    exact ⟨own, fun other link => more (closed other link)⟩
  · exact second type mem visited early

/-- Some of the fields holds messages of the type. -/
def Leads (registry : Registry) (fields : List FieldDescriptor) (other : MessageType) : Prop :=
  ∃ field ∈ fields, field.valueTypeName?.bind registry.type? = some other

/-- What the outcome of a search says of the types that it started from, if it `lacks` something
right there or not. -/
structure Searched (registry : Registry) (lacks : Prop) (starts : MessageType → Prop)
    (search : InitSearch before) : Prop where
  found : search.found = true → lacks ∨ ∃ start, starts start ∧ registry.MayLack start
  unfound : search.found = false → ¬ lacks ∧
    (∀ start, starts start → start.fullName ∈ search.visited) ∧
      registry.Clears before search.visited
  distinct : before.Nodup → search.visited.Nodup
  reached : ∀ name ∈ search.visited, name ∈ before ∨
    ∃ start other, starts start ∧ registry.Reaches start other ∧ other.fullName = name

/-- What the outcome of the search of a type says. -/
abbrev SearchedType (registry : Registry) (type : MessageType)
    (search : InitSearch before) : Prop :=
  registry.Searched False (· = type) search

/-- What the outcome of the search of some fields says. -/
abbrev SearchedFields (registry : Registry) (fields : List FieldDescriptor)
    (search : InitSearch before) : Prop :=
  registry.Searched (∃ field ∈ fields, field.isRequired = true) (registry.Leads fields) search

variable {lacks lacks' : Prop} {starts starts' : MessageType → Prop} {search : InitSearch before}

/-- What was found in a part of what was to be searched was found. -/
theorem Searched.of_found (h : registry.Searched lacks starts search)
    (found : search.found = true) (own : lacks → lacks')
    (more : ∀ start, starts start → starts' start) :
    registry.Searched lacks' starts' search where
  found _ := (h.found found).imp own fun ⟨start, among, mayLack⟩ =>
    ⟨start, more start among, mayLack⟩
  unfound none := by simp [found] at none
  distinct := h.distinct
  reached name visited := (h.reached name visited).imp_right
    fun ⟨start, other, among, reaches, named⟩ => ⟨start, other, more start among, reaches, named⟩

/-! ## Types -/

/-- A type that was visited before is not searched again. -/
theorem searched_visited (old : type.fullName ∈ before) :
    registry.SearchedType type (.ended false before) where
  found none := by cases none
  unfound _ := ⟨not_false, fun _ same => same ▸ old, registry.clears_refl before⟩
  distinct distinct := distinct
  reached _ := .inl

theorem distinct_visit (new : type.fullName ∉ before) (distinct : before.Nodup) :
    (type.fullName :: before).Nodup :=
  List.nodup_cons.2 ⟨new, distinct⟩

theorem reached_visit (registry : Registry) {name : String}
    (visited : name ∈ type.fullName :: before) :
    name ∈ before ∨ ∃ start other, start = type ∧ registry.Reaches start other ∧
      other.fullName = name := by
  rcases List.mem_cons.1 visited with rfl | old
  · exact .inr ⟨type, type, rfl, .refl, rfl⟩
  · exact .inl old

/-- A type with a place for extensions ends the search. -/
theorem searched_extensible (new : type.fullName ∉ before)
    (extensible : (!type.descriptor.extensionRanges.isEmpty) = true) :
    registry.SearchedType type
      ((InitSearch.ended true (type.fullName :: before)).since (List.subset_cons_self _ _)) where
  found _ := .inr ⟨type, rfl, type, .refl, by rw [mayLackFields, extensible, Bool.true_or]⟩
  unfound none := by cases none
  distinct := distinct_visit new
  reached _ := registry.reached_visit

/-- A type of a registry is searched by searching its fields. -/
theorem Searched.of_fields (sound : registry.Sound) (mem : type ∈ registry.types)
    (new : type.fullName ∉ before)
    (closed : ¬ (!type.descriptor.extensionRanges.isEmpty) = true)
    {search : InitSearch (type.fullName :: before)}
    (h : registry.SearchedFields type.fields search) :
    registry.SearchedType type (search.since (List.subset_cons_self _ _)) where
  found found := by
    right
    refine ⟨type, rfl, ?_⟩
    rcases h.found found with ⟨field, among, required⟩ | ⟨other, link, mayLack⟩
    · have own : type.fields.any (·.isRequired) = true :=
        List.any_eq_true.2 ⟨field, among, required⟩
      exact ⟨type, .refl, by rw [mayLackFields, own, Bool.or_true]⟩
    · exact mayLack.of_reaches (.single link)
  unfound none := by
    obtain ⟨optional, links, clears⟩ := h.unfound none
    have visited : type.fullName ∈ search.visited := search.keeps List.mem_cons_self
    refine ⟨not_false, fun _ same => same ▸ visited, ?_⟩
    intro other listed visited' new'
    -- the type itself is in front of what its fields have visited
    by_cases same : other.fullName = type.fullName
    · obtain rfl := sound.eq_of_fullName listed mem same
      refine ⟨?_, links⟩
      rw [← Bool.not_eq_true, mayLackFields, Bool.or_eq_true, List.any_eq_true]
      exact fun lacks => lacks.elim closed optional
    · exact clears other listed visited' fun old =>
        (List.mem_cons.1 old).elim same new'
  distinct distinct := h.distinct (distinct_visit new distinct)
  reached name visited := by
    rcases h.reached name visited with old | ⟨start, other, link, reaches, named⟩
    · exact registry.reached_visit old
    · exact .inr ⟨type, other, rfl, .head link reaches, named⟩

/-! ## Fields -/

variable {field : FieldDescriptor} {fields : List FieldDescriptor}

theorem searchedFields_nil : registry.SearchedFields [] (.ended false before) where
  found none := by cases none
  unfound _ := ⟨by simp, by simp [Leads], registry.clears_refl before⟩
  distinct distinct := distinct
  reached _ := .inl

/-- A required field ends the search. -/
theorem searchedFields_required (required : field.isRequired = true) :
    registry.SearchedFields (field :: fields) (.ended true before) where
  found _ := .inl ⟨field, List.mem_cons_self, required⟩
  unfound none := by cases none
  distinct distinct := distinct
  reached _ := .inl

theorem leads_cons : registry.Leads (field :: fields) other ↔
    field.valueTypeName?.bind registry.type? = some other ∨ registry.Leads fields other := by
  simp [Leads]

theorem mem_types_of_value (value : field.valueTypeName?.bind registry.type? = some other) :
    other ∈ registry.types := by
  obtain ⟨name, -, found⟩ := Option.bind_eq_some_iff.1 value
  exact (mem_types_of_type? found).1

/-- A field that is not required and leads nowhere is passed over. -/
theorem Searched.skip (optional : ¬ field.isRequired = true)
    (value : field.valueTypeName?.bind registry.type? = none)
    (h : registry.SearchedFields fields search) :
    registry.SearchedFields (field :: fields) search := by
  have same : registry.Leads (field :: fields) = registry.Leads fields := by
    funext other
    simp [leads_cons, value]
  rw [SearchedFields, same]
  simpa [optional] using h

/-- The fields behind one whose type was searched without finding anything are searched next. -/
theorem Searched.andThen (optional : ¬ field.isRequired = true)
    (value : field.valueTypeName?.bind registry.type? = some other)
    (h : registry.SearchedType other search) (none : ¬ search.found = true)
    {rest : InitSearch search.visited} (h' : registry.SearchedFields fields rest) :
    registry.SearchedFields (field :: fields) (rest.since search.keeps) where
  found found := by
    rcases h'.found found with ⟨required, among, is⟩ | ⟨start, leads, mayLack⟩
    · exact .inl ⟨required, List.mem_cons_of_mem _ among, is⟩
    · exact .inr ⟨start, leads_cons.2 (.inr leads), mayLack⟩
  unfound none' := by
    obtain ⟨-, visited, clears⟩ := h.unfound (Bool.not_eq_true _ ▸ none)
    obtain ⟨optional', visited', clears'⟩ := h'.unfound none'
    refine ⟨by simp [optional, optional'], fun start leads => ?_, clears.trans clears' rest.keeps⟩
    rcases leads_cons.1 leads with here | later
    · exact rest.keeps (visited start (Option.some.inj (here.symm.trans value)))
    · exact visited' start later
  distinct distinct := h'.distinct (h.distinct distinct)
  reached name visited := by
    rcases h'.reached name visited with early | ⟨start, last, leads, reaches, named⟩
    · rcases h.reached name early with old | ⟨start, last, rfl, reaches, named⟩
      · exact .inl old
      · exact .inr ⟨start, last, leads_cons.2 (.inl value), reaches, named⟩
    · exact .inr ⟨start, last, leads_cons.2 (.inr leads), reaches, named⟩

/-! ## The whole search -/

/-- Every call of the search ends with what its outcome says. -/
theorem searched (sound : registry.Sound) :
    (∀ type before, type ∈ registry.types →
      registry.SearchedType type (registry.searchType type before)) ∧
    ∀ fields before, registry.SearchedFields fields (registry.searchFields fields before) := by
  -- by induction on the calls, with one of the steps above for each way in which a call goes on
  apply searchType.mutual_induct registry
  case case1 =>
    intro type before old _
    rw [searchType, if_pos old]
    exact searched_visited old
  case case2 =>
    intro type before new extensible _
    rw [searchType, if_neg new, if_pos extensible]
    exact searched_extensible new extensible
  case case3 =>
    intro type before new closed ih mem
    rw [searchType, if_neg new, if_neg closed]
    exact ih.of_fields sound mem new closed
  case case4 =>
    intro before
    rw [searchFields]
    exact searchedFields_nil
  case case5 =>
    intro before field fields required
    rw [searchFields_cons, if_pos required]
    exact searchedFields_required required
  case case6 =>
    intro before field fields optional value ih
    simp only [searchFields_cons, if_neg optional, value]
    exact ih.skip optional value
  case case7 =>
    intro before field fields optional valueType value inner found ih
    simp only [searchFields_cons, if_neg optional, value]
    rw [if_pos found]
    refine (ih (mem_types_of_value value)).of_found found False.elim fun start same => ?_
    exact leads_cons.2 (.inl (same ▸ value))
  case case8 =>
    intro before field fields optional valueType value inner none ih rest
    simp only [searchFields_cons, if_neg optional, value]
    rw [if_neg none]
    exact (ih (mem_types_of_value value)).andThen optional value none rest

/-- The search that begins with a type finds something just if the type may lack a field. -/
theorem searchType_found_iff (sound : registry.Sound) (mem : type ∈ registry.types) :
    (registry.searchType type []).found = true ↔ registry.MayLack type := by
  have outcome := (searched sound).1 type [] mem
  constructor
  · intro found
    obtain ⟨start, rfl, mayLack⟩ := (outcome.found found).resolve_left not_false
    exact mayLack
  · rintro ⟨last, reached, lacks⟩
    by_contra none
    obtain ⟨-, visited, clears⟩ := outcome.unfound (by simpa using none)
    -- whatever is reached was visited, and what was visited lacks nothing
    have all : ∀ other, registry.Reaches type other →
        other.fullName ∈ (registry.searchType type []).visited := by
      intro other reaches
      induction reaches with
      | refl => exact visited type rfl
      | tail reaches link ih =>
          exact (clears _ (Reaches.mem_types reaches mem) ih (by simp)).2 _ link
    have own := (clears last (reached.mem_types mem) (all last reached) (by simp)).1
    rw [lacks] at own
    cases own

/-- The search visits no type twice. -/
theorem nodup_visited (sound : registry.Sound) (mem : type ∈ registry.types) :
    (registry.searchType type []).visited.Nodup :=
  ((searched sound).1 type [] mem).distinct .nil

/-- Only types that are reached are visited. -/
theorem exists_reached_of_visited (sound : registry.Sound) (mem : type ∈ registry.types)
    {name : String} (visited : name ∈ (registry.searchType type []).visited) :
    ∃ other, registry.Reaches type other ∧ other.fullName = name := by
  obtain ⟨_, other, rfl, reached⟩ :=
    (((searched sound).1 type [] mem).reached name visited).resolve_left List.not_mem_nil
  exact ⟨other, reached⟩

theorem length_visited_le (sound : registry.Sound) (mem : type ∈ registry.types) :
    (registry.searchType type []).visited.length ≤ registry.types.length := by
  have named : (registry.searchType type []).visited ⊆ registry.types.map MessageType.fullName := by
    intro name visited
    obtain ⟨other, reached, named⟩ := exists_reached_of_visited sound mem visited
    exact List.mem_map.2 ⟨other, reached.mem_types mem, named⟩
  rw [← List.length_map MessageType.fullName]
  exact (List.subperm_of_subset (nodup_visited sound mem) named).length_le

end ProtoWire.Registry
