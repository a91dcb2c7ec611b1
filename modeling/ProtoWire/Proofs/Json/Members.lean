import ProtoWire.Message.Json

/-!
# Members of objects

Members of different names are sorted without being lost (`Json.perm_sortMembers`), values inside a
value nest less deeply than it, and the bracketed names are those that extensions have
(`Json.bracketed?_eq_some_iff`).
-/

set_option autoImplicit false

namespace ProtoWire.Json

/-! ## Sorting -/

/-- A member of a new name is put somewhere between the others. -/
theorem perm_insertMember {name : String} {value : Json} {members : List (String × Json)}
    (fresh : name ∉ members.map Prod.fst) :
    (insertMember name value members).Perm ((name, value) :: members) := by
  induction members with
  | nil => exact .refl _
  | cons member members ih =>
      obtain ⟨other, held⟩ := member
      rw [List.map_cons, List.mem_cons, not_or] at fresh
      rw [insertMember]
      split
      · exact .refl _
      · rw [if_neg fresh.1]
        exact ((ih fresh.2).cons _).trans (.swap _ _ _)

/-- Sorting keeps all members of different names. -/
theorem perm_sortMembers {members : List (String × Json)}
    (distinct : (members.map Prod.fst).Nodup) : (sortMembers members).Perm members := by
  -- the members that come later are put among those that are sorted already
  have key : ∀ members sorted : List (String × Json), ((sorted ++ members).map Prod.fst).Nodup →
      (members.foldl (fun sorted member => insertMember member.1 member.2 sorted) sorted).Perm
        (sorted ++ members) := by
    intro members
    induction members with
    | nil =>
        intro sorted _
        rw [List.append_nil]
        exact .refl _
    | cons member members ih =>
        intro sorted distinct
        have fresh : member.1 ∉ sorted.map Prod.fst := by
          intro mem
          rw [List.map_append, List.nodup_append] at distinct
          exact distinct.2.2 _ mem _ List.mem_cons_self rfl
        have moved : (insertMember member.1 member.2 sorted ++ members).Perm
            (sorted ++ member :: members) :=
          ((perm_insertMember fresh).append_right members).trans List.perm_middle.symm
        exact (ih _ ((moved.map Prod.fst).nodup_iff.2 distinct)).trans moved
  exact key members [] distinct

/-! ## Depths -/

theorem depth_le_itemsDepth {items : List Json} {item : Json} (mem : item ∈ items) :
    item.depth ≤ itemsDepth items := by
  induction items with
  | nil => simp at mem
  | cons first items ih =>
      rw [itemsDepth]
      rcases List.mem_cons.1 mem with rfl | later
      · exact Nat.le_max_left _ _
      · exact Nat.le_trans (ih later) (Nat.le_max_right _ _)

theorem depth_le_membersDepth {members : List (String × Json)} {member : String × Json}
    (mem : member ∈ members) : member.2.depth ≤ membersDepth members := by
  induction members with
  | nil => simp at mem
  | cons first members ih =>
      rw [membersDepth]
      rcases List.mem_cons.1 mem with rfl | later
      · exact Nat.le_trans (Nat.le_of_eq (by rw [memberDepth])) (Nat.le_max_left _ _)
      · exact Nat.le_trans (ih later) (Nat.le_max_right _ _)

/-! ## Bracketed names -/

/-- A name is bracketed if it is one of those that extensions have. -/
theorem bracketed?_eq_some_iff {key name : String} :
    bracketed? key = some name ↔ key = "[" ++ name ++ "]" := by
  have list : key = "[" ++ name ++ "]" ↔ key.toList = '[' :: (name.toList ++ [']']) := by
    rw [← String.toList_inj]
    simp
  rw [list, bracketed?]
  constructor
  · intro found
    split at found
    · next rest eq =>
        split at found
        · next inner eq' =>
            obtain rfl := Option.some.inj found
            rw [eq, String.toList_ofList, ← List.reverse_cons, ← eq', List.reverse_reverse]
        · simp at found
    · simp at found
  · intro eq
    simp [eq]

end ProtoWire.Json
