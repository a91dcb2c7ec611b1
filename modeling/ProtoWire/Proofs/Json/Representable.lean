import Mathlib.Data.Nat.Digits.Defs
import ProtoWire.Json.Written
import ProtoWire.Proofs.Json.Members
import ProtoWire.Proofs.Number.Binary

/-!
# Numbers of JSON values

The integers of a JSON value fit 64 bits, signed or unsigned, and its other numbers are finite
(`Json.Representable`). So it is with every value that a text is parsed to
(`Json.representable_of_parse`), and then every number of the value is one of binary64
(`Json.Representable.finite_toDouble`).
-/

set_option autoImplicit false

namespace ProtoWire

/-! ## Decimal numbers -/

/-- A whole number of 64 bits is not rounded to infinity. -/
theorem Decimal.finite_toDouble {digits : Nat} (small : digits ≤ 2 ^ 64) (negative : Bool) :
    BinaryFormat.double.Finite (Decimal.toDouble negative ⟨digits, 0⟩) := by
  have count : Decimal.digitCount digits ≤ 20 := by
    rw [Decimal.digitCount, Decimal.digitsOf, Nat.length_toDigits_le_iff (by decide) (by decide)]
    omega
  have precise : 0 < BinaryFormat.double.precision := by decide
  have finite := @BinaryFormat.ofFraction_whole_lt_infinity .double precise (digits * 1) 65 1086
    (by omega) rfl (by decide)
  have zero := @BinaryFormat.add_sign_mod .double precise 0 (by decide) (negative = true) _
  have one : powerOfTen 0 = (1, 1) := rfl
  rw [Nat.zero_add] at zero
  rw [BinaryFormat.finite_iff]
  simp only [toDouble, one]
  split
  · rw [zero]
    decide
  · rw [if_neg (by omega), BinaryFormat.ofFraction_eq_add_sign,
      BinaryFormat.add_sign_mod precise finite]
    exact finite

namespace Json

/-- The numbers in a value are those that a JSON document can hold: integers of 64 bits, signed or
unsigned, and finite floating-point numbers. -/
inductive Representable : Json → Prop
  | null : Representable .null
  | bool (value : Bool) : Representable (.bool value)
  | int {value : Int} : -(2 ^ 63) ≤ value → value < 2 ^ 64 → Representable (.int value)
  | float {bits : UInt64} : BinaryFormat.double.Finite bits.toNat → Representable (.float bits)
  | string (text : String) : Representable (.string text)
  | array {items : List Json} : (∀ item ∈ items, Representable item) → Representable (.array items)
  | object {members : List (String × Json)} :
      (∀ member ∈ members, Representable member.2) → Representable (.object members)

theorem finite_ofNat {bits : Nat} (finite : BinaryFormat.double.Finite bits) :
    BinaryFormat.double.Finite (UInt64.ofNat bits).toNat := by
  have sign : BinaryFormat.double.signBit ∣ 2 ^ 64 := ⟨2, rfl⟩
  rw [BinaryFormat.finite_iff] at finite ⊢
  rwa [UInt64.toNat_ofNat', Nat.mod_mod_of_dvd _ sign]

/-- Every number of the value is a finite number of binary64. -/
theorem Representable.finite_toDouble {json : Json} {bits : UInt64}
    (representable : json.Representable) (number : json.toDouble? = some bits) :
    BinaryFormat.double.Finite bits.toNat := by
  cases representable with
  | @int value low high =>
      obtain rfl := Option.some.inj number
      exact finite_ofNat (Decimal.finite_toDouble (show value.natAbs ≤ 2 ^ 64 by omega) _)
  | float finite =>
      obtain rfl := Option.some.inj number
      exact finite
  | _ => cases number

/-! ## Parsed values -/

/-- An object has no members but those that were put in. -/
theorem mem_of_mem_insertMember {name : String} {value : Json} {members : List (String × Json)}
    {member : String × Json} (mem : member ∈ insertMember name value members) :
    member = (name, value) ∨ member ∈ members := by
  induction members with
  | nil => exact .inl (List.mem_singleton.1 mem)
  | cons first members ih =>
      obtain ⟨other, held⟩ := first
      rw [insertMember] at mem
      split at mem
      · exact List.mem_cons.1 mem
      · split at mem
        · exact (List.mem_cons.1 mem).imp_right (List.mem_cons_of_mem _)
        · rcases List.mem_cons.1 mem with rfl | later
          · exact .inr List.mem_cons_self
          · exact (ih later).imp_right (List.mem_cons_of_mem _)

theorem mem_of_mem_sortMembers {members : List (String × Json)} {member : String × Json}
    (mem : member ∈ sortMembers members) : member ∈ members := by
  have key : ∀ members sorted : List (String × Json),
      member ∈ members.foldl (fun sorted member => insertMember member.1 member.2 sorted) sorted →
        member ∈ sorted ∨ member ∈ members := by
    intro members
    induction members with
    | nil => exact fun sorted mem => .inl mem
    | cons first members ih =>
        intro sorted mem
        rcases ih _ mem with inserted | later
        · rcases mem_of_mem_insertMember inserted with rfl | before
          · exact .inr List.mem_cons_self
          · exact .inl before
        · exact .inr (List.mem_cons_of_mem _ later)
  exact (key members [] mem).resolve_left List.not_mem_nil

/-- A numeral is read as a 64-bit integer or as a finite number. -/
theorem representable_of_numeral {numeral : Numeral} {json : Json}
    (value : numeral.value? = some json) : json.Representable := by
  have half : UInt64.size / 2 = 2 ^ 63 := rfl
  simp only [Numeral.value?, half] at value
  cases sign : numeral.negative <;>
    simp only [sign, if_true, Bool.false_eq_true, if_false, UInt64.size] at value
  all_goals
    split at value
    · next integer =>
        obtain rfl := Option.some.inj value
        simp only [Bool.and_eq_true, decide_eq_true_eq] at integer
        exact .int (by omega) (by omega)
    · rw [Option.ite_none_right_eq_some] at value
      obtain ⟨finite, eq⟩ := value
      obtain rfl := Option.some.inj eq
      exact .float (finite_ofNat finite)

/-- A scalar that has a value has a representable one. -/
theorem representable_of_scalar {scalar : Scalar} {json : Json}
    (value : scalar.value? = some json) : json.Representable := by
  cases scalar with
  | null => cases value; exact .null
  | bool => cases value; exact .bool _
  | number numeral => exact representable_of_numeral value
  | string pieces =>
      obtain ⟨text, -, rfl⟩ := Option.map_eq_some_iff.1 value
      exact .string text

mutual

/-- By induction over what is written: its items and members are representable. -/
theorem representable_of_value? {depth : Nat} {json : Json} :
    ∀ written : Written, written.value? depth = some json → json.Representable
  | .scalar content, value => representable_of_scalar (by rwa [Written.value?] at value)
  | .array items, value => by
      cases depth with
      | zero => cases value
      | succ depth =>
          obtain ⟨values, read, rfl⟩ := Option.map_eq_some_iff.1 value
          exact .array (representable_of_itemValues? items (by simp) read)
  | .object members, value => by
      cases depth with
      | zero => cases value
      | succ depth =>
          obtain ⟨values, read, rfl⟩ := Option.map_eq_some_iff.1 value
          exact .object fun member mem =>
            representable_of_memberValues? members (by simp) read member
              (mem_of_mem_sortMembers mem)

theorem representable_of_itemValues? {depth : Nat} {read values : List Json} :
    ∀ items : List Written, (∀ value ∈ read, value.Representable) →
      Written.itemValues? depth read items = some values → ∀ value ∈ values, value.Representable
  | [], before, eq => by
      obtain rfl := Option.some.inj eq
      simpa using before
  | item :: items, before, eq => by
      rw [Written.itemValues?] at eq
      split at eq
      · next value found =>
          exact representable_of_itemValues? items
            (List.forall_mem_cons.2 ⟨representable_of_value? item found, before⟩) eq
      · cases eq

theorem representable_of_memberValues? {depth : Nat} {read values : List (String × Json)} :
    ∀ members : List (List Piece × Written), (∀ value ∈ read, value.2.Representable) →
      Written.memberValues? depth read members = some values →
        ∀ value ∈ values, value.2.Representable
  | [], before, eq => by
      obtain rfl := Option.some.inj eq
      simpa using before
  | member :: members, before, eq => by
      rw [Written.memberValues?] at eq
      split at eq
      · next value found =>
          exact representable_of_memberValues? members
            (List.forall_mem_cons.2 ⟨representable_of_memberValue? member found, before⟩) eq
      · cases eq

theorem representable_of_memberValue? {depth : Nat} {value : String × Json} :
    ∀ member : List Piece × Written, Written.memberValue? depth member = some value →
      value.2.Representable
  | (name, written), eq => by
      rw [Written.memberValue?] at eq
      split at eq
      · next found =>
          obtain rfl := Option.some.inj eq
          exact representable_of_value? written found
      · cases eq

end

/-- The numbers in a parsed value are those that a JSON document can hold. -/
theorem representable_of_parse {text : String} {json : Json} (parsed : parse text = some json) :
    json.Representable := by
  obtain ⟨written, -, value⟩ := Option.bind_eq_some_iff.1 parsed
  exact representable_of_value? written value

end Json

end ProtoWire
