import ProtoWire.Bytes.Basic

/-!
# Variable-length words

A word is written in groups of seven bits, least significant group first; every
byte but the last has its high bit set. A reader accepts at most ten bytes, of
which the tenth is at most one, so that each accepted word has 64 bits. Longer
forms of a word than the one that is written are accepted.

The main statements are `read_write`, that a written word reads back in front of
any bytes, `length_write`, that `size` counts the bytes written, and
`append_of_read`, that reading takes bytes off the front only.
-/

set_option autoImplicit false

namespace ProtoWire.Varint

/-- The number of bytes a word takes: one for each seven bits, and one for zero. -/
def size (n : Nat) : Nat :=
  n.log2 / 7 + 1

/-- Writes at most the given number of groups. -/
def writeGroups : Nat → Nat → Bytes
  | 0, _ => []
  | groups + 1, n =>
      if n < 128 then [UInt8.ofNat n]
      else UInt8.ofNat (n % 128 + 128) :: writeGroups groups (n / 128)

/-- The shortest form of a word. -/
def write (n : Nat) : Bytes :=
  writeGroups (size n) n

/-- The most bytes a word may take. -/
def maxSize : Nat := 10

/-- Reads at most the given number of groups; the tenth group of a word holds
its last bit only. -/
def readGroups : Nat → Bytes → Option (Nat × Bytes)
  | 0, _ => none
  | _ + 1, [] => none
  | groups + 1, byte :: rest =>
      if byte.toNat < 128 then
        if groups = 0 ∧ 1 < byte.toNat then none else some (byte.toNat, rest)
      else
        match readGroups groups rest with
        | some (high, rest') => some (byte.toNat - 128 + 128 * high, rest')
        | none => none

/-- Reads one word, and returns it with the bytes after it. -/
def read (bytes : Bytes) : Option (Nat × Bytes) :=
  readGroups maxSize bytes

/-! ## Sizes -/

theorem log2_of_le {n : Nat} (h : 128 ≤ n) : n.log2 = (n / 128).log2 + 7 := by
  have h1 := Nat.log2_def n
  have h2 := Nat.log2_def (n / 2)
  have h3 := Nat.log2_def (n / 2 / 2)
  have h4 := Nat.log2_def (n / 2 / 2 / 2)
  have h5 := Nat.log2_def (n / 2 / 2 / 2 / 2)
  have h6 := Nat.log2_def (n / 2 / 2 / 2 / 2 / 2)
  have h7 := Nat.log2_def (n / 2 / 2 / 2 / 2 / 2 / 2)
  have seven : n / 2 / 2 / 2 / 2 / 2 / 2 / 2 = n / 128 := by omega
  rw [seven] at h7
  split at h1 <;> split at h2 <;> split at h3 <;> split at h4 <;> split at h5 <;>
    split at h6 <;> split at h7 <;> omega

theorem size_of_lt {n : Nat} (h : n < 128) : size n = 1 := by
  have : n.log2 < 7 := by
    rcases Nat.eq_zero_or_pos n with rfl | pos
    · decide
    · exact (Nat.log2_lt (by omega)).2 h
  simp only [size]
  omega

theorem size_of_le {n : Nat} (h : 128 ≤ n) : size n = size (n / 128) + 1 := by
  simp only [size, log2_of_le h]
  omega

theorem size_pos (n : Nat) : 0 < size n := by
  simp [size]

theorem write_of_lt {n : Nat} (h : n < 128) : write n = [UInt8.ofNat n] := by
  simp [write, size_of_lt h, writeGroups, h]

theorem write_of_le {n : Nat} (h : 128 ≤ n) :
    write n = UInt8.ofNat (n % 128 + 128) :: write (n / 128) := by
  rw [write, size_of_le h, writeGroups, if_neg (by omega), write]

@[simp]
theorem length_write (n : Nat) : (write n).length = size n := by
  induction n using Nat.strongRecOn with
  | ind n ih =>
      by_cases h : n < 128
      · simp [write_of_lt h, size_of_lt h]
      · have le : 128 ≤ n := by omega
        rw [write_of_le le, List.length_cons, ih (n / 128) (by omega), size_of_le le]

theorem write_ne_nil (n : Nat) : write n ≠ [] := by
  intro h
  have := length_write n
  have := size_pos n
  simp_all

/-! ## Reading -/

/-- How many words can be read in the given number of groups and one more: the
last group holds one bit, each other seven. -/
def capacity : Nat → Nat
  | 0 => 2
  | groups + 1 => 128 * capacity groups

theorem capacity_pos (groups : Nat) : 0 < capacity groups := by
  induction groups with
  | zero => decide
  | succ groups ih =>
      simp only [capacity]
      omega

theorem readGroups_write (groups n : Nat) (h : n < capacity groups) (rest : Bytes) :
    readGroups (groups + 1) (write n ++ rest) = some (n, rest) := by
  induction groups generalizing n with
  | zero =>
      have tiny : n < 2 := h
      have small : n < 128 := by omega
      have byte : (UInt8.ofNat n).toNat = n := by
        rw [UInt8.toNat_ofNat']
        omega
      simp only [write_of_lt small, List.cons_append, List.nil_append, readGroups, byte]
      rw [if_pos small, if_neg (by omega)]
  | succ groups ih =>
      by_cases small : n < 128
      · have byte : (UInt8.ofNat n).toNat = n := by
          rw [UInt8.toNat_ofNat']
          omega
        simp only [write_of_lt small, List.cons_append, List.nil_append, readGroups, byte]
        rw [if_pos small, if_neg (by omega)]
      · have byte : (UInt8.ofNat (n % 128 + 128)).toNat = n % 128 + 128 := by
          rw [UInt8.toNat_ofNat']
          omega
        have bound : n / 128 < capacity groups := Nat.div_lt_of_lt_mul h
        rw [write_of_le (by omega), List.cons_append, readGroups, byte, if_neg (by omega),
          ih (n / 128) bound]
        simp only [Option.some.injEq, Prod.mk.injEq, and_true]
        omega

/-- A word written reads back, and the bytes behind it are left. -/
theorem read_write {n : Nat} (h : n < UInt64.size) (rest : Bytes) :
    read (write n ++ rest) = some (n, rest) :=
  readGroups_write 9 n h rest

theorem readGroups_bound {groups n : Nat} {bytes rest : Bytes}
    (h : readGroups (groups + 1) bytes = some (n, rest)) : n < capacity groups := by
  induction groups generalizing n bytes rest with
  | zero =>
      cases bytes with
      | nil => simp [readGroups] at h
      | cons byte bytes =>
          simp only [readGroups] at h
          split at h
          · split at h
            · simp at h
            · next legal =>
                simp only [Option.some.injEq, Prod.mk.injEq] at h
                simp only [true_and] at legal
                simp only [capacity]
                omega
          · simp at h
  | succ groups ih =>
      simp only [capacity]
      cases bytes with
      | nil => simp [readGroups] at h
      | cons byte bytes =>
          rw [readGroups] at h
          split at h
          · split at h
            · simp at h
            · simp only [Option.some.injEq, Prod.mk.injEq] at h
              have := capacity_pos groups
              omega
          · split at h
            · next high rest' eq =>
                have := ih eq
                have := byte.toNat_lt
                simp only [Option.some.injEq, Prod.mk.injEq] at h
                omega
            · simp at h

/-- A word that is read has 64 bits. -/
theorem lt_of_read {n : Nat} {bytes rest : Bytes} (h : read bytes = some (n, rest)) :
    n < UInt64.size :=
  @readGroups_bound 9 n bytes rest h

theorem append_of_readGroups {groups n : Nat} {bytes rest : Bytes}
    (h : readGroups groups bytes = some (n, rest)) :
    ∃ front, front ≠ [] ∧ bytes = front ++ rest ∧
      ∀ more, readGroups groups (front ++ more) = some (n, more) := by
  induction groups generalizing n bytes rest with
  | zero => simp [readGroups] at h
  | succ groups ih =>
      cases bytes with
      | nil => simp [readGroups] at h
      | cons byte bytes =>
          simp only [readGroups] at h
          split at h
          · next small =>
              split at h
              · simp at h
              · next legal =>
                  simp only [Option.some.injEq, Prod.mk.injEq] at h
                  obtain ⟨value, rfl⟩ := h
                  refine ⟨[byte], by simp, rfl, fun more => ?_⟩
                  rw [List.cons_append, List.nil_append, readGroups, if_pos small,
                    if_neg legal, value]
          · next large =>
              split at h
              · next high rest' eq =>
                  simp only [Option.some.injEq, Prod.mk.injEq] at h
                  obtain ⟨value, rfl⟩ := h
                  obtain ⟨front, -, same, reads⟩ := ih eq
                  refine ⟨byte :: front, by simp, by simp [same], fun more => ?_⟩
                  rw [List.cons_append, readGroups, if_neg large, reads more]
                  simp only [value]
              · simp at h

/-- Reading takes some bytes off the front, and would take the same ones in front
of any other bytes. -/
theorem append_of_read {n : Nat} {bytes rest : Bytes} (h : read bytes = some (n, rest)) :
    ∃ front, front ≠ [] ∧ bytes = front ++ rest ∧
      ∀ more, read (front ++ more) = some (n, more) :=
  append_of_readGroups h

end ProtoWire.Varint
