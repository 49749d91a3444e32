import HttpClientGen.Wire.Record
import Mathlib.Algebra.Group.Nat.Defs

/-!
# Written forms of an integer

An integer may be written with more groups of seven bits than it needs. The reader takes every
written form that has at most ten bytes and stands for an integer of 64 bits, and it looks at
nothing behind the form. The writer chooses the shortest one.
-/

namespace HttpClientGen.Wire

/-- The bytes hold the groups of an integer, the lowest one first. The highest groups may be zero. -/
inductive Groups : Nat → Bytes → Prop
  | last {byte : UInt8} (ends : byte.toNat < 128) : Groups byte.toNat [byte]
  | more {byte : UInt8} {high : Nat} {rest : Bytes} (goesOn : 128 ≤ byte.toNat)
      (higher : Groups high rest) : Groups (byte.toNat - 128 + 128 * high) (byte :: rest)

/-- The bytes are a written form of an integer of 64 bits. -/
structure IsVarint (n : Nat) (bytes : Bytes) : Prop where
  groups : Groups n bytes
  short : bytes.length ≤ 10
  fits : n < 2 ^ 64

theorem Groups.length_pos {n : Nat} {bytes : Bytes} (groups : Groups n bytes) :
    0 < bytes.length := by
  cases groups <;> simp

/-- The reader gives back the integer of any form that its budget has room for. The last byte that
fits into the budget holds a single bit. -/
theorem readVarint_of_groups {n budget : Nat} {bytes : Bytes} (groups : Groups n bytes)
    (short : bytes.length ≤ budget + 1) (fits : n < 2 * 128 ^ budget) (rest : Bytes) :
    readVarint (budget + 1) (bytes ++ rest) = some (n, rest) := by
  induction groups generalizing budget with
  | @last byte ends =>
    have small : ¬(budget = 0 ∧ 1 < byte.toNat) := by
      rintro ⟨rfl, large⟩
      omega
    simp only [List.cons_append, List.nil_append, readVarint, if_pos ends, if_neg small]
  | @more byte high tail goesOn higher ih =>
    have pos := higher.length_pos
    obtain ⟨budget, rfl⟩ : ∃ less, budget = less + 1 := by
      refine ⟨budget - 1, ?_⟩
      rw [List.length_cons] at short
      omega
    have shorter : tail.length ≤ budget + 1 := by
      rw [List.length_cons] at short
      omega
    have less : high < 2 * 128 ^ budget := by
      rw [Nat.pow_succ] at fits
      omega
    have notLast : ¬byte.toNat < 128 := by omega
    rw [List.cons_append, readVarint, if_neg notLast, ih shorter less]
    rfl

theorem varint?_of_isVarint {n : Nat} {bytes : Bytes} (form : IsVarint n bytes) (rest : Bytes) :
    varint? (bytes ++ rest) = some (n, rest) := by
  refine readVarint_of_groups form.groups form.short ?_ rest
  have fits := form.fits
  omega

/-- What follows an integer does not matter to its reader. -/
theorem readVarint_append {budget n : Nat} {bytes rest : Bytes}
    (read : readVarint budget bytes = some (n, rest)) (more : Bytes) :
    readVarint budget (bytes ++ more) = some (n, rest ++ more) := by
  induction budget generalizing bytes n with
  | zero => simp [readVarint] at read
  | succ budget ih =>
    cases bytes with
    | nil => simp [readVarint] at read
    | cons byte bytes =>
      rw [readVarint] at read
      rw [List.cons_append, readVarint]
      by_cases ends : byte.toNat < 128
      · rw [if_pos ends] at read ⊢
        by_cases large : budget = 0 ∧ 1 < byte.toNat
        · rw [if_pos large] at read
          cases read
        · rw [if_neg large] at read ⊢
          obtain ⟨rfl, rfl⟩ := Prod.mk.inj (Option.some.inj read)
          rfl
      · rw [if_neg ends] at read ⊢
        obtain ⟨⟨high, tail⟩, inner, same⟩ := Option.map_eq_some_iff.mp read
        obtain ⟨rfl, rfl⟩ := Prod.mk.inj same
        rw [ih inner]
        rfl

theorem groups_putVarint (n : Nat) : Groups n (putVarint n) := by
  induction n using Nat.strongRecOn with
  | ind n ih =>
    rw [putVarint]
    by_cases small : n < 128
    · have same : (UInt8.ofNat n).toNat = n := by
        rw [UInt8.toNat_ofNat']
        omega
      have last : Groups (UInt8.ofNat n).toNat [UInt8.ofNat n] := .last (by omega)
      rw [same] at last
      rwa [if_pos small]
    · have low : (UInt8.ofNat (n % 128 + 128)).toNat = n % 128 + 128 := by
        rw [UInt8.toNat_ofNat']
        omega
      have goesOn : 128 ≤ (UInt8.ofNat (n % 128 + 128)).toNat := by omega
      have more := Groups.more goesOn (ih (n / 128) (by omega))
      have whole : (UInt8.ofNat (n % 128 + 128)).toNat - 128 + 128 * (n / 128) = n := by omega
      rw [whole] at more
      rwa [if_neg small]

theorem length_putVarint_le {n budget : Nat} (fits : n < 2 * 128 ^ budget) :
    (putVarint n).length ≤ budget + 1 := by
  induction budget generalizing n with
  | zero =>
    rw [putVarint, if_pos (by omega)]
    simp
  | succ budget ih =>
    rw [putVarint]
    by_cases small : n < 128
    · rw [if_pos small]
      simp
    · have less : n / 128 < 2 * 128 ^ budget := by
        rw [Nat.pow_succ] at fits
        omega
      have shorter := ih less
      rw [if_neg small, List.length_cons]
      omega

/-- The writer gives a form of every integer of 64 bits. -/
theorem isVarint_putVarint {n : Nat} (fits : n < 2 ^ 64) : IsVarint n (putVarint n) :=
  ⟨groups_putVarint n, length_putVarint_le (by omega), fits⟩

end HttpClientGen.Wire
