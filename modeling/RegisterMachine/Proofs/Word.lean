import Mathlib.Algebra.Ring.Nat
import RegisterMachine.Word

namespace RegisterMachine.Word

/-!
# Words and their bytes

Eight bytes and a word determine each other: a word is read back from its own
bytes, and the bytes of a word that was read are those it was read from.
-/

/-- Reading the low bytes of a value gives the value below that power of 256. -/
theorem ofBytes_lowBytes
    (count : Nat)
    (value : UInt64)
    (bound : count ≤ 8) :
    (ofBytes (lowBytes count value)).toNat = value.toNat % 256 ^ count := by
  induction count generalizing value with
  | zero =>
      simp [lowBytes, ofBytes, Nat.mod_one]
  | succ count inductionHypothesis =>
      have high := inductionHypothesis (value / 256) (by omega)
      have power : 256 ^ count ≤ 256 ^ 7 :=
        Nat.pow_le_pow_right (by decide) (by omega)
      have remainder : value.toNat / 256 % 256 ^ count < 256 ^ count :=
        Nat.mod_lt _ (Nat.pow_pos (by decide))
      simp only [lowBytes, ofBytes, List.foldr_cons] at high ⊢
      rw [UInt64.toNat_add, UInt64.toNat_mul, high]
      simp only [UInt64.toNat_div, UInt8.toNat_toUInt64, UInt64.toNat_toUInt8,
        UInt64.reduceToNat]
      have split :
          value.toNat % 256 ^ (count + 1) =
            value.toNat % 256 + 256 * (value.toNat / 256 % 256 ^ count) := by
        rw [Nat.pow_succ, Nat.mul_comm (256 ^ count) 256, Nat.mod_mul]
      omega

/-- A word is read back from its own bytes. -/
@[simp] theorem ofBytes_toBytes (value : UInt64) :
    ofBytes (toBytes value) = value := by
  apply UInt64.toNat_inj.mp
  rw [toBytes, ofBytes_lowBytes byteCount value (Nat.le_refl 8)]
  exact Nat.mod_eq_of_lt value.toNat_lt

private theorem toNat_ofBytes_cons_of_lt
    {byte : UInt8}
    {rest : List UInt8}
    (bound : (ofBytes rest).toNat < 256 ^ 7) :
    (ofBytes (byte :: rest)).toNat =
      (ofBytes rest).toNat * 256 + byte.toNat := by
  have small : byte.toNat < 256 := byte.toNat_lt
  have unfolded :
      ofBytes (byte :: rest) = ofBytes rest * 256 + byte.toUInt64 := rfl
  rw [unfolded, UInt64.toNat_add, UInt64.toNat_mul, UInt8.toNat_toUInt64]
  have base : (256 : UInt64).toNat = 256 := rfl
  rw [base]
  omega

/-- Up to eight bytes denote a value below the matching power of 256. -/
theorem toNat_ofBytes_lt
    {bytes : List UInt8}
    (bound : bytes.length ≤ 8) :
    (ofBytes bytes).toNat < 256 ^ bytes.length := by
  induction bytes with
  | nil =>
      decide
  | cons byte rest inductionHypothesis =>
      have restBound : rest.length ≤ 7 := Nat.le_of_succ_le_succ bound
      have restValue : (ofBytes rest).toNat < 256 ^ rest.length :=
        inductionHypothesis (Nat.le_succ_of_le restBound)
      have power : 256 ^ rest.length ≤ 256 ^ 7 :=
        Nat.pow_le_pow_right (by decide) restBound
      have small : byte.toNat < 256 := byte.toNat_lt
      rw [toNat_ofBytes_cons_of_lt (Nat.lt_of_lt_of_le restValue power),
        List.length_cons, Nat.pow_succ]
      omega

theorem toNat_ofBytes_cons
    (byte : UInt8)
    {rest : List UInt8}
    (bound : rest.length ≤ 7) :
    (ofBytes (byte :: rest)).toNat =
      (ofBytes rest).toNat * 256 + byte.toNat := by
  apply toNat_ofBytes_cons_of_lt
  have restValue := toNat_ofBytes_lt (Nat.le_succ_of_le bound)
  exact Nat.lt_of_lt_of_le restValue (Nat.pow_le_pow_right (by decide) bound)

/-- The low bytes of a value that was read from bytes are those bytes. -/
theorem lowBytes_ofBytes
    {bytes : List UInt8}
    (bound : bytes.length ≤ 8) :
    lowBytes bytes.length (ofBytes bytes) = bytes := by
  induction bytes with
  | nil =>
      rfl
  | cons byte rest inductionHypothesis =>
      have restBound : rest.length ≤ 7 := Nat.le_of_succ_le_succ bound
      have value := toNat_ofBytes_cons byte restBound
      have small : byte.toNat < 256 := byte.toNat_lt
      have low : (ofBytes (byte :: rest)).toUInt8 = byte := by
        apply UInt8.toNat_inj.mp
        rw [UInt64.toNat_toUInt8, value]
        omega
      have high : ofBytes (byte :: rest) / 256 = ofBytes rest := by
        apply UInt64.toNat_inj.mp
        rw [UInt64.toNat_div, value]
        have base : (256 : UInt64).toNat = 256 := rfl
        rw [base]
        omega
      rw [List.length_cons, lowBytes, low, high,
        inductionHypothesis (Nat.le_succ_of_le restBound)]

/-- The bytes of a word that was read from eight bytes are those bytes. -/
theorem toBytes_ofBytes
    {bytes : List UInt8}
    (sameLength : bytes.length = byteCount) :
    toBytes (ofBytes bytes) = bytes := by
  have read : lowBytes bytes.length (ofBytes bytes) = bytes :=
    lowBytes_ofBytes (Nat.le_of_eq sameLength)
  rwa [sameLength] at read

/-- A count that goes on from its successor is one more. -/
theorem add_one_add_ofNat (value : UInt64) (count : Nat) :
    value + 1 + UInt64.ofNat count = value + UInt64.ofNat (count + 1) := by
  rw [UInt64.ofNat_add, UInt64.add_assoc, UInt64.add_comm 1]
  rfl

end RegisterMachine.Word
