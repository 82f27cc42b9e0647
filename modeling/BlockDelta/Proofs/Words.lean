import BlockDelta.Bytes
import Mathlib

/-!
# Words as digits

A word is the number that its base-256 digits stand for: what is written in
some width is read back modulo that width.
-/

namespace BlockDelta.Bytes

/-- Reading continues from the digits already read. -/
theorem foldl_digits (bytes : Bytes) (start : Nat) :
    bytes.foldl (fun value byte => value * 256 + byte.toNat) start =
      start * 256 ^ bytes.length + toWord bytes := by
  induction bytes generalizing start with
  | nil => simp [toWord]
  | cons byte rest ih =>
    simp only [List.foldl_cons, toWord, List.length_cons]
    rw [ih, ih (0 * 256 + byte.toNat), Nat.pow_succ, Nat.add_mul]
    simp only [Nat.zero_mul, Nat.zero_add, Nat.mul_assoc, Nat.mul_comm 256]
    omega

/-- The first byte is the most significant digit. -/
theorem toWord_cons (byte : UInt8) (rest : Bytes) :
    toWord (byte :: rest) = byte.toNat * 256 ^ rest.length + toWord rest := by
  rw [toWord, List.foldl_cons, foldl_digits]
  simp

/-- A shift by whole bytes drops digits. -/
theorem shiftRight_bytes (value width : Nat) : value >>> (8 * width) = value / 256 ^ width := by
  rw [Nat.shiftRight_eq_div_pow, Nat.pow_mul]

/-- Reading back a written word keeps what fits its width. -/
theorem toWord_ofWord (width value : Nat) : toWord (ofWord width value) = value % 256 ^ width := by
  induction width with
  | zero => simp [ofWord, toWord, Nat.mod_one]
  | succ width ih =>
    have digit : (UInt8.ofNat (value / 256 ^ width)).toNat = value / 256 ^ width % 256 := by simp
    rw [ofWord, shiftRight_bytes, toWord_cons, ih, length_ofWord, digit, Nat.pow_succ, Nat.mod_mul,
      Nat.mul_comm, Nat.add_comm]

/-- A number of `n` digits is below the `n`-th power of the base. -/
theorem toWord_lt (bytes : Bytes) : toWord bytes < 256 ^ bytes.length := by
  induction bytes with
  | nil => simp [toWord]
  | cons byte rest ih =>
    rw [toWord_cons, List.length_cons, Nat.pow_succ]
    have digit : byte.toNat < 256 := byte.toNat_lt
    have : (byte.toNat + 1) * 256 ^ rest.length ≤ 256 * 256 ^ rest.length :=
      Nat.mul_le_mul_right _ digit
    rw [Nat.add_mul] at this
    omega

/-- Digits beyond the width are not written. -/
theorem ofWord_add (width high value : Nat) :
    ofWord width (high * 256 ^ width + value) = ofWord width value := by
  induction width generalizing high with
  | zero => rfl
  | succ width ih =>
    have moved : high * 256 ^ (width + 1) + value = high * 256 * 256 ^ width + value := by
      rw [Nat.pow_succ, Nat.mul_assoc, Nat.mul_comm 256]
    have digit : (high * 256 * 256 ^ width + value) / 256 ^ width =
        high * 256 + value / 256 ^ width := by
      rw [Nat.add_comm, Nat.add_mul_div_right _ _ (Nat.pow_pos (by decide)), Nat.add_comm]
    rw [ofWord, ofWord, moved, ih, shiftRight_bytes, shiftRight_bytes, digit]
    congr 1
    rw [← UInt8.toNat_inj, UInt8.toNat_ofNat', UInt8.toNat_ofNat']
    exact Nat.mul_add_mod' high 256 _

/-- A word that was read is written as the bytes it was read from. -/
theorem ofWord_toWord (bytes : Bytes) : ofWord bytes.length (toWord bytes) = bytes := by
  induction bytes with
  | nil => rfl
  | cons byte rest ih =>
    have below := toWord_lt rest
    have digit : (byte.toNat * 256 ^ rest.length + toWord rest) / 256 ^ rest.length =
        byte.toNat := by
      rw [Nat.add_comm, Nat.add_mul_div_right _ _ (Nat.pow_pos (by decide)),
        Nat.div_eq_of_lt below, Nat.zero_add]
    rw [toWord_cons, List.length_cons, ofWord, shiftRight_bytes, digit, ofWord_add, ih,
      UInt8.ofNat_toNat]

end BlockDelta.Bytes
