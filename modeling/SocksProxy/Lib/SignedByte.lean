import Mathlib.Data.Int.Basic
import Mathlib.Tactic.Common
import Mathlib.Tactic.SplitIfs

/-! Bytes read as signed characters: those from 128 on are negative. -/
namespace SocksProxy.SignedByte

variable {b c : UInt8}

theorem toInt_toInt8 (b : UInt8) :
    b.toInt8.toInt = if b.toNat < 128 then (b.toNat : ℤ) else b.toNat - 256 := by
  have hmod : b.toInt8.toInt = (b.toNat : ℤ).bmod 256 := BitVec.toInt_eq_toNat_bmod b.toBitVec
  have hlt := b.toNat_lt
  rw [hmod, Int.bmod_def]
  split_ifs <;> omega

theorem nonneg_iff : 0 ≤ b.toInt8 ↔ b.toNat < 128 := by
  have hlt := b.toNat_lt
  rw [Int8.le_iff_toInt_le, toInt_toInt8]
  change 0 ≤ _ ↔ _
  split_ifs <;> omega

theorem neg_iff : b.toInt8 < 0 ↔ 128 ≤ b.toNat := by
  rw [← not_iff_not, Int8.not_lt, nonneg_iff, not_le]

theorem lt_iff (hb : b.toNat < 128) (hc : c.toNat < 128) :
    b.toInt8 < c.toInt8 ↔ b.toNat < c.toNat := by
  rw [Int8.lt_iff_toInt_lt, toInt_toInt8, toInt_toInt8, if_pos hb, if_pos hc]
  omega

theorem inj : b.toInt8 = c.toInt8 ↔ b = c := by
  constructor
  · intro h
    have hback := congrArg Int8.toUInt8 h
    simpa using hback
  · exact congrArg _

/-- A number of a byte is the byte again after the conversions from `int`. -/
theorem toNat_truncated {k : ℕ} (h : k < 256) :
    (Int32.ofInt (k : ℤ)).toInt8.toUInt8.toNat = k := by
  have hlow : (Int32.ofNat k).toInt8.toUInt8 = UInt8.ofNat k := by
    refine UInt8.toBitVec_inj.mp ?_
    have hcast : (Int32.ofNat k).toInt8.toUInt8.toBitVec =
        BitVec.signExtend 8 (BitVec.ofNat 32 k) := rfl
    rw [hcast, BitVec.signExtend_eq_setWidth_of_le _ (by decide),
      BitVec.setWidth_ofNat_of_le (by decide)]
    rfl
  rw [Int32.ofInt_eq_ofNat, hlow, UInt8.toNat_ofNat']
  exact Nat.mod_eq_of_lt h

end SocksProxy.SignedByte
