import TinyosGraphics.Lib.CString
import TinyosGraphics.Motes.SensorMsg

/-! `crc16` is a remainder of polynomials over GF(2): on the client, on the mote, and whatever the width
of the `int` that `crcByte` calculates in. -/
namespace TinyosGraphics.Sensor
open Lib
open Polynomial (X)

/-- The loop of `crcByte` in an `int` of `w` bits: `crc` is promoted for each operation, and what is
assigned to it is cut down to 16 bits. -/
def crcShiftsInt (w : Nat) : Nat → BitVec 16 → BitVec 16
  | 0, crc => crc
  | i + 1, crc => crcShiftsInt w i
      (if crc.setWidth w &&& 0x8000#w ≠ 0 then (crc.setWidth w <<< 1 ^^^ 0x1021#w).setWidth 16
        else (crc.setWidth w <<< 1).setWidth 16)

def crcByteInt (w : Nat) (crc : BitVec 16) (b : BitVec 8) : BitVec 16 :=
  crcShiftsInt w 8 ((crc.setWidth w ^^^ b.setWidth w <<< 8).setWidth 16)

variable {w : Nat}

private theorem setWidth_shiftLeft (hw : 16 ≤ w) {n : Nat} (v : BitVec n) (k : Nat) :
    (v.setWidth w <<< k).setWidth 16 = v.setWidth 16 <<< k := by
  apply BitVec.eq_of_getLsbD_eq
  intro i hi
  have hin : i < w := Nat.lt_of_lt_of_le hi hw
  have hdown : i - k < w := Nat.lt_of_le_of_lt (Nat.sub_le i k) hin
  have hdown' : i - k < 16 := Nat.lt_of_le_of_lt (Nat.sub_le i k) hi
  simp only [BitVec.getLsbD_setWidth, BitVec.getLsbD_shiftLeft, hi, hin, hdown, hdown', decide_true, Bool.true_and]

private theorem setWidth_setWidth_self (hw : 16 ≤ w) (v : BitVec 16) : (v.setWidth w).setWidth 16 = v := by
  apply BitVec.eq_of_toNat_eq
  have hfits : v.toNat < 2 ^ w := Nat.lt_of_lt_of_le v.isLt (Nat.pow_le_pow_right (by decide) hw)
  rw [BitVec.toNat_setWidth, BitVec.toNat_setWidth, Nat.mod_eq_of_lt hfits, Nat.mod_eq_of_lt v.isLt]

private theorem setWidth_feedback (hw : 16 ≤ w) : (0x1021#w).setWidth 16 = 0x1021#16 := by
  apply BitVec.eq_of_toNat_eq
  have hfits : 0x1021 < 2 ^ w := Nat.lt_of_lt_of_le (show 0x1021 < 2 ^ 16 by decide)
    (Nat.pow_le_pow_right (by decide) hw)
  rw [BitVec.toNat_setWidth, BitVec.toNat_ofNat, Nat.mod_eq_of_lt hfits, BitVec.toNat_ofNat]

private theorem promoted_test (hw : 16 ≤ w) (crc : BitVec 16) :
    crc.setWidth w &&& 0x8000#w ≠ 0 ↔ crc.msb = true := by
  have htop : 0x8000#w = BitVec.twoPow w 15 := by
    apply BitVec.eq_of_toNat_eq
    rw [BitVec.toNat_ofNat, BitVec.toNat_twoPow, show 0x8000 = 2 ^ 15 by decide]
  have hbit : (crc.setWidth w).getLsbD 15 = crc.msb := by
    rw [BitVec.getLsbD_setWidth, decide_eq_true (show 15 < w by omega), Bool.true_and, BitVec.msb_eq_getLsbD_last]
  have hne : BitVec.twoPow w 15 ≠ 0 := by
    intro hzero
    have := congrArg (fun v : BitVec w => v.getLsbD 15) hzero
    simp [show 15 < w by omega] at this
  rw [htop, BitVec.and_twoPow, hbit]
  cases crc.msb with
  | false => simp
  | true => simpa using hne

private theorem crcShiftsInt_eq (hw : 16 ≤ w) (i : Nat) (crc : BitVec 16) :
    crcShiftsInt w i crc = CyclicCode.shifts 0x1021#16 i crc := by
  induction i generalizing crc with
  | zero => rfl
  | succ i ih =>
    rw [crcShiftsInt, ih, CyclicCode.shifts, CyclicCode.shift]
    congr 1
    by_cases hmsb : crc.msb = true
    · rw [if_pos ((promoted_test hw crc).mpr hmsb), if_pos hmsb, BitVec.setWidth_xor, setWidth_shiftLeft hw,
        setWidth_feedback hw, BitVec.setWidth_eq]
    · rw [if_neg fun h => hmsb ((promoted_test hw crc).mp h), if_neg hmsb, setWidth_shiftLeft hw,
        BitVec.setWidth_eq]

private theorem crcByteInt_eq (hw : 16 ≤ w) (crc : UInt16) (b : UInt8) :
    crcByteInt w crc.toBitVec b.toBitVec = (crcByte crc b).toBitVec := by
  rw [crcByteInt, crcShiftsInt_eq hw, crcByte_toBitVec, CyclicCode.feed, BitVec.setWidth_xor,
    setWidth_setWidth_self hw, setWidth_shiftLeft hw]

private theorem crc16_eq {b : List UInt8} (h : b.length ≤ 255) :
    crc16 ⟨b, 0⟩ (UInt8.ofNat b.length) = some (b.foldl crcByte 0) := by
  have hlen : (UInt8.ofNat b.length).toNat = b.length := by
    rw [UInt8.toNat_ofNat']
    omega
  have hloop := crcLoop_spec [] b [] 0
  rw [List.append_nil, List.nil_append] at hloop
  rw [crc16, hlen]
  exact hloop

private theorem motes_crc16_eq (buf : Ptr) (len : UInt8) : Motes.crc16 buf len = crc16 buf len := by
  rw [Motes.crc16, Motes.seededCrc16, Motes.seededCrcLoop_eq, crc16]

private theorem generator_eq : CyclicCode.generator 0x1021#16 = X ^ 16 + X ^ 12 + X ^ 5 + 1 := by
  rw [CyclicCode.generator, poly_feedback]
  ring

/-- The check of up to 255 bytes is the remainder of the bytes, moved up by 16 places, divided by
x^16 + x^12 + x^5 + 1. The client and the mote compute it, in an `int` of any width. -/
theorem crc16_remainder (b : List UInt8) (h : b.length ≤ 255) :
    (∃ crc, crc16 ⟨b, 0⟩ (UInt8.ofNat b.length) = some crc ∧
      Motes.crc16 ⟨b, 0⟩ (UInt8.ofNat b.length) = some crc ∧
      CyclicCode.poly crc.toBitVec =
        (X ^ 16 * CyclicCode.message (b.map UInt8.toBitVec)) %ₘ (X ^ 16 + X ^ 12 + X ^ 5 + 1)) ∧
    ∀ w ≥ 16, ∀ (crc : UInt16) (x : UInt8), crcByteInt w crc.toBitVec x.toBitVec = (crcByte crc x).toBitVec := by
  refine ⟨⟨b.foldl crcByte 0, crc16_eq h, ?_, ?_⟩, fun w hw => crcByteInt_eq hw⟩
  · rw [motes_crc16_eq, crc16_eq h]
  · rw [foldl_crcByte_toBitVec, ← generator_eq]
    exact CyclicCode.poly_check (by decide) _ _

/-- The standard's check string. -/
theorem crc16_remainder_check :
    ∃ crc : UInt16, crc16 ⟨ascii "123456789", 0⟩ (UInt8.ofNat 9) = some crc ∧
      Motes.crc16 ⟨ascii "123456789", 0⟩ (UInt8.ofNat 9) = some crc ∧
      CyclicCode.poly crc.toBitVec =
        (X ^ 16 * CyclicCode.message ((ascii "123456789").map UInt8.toBitVec)) %ₘ (X ^ 16 + X ^ 12 + X ^ 5 + 1) :=
  (crc16_remainder (ascii "123456789") (by decide)).1

end TinyosGraphics.Sensor
