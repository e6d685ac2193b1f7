import TinyosGraphics.Lib.CyclicCode

/-! The packet check of `tgx_sensor_client.c`: `crcByte`, `crc16`, `to_int` and `dataCorrupt`.
A result of `none` is a read outside the block that a pointer points into. -/
namespace TinyosGraphics.Sensor
open Lib
open Polynomial (X)

structure Ptr where
  block : List UInt8
  offset : Int

def Ptr.get (p : Ptr) (i : Int) : Option UInt8 :=
  if 0 ≤ p.offset + i then p.block[(p.offset + i).toNat]? else none

def Ptr.add (p : Ptr) (i : Int) : Ptr :=
  { p with offset := p.offset + i }

/-- The `do … while (--i)` of `crcByte`. -/
def crcShifts : Nat → UInt16 → UInt16
  | 0, crc => crc
  | i + 1, crc => crcShifts i (if crc &&& 0x8000 ≠ 0 then crc <<< 1 ^^^ 0x1021 else crc <<< 1)

def crcByte (crc : UInt16) (b : UInt8) : UInt16 :=
  crcShifts 8 (crc ^^^ b.toUInt16 <<< 8)

/-- The loop of `crc16`, with `len` bytes to go. -/
def crcLoop (tmp : Ptr) : Nat → UInt16 → Option UInt16
  | 0, crc => some crc
  | len + 1, crc => do crcLoop (tmp.add 1) len (crcByte crc (← tmp.get 0))

def crc16 (buf : Ptr) (len : UInt8) : Option UInt16 :=
  crcLoop buf len.toNat 0

def mypow (x : Nat) : Nat → Nat
  | 0 => 1
  | y + 1 => mypow x y * x

/-- The inner loop of `to_int`, for the byte that is `above` bits from the end. -/
def toIntByte (tmp : UInt8) (above : Nat) (sum : UInt16) : UInt16 :=
  (List.range 8).foldl
    (fun sum j => if tmp &&& (1 <<< UInt8.ofNat j) ≠ 0 then sum + UInt16.ofNat (mypow 2 (j + above)) else sum) sum

/-- The outer loop of `to_int`, which goes through the bytes backwards. -/
def toIntLoop (str : Ptr) (len : Nat) : Nat → UInt16 → Option UInt16
  | 0, sum => some sum
  | i + 1, sum => do toIntLoop str len i (toIntByte (← str.get i) ((len - i - 1) * 8) sum)

def toInt (str : Ptr) (len : Nat) : Option UInt16 :=
  toIntLoop str len len 0

/-- `dataCorrupt`. The length handed to `crc16` is cut down to a byte. -/
def dataCorrupt (packet : Ptr) (length : Int) : Option Int := do
  let crc ← crc16 packet (UInt8.ofInt (length - 2))
  let actualCrc ← toInt (packet.add (length - 2)) 2
  return if crc = actualCrc then 0 else -1

private theorem Ptr.get_append (front back : List UInt8) (i : Nat) :
    (⟨front ++ back, front.length⟩ : Ptr).get i = back[i]? := by
  have hpos : ((front.length : Int) + i).toNat = front.length + i := by omega
  have hnonneg : (0 : Int) ≤ front.length + i := by omega
  simp only [Ptr.get, hnonneg, if_true, hpos]
  rw [List.getElem?_append_right (by omega), Nat.add_sub_cancel_left]

private theorem Ptr.add_append (front back : List UInt8) (b : UInt8) :
    (⟨front ++ b :: back, front.length⟩ : Ptr).add 1 = ⟨(front ++ [b]) ++ back, (front ++ [b]).length⟩ := by
  simp [Ptr.add]

/-- The loop folds over the bytes that it reads. -/
theorem crcLoop_spec (front bs back : List UInt8) (crc : UInt16) :
    crcLoop ⟨front ++ (bs ++ back), front.length⟩ bs.length crc = some (bs.foldl crcByte crc) := by
  induction bs generalizing front crc with
  | nil => rfl
  | cons b bs ih =>
    have hget : (⟨front ++ (b :: bs ++ back), front.length⟩ : Ptr).get 0 = some b := by
      exact Ptr.get_append front (b :: bs ++ back) 0
    rw [List.length_cons, crcLoop, hget]
    show crcLoop ((⟨front ++ b :: (bs ++ back), front.length⟩ : Ptr).add 1) bs.length (crcByte crc b) = _
    rw [Ptr.add_append, ih]
    rfl

/-- Two bytes, the first being the more significant. -/
def beWord (hi lo : UInt8) : UInt16 :=
  ⟨hi.toBitVec ++ lo.toBitVec⟩

theorem beWord_eq (hi lo : UInt8) : lo.toUInt16 + hi.toUInt16 <<< 8 = beWord hi lo := by
  apply UInt16.toNat_inj.mp
  have hlo := lo.toNat_lt
  have hhi := hi.toNat_lt
  have happend : (beWord hi lo).toNat = hi.toNat * 256 + lo.toNat := by
    show (hi.toBitVec ++ lo.toBitVec).toNat = _
    rw [BitVec.toNat_append, ← Nat.shiftLeft_add_eq_or_of_lt lo.toBitVec.isLt, Nat.shiftLeft_eq]
    rfl
  rw [happend]
  simp [Nat.shiftLeft_eq]
  omega

private theorem toIntByte_add (tmp : UInt8) (above : Nat) (sum : UInt16) :
    toIntByte tmp above sum = sum + toIntByte tmp above 0 := by
  unfold toIntByte
  generalize List.range 8 = js
  induction js generalizing sum with
  | nil => simp
  | cons j js ih =>
    rw [List.foldl_cons, List.foldl_cons]
    split
    · rw [ih, ih (0 + _), UInt16.zero_add, UInt16.add_assoc]
    · exact ih sum

private theorem toIntByte_low (tmp : UInt8) : toIntByte tmp 0 0 = tmp.toUInt16 := by
  cases tmp with
  | ofBitVec tmp =>
    cases tmp with
    | ofFin tmp =>
      revert tmp
      decide +kernel

private theorem toIntByte_high (tmp : UInt8) : toIntByte tmp 8 0 = tmp.toUInt16 <<< 8 := by
  cases tmp with
  | ofBitVec tmp =>
    cases tmp with
    | ofFin tmp =>
      revert tmp
      decide +kernel

private theorem toInt_two (front back : List UInt8) (hi lo : UInt8) :
    toInt ⟨front ++ hi :: lo :: back, front.length⟩ 2 = some (beWord hi lo) := by
  have hlo : (⟨front ++ hi :: lo :: back, front.length⟩ : Ptr).get (1 : Nat) = some lo :=
    Ptr.get_append front _ 1
  have hhi : (⟨front ++ hi :: lo :: back, front.length⟩ : Ptr).get (0 : Nat) = some hi :=
    Ptr.get_append front _ 0
  simp only [toInt, toIntLoop, hlo, hhi, Option.bind_eq_bind, Option.bind_some]
  rw [toIntByte_add, toIntByte_low, toIntByte_high, beWord_eq]

/-- `dataCorrupt` on a packet that ends with two check bytes. -/
theorem dataCorrupt_spec (front bs back : List UInt8) (hi lo : UInt8) (hlen : bs.length < 256) :
    dataCorrupt ⟨front ++ (bs ++ hi :: lo :: back), front.length⟩ (bs.length + 2) =
      some (if bs.foldl crcByte 0 = beWord hi lo then 0 else -1) := by
  have hsub : (bs.length + 2 - 2 : Int) = bs.length := by omega
  have hcut : (UInt8.ofInt bs.length).toNat = bs.length := by
    simp [UInt8.ofInt]
    omega
  have hend : (⟨front ++ (bs ++ hi :: lo :: back), front.length⟩ : Ptr).add bs.length =
      ⟨(front ++ bs) ++ hi :: lo :: back, (front ++ bs).length⟩ := by
    simp [Ptr.add]
  simp only [dataCorrupt, crc16, hsub, hcut, crcLoop_spec, hend, toInt_two, Option.bind_eq_bind, Option.bind_some]
  rfl

private theorem msb_test (crc : UInt16) : crc &&& 0x8000 ≠ 0 ↔ crc.toBitVec.msb = true := by
  have hand : crc.toBitVec &&& 32768#16 = if crc.toBitVec.getLsbD 15 then BitVec.twoPow 16 15 else 0#16 :=
    BitVec.and_twoPow _ 15
  rw [← UInt16.toBitVec_inj.ne, UInt16.toBitVec_and, BitVec.msb_eq_getLsbD_last]
  show crc.toBitVec &&& 32768#16 ≠ 0#16 ↔ _
  rw [hand]
  cases crc.toBitVec.getLsbD 15 <;> decide

private theorem crcShifts_toBitVec (i : Nat) (crc : UInt16) :
    (crcShifts i crc).toBitVec = CyclicCode.shifts 0x1021#16 i crc.toBitVec := by
  induction i generalizing crc with
  | zero => rfl
  | succ i ih =>
    rw [crcShifts, ih, CyclicCode.shifts, CyclicCode.shift]
    congr 1
    by_cases hmsb : crc.toBitVec.msb = true
    · rw [if_pos ((msb_test crc).mpr hmsb), if_pos hmsb]
      simp
    · rw [if_neg fun h => hmsb ((msb_test crc).mp h), if_neg hmsb]
      simp

theorem crcByte_toBitVec (crc : UInt16) (b : UInt8) :
    (crcByte crc b).toBitVec = CyclicCode.feed 0x1021#16 crc.toBitVec b.toBitVec := by
  rw [crcByte, crcShifts_toBitVec, CyclicCode.feed]
  simp

theorem foldl_crcByte_toBitVec (bs : List UInt8) (crc : UInt16) :
    (bs.foldl crcByte crc).toBitVec = CyclicCode.check 0x1021#16 crc.toBitVec (bs.map UInt8.toBitVec) := by
  induction bs generalizing crc with
  | nil => rfl
  | cons b bs ih =>
    rw [List.foldl_cons, ih, crcByte_toBitVec]
    rfl

theorem poly_feedback : CyclicCode.poly 0x1021#16 = X ^ 12 + X ^ 5 + 1 := by
  simp [CyclicCode.poly, Finset.sum_range_succ]
  ring

private theorem generator_eval_one : (CyclicCode.generator 0x1021#16).eval 1 = 0 := by
  have hfour : (1 : ZMod 2) + (1 + 1 + 1) = 0 := by decide
  simpa [CyclicCode.generator, poly_feedback] using hfour

private theorem generator_coeff_zero : (CyclicCode.generator 0x1021#16).coeff 0 ≠ 0 := by
  simp [CyclicCode.generator, CyclicCode.coeff_poly]

private theorem exists_check_bytes {packet : List UInt8} (h : 2 ≤ packet.length) :
    ∃ bs hi lo, packet = bs ++ [hi, lo] := by
  obtain rfl | ⟨front, lo, rfl⟩ := List.eq_nil_or_concat packet
  · cases h
  · obtain rfl | ⟨bs, hi, rfl⟩ := List.eq_nil_or_concat front
    · simp at h
    · exact ⟨bs, hi, lo, by simp⟩

private theorem check_bytes_iff (bs : List UInt8) (hi lo : UInt8) :
    bs.foldl crcByte 0 = beWord hi lo ↔
      CyclicCode.generator 0x1021#16 ∣ CyclicCode.message ((bs ++ [hi, lo]).map UInt8.toBitVec) := by
  have hmessage : CyclicCode.message ((bs ++ [hi, lo]).map UInt8.toBitVec) =
      X ^ 16 * CyclicCode.message (bs.map UInt8.toBitVec) +
        CyclicCode.poly (hi.toBitVec ++ lo.toBitVec) := by
    rw [List.map_append, CyclicCode.message_append, CyclicCode.poly_append]
    simp [CyclicCode.message]
  rw [hmessage, ← CyclicCode.check_eq_iff (by decide), ← UInt16.toBitVec_inj, foldl_crcByte_toBitVec]
  rfl

/-- A packet passes the check when it is a multiple of the generator, and fails it otherwise. -/
theorem dataCorrupt_packet (front packet back : List UInt8) (hlong : 2 ≤ packet.length)
    (hshort : packet.length < 258) :
    (CyclicCode.generator 0x1021#16 ∣ CyclicCode.message (packet.map UInt8.toBitVec) ∧
        dataCorrupt ⟨front ++ (packet ++ back), front.length⟩ packet.length = some 0) ∨
      (¬ CyclicCode.generator 0x1021#16 ∣ CyclicCode.message (packet.map UInt8.toBitVec) ∧
        dataCorrupt ⟨front ++ (packet ++ back), front.length⟩ packet.length = some (-1)) := by
  obtain ⟨bs, hi, lo, rfl⟩ := exists_check_bytes hlong
  have hlen : ((bs ++ [hi, lo]).length : Int) = bs.length + 2 := by simp
  have hblock : bs ++ [hi, lo] ++ back = bs ++ hi :: lo :: back := by simp
  have hbs : bs.length < 256 := by
    rw [List.length_append] at hshort
    exact Nat.lt_of_add_lt_add_right hshort
  rw [← check_bytes_iff, hlen, hblock, dataCorrupt_spec front bs back hi lo hbs]
  split
  · exact .inl ⟨‹_›, rfl⟩
  · exact .inr ⟨‹_›, rfl⟩

/-- The bits that an error pattern flips, the most significant bit of its first byte being bit 0. -/
def flippedBits (E : List UInt8) : Finset Nat :=
  CyclicCode.flips (E.map UInt8.toBitVec)

private theorem flippedBits_nonempty {E : List UInt8} (h : ∃ b ∈ E, b ≠ 0) : (flippedBits E).Nonempty := by
  obtain ⟨b, hb, hne⟩ := h
  exact CyclicCode.flips_nonempty ⟨b.toBitVec, List.mem_map_of_mem hb, fun h => hne (UInt8.toBitVec_inj.mp h)⟩

private theorem map_xor (P E : List UInt8) :
    (List.zipWith (· ^^^ ·) P E).map UInt8.toBitVec =
      List.zipWith (· ^^^ ·) (P.map UInt8.toBitVec) (E.map UInt8.toBitVec) := by
  rw [List.map_zipWith, List.zipWith_map]
  rfl

/-- A packet that passes the check fails it after an odd number of flipped bits, and after a burst
of flipped bits no longer than 16. -/
theorem damage_detected (front P E back : List UInt8) (hlen : E.length = P.length) (hlong : 3 ≤ P.length)
    (hshort : P.length ≤ 247)
    (haccept : dataCorrupt ⟨front ++ (P ++ back), front.length⟩ P.length = some 0)
    (hne : ∃ b ∈ E, b ≠ 0)
    (herror : Odd (flippedBits E).card ∨ ∃ s, ∀ k ∈ flippedBits E, s ≤ k ∧ k < s + 16) :
    dataCorrupt ⟨front ++ (List.zipWith (· ^^^ ·) P E ++ back), front.length⟩ P.length = some (-1) := by
  have hE : ¬ CyclicCode.generator 0x1021#16 ∣ CyclicCode.message (E.map UInt8.toBitVec) := by
    obtain hodd | ⟨s, hburst⟩ := herror
    · exact CyclicCode.detects_odd generator_eval_one hodd
    · exact CyclicCode.detects_burst generator_coeff_zero (flippedBits_nonempty hne) hburst
  have hxor : CyclicCode.message ((List.zipWith (· ^^^ ·) P E).map UInt8.toBitVec) =
      CyclicCode.message (P.map UInt8.toBitVec) + CyclicCode.message (E.map UInt8.toBitVec) := by
    rw [map_xor, CyclicCode.message_xor]
    simpa using hlen.symm
  have hsame : (List.zipWith (· ^^^ ·) P E).length = P.length := by
    rw [List.length_zipWith, hlen, Nat.min_self]
  obtain ⟨hP, -⟩ | ⟨-, hP⟩ := dataCorrupt_packet front P back (by omega) (by omega)
  swap
  · rw [haccept] at hP
    cases hP
  obtain ⟨hsum, -⟩ | ⟨-, hreject⟩ := dataCorrupt_packet front (List.zipWith (· ^^^ ·) P E) back
    (by omega) (by omega)
  · rw [hxor, dvd_add_right hP] at hsum
    exact absurd hsum hE
  · rw [hsame] at hreject
    exact hreject

/-- A packet with its check. -/
def checkedPacket : List UInt8 :=
  [129, 0, 12, 0, 3, 0, 7, 26, 144, 1, 64, 0, 240, 9]

/-- Fourteen bits in a row, of which some are flipped, across three bytes. -/
def burstError : List UInt8 :=
  [0, 0, 0, 12, 129, 192, 0, 0, 0, 0, 0, 0, 0, 0]

/-- Three flipped bits far from each other, one of them in the check. -/
def oddError : List UInt8 :=
  [64, 0, 0, 0, 0, 0, 0, 2, 0, 0, 0, 0, 1, 0]

theorem damage_detected_both :
    dataCorrupt ⟨[129, 7] ++ (List.zipWith (· ^^^ ·) checkedPacket burstError ++ [65]), 2⟩ 14 = some (-1) ∧
      dataCorrupt ⟨[129, 7] ++ (List.zipWith (· ^^^ ·) checkedPacket oddError ++ [65]), 2⟩ 14 = some (-1) := by
  have haccept : dataCorrupt ⟨[129, 7] ++ (checkedPacket ++ [65]), 2⟩ 14 = some 0 := by decide +kernel
  have hburst : ∀ k ∈ flippedBits burstError, 28 ≤ k ∧ k < 28 + 16 := by decide +kernel
  have hodd : Odd (flippedBits oddError).card := by decide +kernel
  exact ⟨damage_detected [129, 7] checkedPacket burstError [65] rfl (by decide) (by decide) haccept
      ⟨12, by decide, by decide⟩ (.inr ⟨28, hburst⟩),
    damage_detected [129, 7] checkedPacket oddError [65] rfl (by decide) (by decide) haccept
      ⟨64, by decide, by decide⟩ (.inl hodd)⟩

end TinyosGraphics.Sensor
