import TinyosGraphics.Sensor.BitWrites

/-! The fields of a message as its users see them: what is read back after a write, what a write does to the other
fields, and runs of writes. -/
namespace TinyosGraphics.Sensor
open Lib Bits Motes

variable {msg : Tmsg} {data' : List UInt8} {offset length o l : Nat} {x : UInt64}

theorem InMessage.written (h : InMessage msg o l) (hlength : data'.length = msg.data.length) :
    InMessage { msg with data := data' } o l where
  block := h.block.trans (Nat.le_of_eq hlength.symm)
  pos := h.pos
  word := h.word
  inside := h.inside

private theorem tmsgReadUbe_congr (h : InMessage msg o l) (hlength : data'.length = msg.data.length)
    (hfield : ubeField data' o l = ubeField msg.data o l) :
    tmsgReadUbe { msg with data := data' } o l = tmsgReadUbe msg o l := by
  obtain ⟨y, hread, hy⟩ := tmsgReadUbe_eq h
  obtain ⟨y', hread', hy'⟩ := tmsgReadUbe_eq (h.written hlength)
  rw [hread, hread', UInt64.toNat_inj.mp (hy'.trans (hfield.trans hy.symm))]

private theorem tmsgReadUle_congr (h : InMessage msg o l) (hlength : data'.length = msg.data.length)
    (hfield : uleField data' o l = uleField msg.data o l) :
    tmsgReadUle { msg with data := data' } o l = tmsgReadUle msg o l := by
  obtain ⟨y, hread, hy⟩ := tmsgReadUle_eq h
  obtain ⟨y', hread', hy'⟩ := tmsgReadUle_eq (h.written hlength)
  rw [hread, hread', UInt64.toNat_inj.mp (hy'.trans (hfield.trans hy.symm))]

private theorem ubeField_written (hbits : beBit data' = ubeWritten msg.data offset length x) :
    ubeField data' offset length = x.toNat % 2 ^ length := by
  refine field_written fun j hj => ?_
  rw [hbits, ubePlace, ubeWritten_in (by omega) rfl]
  congr 1
  omega

private theorem ubeField_apart (hbits : beBit data' = ubeWritten msg.data offset length x)
    (hapart : o + l ≤ 8 * (offset / 8) ∨ offset + length ≤ o) : ubeField data' o l = ubeField msg.data o l := by
  refine field_kept fun j hj => ?_
  rw [hbits, ubePlace]
  rcases hapart with hbefore | hbehind
  · exact ubeWritten_before (by omega)
  · exact ubeWritten_behind (by omega)

private theorem ubeField_spill (hbits : beBit data' = ubeWritten msg.data offset length x)
    (hbyte : 8 * (offset / 8) ≤ o)
    (hfront : o + l ≤ offset) :
    ubeField data' o l = ubeField msg.data o l ||| x.toNat / 2 ^ (offset + length - (o + l)) % 2 ^ l := by
  refine Nat.eq_of_testBit_eq fun j => ?_
  rw [ubeField, testBit_field, Nat.testBit_or, Nat.testBit_mod_two_pow, Nat.testBit_div_two_pow, ubeField,
    testBit_field]
  by_cases hj : j < l
  · have hplace : offset + length - 1 - ubePlace o l j = j + (offset + length - (o + l)) := by
      rw [ubePlace]
      omega
    have hspill : 8 * (offset / 8) ≤ ubePlace o l j ∧ ubePlace o l j < offset := by
      rw [ubePlace]
      omega
    rw [hbits, ubeWritten_spill hspill hplace, decide_eq_true hj, Bool.true_and, Bool.true_and, Bool.true_and]
  · rw [decide_eq_false hj]
    rfl

private theorem ubeField_other (hbits : beBit data' = ubeWritten msg.data offset length x) (hx : x.toNat < 2 ^ length)
    (hapart : o + l ≤ offset ∨ offset + length ≤ o) : ubeField data' o l = ubeField msg.data o l := by
  refine field_kept fun j hj => ?_
  rw [hbits, ubePlace]
  rcases hapart with hfront | hbehind
  · by_cases hbyte : 8 * (offset / 8) ≤ o + l - 1 - j
    · have hzero : x.toNat.testBit (offset + length - 1 - (o + l - 1 - j)) = false :=
        Nat.testBit_eq_false_of_lt (hx.trans_le (Nat.pow_le_pow_right (by decide) (by omega)))
      rw [ubeWritten_spill (by omega) rfl, hzero, Bool.or_false]
    · exact ubeWritten_before (by omega)
  · exact ubeWritten_behind (by omega)

/-- What is written is read back, as far as the field is long enough for it. No field behind is touched, and none that
ends in front of the byte where the written one starts; in that byte, what is too much for the field goes into the bits
in front of it. -/
theorem tmsgWriteUbe_read (h : InMessage msg offset length) (x : UInt64) :
    ∃ msg' y, tmsgWriteUbe msg offset length x = some msg' ∧ tmsgReadUbe msg' offset length = some y ∧
      y.toNat = x.toNat % 2 ^ length ∧
      (∀ o l, InMessage msg o l → (o + l ≤ 8 * (offset / 8) ∨ offset + length ≤ o) →
        tmsgReadUbe msg' o l = tmsgReadUbe msg o l) ∧
      ∀ o l, InMessage msg o l → 8 * (offset / 8) ≤ o → o + l ≤ offset →
        ∃ z z', tmsgReadUbe msg o l = some z ∧ tmsgReadUbe msg' o l = some z' ∧
          z'.toNat = z.toNat ||| x.toNat / 2 ^ (offset + length - (o + l)) % 2 ^ l := by
  obtain ⟨data', hwrite, hlength, hbits⟩ := tmsgWriteUbe_eq h x
  obtain ⟨y, hread, hy⟩ := tmsgReadUbe_eq (h.written hlength)
  refine ⟨_, y, hwrite, hread, hy.trans (ubeField_written hbits), fun o l hol hapart => ?_,
    fun o l hol hbyte hfront => ?_⟩
  · exact tmsgReadUbe_congr hol hlength (ubeField_apart hbits hapart)
  · obtain ⟨z, hz, hfield⟩ := tmsgReadUbe_eq hol
    obtain ⟨z', hz', hfield'⟩ := tmsgReadUbe_eq (hol.written hlength)
    refine ⟨z, z', hz, hz', ?_⟩
    rw [hfield', hfield]
    exact ubeField_spill hbits hbyte hfront

/-- Five bits for a field of three: the two that are too much end up in front of it. -/
theorem tmsgWriteUbe_read_spilled :
    ∃ msg' y, tmsgWriteUbe (newTmsg [0, 0] 2) 4 3 0x1f = some msg' ∧ tmsgReadUbe msg' 4 3 = some y ∧
      y.toNat = (0x1f : UInt64).toNat % 2 ^ 3 ∧
      (∀ o l, InMessage (newTmsg [0, 0] 2) o l → (o + l ≤ 8 * (4 / 8) ∨ 4 + 3 ≤ o) →
        tmsgReadUbe msg' o l = tmsgReadUbe (newTmsg [0, 0] 2) o l) ∧
      ∀ o l, InMessage (newTmsg [0, 0] 2) o l → 8 * (4 / 8) ≤ o → o + l ≤ 4 →
        ∃ z z', tmsgReadUbe (newTmsg [0, 0] 2) o l = some z ∧ tmsgReadUbe msg' o l = some z' ∧
          z'.toNat = z.toNat ||| (0x1f : UInt64).toNat / 2 ^ (4 + 3 - (o + l)) % 2 ^ l :=
  tmsgWriteUbe_read ⟨by decide, by decide, by decide, by decide⟩ 0x1f

private theorem uleField_written (hbits : leBit data' = uleWritten msg.data offset length x) :
    uleField data' offset length = x.toNat % 2 ^ length := by
  refine field_written fun j hj => ?_
  rw [hbits, ulePlace, uleWritten_in (by omega) rfl, Nat.add_sub_cancel_left]

private theorem uleField_apart (hpos : 0 < length) (hbits : leBit data' = uleWritten msg.data offset length x)
    (hapart : o + l ≤ offset ∨ 8 * ((offset + length - 1) / 8 + 1) ≤ o) :
    uleField data' o l = uleField msg.data o l := by
  refine field_kept fun j hj => ?_
  rw [hbits, ulePlace]
  rcases hapart with hbefore | hbehind
  · exact uleWritten_before (by omega)
  · exact uleWritten_behind hpos (by omega)

private theorem uleField_spill (hbits : leBit data' = uleWritten msg.data offset length x)
    (hbehind : offset + length ≤ o)
    (hbyte : o + l ≤ 8 * ((offset + length - 1) / 8 + 1)) :
    uleField data' o l = uleField msg.data o l ||| x.toNat / 2 ^ (o - offset) % 2 ^ l := by
  refine Nat.eq_of_testBit_eq fun j => ?_
  rw [uleField, testBit_field, Nat.testBit_or, Nat.testBit_mod_two_pow, Nat.testBit_div_two_pow, uleField,
    testBit_field]
  by_cases hj : j < l
  · have hplace : o + j - offset = j + (o - offset) := by omega
    rw [hbits, ulePlace, uleWritten_spill (by omega) hplace, decide_eq_true hj, Bool.true_and, Bool.true_and,
      Bool.true_and]
  · rw [decide_eq_false hj]
    rfl

private theorem uleField_other (hpos : 0 < length) (hbits : leBit data' = uleWritten msg.data offset length x)
    (hx : x.toNat < 2 ^ length) (hapart : o + l ≤ offset ∨ offset + length ≤ o) :
    uleField data' o l = uleField msg.data o l := by
  refine field_kept fun j hj => ?_
  rw [hbits, ulePlace]
  rcases hapart with hfront | hbehind
  · exact uleWritten_before (by omega)
  · by_cases hbyte : o + j < 8 * ((offset + length - 1) / 8 + 1)
    · have hzero : x.toNat.testBit (o + j - offset) = false :=
        Nat.testBit_eq_false_of_lt (hx.trans_le (Nat.pow_le_pow_right (by decide) (by omega)))
      rw [uleWritten_spill (by omega) rfl, hzero, Bool.or_false]
    · exact uleWritten_behind hpos (by omega)

/-- What is written is read back, as far as the field is long enough for it. No field in front is touched, and none that
starts behind the byte where the written one ends; in that byte, what is too much for the field goes into the bits
behind it. -/
theorem tmsgWriteUle_read (h : InMessage msg offset length) (x : UInt64) :
    ∃ msg' y, tmsgWriteUle msg offset length x = some msg' ∧ tmsgReadUle msg' offset length = some y ∧
      y.toNat = x.toNat % 2 ^ length ∧
      (∀ o l, InMessage msg o l → (o + l ≤ offset ∨ 8 * ((offset + length - 1) / 8 + 1) ≤ o) →
        tmsgReadUle msg' o l = tmsgReadUle msg o l) ∧
      ∀ o l, InMessage msg o l → offset + length ≤ o → o + l ≤ 8 * ((offset + length - 1) / 8 + 1) →
        ∃ z z', tmsgReadUle msg o l = some z ∧ tmsgReadUle msg' o l = some z' ∧
          z'.toNat = z.toNat ||| x.toNat / 2 ^ (o - offset) % 2 ^ l := by
  obtain ⟨data', hwrite, hlength, hbits⟩ := tmsgWriteUle_eq h x
  obtain ⟨y, hread, hy⟩ := tmsgReadUle_eq (h.written hlength)
  refine ⟨_, y, hwrite, hread, hy.trans (uleField_written hbits), fun o l hol hapart => ?_,
    fun o l hol hbehind hbyte => ?_⟩
  · exact tmsgReadUle_congr hol hlength (uleField_apart h.pos hbits hapart)
  · obtain ⟨z, hz, hfield⟩ := tmsgReadUle_eq hol
    obtain ⟨z', hz', hfield'⟩ := tmsgReadUle_eq (hol.written hlength)
    refine ⟨z, z', hz, hz', ?_⟩
    rw [hfield', hfield]
    exact uleField_spill hbits hbehind hbyte

theorem tmsgWriteUle_read_spilled :
    ∃ msg' y, tmsgWriteUle (newTmsg [0, 0] 2) 1 3 0x1f = some msg' ∧ tmsgReadUle msg' 1 3 = some y ∧
      y.toNat = (0x1f : UInt64).toNat % 2 ^ 3 ∧
      (∀ o l, InMessage (newTmsg [0, 0] 2) o l → (o + l ≤ 1 ∨ 8 * ((1 + 3 - 1) / 8 + 1) ≤ o) →
        tmsgReadUle msg' o l = tmsgReadUle (newTmsg [0, 0] 2) o l) ∧
      ∀ o l, InMessage (newTmsg [0, 0] 2) o l → 1 + 3 ≤ o → o + l ≤ 8 * ((1 + 3 - 1) / 8 + 1) →
        ∃ z z', tmsgReadUle (newTmsg [0, 0] 2) o l = some z ∧ tmsgReadUle msg' o l = some z' ∧
          z'.toNat = z.toNat ||| (0x1f : UInt64).toNat / 2 ^ (o - 1) % 2 ^ l :=
  tmsgWriteUle_read ⟨by decide, by decide, by decide, by decide⟩ 0x1f

/-- A number in two's complement, cut down to some bits and taken as a signed one again. -/
private theorem u2s_cut {y : UInt64} (value : Int64) (hpos : 0 < length) (hlength : length < 63)
    (hy : y.toNat = value.toUInt64.toNat % 2 ^ length) : u2s y length = some (value.toInt.bmod (2 ^ length)) := by
  have hvalue : value.toInt = (value.toUInt64.toNat : Int).bmod (2 ^ 64) :=
    BitVec.toInt_eq_toNat_bmod value.toBitVec
  have hdvd : ((2 ^ length : Nat) : Int) ∣ ((2 ^ 64 : Nat) : Int) :=
    Int.natCast_dvd_natCast.mpr (Nat.pow_dvd_pow 2 (by omega))
  have hcut : value.toInt % (2 ^ length : Nat) = y.toNat := by
    rw [hvalue, ← Int.emod_emod_of_dvd _ hdvd, Int.bmod_emod, Int.emod_emod_of_dvd _ hdvd, hy, Int.natCast_emod]
  have hhalf : 2 ^ length = 2 * 2 ^ (length - 1) := by
    rw [← Nat.pow_succ', Nat.succ_eq_add_one, Nat.sub_add_cancel hpos]
  have hlt : y.toNat < 2 ^ length := hy ▸ Nat.mod_lt _ (Nat.two_pow_pos length)
  have hword : ¬ (length = 0 ∨ 64 < length) := by omega
  rw [u2s, if_neg hword]
  by_cases hsign : y.toNat.testBit (length - 1)
  · have hge : 2 ^ (length - 1) ≤ y.toNat := Nat.ge_two_pow_of_testBit hsign
    rw [if_pos hsign, if_pos hlength, Int.bmod_neg _ _ (by rw [hcut]; omega), hcut, Int.natCast_pow]
    rfl
  · have hsmall : y.toNat < 2 ^ (length - 1) := by
      by_contra hge
      have hbit := Nat.testBit_of_two_pow_le_and_two_pow_add_one_gt (n := y.toNat) (i := length - 1) (by omega)
        (by rw [Nat.sub_add_cancel hpos]; exact hlt)
      exact hsign hbit
    rw [if_neg hsign, Int.bmod_eq_emod_of_lt (by rw [hcut]; omega), hcut]

/-- A signed number is read back as the one that has its bits and fits into the field; where it fits itself, it is read
back. -/
theorem tmsgWriteBe_read (h : InMessage msg offset length) (hlength : length < 63) (value : Int64) :
    (∃ msg', tmsgWriteBe msg offset length value = some msg' ∧
      tmsgReadBe msg' offset length = some (value.toInt.bmod (2 ^ length))) ∧
    ∃ msg', tmsgWriteLe msg offset length value = some msg' ∧
      tmsgReadLe msg' offset length = some (value.toInt.bmod (2 ^ length)) := by
  constructor
  · obtain ⟨data', hwrite, hsame, hbits⟩ := tmsgWriteUbe_eq h value.toUInt64
    obtain ⟨y, hread, hy⟩ := tmsgReadUbe_eq (h.written hsame)
    refine ⟨_, hwrite, ?_⟩
    rw [tmsgReadBe, hread]
    exact u2s_cut value h.pos hlength (hy.trans (ubeField_written hbits))
  · obtain ⟨data', hwrite, hsame, hbits⟩ := tmsgWriteUle_eq h value.toUInt64
    obtain ⟨y, hread, hy⟩ := tmsgReadUle_eq (h.written hsame)
    refine ⟨_, hwrite, ?_⟩
    rw [tmsgReadLe, hread]
    exact u2s_cut value h.pos hlength (hy.trans (uleField_written hbits))

/-- A negative number over three bytes. -/
theorem tmsgWriteBe_read_negative :
    (∃ msg', tmsgWriteBe (newTmsg [0xff, 0, 0xff] 3) 6 12 (-5) = some msg' ∧ tmsgReadBe msg' 6 12 = some (-5)) ∧
    ∃ msg', tmsgWriteLe (newTmsg [0xff, 0, 0xff] 3) 6 12 (-5) = some msg' ∧ tmsgReadLe msg' 6 12 = some (-5) :=
  tmsgWriteBe_read ⟨by decide, by decide, by decide, by decide⟩ (by decide) (-5)

def ubeParts : Parts Tmsg (Nat × Nat) UInt64 where
  get msg f := tmsgReadUbe msg f.1 f.2
  put msg f x := tmsgWriteUbe msg f.1 f.2 x
  Within msg f := InMessage msg f.1 f.2
  Fits f x := x.toNat < 2 ^ f.2
  Apart f g := f.1 + f.2 ≤ g.1 ∨ g.1 + g.2 ≤ f.1

def uleParts : Parts Tmsg (Nat × Nat) UInt64 where
  get msg f := tmsgReadUle msg f.1 f.2
  put msg f x := tmsgWriteUle msg f.1 f.2 x
  Within msg f := InMessage msg f.1 f.2
  Fits f x := x.toNat < 2 ^ f.2
  Apart f g := f.1 + f.2 ≤ g.1 ∨ g.1 + g.2 ≤ f.1

private theorem ubeParts_lawful : ubeParts.Lawful where
  apart_symm := Or.symm
  put_within v hin := by
    obtain ⟨data', hwrite, hlength, -⟩ := tmsgWriteUbe_eq hin v
    exact ⟨_, hwrite, fun g hg => hg.written hlength⟩
  get_put {s s' f v} hin hfit hput := by
    obtain ⟨data', hwrite, hlength, hbits⟩ := tmsgWriteUbe_eq hin v
    obtain ⟨y, hread, hy⟩ := tmsgReadUbe_eq (hin.written hlength)
    obtain rfl := Option.some.inj (hwrite.symm.trans hput)
    have hsame : y = v := UInt64.toNat_inj.mp (by rw [hy, ubeField_written hbits, Nat.mod_eq_of_lt hfit])
    exact hsame ▸ hread
  get_other {s s' f g v} hin hg hfit hapart hput := by
    obtain ⟨data', hwrite, hlength, hbits⟩ := tmsgWriteUbe_eq hin v
    obtain rfl := Option.some.inj (hwrite.symm.trans hput)
    exact tmsgReadUbe_congr hg hlength (ubeField_other hbits hfit hapart.symm)

private theorem uleParts_lawful : uleParts.Lawful where
  apart_symm := Or.symm
  put_within v hin := by
    obtain ⟨data', hwrite, hlength, -⟩ := tmsgWriteUle_eq hin v
    exact ⟨_, hwrite, fun g hg => hg.written hlength⟩
  get_put {s s' f v} hin hfit hput := by
    obtain ⟨data', hwrite, hlength, hbits⟩ := tmsgWriteUle_eq hin v
    obtain ⟨y, hread, hy⟩ := tmsgReadUle_eq (hin.written hlength)
    obtain rfl := Option.some.inj (hwrite.symm.trans hput)
    have hsame : y = v := UInt64.toNat_inj.mp (by rw [hy, uleField_written hbits, Nat.mod_eq_of_lt hfit])
    exact hsame ▸ hread
  get_other {s s' f g v} hin hg hfit hapart hput := by
    obtain ⟨data', hwrite, hlength, hbits⟩ := tmsgWriteUle_eq hin v
    obtain rfl := Option.some.inj (hwrite.symm.trans hput)
    exact tmsgReadUle_congr hg hlength (uleField_other hin.pos hbits hfit hapart.symm)

inductive BitOrder where
  | be
  | le
  deriving DecidableEq

def BitOrder.parts : BitOrder → Parts Tmsg (Nat × Nat) UInt64
  | .be => ubeParts
  | .le => uleParts

/-- A message that is put together by writes to fields that do not overlap, each of a number that fits: every field
holds its number, and every other field that overlaps with none of them what it held. -/
theorem fields_written (order : BitOrder) {ws : List ((Nat × Nat) × UInt64)}
    (hin : ∀ w ∈ ws, InMessage msg w.1.1 w.1.2) (hfit : ∀ w ∈ ws, w.2.toNat < 2 ^ w.1.2)
    (hapart : ws.Pairwise fun w w' => w.1.1 + w.1.2 ≤ w'.1.1 ∨ w'.1.1 + w'.1.2 ≤ w.1.1) :
    ∃ msg', order.parts.putAll msg ws = some msg' ∧ (∀ w ∈ ws, order.parts.get msg' w.1 = some w.2) ∧
      ∀ g : Nat × Nat, InMessage msg g.1 g.2 → (∀ w ∈ ws, w.1.1 + w.1.2 ≤ g.1 ∨ g.1 + g.2 ≤ w.1.1) →
        order.parts.get msg' g = order.parts.get msg g := by
  cases order with
  | be => exact ubeParts_lawful.putAll hin hfit hapart
  | le => exact uleParts_lawful.putAll hin hfit hapart

/-- Two fields that share a byte. -/
theorem fields_written_two :
    ∃ msg', BitOrder.le.parts.putAll (newTmsg [0xff, 0xff] 2) [((0, 3), 5), ((3, 10), 700)] = some msg' ∧
      (∀ w ∈ [((0, 3), 5), ((3, 10), 700)], BitOrder.le.parts.get msg' w.1 = some w.2) ∧
      ∀ g : Nat × Nat, InMessage (newTmsg [0xff, 0xff] 2) g.1 g.2 →
        (∀ w ∈ [((0, 3), (5 : UInt64)), ((3, 10), 700)], w.1.1 + w.1.2 ≤ g.1 ∨ g.1 + g.2 ≤ w.1.1) →
        BitOrder.le.parts.get msg' g = BitOrder.le.parts.get (newTmsg [0xff, 0xff] 2) g :=
  fields_written .le
    (by
      rintro w hw
      simp only [List.mem_cons, List.not_mem_nil, or_false] at hw
      rcases hw with rfl | rfl <;> exact ⟨by decide, by decide, by decide, by decide⟩)
    (by decide) (by decide)

def sensorMsgSet (offset : Nat) (msg : Tmsg) (value : UInt16) : Option Tmsg :=
  tmsgWriteUbe msg offset 16 value.toUInt64

def sensorMsgNodeIdSet := sensorMsgSet 0
def sensorMsgParentIdSet := sensorMsgSet 16
def sensorMsgPositionXSet := sensorMsgSet 32
def sensorMsgPositionYSet := sensorMsgSet 48
def sensorMsgSensorTempSet := sensorMsgSet 64
def sensorMsgSensorPhotoSet := sensorMsgSet 80
def sensorMsgSensorSoundSet := sensorMsgSet 96
def sensorMsgSensorXAccSet := sensorMsgSet 112
def sensorMsgSensorYAccSet := sensorMsgSet 128
def sensorMsgSensorXMagSet := sensorMsgSet 144
def sensorMsgSensorYMagSet := sensorMsgSet 160
def sensorMsgCrcSet := sensorMsgSet 176

inductive SensorField where
  | nodeId | parentId | positionX | positionY | temp | photo | sound | xAcc | yAcc | xMag | yMag | crc
  deriving DecidableEq

namespace SensorField

def setter : SensorField → Tmsg → UInt16 → Option Tmsg
  | nodeId => sensorMsgNodeIdSet
  | parentId => sensorMsgParentIdSet
  | positionX => sensorMsgPositionXSet
  | positionY => sensorMsgPositionYSet
  | temp => sensorMsgSensorTempSet
  | photo => sensorMsgSensorPhotoSet
  | sound => sensorMsgSensorSoundSet
  | xAcc => sensorMsgSensorXAccSet
  | yAcc => sensorMsgSensorYAccSet
  | xMag => sensorMsgSensorXMagSet
  | yMag => sensorMsgSensorYMagSet
  | crc => sensorMsgCrcSet

/-- An assignment to a field of `sensor_msg_t`. -/
def assign (value : UInt16) (m : SensorMsg) : SensorField → SensorMsg
  | nodeId => { m with nodeId := value }
  | parentId => { m with parentId := value }
  | positionX => { m with position.x := value }
  | positionY => { m with position.y := value }
  | temp => { m with sensor.temp := value }
  | photo => { m with sensor.photo := value }
  | sound => { m with sensor.sound := value }
  | xAcc => { m with sensor.xAcc := value }
  | yAcc => { m with sensor.yAcc := value }
  | xMag => { m with sensor.xMag := value }
  | yMag => { m with sensor.yMag := value }
  | crc => { m with crc := value }

def index : SensorField → Nat
  | nodeId => 0
  | parentId => 1
  | positionX => 2
  | positionY => 3
  | temp => 4
  | photo => 5
  | sound => 6
  | xAcc => 7
  | yAcc => 8
  | xMag => 9
  | yMag => 10
  | crc => 11

end SensorField

private theorem sensorMsgSet_spec {data : List UInt8} {len i : Nat} (hlen : i + 2 ≤ len) (hdata : i + 2 ≤ data.length)
    (value : UInt16) : sensorMsgSet (8 * i) ⟨data, len⟩ value =
      some ⟨(data.set i (value >>> 8).toUInt8).set (i + 1) value.toUInt8, len⟩ := by
  have hbound : boundsp ⟨data, len⟩ (8 * i) 16 = true := by
    simp only [boundsp, decide_eq_true_eq]
    omega
  have hdiv : 8 * i / 8 = i := by omega
  have hmod : 8 * i % 8 = 0 := by omega
  have hhi : i < data.length := by omega
  have hlo : i + 1 < data.length := by omega
  have hshift : (value.toUInt64 >>> 8).toUInt8 = (value >>> 8).toUInt8 := by
    apply UInt8.toNat_inj.mp
    simp
  simp [sensorMsgSet, tmsgWriteUbe, hbound, hdiv, hmod, writeUbeLoop, Tmsg.put, hhi, hlo, hshift]

private theorem flatMap_nxUint16_set (ws : List UInt16) (back : List UInt8) (w : UInt16) {k : Nat}
    (hk : k < ws.length) :
    ((ws.flatMap nxUint16 ++ back).set (2 * k) (w >>> 8).toUInt8).set (2 * k + 1) w.toUInt8 =
      (ws.set k w).flatMap nxUint16 ++ back := by
  induction ws generalizing k with
  | nil => cases hk
  | cons v ws ih =>
    cases k with
    | zero => rfl
    | succ k =>
      exact congrArg (nxUint16 v ++ ·) (ih (Nat.lt_of_succ_lt_succ hk))

private theorem sensorMsgSet_word (ws : List UInt16) (back : List UInt8) {len k : Nat} (hk : k < ws.length)
    (hlen : 2 * ws.length ≤ len) (value : UInt16) :
    sensorMsgSet (16 * k) (newTmsg (ws.flatMap nxUint16 ++ back) len) value =
      some (newTmsg ((ws.set k value).flatMap nxUint16 ++ back) len) := by
  have hoffset : 16 * k = 8 * (2 * k) := by omega
  have hbytes : (ws.flatMap nxUint16).length = 2 * ws.length := by
    simp [List.length_flatMap, nxUint16, Nat.mul_comm]
  have hdata : 2 * k + 2 ≤ (ws.flatMap nxUint16 ++ back).length := by
    rw [List.length_append, hbytes]
    omega
  rw [hoffset, newTmsg, sensorMsgSet_spec (by omega) hdata, flatMap_nxUint16_set ws back value hk]
  rfl

namespace SensorField

private theorem setter_eq (f : SensorField) : f.setter = sensorMsgSet (16 * f.index) := by
  cases f <;> rfl

private theorem assign_words (f : SensorField) (value : UInt16) (m : SensorMsg) :
    (assign value m f).fields ++ [(assign value m f).crc] = (m.fields ++ [m.crc]).set f.index value := by
  cases f <;> rfl

private theorem index_lt (f : SensorField) (m : SensorMsg) : f.index < (m.fields ++ [m.crc]).length := by
  cases f <;> exact Nat.lt_of_sub_pos (Nat.succ_pos _)

private theorem setter_spec (f : SensorField) (m : SensorMsg) (back : List UInt8) {len : Nat} (hlen : 24 ≤ len)
    (value : UInt16) :
    f.setter (newTmsg (m.bytes ++ back) len) value = some (newTmsg ((assign value m f).bytes ++ back) len) := by
  rw [setter_eq, SensorMsg.bytes, sensorMsgSet_word _ _ (f.index_lt m) hlen, ← assign_words, SensorMsg.bytes]

end SensorField

def sensorMsgSetAll (msg : Tmsg) (calls : List (SensorField × UInt16)) : Option Tmsg :=
  calls.foldlM (fun msg c => c.1.setter msg c.2) msg

private theorem sensorMsgSetAll_spec (m : SensorMsg) (back : List UInt8) {len : Nat} (hlen : 24 ≤ len)
    (calls : List (SensorField × UInt16)) :
    sensorMsgSetAll (newTmsg (m.bytes ++ back) len) calls =
      some (newTmsg ((calls.foldl (fun m c => c.1.assign c.2 m) m).bytes ++ back) len) := by
  induction calls generalizing m with
  | nil => rfl
  | cons c calls ih =>
    rw [sensorMsgSetAll, List.foldlM_cons, c.1.setter_spec m back hlen]
    exact ih _

private theorem nxUint16_beWord (hi lo : UInt8) : nxUint16 (beWord hi lo) = [hi, lo] := by
  have hword : (beWord hi lo).toNat = hi.toNat * 256 + lo.toNat := by
    rw [beWord, UInt16.toNat, BitVec.toNat_append, ← Nat.shiftLeft_add_eq_or_of_lt lo.toBitVec.isLt, Nat.shiftLeft_eq]
    rfl
  have hhi := hi.toNat_lt
  have hlo := lo.toNat_lt
  have htop : ((beWord hi lo) >>> 8).toUInt8 = hi := by
    apply UInt8.toNat_inj.mp
    simp [hword, Nat.shiftRight_eq_div_pow]
    omega
  have hbottom : (beWord hi lo).toUInt8 = lo := by
    apply UInt8.toNat_inj.mp
    simp [hword]
  rw [nxUint16, htop, hbottom]

private theorem exists_words (n : Nat) {data : List UInt8} (hdata : 2 * n ≤ data.length) :
    ∃ ws : List UInt16, ws.length = n ∧ data = ws.flatMap nxUint16 ++ data.drop (2 * n) := by
  induction n generalizing data with
  | zero => exact ⟨[], rfl, rfl⟩
  | succ n ih =>
    obtain _ | ⟨hi, _ | ⟨lo, data⟩⟩ := data
    · simp at hdata
    · simp at hdata
      omega
    · have hrest : 2 * n ≤ data.length := by
        simp at hdata
        omega
      obtain ⟨ws, hlength, hws⟩ := ih hrest
      refine ⟨beWord hi lo :: ws, congrArg Nat.succ hlength, ?_⟩
      rw [List.flatMap_cons, nxUint16_beWord, List.append_assoc]
      exact congrArg (hi :: lo :: ·) hws

private theorem exists_sensorMsg {data : List UInt8} (hdata : 24 ≤ data.length) :
    ∃ m : SensorMsg, data = m.bytes ++ data.drop 24 := by
  obtain ⟨ws, hlength, hws⟩ := exists_words 12 hdata
  match ws, hlength with
  | [a, b, c, d, e, f, g, h, i, j, k, l], _ => exact ⟨⟨a, b, ⟨c, d⟩, ⟨e, f, g, h, i, j, k⟩, l⟩, hws⟩

/-- Any run of setters is a run of assignments to the structure that a mote has in memory: the getters return what it
comes to, the block holds it byte for byte, and the bytes behind it stay. -/
theorem setters_assign (hlen : 24 ≤ msg.len) (hdata : 24 ≤ msg.data.length) (calls : List (SensorField × UInt16)) :
    ∃ m msg', sensorMsgGetAll msg = some m ∧ sensorMsgSetAll msg calls = some msg' ∧
      sensorMsgGetAll msg' = some (calls.foldl (fun m c => c.1.assign c.2 m) m) ∧
      msg'.data = (calls.foldl (fun m c => c.1.assign c.2 m) m).bytes ++ msg.data.drop 24 := by
  obtain ⟨m, hm⟩ := exists_sensorMsg hdata
  have hmsg : msg = newTmsg (m.bytes ++ msg.data.drop 24) msg.len := by
    rw [← hm]
    rfl
  refine ⟨m, newTmsg ((calls.foldl (fun m c => c.1.assign c.2 m) m).bytes ++ msg.data.drop 24) msg.len, ?_, ?_, ?_, rfl⟩
  · rw [hmsg]
    exact sensorMsgGetAll_spec m _ hlen
  · conv_lhs => rw [hmsg]
    exact sensorMsgSetAll_spec m _ hlen calls
  · exact sensorMsgGetAll_spec _ _ hlen

/-- A block of zeros, given a temperature twice. -/
theorem setters_assign_twice :
    ∃ m msg', sensorMsgGetAll (newTmsg (List.replicate 32 0) 32) = some m ∧
      sensorMsgSetAll (newTmsg (List.replicate 32 0) 32) [(.temp, 513), (.crc, 7), (.temp, 258)] = some msg' ∧
      sensorMsgGetAll msg' = some ({ m with sensor.temp := 258, crc := 7 } : SensorMsg) ∧
      msg'.data = ({ m with sensor.temp := 258, crc := 7 } : SensorMsg).bytes ++ (List.replicate 32 0).drop 24 :=
  setters_assign (by decide) (by decide) [(.temp, 513), (.crc, 7), (.temp, 258)]

end TinyosGraphics.Sensor
