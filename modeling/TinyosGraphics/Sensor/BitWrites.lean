import TinyosGraphics.Sensor.BitFields

/-! What writing a field of bits does to the block: to the field, and to the bits around it. -/
namespace TinyosGraphics.Sensor
open Lib Bits

variable {msg : Tmsg} {offset length : Nat}

private theorem put_some {data : List UInt8} {b : Nat} (hb : b < data.length) (v : UInt8) :
    ({ msg with data := data } : Tmsg).put b v = some { msg with data := data.set b v } :=
  if_pos hb

private theorem get_some {data : List UInt8} {b : Nat} (hb : b < data.length) : data[b]? = some (data.getD b 0) := by
  rw [List.getD_eq_getElem _ _ hb, List.getElem?_eq_getElem hb]

private theorem InMessage.byte_lt (h : InMessage msg offset length) {b : Nat} (hb : 8 * b < offset + length) :
    b < msg.data.length := by
  have hblock := h.block
  have hinside := h.inside
  omega

/-- The bits of the block after a write. A number that is too large for its field spills into the bits in front of it,
up to the beginning of the byte. -/
def ubeWritten (data : List UInt8) (offset length : Nat) (x : UInt64) (i : Nat) : Bool :=
  if offset ≤ i ∧ i < offset + length then x.toNat.testBit (offset + length - 1 - i)
  else beBit data i || (decide (8 * (offset / 8) ≤ i ∧ i < offset) && x.toNat.testBit (offset + length - 1 - i))

theorem ubeWritten_in {data : List UInt8} {x : UInt64} {i k : Nat} (hin : offset ≤ i ∧ i < offset + length)
    (hk : offset + length - 1 - i = k) : ubeWritten data offset length x i = x.toNat.testBit k := by
  rw [ubeWritten, if_pos hin, hk]

theorem ubeWritten_behind {data : List UInt8} {x : UInt64} {i : Nat} (hi : offset + length ≤ i) :
    ubeWritten data offset length x i = beBit data i := by
  have hspill : ¬ (8 * (offset / 8) ≤ i ∧ i < offset) := by omega
  rw [ubeWritten, if_neg (by omega), decide_eq_false hspill, Bool.false_and, Bool.or_false]

theorem ubeWritten_before {data : List UInt8} {x : UInt64} {i : Nat} (hi : i < 8 * (offset / 8)) :
    ubeWritten data offset length x i = beBit data i := by
  have hspill : ¬ (8 * (offset / 8) ≤ i ∧ i < offset) := by omega
  rw [ubeWritten, if_neg (by omega), decide_eq_false hspill, Bool.false_and, Bool.or_false]

theorem ubeWritten_spill {data : List UInt8} {x : UInt64} {i k : Nat} (hi : 8 * (offset / 8) ≤ i ∧ i < offset)
    (hk : offset + length - 1 - i = k) :
    ubeWritten data offset length x i = (beBit data i || x.toNat.testBit k) := by
  rw [ubeWritten, if_neg (by omega), decide_eq_true hi, Bool.true_and, hk]

def UbeDone (msg : Tmsg) (offset length : Nat) (x : UInt64) (b : Nat) (data : List UInt8) : Prop :=
  Overwritten (7 - ·) msg.data (ubeWritten msg.data offset length x) (8 * b) data

private theorem writeUbeLoop_done (h : InMessage msg offset length) {x : UInt64} {n b rem : Nat} {data : List UInt8}
    (hn : 8 * n ≤ rem) (hrem : rem ≤ length) (hb : 8 * b + rem = offset + length)
    (hdone : UbeDone msg offset length x b data) :
    ∃ data', writeUbeLoop x n { msg with data := data } b rem = some ({ msg with data := data' }, b + n) ∧
      UbeDone msg offset length x (b + n) data' := by
  induction n generalizing b rem data with
  | zero => exact ⟨data, rfl, hdone⟩
  | succ n ih =>
    have hword := h.word
    have hlt : b < data.length := by
      rw [hdone.length]
      exact h.byte_lt (by omega)
    have hnext : UbeDone msg offset length x (b + 1) (data.set b (x >>> UInt64.ofNat (rem - 8)).toUInt8) := by
      refine hdone.next hlt fun r hr => ?_
      have hbyte : 7 - r < 8 := by omega
      rw [testBit_toUInt8, decide_eq_true hbyte, Bool.true_and, testBit_shiftRight _ (by omega),
        ubeWritten_in (by omega) rfl]
      congr 1
      omega
    have hplace : 8 * (b + 1) + (rem - 8) = offset + length := by omega
    obtain ⟨data', hloop, hdone'⟩ := ih (by omega) (by omega) hplace hnext
    have hbyte : b + 1 + n = b + (n + 1) := by omega
    rw [hbyte] at hloop hdone'
    refine ⟨data', ?_, hdone'⟩
    rw [writeUbeLoop, put_some hlt]
    exact hloop

private theorem writeUbe_rest (h : InMessage msg offset length) {x : UInt64} {b rem : Nat} {data : List UInt8}
    (hrem : rem ≤ length) (hb : 8 * b + rem = offset + length) (hdone : UbeDone msg offset length x b data) :
    ∃ data', (do
        let (msg, byteOffset) ← writeUbeLoop x (rem / 8) { msg with data := data } b rem
        if 0 < rem % 8 then do
          let mask : UInt64 := 1 <<< UInt64.ofNat (8 - rem % 8) - 1
          let b ← msg.data[byteOffset]?
          msg.put byteOffset ((b.toUInt64 &&& mask) ||| x <<< UInt64.ofNat (8 - rem % 8)).toUInt8
        else return msg) = some { msg with data := data' } ∧ data'.length = msg.data.length ∧
      beBit data' = ubeWritten msg.data offset length x := by
  obtain ⟨data', hloop, hdone'⟩ := writeUbeLoop_done (n := rem / 8) h (by omega) hrem hb hdone
  rw [hloop]
  dsimp only [Option.bind_eq_bind, Option.bind_some]
  by_cases hlast : 0 < rem % 8
  · have hlt : b + rem / 8 < data'.length := by
      rw [hdone'.length]
      exact h.byte_lt (by omega)
    rw [if_pos hlast, get_some hlt, Option.bind_some, put_some hlt]
    have hall := hdone'.next hlt (v := (((data'.getD (b + rem / 8) 0).toUInt64 &&&
      (1 <<< UInt64.ofNat (8 - rem % 8) - 1)) ||| x <<< UInt64.ofNat (8 - rem % 8)).toUInt8) fun r hr => ?_
    · exact ⟨_, rfl, hall.length, hall.all fun i hi => ubeWritten_behind (by omega)⟩
    · have hbyte : 7 - r < 8 := by omega
      rw [testBit_toUInt8, decide_eq_true hbyte, Bool.true_and, testBit_or, testBit_and, testBit_low (by omega),
        testBit_toUInt64, hdone'.byte hr, testBit_shiftLeft _ (by omega)]
      by_cases hin : r < rem % 8
      · have hmask : ¬ 7 - r < 8 - rem % 8 := by omega
        have hword : 8 - rem % 8 ≤ 7 - r ∧ 7 - r < 64 := by omega
        rw [decide_eq_false hmask, Bool.and_false, Bool.false_or, decide_eq_true hword, Bool.true_and,
          ubeWritten_in (by omega) rfl]
        congr 1
        omega
      · have hmask : 7 - r < 8 - rem % 8 := by omega
        have hword : ¬ (8 - rem % 8 ≤ 7 - r ∧ 7 - r < 64) := by omega
        rw [decide_eq_true hmask, Bool.and_true, decide_eq_false hword, Bool.false_and, Bool.or_false,
          ubeWritten_behind (by omega)]
        rfl
  · rw [if_neg hlast]
    exact ⟨data', rfl, hdone'.length, hdone'.all fun i hi => ubeWritten_behind (by omega)⟩

private theorem writeUbe_first (h : InMessage msg offset length) {x : UInt64} (hlong : ¬ length + offset % 8 ≤ 8) :
    UbeDone msg offset length x (offset / 8 + 1) (msg.data.set (offset / 8)
      (((msg.data.getD (offset / 8) 0).toUInt64 &&& ~~~(1 <<< UInt64.ofNat (8 - offset % 8) - 1)) |||
        x >>> UInt64.ofNat (length - (8 - offset % 8))).toUInt8) := by
  have hword := h.word
  have hstart : UbeDone msg offset length x (offset / 8) msg.data := .start fun i hi => ubeWritten_before hi
  refine hstart.next (h.byte_lt (by omega)) fun r hr => ?_
  have hbyte : 7 - r < 8 := by omega
  have hword' : 7 - r < 64 := by omega
  rw [testBit_toUInt8, decide_eq_true hbyte, Bool.true_and, testBit_or, testBit_and, testBit_not,
    testBit_low (by omega), testBit_toUInt64, hstart.byte hr, testBit_shiftRight _ (by omega),
    decide_eq_true hword', Bool.true_and]
  by_cases hin : offset % 8 ≤ r
  · have hmask : 7 - r < 8 - offset % 8 := by omega
    rw [decide_eq_true hmask, Bool.not_true, Bool.and_false, Bool.false_or, ubeWritten_in (by omega) rfl]
    congr 1
    omega
  · have hmask : ¬ 7 - r < 8 - offset % 8 := by omega
    rw [decide_eq_false hmask, Bool.not_false, Bool.and_true, ubeWritten_spill (by omega) rfl]
    congr 2
    omega

private theorem writeUbe_byte (h : InMessage msg offset length) {x : UInt64} (hshort : length + offset % 8 ≤ 8) :
    UbeDone msg offset length x (offset / 8 + 1) (msg.data.set (offset / 8)
      (((msg.data.getD (offset / 8) 0).toUInt64 &&&
        ~~~((1 <<< UInt64.ofNat length - 1) <<< UInt64.ofNat (8 - offset % 8 - length))) |||
        x <<< UInt64.ofNat (8 - offset % 8 - length)).toUInt8) := by
  have hpos := h.pos
  have hstart : UbeDone msg offset length x (offset / 8) msg.data := .start fun i hi => ubeWritten_before hi
  refine hstart.next (h.byte_lt (by omega)) fun r hr => ?_
  have hbyte : 7 - r < 8 := by omega
  have hword' : 7 - r < 64 := by omega
  rw [testBit_toUInt8, decide_eq_true hbyte, Bool.true_and, testBit_or, testBit_and, testBit_not,
    testBit_shiftLeft _ (by omega), testBit_low (by omega), testBit_toUInt64, hstart.byte hr,
    testBit_shiftLeft _ (by omega), decide_eq_true hword', Bool.true_and]
  by_cases hbehind : offset % 8 + length ≤ r
  · have hshift : ¬ (8 - offset % 8 - length ≤ 7 - r ∧ 7 - r < 64) := by omega
    rw [decide_eq_false hshift, Bool.false_and, Bool.not_false, Bool.and_true, Bool.false_and, Bool.or_false,
      ubeWritten_behind (by omega)]
    rfl
  · have hshift : 8 - offset % 8 - length ≤ 7 - r ∧ 7 - r < 64 := by omega
    rw [decide_eq_true hshift, Bool.true_and, Bool.true_and]
    by_cases hin : offset % 8 ≤ r
    · have hmask : 7 - r - (8 - offset % 8 - length) < length := by omega
      rw [decide_eq_true hmask, Bool.not_true, Bool.and_false, Bool.false_or, ubeWritten_in (by omega) rfl]
      congr 1
      omega
    · have hmask : ¬ 7 - r - (8 - offset % 8 - length) < length := by omega
      rw [decide_eq_false hmask, Bool.not_false, Bool.and_true, ubeWritten_spill (by omega) rfl]
      congr 2
      omega

theorem tmsgWriteUbe_eq (h : InMessage msg offset length) (x : UInt64) :
    ∃ data', tmsgWriteUbe msg offset length x = some { msg with data := data' } ∧ data'.length = msg.data.length ∧
      beBit data' = ubeWritten msg.data offset length x := by
  have hpos := h.pos
  rw [tmsgWriteUbe, if_pos h.boundsp]
  dsimp only
  by_cases hshort : length + offset % 8 ≤ 8
  · have hdone := writeUbe_byte h (x := x) hshort
    rw [if_pos hshort, h.byte (b := offset / 8) (by omega)]
    refine ⟨_, put_some (h.byte_lt (by omega)) _, hdone.length, hdone.all fun i hi => ubeWritten_behind (by omega)⟩
  · rw [if_neg hshort]
    by_cases hinner : 0 < offset % 8
    · have hb : 8 * (offset / 8 + 1) + (length - (8 - offset % 8)) = offset + length := by omega
      have hlt : offset / 8 < msg.data.length := h.byte_lt (by omega)
      rw [if_pos hinner, h.byte (b := offset / 8) (by omega)]
      dsimp only [Option.bind_eq_bind, Option.bind_some]
      rw [Tmsg.put, if_pos hlt]
      exact writeUbe_rest h (Nat.sub_le _ _) hb (writeUbe_first h hshort)
    · have hb : 8 * (offset / 8) + length = offset + length := by omega
      rw [if_neg hinner]
      exact writeUbe_rest h (Nat.le_refl _) hb (.start fun i hi => ubeWritten_before hi)

/-- The bits of the block after a write. A number that is too large for its field spills into the bits behind it, up to
the end of the byte. -/
def uleWritten (data : List UInt8) (offset length : Nat) (x : UInt64) (i : Nat) : Bool :=
  if offset ≤ i ∧ i < offset + length then x.toNat.testBit (i - offset)
  else leBit data i ||
    (decide (offset + length ≤ i ∧ i < 8 * ((offset + length - 1) / 8 + 1)) && x.toNat.testBit (i - offset))

theorem uleWritten_in {data : List UInt8} {x : UInt64} {i k : Nat} (hin : offset ≤ i ∧ i < offset + length)
    (hk : i - offset = k) : uleWritten data offset length x i = x.toNat.testBit k := by
  rw [uleWritten, if_pos hin, hk]

theorem uleWritten_before {data : List UInt8} {x : UInt64} {i : Nat} (hi : i < offset) :
    uleWritten data offset length x i = leBit data i := by
  have hspill : ¬ (offset + length ≤ i ∧ i < 8 * ((offset + length - 1) / 8 + 1)) := by omega
  rw [uleWritten, if_neg (by omega), decide_eq_false hspill, Bool.false_and, Bool.or_false]

theorem uleWritten_behind {data : List UInt8} {x : UInt64} {i : Nat} (hpos : 0 < length)
    (hi : 8 * ((offset + length - 1) / 8 + 1) ≤ i) : uleWritten data offset length x i = leBit data i := by
  have hspill : ¬ (offset + length ≤ i ∧ i < 8 * ((offset + length - 1) / 8 + 1)) := by omega
  rw [uleWritten, if_neg (by omega), decide_eq_false hspill, Bool.false_and, Bool.or_false]

theorem uleWritten_spill {data : List UInt8} {x : UInt64} {i k : Nat}
    (hi : offset + length ≤ i ∧ i < 8 * ((offset + length - 1) / 8 + 1)) (hk : i - offset = k) :
    uleWritten data offset length x i = (leBit data i || x.toNat.testBit k) := by
  rw [uleWritten, if_neg (by omega), decide_eq_true hi, Bool.true_and, hk]

def UleDone (msg : Tmsg) (offset length : Nat) (x : UInt64) (b : Nat) (data : List UInt8) : Prop :=
  Overwritten id msg.data (uleWritten msg.data offset length x) (8 * b) data

private theorem writeUleLoop_done (h : InMessage msg offset length) {x : UInt64} {n b shift : Nat} {data : List UInt8}
    (hn : shift + 8 * n ≤ length) (hb : 8 * b = offset + shift) (hdone : UleDone msg offset length x b data) :
    ∃ data', writeUleLoop x n { msg with data := data } b shift =
        some ({ msg with data := data' }, b + n, shift + 8 * n) ∧
      UleDone msg offset length x (b + n) data' := by
  induction n generalizing b shift data with
  | zero => exact ⟨data, rfl, hdone⟩
  | succ n ih =>
    have hword := h.word
    have hlt : b < data.length := by
      rw [hdone.length]
      exact h.byte_lt (by omega)
    have hnext : UleDone msg offset length x (b + 1) (data.set b (x >>> UInt64.ofNat shift).toUInt8) := by
      refine hdone.next hlt fun r hr => ?_
      rw [id, testBit_toUInt8, decide_eq_true hr, Bool.true_and, testBit_shiftRight _ (by omega),
        uleWritten_in (by omega) rfl]
      congr 1
      omega
    have hplace : 8 * (b + 1) = offset + (shift + 8) := by omega
    obtain ⟨data', hloop, hdone'⟩ := ih (by omega) hplace hnext
    have hbyte : b + 1 + n = b + (n + 1) := by omega
    have hshift : shift + 8 + 8 * n = shift + 8 * (n + 1) := by omega
    rw [hbyte, hshift] at hloop
    rw [hbyte] at hdone'
    refine ⟨data', ?_, hdone'⟩
    rw [writeUleLoop, put_some hlt]
    exact hloop

private theorem writeUle_rest (h : InMessage msg offset length) {x : UInt64} {b shift rem : Nat} {data : List UInt8}
    (hrem : shift + rem = length) (hb : 8 * b = offset + shift) (hdone : UleDone msg offset length x b data) :
    ∃ data', (do
        let (msg, byteOffset, shift) ← writeUleLoop x (rem / 8) { msg with data := data } b shift
        if 0 < rem % 8 then do
          let b ← msg.data[byteOffset]?
          let mask : UInt64 := 1 <<< UInt64.ofNat (rem % 8) - 1
          msg.put byteOffset ((b.toUInt64 &&& ~~~mask) ||| x >>> UInt64.ofNat shift).toUInt8
        else return msg) = some { msg with data := data' } ∧ data'.length = msg.data.length ∧
      leBit data' = uleWritten msg.data offset length x := by
  have hpos := h.pos
  have hword := h.word
  obtain ⟨data', hloop, hdone'⟩ := writeUleLoop_done (n := rem / 8) h (by omega) hb hdone
  rw [hloop]
  dsimp only [Option.bind_eq_bind, Option.bind_some]
  by_cases hlast : 0 < rem % 8
  · have hlt : b + rem / 8 < data'.length := by
      rw [hdone'.length]
      exact h.byte_lt (by omega)
    rw [if_pos hlast, get_some hlt, Option.bind_some, put_some hlt]
    have hall := hdone'.next hlt (v := (((data'.getD (b + rem / 8) 0).toUInt64 &&&
      ~~~(1 <<< UInt64.ofNat (rem % 8) - 1)) ||| x >>> UInt64.ofNat (shift + 8 * (rem / 8))).toUInt8) fun r hr => ?_
    · exact ⟨_, rfl, hall.length, hall.all fun i hi => uleWritten_behind hpos (by omega)⟩
    · have hword' : r < 64 := by omega
      have hold := hdone'.byte hr
      rw [id] at hold ⊢
      rw [testBit_toUInt8, decide_eq_true hr, Bool.true_and, testBit_or, testBit_and, testBit_not,
        testBit_low (by omega), testBit_toUInt64, hold, testBit_shiftRight _ (by omega), decide_eq_true hword',
        Bool.true_and]
      by_cases hin : r < rem % 8
      · rw [decide_eq_true hin, Bool.not_true, Bool.and_false, Bool.false_or, uleWritten_in (by omega) rfl]
        congr 1
        omega
      · rw [decide_eq_false hin, Bool.not_false, Bool.and_true, uleWritten_spill (by omega) rfl]
        congr 2
        omega
  · rw [if_neg hlast]
    exact ⟨data', rfl, hdone'.length, hdone'.all fun i hi => uleWritten_behind hpos (by omega)⟩

private theorem writeUle_first (h : InMessage msg offset length) {x : UInt64} (hlong : ¬ length + offset % 8 ≤ 8) :
    UleDone msg offset length x (offset / 8 + 1) (msg.data.set (offset / 8)
      (((msg.data.getD (offset / 8) 0).toUInt64 &&& (1 <<< UInt64.ofNat (offset % 8) - 1)) |||
        x <<< UInt64.ofNat (offset % 8)).toUInt8) := by
  have hstart : UleDone msg offset length x (offset / 8) msg.data := .start fun i hi => uleWritten_before (by omega)
  refine hstart.next (h.byte_lt (by omega)) fun r hr => ?_
  have hold := hstart.byte hr
  rw [id] at hold ⊢
  rw [testBit_toUInt8, decide_eq_true hr, Bool.true_and, testBit_or, testBit_and, testBit_low (by omega),
    testBit_toUInt64, hold, testBit_shiftLeft _ (by omega)]
  by_cases hin : offset % 8 ≤ r
  · have hmask : ¬ r < offset % 8 := by omega
    have hword : offset % 8 ≤ r ∧ r < 64 := by omega
    rw [decide_eq_false hmask, Bool.and_false, Bool.false_or, decide_eq_true hword, Bool.true_and,
      uleWritten_in (by omega) rfl]
    congr 1
    omega
  · have hmask : r < offset % 8 := by omega
    have hword : ¬ (offset % 8 ≤ r ∧ r < 64) := by omega
    rw [decide_eq_true hmask, Bool.and_true, decide_eq_false hword, Bool.false_and, Bool.or_false,
      uleWritten_before (by omega)]
    rfl

private theorem writeUle_byte (h : InMessage msg offset length) {x : UInt64} (hshort : length + offset % 8 ≤ 8) :
    UleDone msg offset length x (offset / 8 + 1) (msg.data.set (offset / 8)
      (((msg.data.getD (offset / 8) 0).toUInt64 &&&
        ~~~((1 <<< UInt64.ofNat length - 1) <<< UInt64.ofNat (offset % 8))) |||
        x <<< UInt64.ofNat (offset % 8)).toUInt8) := by
  have hpos := h.pos
  have hstart : UleDone msg offset length x (offset / 8) msg.data := .start fun i hi => uleWritten_before (by omega)
  refine hstart.next (h.byte_lt (by omega)) fun r hr => ?_
  have hold := hstart.byte hr
  have hword' : r < 64 := by omega
  rw [id] at hold ⊢
  rw [testBit_toUInt8, decide_eq_true hr, Bool.true_and, testBit_or, testBit_and, testBit_not,
    testBit_shiftLeft _ (by omega), testBit_low (by omega), testBit_toUInt64, hold, testBit_shiftLeft _ (by omega),
    decide_eq_true hword', Bool.true_and]
  by_cases hfront : r < offset % 8
  · have hshift : ¬ (offset % 8 ≤ r ∧ r < 64) := by omega
    rw [decide_eq_false hshift, Bool.false_and, Bool.not_false, Bool.and_true, Bool.false_and, Bool.or_false,
      uleWritten_before (by omega)]
    rfl
  · have hshift : offset % 8 ≤ r ∧ r < 64 := by omega
    rw [decide_eq_true hshift, Bool.true_and, Bool.true_and]
    by_cases hin : r - offset % 8 < length
    · rw [decide_eq_true hin, Bool.not_true, Bool.and_false, Bool.false_or, uleWritten_in (by omega) rfl]
      congr 1
      omega
    · rw [decide_eq_false hin, Bool.not_false, Bool.and_true, uleWritten_spill (by omega) rfl]
      congr 2
      omega

theorem tmsgWriteUle_eq (h : InMessage msg offset length) (x : UInt64) :
    ∃ data', tmsgWriteUle msg offset length x = some { msg with data := data' } ∧ data'.length = msg.data.length ∧
      leBit data' = uleWritten msg.data offset length x := by
  have hpos := h.pos
  rw [tmsgWriteUle, if_pos h.boundsp]
  dsimp only
  by_cases hshort : length + offset % 8 ≤ 8
  · have hdone := writeUle_byte h (x := x) hshort
    rw [if_pos hshort, h.byte (b := offset / 8) (by omega)]
    exact ⟨_, put_some (h.byte_lt (by omega)) _, hdone.length, hdone.all fun i hi => uleWritten_behind hpos (by omega)⟩
  · rw [if_neg hshort]
    by_cases hinner : 0 < offset % 8
    · have hrem : 8 - offset % 8 + (length - (8 - offset % 8)) = length := by omega
      have hb : 8 * (offset / 8 + 1) = offset + (8 - offset % 8) := by omega
      have hlt : offset / 8 < msg.data.length := h.byte_lt (by omega)
      rw [if_pos hinner, h.byte (b := offset / 8) (by omega)]
      dsimp only [Option.bind_eq_bind, Option.bind_some]
      rw [Tmsg.put, if_pos hlt]
      exact writeUle_rest h hrem hb (writeUle_first h hshort)
    · have hb : 8 * (offset / 8) = offset + 0 := by omega
      have hstart : UleDone msg offset length x (offset / 8) msg.data :=
        .start fun i hi => uleWritten_before (by omega)
      rw [if_neg hinner]
      exact writeUle_rest h (Nat.zero_add length) hb hstart

end TinyosGraphics.Sensor
