import TinyosGraphics.Lib.Bits
import TinyosGraphics.Sensor.Wire

/-! `message.c`: what reading and writing a field of bits comes to, with either end of a number first. -/
namespace TinyosGraphics.Sensor
open Lib Bits

/-- An assignment to a byte of the block that `data` points to. -/
def Tmsg.put (msg : Tmsg) (byteOffset : Nat) (b : UInt8) : Option Tmsg :=
  if byteOffset < msg.data.length then some { msg with data := msg.data.set byteOffset b } else none

/-- The `while (length >= 8)` of `tmsg_read_ule`, which makes `n` turns. -/
def readUleLoop (msg : Tmsg) : (n : Nat) → (byteOffset shift : Nat) → UInt64 → Option (Nat × Nat × UInt64)
  | 0, byteOffset, shift, x => some (byteOffset, shift, x)
  | n + 1, byteOffset, shift, x => do
    let b ← msg.data[byteOffset]?
    readUleLoop msg n (byteOffset + 1) (shift + 8) (x ||| b.toUInt64 <<< UInt64.ofNat shift)

def tmsgReadUle (msg : Tmsg) (offset length : Nat) : Option UInt64 :=
  if boundsp msg offset length then
    let byteOffset := offset / 8
    let bitOffset := offset % 8
    -- all in one byte
    if length + bitOffset ≤ 8 then do
      let b ← msg.data[byteOffset]?
      return b.toUInt64 >>> UInt64.ofNat bitOffset &&& (1 <<< UInt64.ofNat length - 1)
    else do
      -- the sibling functions ask for the offset in the byte here
      let (byteOffset, shift, length, x) ←
        if 0 < offset then do
          let b ← msg.data[byteOffset]?
          pure (byteOffset + 1, 8 - bitOffset, length - (8 - bitOffset), b.toUInt64 >>> UInt64.ofNat bitOffset)
        else pure (byteOffset, 0, length, 0)
      let (byteOffset, shift, x) ← readUleLoop msg (length / 8) byteOffset shift x
      -- data from the last byte
      if 0 < length % 8 then do
        let b ← msg.data[byteOffset]?
        return x ||| (b.toUInt64 &&& (1 <<< UInt64.ofNat (length % 8) - 1)) <<< UInt64.ofNat shift
      else return x
  else some 0

/-- The `while (length >= 8)` of `tmsg_write_ule`. -/
def writeUleLoop (x : UInt64) : (n : Nat) → (msg : Tmsg) → (byteOffset shift : Nat) → Option (Tmsg × Nat × Nat)
  | 0, msg, byteOffset, shift => some (msg, byteOffset, shift)
  | n + 1, msg, byteOffset, shift => do
    let msg ← msg.put byteOffset (x >>> UInt64.ofNat shift).toUInt8
    writeUleLoop x n msg (byteOffset + 1) (shift + 8)

def tmsgWriteUle (msg : Tmsg) (offset length : Nat) (x : UInt64) : Option Tmsg :=
  if boundsp msg offset length then
    let byteOffset := offset / 8
    let bitOffset := offset % 8
    -- all in one byte
    if length + bitOffset ≤ 8 then do
      let b ← msg.data[byteOffset]?
      let mask : UInt64 := (1 <<< UInt64.ofNat length - 1) <<< UInt64.ofNat bitOffset
      msg.put byteOffset ((b.toUInt64 &&& ~~~mask) ||| x <<< UInt64.ofNat bitOffset).toUInt8
    else do
      -- some high order bits
      let (msg, byteOffset, shift, length) ←
        if 0 < bitOffset then do
          let b ← msg.data[byteOffset]?
          let msg ← msg.put byteOffset
            ((b.toUInt64 &&& (1 <<< UInt64.ofNat bitOffset - 1)) ||| x <<< UInt64.ofNat bitOffset).toUInt8
          pure (msg, byteOffset + 1, 8 - bitOffset, length - (8 - bitOffset))
        else pure (msg, byteOffset, 0, length)
      let (msg, byteOffset, shift) ← writeUleLoop x (length / 8) msg byteOffset shift
      -- data for the last byte
      if 0 < length % 8 then do
        let b ← msg.data[byteOffset]?
        let mask : UInt64 := 1 <<< UInt64.ofNat (length % 8) - 1
        msg.put byteOffset ((b.toUInt64 &&& ~~~mask) ||| x >>> UInt64.ofNat shift).toUInt8
      else return msg
  else some msg

/-- The `while (length >= 8)` of `tmsg_write_ube`. -/
def writeUbeLoop (x : UInt64) : (n : Nat) → (msg : Tmsg) → (byteOffset length : Nat) → Option (Tmsg × Nat)
  | 0, msg, byteOffset, _ => some (msg, byteOffset)
  | n + 1, msg, byteOffset, length => do
    let msg ← msg.put byteOffset (x >>> UInt64.ofNat (length - 8)).toUInt8
    writeUbeLoop x n msg (byteOffset + 1) (length - 8)

def tmsgWriteUbe (msg : Tmsg) (offset length : Nat) (x : UInt64) : Option Tmsg :=
  if boundsp msg offset length then
    let byteOffset := offset / 8
    let bitOffset := offset % 8
    -- all in one byte
    if length + bitOffset ≤ 8 then do
      let mask : UInt64 := (1 <<< UInt64.ofNat length - 1) <<< UInt64.ofNat (8 - bitOffset - length)
      let b ← msg.data[byteOffset]?
      msg.put byteOffset ((b.toUInt64 &&& ~~~mask) ||| x <<< UInt64.ofNat (8 - bitOffset - length)).toUInt8
    else do
      -- some high order bits
      let (msg, byteOffset, length) ←
        if 0 < bitOffset then do
          let mask : UInt64 := 1 <<< UInt64.ofNat (8 - bitOffset) - 1
          let length := length - (8 - bitOffset)
          let b ← msg.data[byteOffset]?
          let msg ← msg.put byteOffset ((b.toUInt64 &&& ~~~mask) ||| x >>> UInt64.ofNat length).toUInt8
          pure (msg, byteOffset + 1, length)
        else pure (msg, byteOffset, length)
      let (msg, byteOffset) ← writeUbeLoop x (length / 8) msg byteOffset length
      -- data for the last byte
      if 0 < length % 8 then do
        let mask : UInt64 := 1 <<< UInt64.ofNat (8 - length % 8) - 1
        let b ← msg.data[byteOffset]?
        msg.put byteOffset ((b.toUInt64 &&& mask) ||| x <<< UInt64.ofNat (8 - length % 8)).toUInt8
      else return msg
  else some msg

/-- `u2s`, of a number of `length` bits. A shift that leaves its type has no result. -/
def u2s (x : UInt64) (length : Nat) : Option Int :=
  if length = 0 ∨ 64 < length then none
  else if x.toNat.testBit (length - 1) then
    if length < 63 then some (x.toNat - 2 ^ length) else none
  else some x.toNat

def tmsgReadBe (msg : Tmsg) (offset length : Nat) : Option Int := do
  u2s (← tmsgReadUbe msg offset length) length

def tmsgReadLe (msg : Tmsg) (offset length : Nat) : Option Int := do
  u2s (← tmsgReadUle msg offset length) length

def tmsgWriteBe (msg : Tmsg) (offset length : Nat) (value : Int64) : Option Tmsg :=
  tmsgWriteUbe msg offset length value.toUInt64

def tmsgWriteLe (msg : Tmsg) (offset length : Nat) (value : Int64) : Option Tmsg :=
  tmsgWriteUle msg offset length value.toUInt64

/-- A field of at most a word, in a message that its block holds. -/
structure InMessage (msg : Tmsg) (offset length : Nat) : Prop where
  block : msg.len ≤ msg.data.length
  pos : 0 < length
  word : length ≤ 64
  inside : offset + length ≤ msg.len * 8

variable {msg : Tmsg} {offset length : Nat}

/-- Where the bits of a field are whose first bit is its top. -/
def ubePlace (offset length j : Nat) : Nat :=
  offset + length - 1 - j

/-- Where the bits of a field are whose first bit is its bottom. -/
def ulePlace (offset j : Nat) : Nat :=
  offset + j

def ubeField (data : List UInt8) (offset length : Nat) : Nat :=
  field (beBit data) (ubePlace offset length) length

def uleField (data : List UInt8) (offset length : Nat) : Nat :=
  field (leBit data) (ulePlace offset) length

theorem InMessage.boundsp (h : InMessage msg offset length) : boundsp msg offset length = true :=
  decide_eq_true h.inside

/-- Every byte that a field touches can be read. -/
theorem InMessage.byte (h : InMessage msg offset length) {b : Nat} (hb : 8 * b < offset + length) :
    msg.data[b]? = some (msg.data.getD b 0) := by
  have hblock := h.block
  have hinside := h.inside
  have hlt : b < msg.data.length := by omega
  rw [List.getD_eq_getElem _ _ hlt, List.getElem?_eq_getElem hlt]

private theorem got_byte {pos : Nat → Nat} {data : List UInt8} {place : Nat → Nat} {b lo hi : Nat} {y : UInt64}
    (hout : ∀ k, ¬ (lo ≤ k ∧ k < hi) → y.toNat.testBit k = false)
    (hin : ∀ k, lo ≤ k → k < hi → ∃ r < 8, place k = 8 * b + r ∧
      y.toNat.testBit k = (data.getD b 0).toNat.testBit (pos r)) : Got (bitAt pos data) place lo hi y := by
  intro k
  by_cases hk : lo ≤ k ∧ k < hi
  · obtain ⟨r, hr, hplace, hbit⟩ := hin k hk.1 hk.2
    rw [decide_eq_true hk, hplace, bitAt_byte b hr, hbit]
    rfl
  · rw [decide_eq_false hk, hout k hk]
    rfl

private theorem got_ube_shifted {b rem c : Nat} (hc : c ≤ rem) (hrem : rem ≤ length) (hlength : length ≤ 64)
    (hpos : 0 < c)
    (hc8 : c ≤ 8) (hb : 8 * b + 8 + rem = offset + length + c) :
    Got (beBit msg.data) (ubePlace offset length) (rem - c) rem
      (((msg.data.getD b 0).toUInt64 &&& (1 <<< UInt64.ofNat c - 1)) <<< UInt64.ofNat (rem - c)) := by
  refine got_byte (b := b) (fun k hk => ?_) fun k hlo hhi => ⟨rem - 1 - k + (8 - c), by omega, ?_, ?_⟩
  · rw [testBit_shiftLeft _ (by omega), testBit_and, testBit_low (by omega)]
    by_cases hlo : rem - c ≤ k ∧ k < 64
    · have hout : ¬ k - (rem - c) < c := by omega
      rw [decide_eq_false hout, Bool.and_false, Bool.and_false]
    · rw [decide_eq_false hlo, Bool.false_and]
  · rw [ubePlace]
    omega
  · have hin : rem - c ≤ k ∧ k < 64 := by omega
    have hlow : k - (rem - c) < c := by omega
    have hplace : k - (rem - c) = 7 - (rem - 1 - k + (8 - c)) := by omega
    rw [testBit_shiftLeft _ (by omega), testBit_and, testBit_low (by omega), testBit_toUInt64, decide_eq_true hin,
      decide_eq_true hlow, Bool.true_and, Bool.and_true, hplace]

private theorem low_byte (b : UInt8) : b.toUInt64 &&& (1 <<< UInt64.ofNat 8 - 1) = b.toUInt64 := by
  apply UInt64.toNat_inj.mp
  refine Nat.eq_of_testBit_eq fun k => ?_
  rw [testBit_and, testBit_low (by decide), testBit_toUInt64]
  by_cases hk : k < 8
  · simp [hk]
  · rw [testBit_byte_ge _ (Nat.le_of_not_lt hk)]
    rfl

private theorem readUbeLoop_got (h : InMessage msg offset length) {n byteOffset rem : Nat} {x : UInt64}
    (hn : 8 * n ≤ rem)
    (hrem : rem ≤ length) (hbyte : 8 * byteOffset + rem = offset + length)
    (hx : Got (beBit msg.data) (ubePlace offset length) rem length x) :
    ∃ y, readUbeLoop msg n byteOffset rem x = some (byteOffset + n, y) ∧
      Got (beBit msg.data) (ubePlace offset length) (rem - 8 * n) length y := by
  induction n generalizing byteOffset rem x with
  | zero => exact ⟨x, rfl, hx⟩
  | succ n ih =>
    have hpart : Got (beBit msg.data) (ubePlace offset length) (rem - 8) rem
        (((msg.data.getD byteOffset 0).toUInt64 &&& (1 <<< UInt64.ofNat 8 - 1)) <<< UInt64.ofNat (rem - 8)) :=
      got_ube_shifted (by omega) hrem h.word (by decide) (by decide) (by omega)
    rw [low_byte] at hpart
    have hmore := hpart.or hx (by omega) hrem
    rw [UInt64.or_comm] at hmore
    have hnext : 8 * (byteOffset + 1) + (rem - 8) = offset + length := by omega
    obtain ⟨y, hloop, hy⟩ := ih (by omega) (by omega) hnext hmore
    have hleft : rem - 8 - 8 * n = rem - 8 * (n + 1) := by omega
    refine ⟨y, ?_, hleft ▸ hy⟩
    rw [readUbeLoop, h.byte (b := byteOffset) (by omega)]
    show readUbeLoop msg n (byteOffset + 1) (rem - 8) _ = _
    rw [hloop, Nat.add_assoc, Nat.add_comm 1 n]

private theorem got_ube_last {b c : Nat} (hc : 0 < c) (hc8 : c < 8) (hle : c ≤ length)
    (hb : 8 * b + c = offset + length) :
    Got (beBit msg.data) (ubePlace offset length) 0 c ((msg.data.getD b 0).toUInt64 >>> UInt64.ofNat (8 - c)) := by
  refine got_byte (b := b) (fun k hk => ?_) fun k _ hhi => ⟨c - 1 - k, by omega, ?_, ?_⟩
  · rw [testBit_shiftRight _ (by omega), testBit_toUInt64, testBit_byte_ge _ (by omega)]
  · rw [ubePlace]
    omega
  · have hplace : 8 - c + k = 7 - (c - 1 - k) := by omega
    rw [testBit_shiftRight _ (by omega), testBit_toUInt64, hplace]

private theorem got_ube_byte {b : Nat} (hin : 8 * b ≤ offset) (hout : offset + length ≤ 8 * b + 8) :
    Got (beBit msg.data) (ubePlace offset length) 0 length
      ((msg.data.getD b 0).toUInt64 >>> UInt64.ofNat (8 - (offset - 8 * b) - length) &&&
        (1 <<< UInt64.ofNat length - 1)) := by
  refine got_byte (b := b) (fun k hk => ?_) fun k _ hhi => ⟨offset - 8 * b + length - 1 - k, by omega, ?_, ?_⟩
  · have hout : ¬ k < length := by omega
    rw [testBit_and, testBit_low (by omega), decide_eq_false hout, Bool.and_false]
  · rw [ubePlace]
    omega
  · have hplace : 8 - (offset - 8 * b) - length + k = 7 - (offset - 8 * b + length - 1 - k) := by omega
    rw [testBit_and, testBit_low (by omega), decide_eq_true hhi, Bool.and_true, testBit_shiftRight _ (by omega),
      testBit_toUInt64, hplace]

private theorem readUbe_rest (h : InMessage msg offset length) {b rem : Nat} {x : UInt64} (hrem : rem ≤ length)
    (hb : 8 * b + rem = offset + length) (hx : Got (beBit msg.data) (ubePlace offset length) rem length x) :
    ∃ y, (do
        let (byteOffset, y) ← readUbeLoop msg (rem / 8) b rem x
        if 0 < rem % 8 then do
          let b ← msg.data[byteOffset]?
          return y ||| b.toUInt64 >>> UInt64.ofNat (8 - rem % 8)
        else return y) = some y ∧ y.toNat = ubeField msg.data offset length := by
  obtain ⟨y, hloop, hy⟩ := readUbeLoop_got (n := rem / 8) h (by omega) hrem hb hx
  have hmod : rem - 8 * (rem / 8) = rem % 8 := by omega
  rw [hmod] at hy
  rw [hloop]
  dsimp only [Option.bind_eq_bind, Option.bind_some]
  by_cases hlast : 0 < rem % 8
  · have hpart : Got (beBit msg.data) (ubePlace offset length) 0 (rem % 8)
        ((msg.data.getD (b + rem / 8) 0).toUInt64 >>> UInt64.ofNat (8 - rem % 8)) :=
      got_ube_last hlast (by omega) (by omega) (by omega)
    have hall := hpart.or hy (by omega) (by omega)
    rw [UInt64.or_comm] at hall
    rw [if_pos hlast, h.byte (b := b + rem / 8) (by omega)]
    exact ⟨_, rfl, hall.field⟩
  · have hzero : rem % 8 = 0 := by omega
    rw [hzero] at hy
    exact ⟨y, if_neg hlast, hy.field⟩

/-- `tmsg_read_ube` reads the bits of its field and no others. -/
theorem tmsgReadUbe_eq (h : InMessage msg offset length) :
    ∃ x, tmsgReadUbe msg offset length = some x ∧ x.toNat = ubeField msg.data offset length := by
  have hpos := h.pos
  by_cases hbyte : length + offset % 8 ≤ 8
  · have hgot : Got (beBit msg.data) (ubePlace offset length) 0 length
        ((msg.data.getD (offset / 8) 0).toUInt64 >>> UInt64.ofNat (8 - (offset - 8 * (offset / 8)) - length) &&&
          (1 <<< UInt64.ofNat length - 1)) := got_ube_byte (by omega) (by omega)
    have hoffset : offset - 8 * (offset / 8) = offset % 8 := by omega
    rw [hoffset] at hgot
    refine ⟨_, ?_, hgot.field⟩
    rw [tmsgReadUbe, if_pos h.boundsp, if_pos hbyte, h.byte (b := offset / 8) (by omega)]
    rfl
  · rw [tmsgReadUbe, if_pos h.boundsp, if_neg hbyte]
    by_cases hinner : 0 < offset % 8
    · have hfirst : Got (beBit msg.data) (ubePlace offset length) (length - (8 - offset % 8)) length _ :=
        got_ube_shifted (b := offset / 8) (by omega) (Nat.le_refl _) h.word (by omega) (by omega) (by omega)
      rw [if_pos hinner, h.byte (b := offset / 8) (by omega)]
      exact readUbe_rest h (Nat.sub_le _ _) (by omega) hfirst
    · rw [if_neg hinner]
      exact readUbe_rest h (Nat.le_refl _) (by omega) (got_nothing _)

private theorem got_ule_shifted {b shift c : Nat} (hc8 : c ≤ 8) (hin : shift + c ≤ length) (hlength : length ≤ 64)
    (hpos : 0 < c) (hb : 8 * b = offset + shift) :
    Got (leBit msg.data) (ulePlace offset) shift (shift + c)
      (((msg.data.getD b 0).toUInt64 &&& (1 <<< UInt64.ofNat c - 1)) <<< UInt64.ofNat shift) := by
  refine got_byte (b := b) (fun k hk => ?_) fun k hlo hhi => ⟨k - shift, by omega, ?_, ?_⟩
  · rw [testBit_shiftLeft _ (by omega), testBit_and, testBit_low (by omega)]
    by_cases hlo : shift ≤ k ∧ k < 64
    · have hout : ¬ k - shift < c := by omega
      rw [decide_eq_false hout, Bool.and_false, Bool.and_false]
    · rw [decide_eq_false hlo, Bool.false_and]
  · rw [ulePlace]
    omega
  · have hword : shift ≤ k ∧ k < 64 := by omega
    have hlow : k - shift < c := by omega
    rw [testBit_shiftLeft _ (by omega), testBit_and, testBit_low (by omega), testBit_toUInt64, decide_eq_true hword,
      decide_eq_true hlow, Bool.true_and, Bool.and_true]
    rfl

private theorem got_ule_first {b r : Nat} (hr : r < 8) (hb : offset = 8 * b + r) :
    Got (leBit msg.data) (ulePlace offset) 0 (8 - r) ((msg.data.getD b 0).toUInt64 >>> UInt64.ofNat r) := by
  refine got_byte (b := b) (fun k hk => ?_) fun k _ hhi => ⟨r + k, by omega, ?_, ?_⟩
  · rw [testBit_shiftRight _ (by omega), testBit_toUInt64, testBit_byte_ge _ (by omega)]
  · rw [ulePlace]
    omega
  · rw [testBit_shiftRight _ (by omega), testBit_toUInt64]
    rfl

private theorem got_ule_byte {b r : Nat} (hout : r + length ≤ 8) (hb : offset = 8 * b + r) (hr : r < 8) :
    Got (leBit msg.data) (ulePlace offset) 0 length
      ((msg.data.getD b 0).toUInt64 >>> UInt64.ofNat r &&& (1 <<< UInt64.ofNat length - 1)) := by
  refine got_byte (b := b) (fun k hk => ?_) fun k _ hhi => ⟨r + k, by omega, ?_, ?_⟩
  · have hout : ¬ k < length := by omega
    rw [testBit_and, testBit_low (by omega), decide_eq_false hout, Bool.and_false]
  · rw [ulePlace]
    omega
  · rw [testBit_and, testBit_low (by omega), decide_eq_true hhi, Bool.and_true, testBit_shiftRight _ (by omega),
      testBit_toUInt64]
    rfl

private theorem readUleLoop_got (h : InMessage msg offset length) {n byteOffset shift : Nat} {x : UInt64}
    (hn : shift + 8 * n ≤ length) (hb : 8 * byteOffset = offset + shift)
    (hx : Got (leBit msg.data) (ulePlace offset) 0 shift x) :
    ∃ y, readUleLoop msg n byteOffset shift x = some (byteOffset + n, shift + 8 * n, y) ∧
      Got (leBit msg.data) (ulePlace offset) 0 (shift + 8 * n) y := by
  induction n generalizing byteOffset shift x with
  | zero => exact ⟨x, rfl, hx⟩
  | succ n ih =>
    have hpart : Got (leBit msg.data) (ulePlace offset) shift (shift + 8)
        (((msg.data.getD byteOffset 0).toUInt64 &&& (1 <<< UInt64.ofNat 8 - 1)) <<< UInt64.ofNat shift) :=
      got_ule_shifted (by decide) (by omega) h.word (by decide) hb
    rw [low_byte] at hpart
    have hnext : 8 * (byteOffset + 1) = offset + (shift + 8) := by omega
    obtain ⟨y, hloop, hy⟩ := ih (by omega) hnext (hx.or hpart (by omega) (by omega))
    have hshift : shift + 8 + 8 * n = shift + 8 * (n + 1) := by omega
    have hbyte : byteOffset + 1 + n = byteOffset + (n + 1) := by omega
    refine ⟨y, ?_, hshift ▸ hy⟩
    rw [readUleLoop, h.byte (b := byteOffset) (by omega)]
    show readUleLoop msg n (byteOffset + 1) (shift + 8) _ = _
    rw [hloop, hshift, hbyte]

private theorem readUle_rest (h : InMessage msg offset length) {b shift rem : Nat} {x : UInt64}
    (hrem : shift + rem = length)
    (hb : 8 * b = offset + shift) (hx : Got (leBit msg.data) (ulePlace offset) 0 shift x) :
    ∃ y, (do
        let (byteOffset, shift, y) ← readUleLoop msg (rem / 8) b shift x
        if 0 < rem % 8 then do
          let b ← msg.data[byteOffset]?
          return y ||| (b.toUInt64 &&& (1 <<< UInt64.ofNat (rem % 8) - 1)) <<< UInt64.ofNat shift
        else return y) = some y ∧ y.toNat = uleField msg.data offset length := by
  obtain ⟨y, hloop, hy⟩ := readUleLoop_got (n := rem / 8) h (by omega) hb hx
  rw [hloop]
  dsimp only [Option.bind_eq_bind, Option.bind_some]
  by_cases hlast : 0 < rem % 8
  · have hpart : Got (leBit msg.data) (ulePlace offset) (shift + 8 * (rem / 8)) (shift + 8 * (rem / 8) + rem % 8)
        (((msg.data.getD (b + rem / 8) 0).toUInt64 &&& (1 <<< UInt64.ofNat (rem % 8) - 1)) <<<
          UInt64.ofNat (shift + 8 * (rem / 8))) :=
      got_ule_shifted (by omega) (by omega) h.word hlast (by omega)
    have hend : shift + 8 * (rem / 8) + rem % 8 = length := by omega
    rw [hend] at hpart
    rw [if_pos hlast, h.byte (b := b + rem / 8) (by omega)]
    exact ⟨_, rfl, (hy.or hpart (by omega) (by omega)).field⟩
  · have hend : shift + 8 * (rem / 8) = length := by omega
    rw [hend] at hy
    exact ⟨y, if_neg hlast, hy.field⟩

/-- `tmsg_read_ule` reads the bits of its field and no others. -/
theorem tmsgReadUle_eq (h : InMessage msg offset length) :
    ∃ x, tmsgReadUle msg offset length = some x ∧ x.toNat = uleField msg.data offset length := by
  have hpos := h.pos
  rw [tmsgReadUle, if_pos h.boundsp]
  dsimp only
  by_cases hbyte : length + offset % 8 ≤ 8
  · rw [if_pos hbyte, h.byte (b := offset / 8) (by omega)]
    exact ⟨_, rfl, (got_ule_byte (b := offset / 8) (r := offset % 8) (by omega) (by omega) (by omega)).field⟩
  · rw [if_neg hbyte]
    by_cases hoffset : 0 < offset
    · have hfirst : Got (leBit msg.data) (ulePlace offset) 0 (8 - offset % 8) _ :=
        got_ule_first (b := offset / 8) (r := offset % 8) (by omega) (by omega)
      have hrem : 8 - offset % 8 + (length - (8 - offset % 8)) = length := by omega
      have hb : 8 * (offset / 8 + 1) = offset + (8 - offset % 8) := by omega
      rw [if_pos hoffset, h.byte (b := offset / 8) (by omega)]
      exact readUle_rest h hrem hb hfirst
    · have hb : 8 * (offset / 8) = offset + 0 := by omega
      rw [if_neg hoffset]
      exact readUle_rest h (Nat.zero_add length) hb (got_nothing 0)

end TinyosGraphics.Sensor
