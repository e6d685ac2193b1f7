import TinyosGraphics.Motes.SensorMsg

/-! The wire format end to end: what a mote puts into a packet passes the client's check, and the
server's getters read the mote's values. `none` is a read outside the data. -/
namespace TinyosGraphics.Sensor
open Lib Motes

/-- `tmsg_t`: the bytes that `data` points to, as far as its block goes, and the length it was given. -/
structure Tmsg where
  data : List UInt8
  len : Nat

def newTmsg (packet : List UInt8) (len : Nat) : Tmsg :=
  ⟨packet, len⟩

def boundsp (msg : Tmsg) (offset length : Nat) : Bool :=
  offset + length ≤ msg.len * 8

/-- The `while (length >= 8)` of `tmsg_read_ube`, which makes `n` turns. -/
def readUbeLoop (msg : Tmsg) : (n : Nat) → (byteOffset length : Nat) → UInt64 → Option (Nat × UInt64)
  | 0, byteOffset, _, x => some (byteOffset, x)
  | n + 1, byteOffset, length, x => do
    let b ← msg.data[byteOffset]?
    readUbeLoop msg n (byteOffset + 1) (length - 8) (x ||| b.toUInt64 <<< UInt64.ofNat (length - 8))

/-- `tmsg_read_ube`. Without a function set by `tmsg_set_fail`, `tmsg_fail` does nothing. -/
def tmsgReadUbe (msg : Tmsg) (offset length : Nat) : Option UInt64 :=
  if boundsp msg offset length then
    let byteOffset := offset / 8
    let bitOffset := offset % 8
    -- all in one byte
    if length + bitOffset ≤ 8 then do
      let b ← msg.data[byteOffset]?
      return b.toUInt64 >>> UInt64.ofNat (8 - bitOffset - length) &&& (1 <<< UInt64.ofNat length - 1)
    else do
      -- some high order bits
      let (byteOffset, length, x) ←
        if 0 < bitOffset then do
          let b ← msg.data[byteOffset]?
          let length := length - (8 - bitOffset)
          pure (byteOffset + 1, length,
            (b.toUInt64 &&& (1 <<< UInt64.ofNat (8 - bitOffset) - 1)) <<< UInt64.ofNat length)
        else pure (byteOffset, length, 0)
      let (byteOffset, x) ← readUbeLoop msg (length / 8) byteOffset length x
      -- data from the last byte
      if 0 < length % 8 then do
        let b ← msg.data[byteOffset]?
        return x ||| b.toUInt64 >>> UInt64.ofNat (8 - length % 8)
      else return x
  else some 0

/-- The getters differ in their offset only; each result is cut down to a `uint16_t`. -/
def sensorMsgGet (offset : Nat) (msg : Tmsg) : Option UInt16 :=
  (tmsgReadUbe msg offset 16).map UInt64.toUInt16

def sensorMsgNodeIdGet := sensorMsgGet 0
def sensorMsgParentIdGet := sensorMsgGet 16
def sensorMsgPositionXGet := sensorMsgGet 32
def sensorMsgPositionYGet := sensorMsgGet 48
def sensorMsgSensorTempGet := sensorMsgGet 64
def sensorMsgSensorPhotoGet := sensorMsgGet 80
def sensorMsgSensorSoundGet := sensorMsgGet 96
def sensorMsgSensorXAccGet := sensorMsgGet 112
def sensorMsgSensorYAccGet := sensorMsgGet 128
def sensorMsgSensorXMagGet := sensorMsgGet 144
def sensorMsgSensorYMagGet := sensorMsgGet 160
def sensorMsgCrcGet := sensorMsgGet 176

/-- A whole message, read by the twelve getters. -/
def sensorMsgGetAll (msg : Tmsg) : Option SensorMsg := do
  return {
    nodeId := ← sensorMsgNodeIdGet msg
    parentId := ← sensorMsgParentIdGet msg
    position := ⟨← sensorMsgPositionXGet msg, ← sensorMsgPositionYGet msg⟩
    sensor := ⟨← sensorMsgSensorTempGet msg, ← sensorMsgSensorPhotoGet msg, ← sensorMsgSensorSoundGet msg,
      ← sensorMsgSensorXAccGet msg, ← sensorMsgSensorYAccGet msg, ← sensorMsgSensorXMagGet msg,
      ← sensorMsgSensorYMagGet msg⟩
    crc := ← sensorMsgCrcGet msg }

private theorem word_of_bytes (hi lo : UInt8) :
    (0 ||| hi.toUInt64 <<< UInt64.ofNat (16 - 8) ||| lo.toUInt64 <<< UInt64.ofNat (16 - 8 - 8)).toUInt16 =
      beWord hi lo := by
  have hhi := hi.toNat_lt
  have hlo := lo.toNat_lt
  have hfits : hi.toNat * 256 % 65536 = hi.toNat * 256 := Nat.mod_eq_of_lt (by omega)
  have hor : hi.toNat * 256 ||| lo.toNat = hi.toNat * 256 + lo.toNat := by
    rw [show 256 = 2 ^ 8 by rfl, ← Nat.shiftLeft_eq, Nat.shiftLeft_add_eq_or_of_lt hlo]
  rw [← beWord_eq]
  apply UInt16.toNat_inj.mp
  simp [Nat.shiftLeft_eq, hfits, hor]
  omega

/-- Sixteen bits at a byte boundary. -/
theorem sensorMsgGet_spec {msg : Tmsg} {i : Nat} {hi lo : UInt8} (hlen : i + 2 ≤ msg.len)
    (hhi : msg.data[i]? = some hi) (hlo : msg.data[i + 1]? = some lo) :
    sensorMsgGet (8 * i) msg = some (beWord hi lo) := by
  have hbound : boundsp msg (8 * i) 16 = true := by
    simp only [boundsp, decide_eq_true_eq]
    omega
  have hdiv : 8 * i / 8 = i := by omega
  have hmod : 8 * i % 8 = 0 := by omega
  rw [← word_of_bytes]
  simp [sensorMsgGet, tmsgReadUbe, hbound, hdiv, hmod, readUbeLoop, hhi, hlo]

private theorem flatMap_nxUint16_get (ws : List UInt16) (back : List UInt8) {k : Nat} (hk : k < ws.length) :
    (ws.flatMap nxUint16 ++ back)[2 * k]? = some (ws[k] >>> 8).toUInt8 ∧
      (ws.flatMap nxUint16 ++ back)[2 * k + 1]? = some ws[k].toUInt8 := by
  induction ws generalizing k with
  | nil => cases hk
  | cons w ws ih =>
    cases k with
    | zero => exact ⟨rfl, rfl⟩
    | succ k => exact ih (Nat.lt_of_succ_lt_succ hk)

private theorem sensorMsgGet_word (ws : List UInt16) (back : List UInt8) {len k : Nat} (hk : k < ws.length)
    (hlen : 2 * ws.length ≤ len) :
    sensorMsgGet (16 * k) (newTmsg (ws.flatMap nxUint16 ++ back) len) = some ws[k] := by
  obtain ⟨hhi, hlo⟩ := flatMap_nxUint16_get ws back hk
  have hoffset : 16 * k = 8 * (2 * k) := by omega
  have hin : 2 * k + 2 ≤ (newTmsg (ws.flatMap nxUint16 ++ back) len).len := by
    show 2 * k + 2 ≤ len
    omega
  rw [hoffset, sensorMsgGet_spec hin hhi hlo, beWord_nxUint16]

/-- Every getter returns the field it is named after. -/
structure Tmsg.Shows (msg : Tmsg) (m : SensorMsg) : Prop where
  nodeId : sensorMsgNodeIdGet msg = some m.nodeId
  parentId : sensorMsgParentIdGet msg = some m.parentId
  positionX : sensorMsgPositionXGet msg = some m.position.x
  positionY : sensorMsgPositionYGet msg = some m.position.y
  temp : sensorMsgSensorTempGet msg = some m.sensor.temp
  photo : sensorMsgSensorPhotoGet msg = some m.sensor.photo
  sound : sensorMsgSensorSoundGet msg = some m.sensor.sound
  xAcc : sensorMsgSensorXAccGet msg = some m.sensor.xAcc
  yAcc : sensorMsgSensorYAccGet msg = some m.sensor.yAcc
  xMag : sensorMsgSensorXMagGet msg = some m.sensor.xMag
  yMag : sensorMsgSensorYMagGet msg = some m.sensor.yMag
  crc : sensorMsgCrcGet msg = some m.crc

theorem newTmsg_shows (m : SensorMsg) (back : List UInt8) {len : Nat} (hlen : 24 ≤ len) :
    (newTmsg (m.bytes ++ back) len).Shows m := by
  have hget : ∀ k (hk : k < 12), sensorMsgGet (16 * k) (newTmsg (m.bytes ++ back) len) =
      some (m.fields ++ [m.crc])[k] := fun k hk =>
    sensorMsgGet_word (m.fields ++ [m.crc]) back hk hlen
  exact ⟨hget 0 (by decide), hget 1 (by decide), hget 2 (by decide), hget 3 (by decide),
    hget 4 (by decide), hget 5 (by decide), hget 6 (by decide), hget 7 (by decide), hget 8 (by decide),
    hget 9 (by decide), hget 10 (by decide), hget 11 (by decide)⟩

/-- The getters give back the message that lies at the start of the data. -/
theorem sensorMsgGetAll_spec (m : SensorMsg) (back : List UInt8) {len : Nat} (hlen : 24 ≤ len) :
    sensorMsgGetAll (newTmsg (m.bytes ++ back) len) = some m := by
  have h := newTmsg_shows m back hlen
  simp [sensorMsgGetAll, h.nodeId, h.parentId, h.positionX, h.positionY, h.temp, h.photo, h.sound, h.xAcc,
    h.yAcc, h.xMag, h.yMag, h.crc]

/-- A message with the check that its mote computed passes the client's check behind any header. -/
theorem dataCorrupt_calcMsgCrc (header back : List UInt8) (m : SensorMsg) :
    dataCorrupt ⟨header ++ ((calcMsgCrc m).bytes ++ back), header.length⟩ 24 = some 0 := by
  have hbytes : (calcMsgCrc m).bytes ++ back = m.checked ++ ((calcMsgCrc m).crc >>> 8).toUInt8 ::
      (calcMsgCrc m).crc.toUInt8 :: back := by
    rw [SensorMsg.bytes_eq, calcMsgCrc_checked, List.append_assoc]
    rfl
  have hspec := dataCorrupt_spec header m.checked back ((calcMsgCrc m).crc >>> 8).toUInt8
    (calcMsgCrc m).crc.toUInt8 (by rw [m.checked_length]; decide)
  rw [beWord_nxUint16, calcMsgCrc_crc, if_pos rfl] at hspec
  rw [hbytes, calcMsgCrc_crc]
  exact hspec

/-- The four pieces agree: whatever a mote fills in, the packet that leaves the base station passes
the client's check, and the server's getters return what the mote stored. -/
theorem wire_agreement (header : List UInt8) (hheader : header.length = 8) (m : SensorMsg) :
    let packet := header ++ (calcMsgCrc m).bytes
    dataCorrupt ((⟨packet, 0⟩ : Ptr).add 8) (packet.length - 8) = some 0 ∧
      sensorMsgGetAll (newTmsg (packet.drop 8) packet.length) = some (calcMsgCrc m) ∧
      (calcMsgCrc m).fields = m.fields := by
  intro packet
  have hptr : (⟨packet, 0⟩ : Ptr).add 8 = ⟨header ++ ((calcMsgCrc m).bytes ++ []), header.length⟩ := by
    simp [packet, Ptr.add, hheader]
  have hlen : packet.length = 32 := by
    simp [packet, hheader, SensorMsg.bytes_length]
  have hdrop : packet.drop 8 = (calcMsgCrc m).bytes ++ [] := by
    rw [← hheader, List.drop_left, List.append_nil]
  refine ⟨?_, ?_, rfl⟩
  · rw [hptr, hlen]
    exact dataCorrupt_calcMsgCrc header [] m
  · rw [hdrop, hlen]
    exact sensorMsgGetAll_spec _ [] (by decide)

/-- A mote's first message behind an empty header. -/
theorem wire_agreement_zero :
    sensorMsgGetAll (newTmsg ((List.replicate 8 0 ++
      (calcMsgCrc ⟨1, 0, ⟨3, 4⟩, ⟨5, 6, 7, 8, 9, 10, 11⟩, 0⟩).bytes).drop 8) 32) =
      some (calcMsgCrc ⟨1, 0, ⟨3, 4⟩, ⟨5, 6, 7, 8, 9, 10, 11⟩, 0⟩) :=
  (wire_agreement (List.replicate 8 0) rfl ⟨1, 0, ⟨3, 4⟩, ⟨5, 6, 7, 8, 9, 10, 11⟩, 0⟩).2.1

end TinyosGraphics.Sensor
