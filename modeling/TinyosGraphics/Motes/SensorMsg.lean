import TinyosGraphics.Sensor.Crc

/-! `sensor_msg_t` of `tgx.h`, as it lies in a packet, and the check that a mote adds to it. -/
namespace TinyosGraphics.Motes
open Lib Sensor

structure NodePosition where
  x : UInt16
  y : UInt16
  deriving DecidableEq

structure SensorData where
  temp : UInt16
  photo : UInt16
  sound : UInt16
  xAcc : UInt16
  yAcc : UInt16
  xMag : UInt16
  yMag : UInt16
  deriving DecidableEq

structure SensorMsg where
  nodeId : UInt16
  parentId : UInt16
  position : NodePosition
  sensor : SensorData
  crc : UInt16
  deriving DecidableEq

/-- An `nx_uint16_t` in memory. -/
def nxUint16 (x : UInt16) : List UInt8 :=
  [(x >>> 8).toUInt8, x.toUInt8]

namespace SensorMsg

/-- The fields in front of `crc`. -/
def fields (m : SensorMsg) : List UInt16 :=
  [m.nodeId, m.parentId, m.position.x, m.position.y, m.sensor.temp, m.sensor.photo, m.sensor.sound,
    m.sensor.xAcc, m.sensor.yAcc, m.sensor.xMag, m.sensor.yMag]

def bytes (m : SensorMsg) : List UInt8 :=
  (m.fields ++ [m.crc]).flatMap nxUint16

/-- The bytes that the check covers. -/
def checked (m : SensorMsg) : List UInt8 :=
  m.fields.flatMap nxUint16

theorem bytes_eq (m : SensorMsg) : m.bytes = m.checked ++ nxUint16 m.crc := by
  simp [bytes, checked]

theorem checked_length (m : SensorMsg) : m.checked.length = 22 := rfl

theorem bytes_length (m : SensorMsg) : m.bytes.length = 24 := rfl

end SensorMsg

/-- `crcByte` of `crc.h`, which the client repeats word by word. -/
def crcByte : UInt16 → UInt8 → UInt16 :=
  Sensor.crcByte

/-- The loop of `Crc.seededCrc16`, with `len` bytes to go. -/
def seededCrcLoop (tmp : Ptr) : Nat → UInt16 → Option UInt16
  | 0, crc => some crc
  | len + 1, crc => do seededCrcLoop (tmp.add 1) len (crcByte crc (← tmp.get 0))

def seededCrc16 (startCrc : UInt16) (buf : Ptr) (len : UInt8) : Option UInt16 :=
  seededCrcLoop buf len.toNat startCrc

def crc16 (buf : Ptr) (len : UInt8) : Option UInt16 :=
  seededCrc16 0 buf len

/-- `calcMsgCrc`; the check is defined, by `calcMsgCrc_crc`. -/
def calcMsgCrc (msg : SensorMsg) : SensorMsg :=
  { msg with crc := (crc16 ⟨msg.bytes, 0⟩ (UInt8.ofNat msg.bytes.length - 2)).getD 0 }

theorem seededCrcLoop_eq (tmp : Ptr) (len : Nat) (crc : UInt16) :
    seededCrcLoop tmp len crc = crcLoop tmp len crc := by
  induction len generalizing tmp crc with
  | zero => rfl
  | succ len ih =>
    rw [seededCrcLoop, crcLoop]
    congr 1
    funext b
    exact ih _ _

theorem crc16_bytes (m : SensorMsg) :
    crc16 ⟨m.bytes, 0⟩ (UInt8.ofNat m.bytes.length - 2) = some (m.checked.foldl Sensor.crcByte 0) := by
  rw [crc16, seededCrc16, seededCrcLoop_eq, m.bytes_length, m.bytes_eq]
  exact crcLoop_spec [] m.checked (nxUint16 m.crc) 0

theorem calcMsgCrc_crc (m : SensorMsg) : (calcMsgCrc m).crc = m.checked.foldl Sensor.crcByte 0 := by
  rw [calcMsgCrc, crc16_bytes, Option.getD_some]

theorem calcMsgCrc_checked (m : SensorMsg) : (calcMsgCrc m).checked = m.checked := rfl

/-- A word in memory, read back most significant byte first. -/
theorem beWord_nxUint16 (x : UInt16) : beWord (x >>> 8).toUInt8 x.toUInt8 = x := by
  rw [← beWord_eq]
  apply UInt16.toNat_inj.mp
  have := x.toNat_lt
  simp [Nat.shiftRight_eq_div_pow, Nat.shiftLeft_eq]
  omega

end TinyosGraphics.Motes
