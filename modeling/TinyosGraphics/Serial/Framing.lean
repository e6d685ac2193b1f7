import TinyosGraphics.Lib.Stuffing
import TinyosGraphics.Sensor.Crc

/-! The frames of `serialsource.c`: the escaper that builds one byte by byte, and the check at the end of each. -/
namespace TinyosGraphics.Serial
open Lib Stuffing

def MTU : Nat := 256
def SYNC_BYTE : UInt8 := 126
def ESCAPE_BYTE : UInt8 := 125
def P_ACK : UInt8 := 67
def P_PACKET_ACK : UInt8 := 68
def P_PACKET_NO_ACK : UInt8 := 69

/-- `crc_byte`, the same word by word as in the client. -/
def crcByte : UInt16 → UInt8 → UInt16 :=
  Sensor.crcByte

def crcPacket (data : List UInt8) : UInt16 :=
  data.foldl crcByte 0

/-- The `send` part of a source. `escaped` holds the bytes in front of `escapeptr`. -/
structure Escaper where
  escaped : List UInt8
  crc : UInt16

def escapeAdd (e : Escaper) (b : UInt8) : Escaper :=
  { e with escaped := e.escaped ++ [b] }

def initEscaper : Escaper :=
  escapeAdd ⟨[], 0⟩ SYNC_BYTE

def terminateEscaper (e : Escaper) : Escaper :=
  escapeAdd e SYNC_BYTE

def escapeByte (e : Escaper) (b : UInt8) : Escaper :=
  let e := { e with crc := crcByte e.crc b }
  if b = SYNC_BYTE ∨ b = ESCAPE_BYTE then escapeAdd (escapeAdd e ESCAPE_BYTE) (b ^^^ 0x20) else escapeAdd e b

/-- What `write_framed_packet` hands to `source_write`. -/
def framedPacket (packetType firstByte : UInt8) (packet : List UInt8) : List UInt8 :=
  let e := escapeByte (escapeByte initEscaper packetType) firstByte
  let e := packet.foldl escapeByte e
  let crc := e.crc
  let e := escapeByte e crc.toUInt8
  let e := escapeByte e (crc >>> 8).toUInt8
  (terminateEscaper e).escaped

def hdlc : Stuffing UInt8 where
  flag := SYNC_BYTE
  esc := ESCAPE_BYTE
  flip := (· ^^^ 0x20)
  flip_flip b := by rw [UInt8.xor_assoc]; simp
  esc_ne_flag := by decide
  flip_flag := by decide
  flip_esc := by decide

def crcBytes (body : List UInt8) : List UInt8 :=
  [(crcPacket body).toUInt8, (crcPacket body >>> 8).toUInt8]

def sealed (body : List UInt8) : List UInt8 :=
  body ++ crcBytes body

def frameOf (body : List UInt8) : List UInt8 :=
  hdlc.frame (sealed body)

theorem sealed_length (body : List UInt8) : (sealed body).length = body.length + 2 := by
  simp [sealed, crcBytes]

private theorem escapeByte_eq (e : Escaper) (b : UInt8) :
    escapeByte e b = ⟨e.escaped ++ hdlc.stuffOne b, crcByte e.crc b⟩ := by
  have hstuff : hdlc.stuffOne b = if b = SYNC_BYTE ∨ b = ESCAPE_BYTE then [ESCAPE_BYTE, b ^^^ 0x20] else [b] := rfl
  rw [escapeByte, hstuff]
  split <;> simp [escapeAdd]

private theorem foldl_escapeByte (bs : List UInt8) (e : Escaper) :
    bs.foldl escapeByte e = ⟨e.escaped ++ hdlc.stuff bs, bs.foldl crcByte e.crc⟩ := by
  induction bs generalizing e with
  | nil => simp [stuff]
  | cons b bs ih =>
    rw [List.foldl_cons, ih, escapeByte_eq, stuff_cons]
    simp

/-- `write_framed_packet` sends the body and the check of it, stuffed, between two flags. -/
theorem framedPacket_eq (packetType firstByte : UInt8) (packet : List UInt8) :
    framedPacket packetType firstByte packet = frameOf (packetType :: firstByte :: packet) := by
  simp only [framedPacket, terminateEscaper, escapeAdd, escapeByte_eq, foldl_escapeByte, initEscaper]
  simp [frameOf, frame, sealed, crcBytes, crcPacket, stuff, hdlc, List.foldl_cons]

/-- The word that `read_and_process` takes from the end of a frame. -/
def readCrc (packet : List UInt8) : UInt16 :=
  (packet.getD (packet.length - 2) 0).toUInt16 ||| (packet.getD (packet.length - 1) 0).toUInt16 <<< 8

/-- What a frame carries, where it is long enough and the check is right. -/
def opened (packet : List UInt8) : Option (List UInt8) :=
  if packet.length < 4 then none
  else
    let received := packet.take (packet.length - 2)
    if readCrc packet = crcPacket received then some received else none

private theorem word_of_halves (x : UInt16) : x.toUInt8.toUInt16 ||| (x >>> 8).toUInt8.toUInt16 <<< 8 = x := by
  have hx := x.toNat_lt
  have hlow : x.toNat % 256 < 2 ^ 8 := Nat.mod_lt _ (by decide)
  have hor := Nat.shiftLeft_add_eq_or_of_lt hlow (x.toNat / 256)
  have hfits : x.toNat / 256 % 256 * 256 % 65536 = x.toNat / 256 * 256 := by omega
  apply UInt16.toNat_inj.mp
  rw [Nat.shiftLeft_eq] at hor
  simp [Nat.shiftRight_eq_div_pow, Nat.shiftLeft_eq, hfits]
  rw [Nat.or_comm, ← hor]
  omega

private theorem readCrc_sealed (body : List UInt8) : readCrc (sealed body) = crcPacket body := by
  rw [readCrc, sealed_length]
  have hlow : (sealed body).getD (body.length + 2 - 2) 0 = (crcPacket body).toUInt8 := by
    simp [sealed, crcBytes]
  have hhigh : (sealed body).getD (body.length + 2 - 1) 0 = (crcPacket body >>> 8).toUInt8 := by
    simp [sealed, crcBytes]
  rw [hlow, hhigh, word_of_halves]

theorem opened_sealed {body : List UInt8} (h : 2 ≤ body.length) : opened (sealed body) = some body := by
  have hlen : ¬ (sealed body).length < 4 := by
    rw [sealed_length]
    omega
  have htake : (sealed body).take ((sealed body).length - 2) = body := by
    simp [sealed, crcBytes]
  rw [opened, if_neg hlen]
  simp only [htake, readCrc_sealed, if_true]

end TinyosGraphics.Serial
