import Mathlib.Logic.Function.Basic
import TinyosGraphics.Lib.Transfer
import TinyosGraphics.Serial.Framing

/-! `serialsource.c`: a non-blocking source, the calls that read and write packets, and what one call does to it.
The answers of the operating system are lists; behind their ends there is nothing to read, and a wait expires. -/
namespace TinyosGraphics.Serial
open Lib Stuffing

inductive SerialSourceMsg
  | unknownPacketType
  | ackTimeout
  | sync
  | tooLong
  | tooShort
  | badSync
  | badCrc
  | closed
  | noMemory
  | unixError
  deriving DecidableEq

/-- What a `read` from the device gives. Some drivers return 0 where others fail with `EAGAIN`. -/
inductive ReadAnswer
  | data (bs : List UInt8)
  | again
  | intr
  | failed
  deriving DecidableEq

/-- How a `select` on the device ends. -/
inductive SelectAnswer
  | ready
  | expired
  | intr
  | failed
  deriving DecidableEq

/-- `struct serial_source_t`. `buffer` holds the bytes from `bufpos` to `bufused`, `packet` the first `count` ones. -/
structure SerialSource where
  buffer : List UInt8
  packet : List UInt8
  inSync : Bool
  escaped : Bool
  queue : UInt8 → List (List UInt8)
  seqno : UInt8

/-- The device, and the `message` callback: what is still to come, and what was written and reported. -/
structure Device where
  reads : List ReadAnswer
  selects : List SelectAnswer
  writes : List Transfer.Answer
  sent : List UInt8
  messages : List SerialSourceMsg

structure Port extends SerialSource, Device

/-- `open_serial_source`, behind the system calls. -/
def openSerialSource (device : Device) : Port :=
  { device with buffer := [], packet := [], inSync := false, escaped := false, queue := fun _ => [], seqno := 37 }

namespace Port

def message (p : Port) (msg : SerialSourceMsg) : Port :=
  { p with messages := p.messages ++ [msg] }

/-- `push_protocol_packet`; the length is cut down to a byte. -/
def pushProtocolPacket (p : Port) (type : UInt8) (packet : List UInt8) : Port :=
  { p with queue := Function.update p.queue type (p.queue type ++ [packet.take (packet.length % 256)]) }

def popProtocolPacket (p : Port) (type : UInt8) : Option (List UInt8 × Port) :=
  match p.queue type with
  | [] => none
  | entry :: rest => some (entry, { p with queue := Function.update p.queue type rest })

def packetAvailable (p : Port) (type : UInt8) : Bool :=
  p.queue type ≠ []

def serialSourceEmpty (p : Port) : Bool :=
  p.buffer = [] ∧ !p.packetAvailable P_PACKET_NO_ACK

/-- The loop in `source_wait`: whether there is data. -/
def selectLoop : List SelectAnswer → Port → Bool × Port
  | [], p => (false, { p with selects := [] })
  | .ready :: rest, p => (true, { p with selects := rest })
  | .expired :: rest, p => (false, { p with selects := rest })
  | .intr :: rest, p => selectLoop rest p
  | .failed :: rest, p => (false, { p with selects := rest }.message .unixError)

def sourceWait (p : Port) : Bool × Port :=
  if p.buffer ≠ [] then (true, p) else selectLoop p.selects p

/-- `source_write`: whether all of it is written. -/
def sourceWrite (p : Port) (bs : List UInt8) : Bool × Port :=
  let (out, all, writes) := Transfer.writeLoop p.writes bs
  let p := { p with writes := writes, sent := p.sent ++ out }
  (all, if all then p else p.message .unixError)

def writeFramedPacket (p : Port) (packetType firstByte : UInt8) (packet : List UInt8) : Bool × Port :=
  p.sourceWrite (framedPacket packetType firstByte packet)

/-- The loop in `read_byte`, which fills the empty buffer. An unexpected error is reported, and the call repeated. -/
def fillBuffer : List ReadAnswer → Port → Port
  | [], p => { p with reads := [] }
  | .data bs :: rest, p => { p with buffer := bs, reads := rest }
  | .again :: rest, p => { p with reads := rest }
  | .intr :: rest, p => fillBuffer rest p
  | .failed :: rest, p => fillBuffer rest (p.message .unixError)

def takeByte (p : Port) : Option UInt8 × Port :=
  match p.buffer with
  | [] => (none, p)
  | byte :: buffer => (some byte, { p with buffer := buffer })

def readByte (p : Port) : Option UInt8 × Port :=
  (if p.buffer = [] then fillBuffer p.reads p else p).takeByte

/-- `process_packet`, for a packet of two bytes or more. -/
def processPacket (p : Port) (packet : List UInt8) : Port :=
  let packetType := packet.getD 0 0
  if packetType = P_PACKET_ACK then
    let p := (p.writeFramedPacket P_ACK (packet.getD 1 0) []).2
    p.pushProtocolPacket P_PACKET_NO_ACK (packet.drop 2)
  else p.pushProtocolPacket packetType (packet.drop 1)

/-- The branch of `read_and_process` for a flag that ends a frame: whether the function returns. -/
def endFrame (p : Port) : Bool × Port :=
  let packet := p.packet
  let p := { p with packet := [] }
  -- frames that are too small are ignored
  if packet.length < 4 then (false, p)
  else
    let received := packet.take (packet.length - 2)
    if readCrc packet = crcPacket received then (true, p.processPacket received)
    else (false, p.message .badCrc)

/-- The body of the loop in `read_and_process`, for a byte that was read: whether the function returns. -/
def processByte (p : Port) (byte : UInt8) : Bool × Port :=
  if p.inSync = false then
    if byte = SYNC_BYTE then (false, { p.message .sync with inSync := true, packet := [], escaped := false })
    else (false, p)
  else if MTU ≤ p.packet.length then (false, { p.message .tooLong with inSync := false })
  else if p.escaped then
    -- a sync byte behind an escape is an error
    if byte = SYNC_BYTE then (false, { p.message .badSync with inSync := false })
    else (false, { p with packet := p.packet ++ [byte ^^^ 0x20], escaped := false })
  else if byte = ESCAPE_BYTE then (false, { p with escaped := true })
  else if byte = SYNC_BYTE then p.endFrame
  else (false, { p with packet := p.packet ++ [byte] })

@[simp] theorem message_buffer (p : Port) (msg : SerialSourceMsg) : (p.message msg).buffer = p.buffer := rfl
@[simp] theorem message_reads (p : Port) (msg : SerialSourceMsg) : (p.message msg).reads = p.reads := rfl
@[simp] theorem message_queue (p : Port) (msg : SerialSourceMsg) : (p.message msg).queue = p.queue := rfl
@[simp] theorem message_selects (p : Port) (msg : SerialSourceMsg) : (p.message msg).selects = p.selects := rfl
@[simp] theorem message_writes (p : Port) (msg : SerialSourceMsg) : (p.message msg).writes = p.writes := rfl
@[simp] theorem message_sent (p : Port) (msg : SerialSourceMsg) : (p.message msg).sent = p.sent := rfl
@[simp] theorem message_seqno (p : Port) (msg : SerialSourceMsg) : (p.message msg).seqno = p.seqno := rfl
@[simp] theorem message_packet (p : Port) (msg : SerialSourceMsg) : (p.message msg).packet = p.packet := rfl
@[simp] theorem message_inSync (p : Port) (msg : SerialSourceMsg) : (p.message msg).inSync = p.inSync := rfl
@[simp] theorem message_escaped (p : Port) (msg : SerialSourceMsg) : (p.message msg).escaped = p.escaped := rfl

end Port

def ReadAnswer.bytes : ReadAnswer → List UInt8
  | .data bs => bs
  | .again | .intr | .failed => []

namespace Port

/-- The bytes that were read and not looked at, and those that will be read. -/
def incoming (p : Port) : List UInt8 :=
  p.buffer ++ p.reads.flatMap ReadAnswer.bytes

structure SameOutside (p p' : Port) : Prop where
  packet : p'.packet = p.packet
  inSync : p'.inSync = p.inSync
  escaped : p'.escaped = p.escaped
  queue : p'.queue = p.queue
  seqno : p'.seqno = p.seqno
  selects : p'.selects = p.selects
  writes : p'.writes = p.writes
  sent : p'.sent = p.sent

private theorem fillBuffer_spec (reads : List ReadAnswer) (p : Port) (hp : p.buffer = []) :
    (fillBuffer reads p).incoming = reads.flatMap ReadAnswer.bytes ∧ SameOutside p (fillBuffer reads p) := by
  fun_induction fillBuffer reads p with
  | case1 p => exact ⟨by simp [incoming, hp], rfl, rfl, rfl, rfl, rfl, rfl, rfl, rfl⟩
  | case2 p bs rest => exact ⟨rfl, rfl, rfl, rfl, rfl, rfl, rfl, rfl, rfl⟩
  | case3 p rest => exact ⟨by simp [incoming, hp, ReadAnswer.bytes], rfl, rfl, rfl, rfl, rfl, rfl, rfl, rfl⟩
  | case4 p rest ih => exact ih hp
  | case5 p rest ih =>
    obtain ⟨hincoming, hsame⟩ := ih hp
    exact ⟨hincoming, hsame.1, hsame.2, hsame.3, hsame.4, hsame.5, hsame.6, hsame.7, hsame.8⟩

/-- `read_byte` takes the next byte that comes in, or finds the buffer empty and nothing to fill it with. -/
private theorem readByte_cases (p : Port) :
    SameOutside p p.readByte.2 ∧
      ((p.readByte.1 = none ∧ p.incoming = p.readByte.2.incoming ∧ p.readByte.2.buffer = []) ∨
        ∃ byte, p.readByte.1 = some byte ∧ p.incoming = byte :: p.readByte.2.incoming) := by
  obtain ⟨q, hq, hincoming, hsame⟩ : ∃ q, p.readByte = takeByte q ∧ q.incoming = p.incoming ∧ SameOutside p q := by
    by_cases hp : p.buffer = []
    · obtain ⟨hincoming, hsame⟩ := fillBuffer_spec p.reads p hp
      exact ⟨fillBuffer p.reads p, by rw [readByte, if_pos hp], by rw [hincoming, incoming, hp, List.nil_append], hsame⟩
    · exact ⟨p, by rw [readByte, if_neg hp], rfl, rfl, rfl, rfl, rfl, rfl, rfl, rfl, rfl⟩
  rw [hq, ← hincoming]
  cases hbuffer : q.buffer with
  | nil =>
    have htake : takeByte q = (none, q) := by rw [takeByte, hbuffer]
    rw [htake]
    exact ⟨hsame, .inl ⟨rfl, rfl, hbuffer⟩⟩
  | cons byte buffer =>
    have htake : takeByte q = (some byte, { q with buffer := buffer }) := by rw [takeByte, hbuffer]
    rw [htake]
    exact ⟨⟨hsame.1, hsame.2, hsame.3, hsame.4, hsame.5, hsame.6, hsame.7, hsame.8⟩,
      .inr ⟨byte, rfl, by simp [incoming, hbuffer]⟩⟩

@[simp] theorem pushProtocolPacket_incoming (p : Port) (type : UInt8) (packet : List UInt8) :
    (p.pushProtocolPacket type packet).incoming = p.incoming := rfl

@[simp] theorem writeFramedPacket_incoming (p : Port) (type first : UInt8) (packet : List UInt8) :
    (p.writeFramedPacket type first packet).2.incoming = p.incoming := by
  simp only [writeFramedPacket, sourceWrite]
  split <;> rfl

@[simp] theorem processPacket_incoming (p : Port) (packet : List UInt8) :
    (p.processPacket packet).incoming = p.incoming := by
  simp only [processPacket]
  split <;> simp

@[simp] theorem endFrame_incoming (p : Port) : p.endFrame.2.incoming = p.incoming := by
  simp only [endFrame]
  split
  · rfl
  · split
    · exact processPacket_incoming _ _
    · rfl

@[simp] theorem processByte_incoming (p : Port) (byte : UInt8) : (p.processByte byte).2.incoming = p.incoming := by
  unfold processByte
  grind [endFrame_incoming, incoming, message]

def receiver (p : Port) : Receiver UInt8 :=
  ⟨p.inSync, p.escaped, p.packet⟩

end Port

/-- The bodies of the good frames that a receiver finds in a stretch of bytes. -/
def bodies (r : Receiver UInt8) (bs : List UInt8) : List (List UInt8) :=
  (contents (hdlc.feedAll MTU r bs).2).filterMap opened

/-- The queue that a body goes to, and what is put there. A packet that wants an acknowledgement joins the others. -/
def arrival (body : List UInt8) : UInt8 × List UInt8 :=
  if body.getD 0 0 = P_PACKET_ACK then (P_PACKET_NO_ACK, body.drop 2) else (body.getD 0 0, body.drop 1)

/-- What arrives for one queue. -/
def entries (type : UInt8) (bodies : List (List UInt8)) : List (List UInt8) :=
  bodies.filterMap fun body => if (arrival body).1 = type then some (arrival body).2 else none

def acks (bodies : List (List UInt8)) : List (List UInt8) :=
  bodies.filterMap fun body => if body.getD 0 0 = P_PACKET_ACK then some [P_ACK, body.getD 1 0] else none

theorem bodies_append (r : Receiver UInt8) (bs bs' : List UInt8) :
    bodies r (bs ++ bs') = bodies r bs ++ bodies (hdlc.feedAll MTU r bs).1 bs' := by
  simp [bodies, feedAll_append]

theorem entries_append (type : UInt8) (bs bs' : List (List UInt8)) :
    entries type (bs ++ bs') = entries type bs ++ entries type bs' := by
  simp [entries]

theorem acks_append (bs bs' : List (List UInt8)) : acks (bs ++ bs') = acks bs ++ acks bs' := by
  simp [acks]

namespace Port

/-- A source that has looked at some bytes. Acknowledgements go out as long as writing does not fail. -/
structure Absorbs (p p' : Port) (bs : List UInt8) : Prop where
  receiver : p'.receiver = (hdlc.feedAll MTU p.receiver bs).1
  queue : ∀ type, p'.queue type = p.queue type ++ entries type (bodies p.receiver bs)
  sent : Transfer.Sound p.writes →
    Transfer.Sound p'.writes ∧ p'.sent = p.sent ++ (acks (bodies p.receiver bs)).flatMap frameOf
  seqno : p'.seqno = p.seqno
  selects : p'.selects = p.selects

theorem SameOutside.receiver {p p' : Port} (h : SameOutside p p') : p'.receiver = p.receiver := by
  simp [Port.receiver, h.packet, h.inSync, h.escaped]

theorem SameOutside.absorbs {p p' : Port} (h : SameOutside p p') : Absorbs p p' [] where
  receiver := by simp [feedAll, h.receiver]
  queue type := by simp [h.queue, bodies, feedAll, entries]
  sent hw := ⟨h.writes ▸ hw, by simp [h.sent, bodies, feedAll, acks]⟩
  seqno := h.seqno
  selects := h.selects

theorem Absorbs.trans {p p' p'' : Port} {bs bs' : List UInt8} (h : Absorbs p p' bs) (h' : Absorbs p' p'' bs') :
    Absorbs p p'' (bs ++ bs') where
  receiver := by rw [h'.receiver, h.receiver, feedAll_append]
  queue type := by
    rw [h'.queue, h.queue, bodies_append, entries_append, h.receiver, List.append_assoc]
  sent hw := by
    obtain ⟨hw', hsent⟩ := h.sent hw
    obtain ⟨hw'', hsent'⟩ := h'.sent hw'
    refine ⟨hw'', ?_⟩
    rw [hsent', hsent, bodies_append, acks_append, h.receiver, List.flatMap_append, List.append_assoc]
  seqno := h'.seqno.trans h.seqno
  selects := h'.selects.trans h.selects

theorem sourceWrite_sound {p : Port} (h : Transfer.Sound p.writes) (bs : List UInt8) :
    (p.sourceWrite bs).1 = true ∧ Transfer.Sound (p.sourceWrite bs).2.writes ∧
      (p.sourceWrite bs).2.sent = p.sent ++ bs := by
  have hall := Transfer.writeLoop_sound h bs
  have hout := Transfer.writeLoop_all hall
  have hleft := h.of_suffix (Transfer.writeLoop_answers p.writes bs)
  simp [sourceWrite, hall, hout, hleft]

/-- Writing does not touch the input side. -/
theorem sourceWrite_keeps (p : Port) (bs : List UInt8) :
    (p.sourceWrite bs).2.receiver = p.receiver ∧ (p.sourceWrite bs).2.queue = p.queue ∧
      (p.sourceWrite bs).2.seqno = p.seqno ∧ (p.sourceWrite bs).2.selects = p.selects := by
  simp only [sourceWrite]
  split <;> exact ⟨rfl, rfl, rfl, rfl⟩

private theorem pushProtocolPacket_queue (p : Port) (type' type : UInt8) {packet : List UInt8}
    (h : packet.length < 256) :
    (p.pushProtocolPacket type' packet).queue type = p.queue type ++ if type' = type then [packet] else [] := by
  have hwhole : packet.take (packet.length % 256) = packet := by
    rw [Nat.mod_eq_of_lt h, List.take_length]
  rw [pushProtocolPacket, hwhole]
  by_cases htype : type' = type
  · subst htype
    simp
  · simp [htype, Function.update_of_ne (Ne.symm htype)]

private theorem processPacket_spec (p : Port) {body : List UInt8} (hbody : body.length < 256) :
    (p.processPacket body).receiver = p.receiver ∧
      (∀ type, (p.processPacket body).queue type = p.queue type ++ entries type [body]) ∧
      (Transfer.Sound p.writes → Transfer.Sound (p.processPacket body).writes ∧
        (p.processPacket body).sent = p.sent ++ (acks [body]).flatMap frameOf) ∧
      (p.processPacket body).seqno = p.seqno ∧ (p.processPacket body).selects = p.selects := by
  have hlen : ∀ n, (body.drop n).length < 256 := fun n => by
    rw [List.length_drop]
    omega
  have hentries : ∀ type, entries type [body] = if (arrival body).1 = type then [(arrival body).2] else [] := by
    intro type
    simp only [entries, List.filterMap_cons, List.filterMap_nil]
    split <;> simp_all
  simp only [hentries]
  by_cases hack : body.getD 0 0 = P_PACKET_ACK
  · have hprocess : p.processPacket body =
        (p.sourceWrite (frameOf [P_ACK, body.getD 1 0])).2.pushProtocolPacket P_PACKET_NO_ACK (body.drop 2) := by
      rw [processPacket, if_pos hack, writeFramedPacket, framedPacket_eq]
    have harrival : arrival body = (P_PACKET_NO_ACK, body.drop 2) := by rw [arrival, if_pos hack]
    have hacks : acks [body] = [[P_ACK, body.getD 1 0]] := by
      simp only [acks, List.filterMap_cons, List.filterMap_nil, if_pos hack]
    obtain ⟨hreceiver, hqueue, hseqno, hselects⟩ := p.sourceWrite_keeps (frameOf [P_ACK, body.getD 1 0])
    simp only [hprocess, hacks, harrival]
    refine ⟨hreceiver, fun type => ?_, fun hw => ?_, hseqno, hselects⟩
    · rw [pushProtocolPacket_queue _ _ _ (hlen 2), hqueue]
    · obtain ⟨-, hw', hsent⟩ := sourceWrite_sound hw (frameOf [P_ACK, body.getD 1 0])
      refine ⟨hw', ?_⟩
      rw [List.flatMap_cons, List.flatMap_nil, List.append_nil]
      exact hsent
  · have hprocess : p.processPacket body = p.pushProtocolPacket (body.getD 0 0) (body.drop 1) := by
      rw [processPacket, if_neg hack]
    have harrival : arrival body = (body.getD 0 0, body.drop 1) := by rw [arrival, if_neg hack]
    have hacks : acks [body] = [] := by
      simp only [acks, List.filterMap_cons, List.filterMap_nil, if_neg hack]
    simp only [hprocess, hacks, harrival]
    refine ⟨rfl, fun type => pushProtocolPacket_queue _ _ _ (hlen 1), fun hw => ⟨hw, ?_⟩, rfl, rfl⟩
    simp [pushProtocolPacket]

private theorem absorbs_quiet {p p' : Port} {bs : List UInt8}
    (hreceiver : p'.receiver = (hdlc.feedAll MTU p.receiver bs).1)
    (hbodies : bodies p.receiver bs = []) (hqueue : p'.queue = p.queue) (hwrites : p'.writes = p.writes)
    (hsent : p'.sent = p.sent) (hseqno : p'.seqno = p.seqno) (hselects : p'.selects = p.selects) :
    Absorbs p p' bs where
  receiver := hreceiver
  queue type := by simp [hqueue, hbodies, entries]
  sent hw := ⟨hwrites ▸ hw, by simp [hsent, hbodies, acks]⟩
  seqno := hseqno
  selects := hselects

private theorem endFrame_spec (p : Port) (hroom : p.packet.length < MTU) :
    p.endFrame.2.receiver = ⟨p.inSync, p.escaped, []⟩ ∧
      (∀ type, p.endFrame.2.queue type = p.queue type ++ entries type (opened p.packet).toList) ∧
      (Transfer.Sound p.writes → Transfer.Sound p.endFrame.2.writes ∧
        p.endFrame.2.sent = p.sent ++ (acks (opened p.packet).toList).flatMap frameOf) ∧
      p.endFrame.2.seqno = p.seqno ∧ p.endFrame.2.selects = p.selects ∧
      (opened p.packet).toList.length = if p.endFrame.1 then 1 else 0 := by
  unfold endFrame opened
  by_cases hshort : p.packet.length < 4
  · simp only [if_pos hshort]
    exact ⟨rfl, fun type => by simp [entries], fun hw => ⟨hw, by simp [acks]⟩, by simp⟩
  simp only [if_neg hshort]
  by_cases hcrc : readCrc p.packet = crcPacket (p.packet.take (p.packet.length - 2))
  · have hbody : (p.packet.take (p.packet.length - 2)).length < 256 := by
      rw [List.length_take]
      exact Nat.lt_of_le_of_lt (Nat.min_le_right _ _) hroom
    obtain ⟨hreceiver, hqueue, hsent, hseqno, hselects⟩ := processPacket_spec { p with packet := [] } hbody
    simp only [if_pos hcrc]
    exact ⟨hreceiver, hqueue, hsent, hseqno, hselects, rfl⟩
  · simp only [if_neg hcrc]
    exact ⟨rfl, fun type => by simp [entries], fun hw => ⟨hw, by simp [acks]⟩, by simp⟩

private theorem processByte_spec (p : Port) (byte : UInt8) :
    Absorbs p (p.processByte byte).2 [byte] ∧
      (bodies p.receiver [byte]).length = if (p.processByte byte).1 then 1 else 0 := by
  have hone : hdlc.feedAll MTU p.receiver [byte] = hdlc.feed MTU p.receiver byte := feedAll_singleton _ _
  have hfeed : hdlc.feed MTU p.receiver byte =
      if p.inSync = false then if byte = SYNC_BYTE then (.ready, [.sync]) else (p.receiver, [])
      else if MTU ≤ p.packet.length then (⟨false, p.escaped, p.packet⟩, [.tooLong])
      else if p.escaped then
        if byte = SYNC_BYTE then (⟨false, p.escaped, p.packet⟩, [.badSync])
        else (⟨p.inSync, false, p.packet ++ [byte ^^^ 0x20]⟩, [])
      else if byte = ESCAPE_BYTE then (⟨p.inSync, true, p.packet⟩, [])
      else if byte = SYNC_BYTE then (.ready, [.frame p.packet])
      else (⟨p.inSync, p.escaped, p.packet ++ [byte]⟩, []) := rfl
  rw [← hone] at hfeed
  -- every case but that of a whole frame changes the receiver only
  have hquiet : ∀ p' : Port, (hdlc.feedAll MTU p.receiver [byte]).1 = p'.receiver →
      bodies p.receiver [byte] = [] → p'.queue = p.queue ∧ p'.writes = p.writes ∧ p'.sent = p.sent ∧
      p'.seqno = p.seqno ∧ p'.selects = p.selects → p.processByte byte = (false, p') →
      Absorbs p (p.processByte byte).2 [byte] ∧
        (bodies p.receiver [byte]).length = if (p.processByte byte).1 then 1 else 0 := by
    rintro p' hreceiver hbodies ⟨hqueue, hwrites, hsent, hseqno, hselects⟩ heq
    rw [heq]
    exact ⟨absorbs_quiet hreceiver.symm hbodies hqueue hwrites hsent hseqno hselects, by simp [hbodies]⟩
  by_cases hin : p.inSync = false
  · rw [if_pos hin] at hfeed
    by_cases hbyte : byte = SYNC_BYTE
    · rw [if_pos hbyte] at hfeed
      apply hquiet { p.message .sync with inSync := true, packet := [], escaped := false }
      · rw [hfeed]; rfl
      · simp [bodies, hfeed, contents]
      · exact ⟨rfl, rfl, rfl, rfl, rfl⟩
      · simp [processByte, hin, hbyte]
    · rw [if_neg hbyte] at hfeed
      apply hquiet p
      · rw [hfeed]
      · simp [bodies, hfeed]
      · exact ⟨rfl, rfl, rfl, rfl, rfl⟩
      · simp [processByte, hin, hbyte]
  rw [if_neg hin] at hfeed
  by_cases hfull : MTU ≤ p.packet.length
  · rw [if_pos hfull] at hfeed
    apply hquiet { p.message .tooLong with inSync := false }
    · rw [hfeed]; rfl
    · simp [bodies, hfeed, contents]
    · exact ⟨rfl, rfl, rfl, rfl, rfl⟩
    · simp [processByte, hin, hfull]
  rw [if_neg hfull] at hfeed
  by_cases hescaped : p.escaped
  · rw [if_pos hescaped] at hfeed
    by_cases hbyte : byte = SYNC_BYTE
    · rw [if_pos hbyte] at hfeed
      apply hquiet { p.message .badSync with inSync := false }
      · rw [hfeed]; rfl
      · simp [bodies, hfeed, contents]
      · exact ⟨rfl, rfl, rfl, rfl, rfl⟩
      · simp [processByte, hin, hfull, hescaped, hbyte]
    · rw [if_neg hbyte] at hfeed
      apply hquiet { p with packet := p.packet ++ [byte ^^^ 0x20], escaped := false }
      · rw [hfeed]; rfl
      · simp [bodies, hfeed]
      · exact ⟨rfl, rfl, rfl, rfl, rfl⟩
      · simp [processByte, hin, hfull, hescaped, hbyte]
  rw [if_neg hescaped] at hfeed
  by_cases hesc : byte = ESCAPE_BYTE
  · rw [if_pos hesc] at hfeed
    apply hquiet { p with escaped := true }
    · rw [hfeed]; rfl
    · simp [bodies, hfeed]
    · exact ⟨rfl, rfl, rfl, rfl, rfl⟩
    · simp [processByte, hin, hfull, hescaped, hesc]
  rw [if_neg hesc] at hfeed
  by_cases hbyte : byte = SYNC_BYTE
  · rw [if_pos hbyte] at hfeed
    have hready : (⟨p.inSync, p.escaped, []⟩ : Receiver UInt8) = .ready := by
      simp only [Bool.not_eq_false, Bool.not_eq_true] at hin hescaped
      rw [hin, hescaped, Receiver.ready]
    have hprocess : p.processByte byte = p.endFrame := by
      rw [processByte, if_neg hin, if_neg hfull, if_neg hescaped, if_neg hesc, if_pos hbyte]
    have hbodies : bodies p.receiver [byte] = (opened p.packet).toList := by
      rw [bodies, hfeed]
      cases hopened : opened p.packet <;> simp [contents, hopened]
    obtain ⟨hreceiver, hqueue, hsent, hseqno, hselects, hlen⟩ := p.endFrame_spec (Nat.lt_of_not_le hfull)
    rw [hprocess, hbodies]
    exact ⟨⟨by rw [hfeed, hreceiver, hready], by rwa [hbodies], by rwa [hbodies], hseqno, hselects⟩, hlen⟩
  · rw [if_neg hbyte] at hfeed
    apply hquiet { p with packet := p.packet ++ [byte] }
    · rw [hfeed]; rfl
    · simp [bodies, hfeed]
    · exact ⟨rfl, rfl, rfl, rfl, rfl⟩
    · simp [processByte, hin, hfull, hescaped, hesc, hbyte]

def readAndProcess (p : Port) : Port :=
  match _h : p.readByte with
  | (none, p') => p'
  | (some byte, p') =>
    if (p'.processByte byte).1 then (p'.processByte byte).2 else readAndProcess (p'.processByte byte).2
termination_by p.incoming.length
decreasing_by
  obtain ⟨-, ⟨hnone, -⟩ | ⟨_, -, hcons⟩⟩ := readByte_cases p
  · rw [_h] at hnone
    cases hnone
  · rw [hcons, _h]
    simp

theorem readByte_some {p p' : Port} {byte : UInt8} (h : p.readByte = (some byte, p')) :
    SameOutside p p' ∧ p.incoming = byte :: p'.incoming := by
  obtain ⟨hsame, ⟨hnone, -⟩ | ⟨byte', hsome, hincoming⟩⟩ := readByte_cases p
  · rw [h] at hnone
    cases hnone
  · rw [h] at hsame hsome hincoming
    obtain rfl := Option.some.inj hsome
    exact ⟨hsame, hincoming⟩

/-- The call looks at the bytes up to the first good frame, or at all that there are. -/
theorem readAndProcess_spec (p : Port) : ∃ bs, p.incoming = bs ++ p.readAndProcess.incoming ∧
    Absorbs p p.readAndProcess bs ∧
      ((bodies p.receiver bs = [] ∧ p.readAndProcess.buffer = []) ∨
        (bs ≠ [] ∧ (bodies p.receiver bs).length = 1)) := by
  fun_induction readAndProcess p with
  | case1 p p' h =>
    obtain ⟨hsame, ⟨-, hincoming, hbuffer⟩ | ⟨byte, hsome, -⟩⟩ := readByte_cases p
    · rw [h] at hsame hincoming hbuffer
      exact ⟨[], hincoming, hsame.absorbs, .inl ⟨rfl, hbuffer⟩⟩
    · rw [h] at hsome
      cases hsome
  | case2 p byte p' h hdone =>
    obtain ⟨hsame, hincoming⟩ := readByte_some h
    obtain ⟨habsorbs, hlen⟩ := p'.processByte_spec byte
    rw [hsame.receiver, if_pos hdone] at hlen
    exact ⟨[byte], by simpa using hincoming, hsame.absorbs.trans habsorbs, .inr ⟨by simp, hlen⟩⟩
  | case3 p byte p' h hmore ih =>
    obtain ⟨hsame, hincoming⟩ := readByte_some h
    obtain ⟨habsorbs, hlen⟩ := p'.processByte_spec byte
    obtain ⟨bs, hrest, habsorbs', hend⟩ := ih
    rw [hsame.receiver, if_neg hmore] at hlen
    have hfirst : bodies p.receiver [byte] = [] := List.eq_nil_of_length_eq_zero hlen
    have hbodies : bodies p.receiver (byte :: bs) = bodies (p'.processByte byte).2.receiver bs := by
      rw [← List.singleton_append, bodies_append, hfirst, habsorbs.receiver, hsame.receiver, List.nil_append]
    rw [processByte_incoming] at hrest
    refine ⟨byte :: bs, by rw [hincoming, hrest, List.cons_append],
      (hsame.absorbs.trans habsorbs).trans habsorbs', ?_⟩
    rw [hbodies]
    exact hend.imp id fun h => ⟨by simp, h.2⟩

end Port
end TinyosGraphics.Serial
