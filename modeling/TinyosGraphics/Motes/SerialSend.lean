import TinyosGraphics.Lib.RingBuffer
import TinyosGraphics.Lib.Transition
import TinyosGraphics.Motes.SensorMsg

/-! The way out of a mote, from `SerialActiveMessageP` over `SerialDispatcherP`, `SerialP` and `HdlcTranslateC` to the
bytes that the UART is given, as they are compiled into `app.c`. Nothing in the mote stops the port once it is up. -/
namespace TinyosGraphics.Motes
open Lib

inductive ErrorT where
  | success
  | fail
  | ebusy
  | eoff
  | esize
  deriving DecidableEq

def HDLC_FLAG_BYTE : UInt8 := 0x7e
def HDLC_CTLESC_BYTE : UInt8 := 0x7d
def SERIAL_PROTO_ACK : UInt8 := 67
def SERIAL_PROTO_PACKET_NOACK : UInt8 := 69
def TOS_SERIAL_ACTIVE_MESSAGE_ID : UInt8 := 0
def SERIAL_MTU : UInt8 := 255
def ACK_QUEUE_SIZE : Nat := 5

/-- `message_t`: the union of the two headers, the payload, and the metadata of the radio. -/
structure MessageT where
  bytes : List UInt8
  size : bytes.length = 64

/-- `sizeof(message_header_t)`. -/
def messageHeader : Nat := 12

/-- `sizeof(serial_header_t)`. -/
def serialHeader : UInt8 := 7

/-- `SerialPacketInfo.offset`: the serial header lies right in front of the payload. -/
def packetOffset : UInt8 := 5

def maxPayloadLength : UInt8 := 40

def MessageT.setByte (msg : MessageT) (i : Nat) (b : UInt8) : MessageT :=
  ⟨msg.bytes.set i b, by rw [List.length_set, msg.size]⟩

/-- `header->dest`, the most significant byte first. -/
def MessageT.setDest (msg : MessageT) (dest : UInt16) : MessageT :=
  (msg.setByte 5 (dest >>> 8).toUInt8).setByte 6 dest.toUInt8

def MessageT.setLength (msg : MessageT) (len : UInt8) : MessageT :=
  msg.setByte 9 len

def MessageT.setType (msg : MessageT) (id : UInt8) : MessageT :=
  msg.setByte 11 id

inductive TxState where
  | idle
  | proto
  | seqno
  | info
  | fcs1
  | fcs2
  | endflag
  | endwait
  | finish
  | error
  | inactive
  deriving DecidableEq

inductive TxBufferState where
  | available
  | filling
  | complete
  deriving DecidableEq

structure TxBuf where
  state : TxBufferState
  buf : UInt8

inductive TxIndex where
  | ack
  | data
  deriving DecidableEq

/-- How far the task `RunTx` has come. A byte may arrive or be gone between its atomic sections. -/
inductive RunTx where
  | off
  | checked (idle done fail : Bool)
  | counted (idle : Bool) (result : ErrorT) (sendCompleted : Bool)
  deriving DecidableEq

/-- `HdlcTranslateC` and the sending half of `Atm128UartP`; `busy` is that `m_tx_buf` is set. `wire` are the bytes that
the UART was given so far. -/
structure Uart where
  sendEscape : Bool
  txTemp : UInt8
  busy : Bool
  wire : List UInt8

/-- The sending half of `SerialDispatcherP`; `posted` is that the task `signalSendDone` waits. -/
structure Dispatcher where
  sendState : Bool
  sendBuffer : List UInt8
  sendIndex : UInt8
  sendLen : UInt8
  sendError : ErrorT
  posted : Bool

/-- The sending half of `SerialP`, between its two neighbours. `txPending` is also that `RunTx` is posted. The last
three fields are history: the tokens that were queued, the packets that were accepted, and what `sendDone` said. -/
structure SerialSender where
  txState : TxState
  txByteCnt : UInt8
  txProto : UInt8
  txSeqno : UInt8
  txCRC : UInt16
  txPending : Bool
  txIndex : TxIndex
  ackBuf : TxBuf
  dataBuf : TxBuf
  ackQ : RingBuffer UInt8
  uart : Uart
  dispatcher : Dispatcher
  runTx : RunTx
  pushed : List UInt8
  accepted : List (List UInt8)
  signalled : List ErrorT

namespace Uart

/-- `UartStream.send` of one byte. -/
def send (u : Uart) (b : UInt8) : ErrorT × Uart :=
  if u.busy then (.ebusy, u) else (.success, { u with busy := true, wire := u.wire ++ [b] })

def putDelimiter (u : Uart) : ErrorT × Uart :=
  { u with sendEscape := false }.send HDLC_FLAG_BYTE

def putData (u : Uart) (data : UInt8) : ErrorT × Uart :=
  if data = HDLC_CTLESC_BYTE ∨ data = HDLC_FLAG_BYTE then
    { u with sendEscape := true, txTemp := data ^^^ 0x20 }.send HDLC_CTLESC_BYTE
  else u.send data

end Uart

namespace SerialSender

/-- A port that has just been started, with whatever lies in its buffers. -/
def started (ackBuf dataBuf txTemp sendIndex sendLen : UInt8) (tokens sendBuffer : List UInt8) : SerialSender where
  txState := .idle
  txByteCnt := 0
  txProto := 0
  txSeqno := 0
  txCRC := 0
  txPending := false
  txIndex := .ack
  ackBuf := ⟨.available, ackBuf⟩
  dataBuf := ⟨.available, dataBuf⟩
  ackQ := ⟨0, 0, tokens⟩
  uart := ⟨false, txTemp, false, []⟩
  dispatcher := ⟨false, sendBuffer, sendIndex, sendLen, .success, false⟩
  runTx := .off
  pushed := []
  accepted := []
  signalled := []

/-- `MaybeScheduleTx`; posting fails only while the task is posted. -/
def maybeScheduleTx (s : SerialSender) : SerialSender :=
  { s with txPending := true }

def ackQueueTop (s : SerialSender) : UInt8 :=
  if s.ackQ.isEmpty then 0 else s.ackQ.buf.getD s.ackQ.readPtr 0

def ackQueuePop (s : SerialSender) : SerialSender :=
  if s.ackQ.isEmpty then s else { s with ackQ := s.ackQ.drop ACK_QUEUE_SIZE }

def ackQueuePush (s : SerialSender) (token : UInt8) : SerialSender :=
  if s.ackQ.isFull ACK_QUEUE_SIZE then s
  else { s with ackQ := s.ackQ.write ACK_QUEUE_SIZE token, pushed := s.pushed ++ [token] }.maybeScheduleTx

def startSend (s : SerialSender) (b : UInt8) : ErrorT × SerialSender :=
  if s.txState = .inactive then (.eoff, s)
  else if s.dataBuf.state = .available then (.success, { s with dataBuf := ⟨.filling, b⟩ }.maybeScheduleTx)
  else (.ebusy, s)

def completeSend (s : SerialSender) : SerialSender :=
  { s with dataBuf := { s.dataBuf with state := .complete } }

def nextByte (s : SerialSender) : UInt8 × SerialSender :=
  let b := s.dispatcher.sendBuffer.getD s.dispatcher.sendIndex.toNat 0
  let s := { s with dispatcher := { s.dispatcher with sendIndex := s.dispatcher.sendIndex + 1 } }
  if s.dispatcher.sendLen < s.dispatcher.sendIndex then (0, s.completeSend) else (b, s)

def sendCompleted (s : SerialSender) (error : ErrorT) : SerialSender :=
  { s with dispatcher := { s.dispatcher with sendError := error, posted := true } }

/-- `txBuf[txIndex].buf`. -/
def txByte (s : SerialSender) : UInt8 :=
  match s.txIndex with
  | .ack => s.ackBuf.buf
  | .data => s.dataBuf.buf

def putDelimiter (s : SerialSender) : ErrorT × SerialSender :=
  (s.uart.putDelimiter.1, { s with uart := s.uart.putDelimiter.2 })

def putData (s : SerialSender) (data : UInt8) : ErrorT × SerialSender :=
  ((s.uart.putData data).1, { s with uart := (s.uart.putData data).2 })

/-- A byte that the check covers. -/
def putChecked (s : SerialSender) (data : UInt8) : ErrorT × SerialSender :=
  ((s.putData data).1, { (s.putData data).2 with txCRC := crcByte s.txCRC data })

/-- The byte behind the one that has just been sent in `TXSTATE_INFO`. -/
def infoNext (s : SerialSender) : SerialSender :=
  if s.txIndex = .data then
    let next := s.nextByte
    if next.2.dataBuf.state = .complete ∨ SERIAL_MTU ≤ next.2.txByteCnt then { next.2 with txState := .fcs1 }
    else { next.2 with dataBuf := { next.2.dataBuf with buf := next.1 } }
  else { s with txState := .fcs1 }

/-- The cases of `SerialFrameComm.putDone`. -/
def putNext (s : SerialSender) : ErrorT × SerialSender :=
  match s.txState with
  | .proto => ((s.putChecked s.txProto).1, { (s.putChecked s.txProto).2 with txState := .info })
  | .seqno => ((s.putChecked s.txSeqno).1, { (s.putChecked s.txSeqno).2 with txState := .info })
  | .info =>
    let put := s.putChecked s.txByte
    (put.1, { put.2 with txByteCnt := s.txByteCnt + 1 }.infoNext)
  | .fcs1 => ((s.putData s.txCRC.toUInt8).1, { (s.putData s.txCRC.toUInt8).2 with txState := .fcs2 })
  | .fcs2 =>
    let put := s.putData (s.txCRC >>> 8).toUInt8
    (put.1, { put.2 with txState := .endflag })
  | .endflag => (s.putDelimiter.1, { s.putDelimiter.2 with txState := .endwait })
  | .endwait => (.success, { s with txState := .finish }.maybeScheduleTx)
  | .finish => (.success, s.maybeScheduleTx)
  | .idle | .error | .inactive => (.fail, s)

def putDone (s : SerialSender) : SerialSender :=
  if s.putNext.1 = .success then s.putNext.2 else { s.putNext.2 with txState := .error }.maybeScheduleTx

/-- A byte is gone: `UartStream.sendDone`. -/
def sendDone (s : SerialSender) : SerialSender :=
  let uart := { s.uart with busy := false }
  if uart.sendEscape then { s with uart := ({ uart with sendEscape := false }.send uart.txTemp).2 }
  else { s with uart }.putDone

/-- The first section of `RunTx`. -/
def runTxCheck (s : SerialSender) : SerialSender :=
  let idle := s.txState = .idle
  let done := s.txState = .finish
  let fail := s.txState = .error
  let s := { s with txPending := false, runTx := .checked idle done fail }
  if done ∨ fail then
    match s.txIndex with
    | .ack => { s with txState := .idle, ackBuf := { s.ackBuf with state := .available } }
    | .data => { s with txState := .idle, dataBuf := { s.dataBuf with state := .available } }
  else s

def runTxCount (s : SerialSender) (idle done fail : Bool) : SerialSender :=
  if done || fail then
    let s := { s with txSeqno := s.txSeqno + 1 }
    if s.txProto = SERIAL_PROTO_ACK then { s.ackQueuePop with runTx := .counted true .success false }
    else { s with runTx := .counted true (if done then .success else .fail) true }
  else { s with runTx := .counted idle .success false }

def runTxChoose (s : SerialSender) : Bool × SerialSender :=
  if s.ackQ.isEmpty = false ∧ s.ackBuf.state = .available then
    (true, { s with ackBuf := ⟨.complete, s.ackQueueTop⟩, txProto := SERIAL_PROTO_ACK, txIndex := .ack })
  else if s.dataBuf.state = .filling ∨ s.dataBuf.state = .complete then
    (true, { s with txProto := SERIAL_PROTO_PACKET_NOACK, txIndex := .data })
  else (false, s)

def runTxStart (s : SerialSender) : SerialSender :=
  let put := { s with txCRC := 0, txByteCnt := 0, txState := .proto }.putDelimiter
  if put.1 = .success then put.2 else { put.2 with txState := .error }.maybeScheduleTx

/-- The rest of `RunTx`. -/
def runTxGo (s : SerialSender) (idle : Bool) (result : ErrorT) (completed : Bool) : SerialSender :=
  let s := { s with runTx := .off }
  let next := if idle then s.runTxChoose else (false, s)
  let s := if completed then next.2.sendCompleted result else next.2
  if s.txState = .inactive then s else if next.1 then s.runTxStart else s

/-- The task `signalSendDone`. -/
def signalSendDone (s : SerialSender) : SerialSender :=
  { s with
    dispatcher := { s.dispatcher with posted := false, sendState := false }
    signalled := s.signalled ++ [s.dispatcher.sendError] }

/-- `Send.send` of `SerialDispatcherP`. The offset is never larger than the header. -/
def dispatch (s : SerialSender) (id : UInt8) (msg : MessageT) (len : UInt8) : ErrorT × SerialSender :=
  if s.dispatcher.sendState then (.ebusy, s)
  else
    let sendLen := len + serialHeader + packetOffset
    let s := { s with dispatcher := ⟨true, msg.bytes, packetOffset, sendLen, .success, s.dispatcher.posted⟩ }
    let start := s.startSend id
    if start.1 = .success then
      let packet := (msg.bytes.take sendLen.toNat).drop packetOffset.toNat
      (.success, { start.2 with accepted := s.accepted ++ [id :: packet] })
    else (.fail, { start.2 with dispatcher := { start.2.dispatcher with sendState := false } })

/-- `AMSend.send` of `SerialActiveMessageP`. -/
def send (s : SerialSender) (id : UInt8) (dest : UInt16) (msg : MessageT) (len : UInt8) : ErrorT × SerialSender :=
  if maxPayloadLength < len then (.esize, s)
  else s.dispatch TOS_SERIAL_ACTIVE_MESSAGE_ID (((msg.setDest dest).setType id).setLength len) len

end SerialSender

/-- What happens to the way out. Tasks do not interrupt each other; a token is pushed and a byte is gone at any time. -/
inductive SenderEvent where
  | send (id : UInt8) (dest : UInt16) (msg : MessageT) (len : UInt8)
  | push (token : UInt8)
  | runTx
  | sendDone
  | signalSendDone

namespace SerialSender

def step (s : SerialSender) : SenderEvent → Option SerialSender
  | .send id dest msg len => if s.runTx = .off then some (s.send id dest msg len).2 else none
  | .push token => some (s.ackQueuePush token)
  | .runTx =>
    match s.runTx with
    | .off => if s.txPending then some s.runTxCheck else none
    | .checked idle done fail => some (s.runTxCount idle done fail)
    | .counted idle result completed => some (s.runTxGo idle result completed)
  | .sendDone => if s.uart.busy then some s.sendDone else none
  | .signalSendDone => if s.runTx = .off ∧ s.dispatcher.posted = true then some s.signalSendDone else none

end SerialSender

def serialSender : Transition SerialSender SenderEvent where
  init s := ∃ ackBuf dataBuf txTemp sendIndex sendLen tokens sendBuffer,
    tokens.length = ACK_QUEUE_SIZE + 1 ∧ s = .started ackBuf dataBuf txTemp sendIndex sendLen tokens sendBuffer
  step := SerialSender.step

end TinyosGraphics.Motes
