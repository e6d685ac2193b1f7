import Mathlib.Data.List.GetD
import TinyosGraphics.Motes.SerialSend
import TinyosGraphics.Serial.Delivery

/-! What a mote puts on the line: whole frames, one for every token and one for every message, each in its order. -/
namespace TinyosGraphics.Motes
open Lib Stuffing Serial

namespace Uart
variable {u : Uart}

/-- The bytes that the UART has, and the one that is kept back behind an escape. -/
def out (u : Uart) : List UInt8 :=
  u.wire ++ if u.sendEscape then [u.txTemp] else []

/-- The byte that is kept back, as work. -/
def kept (u : Uart) : Nat :=
  if u.sendEscape then 1 else 0

theorem kept_le (u : Uart) : u.kept ≤ 1 := by
  rw [kept]
  split
  · exact Nat.le_refl 1
  · exact Nat.zero_le 1

private theorem wire_eq_out (hescape : u.sendEscape = false) : u.wire = u.out := by
  rw [out, hescape, if_neg Bool.false_ne_true, List.append_nil]

private theorem putData_spec (hfree : u.busy = false) (hescape : u.sendEscape = false) (b : UInt8) :
    ∃ u', u.putData b = (.success, u') ∧ u'.busy = true ∧ u'.out = u.out ++ hdlc.stuffOne b := by
  have hstuff : hdlc.stuffOne b = if b = SYNC_BYTE ∨ b = ESCAPE_BYTE then [ESCAPE_BYTE, b ^^^ 0x20] else [b] := rfl
  have hsame : (b = HDLC_CTLESC_BYTE ∨ b = HDLC_FLAG_BYTE) ↔ (b = SYNC_BYTE ∨ b = ESCAPE_BYTE) := or_comm
  rw [hstuff, putData, ← wire_eq_out hescape]
  by_cases hreserved : b = HDLC_CTLESC_BYTE ∨ b = HDLC_FLAG_BYTE
  · refine ⟨⟨true, b ^^^ 0x20, true, u.wire ++ [HDLC_CTLESC_BYTE]⟩, ?_, rfl, ?_⟩
    · rw [if_pos hreserved, send, hfree]
      rfl
    · rw [if_pos (hsame.mp hreserved), out, List.append_assoc]
      rfl
  · refine ⟨{ u with busy := true, wire := u.wire ++ [b] }, ?_, rfl, ?_⟩
    · rw [if_neg hreserved, send, hfree]
      rfl
    · rw [if_neg (hsame.not.mp hreserved), out, hescape, if_neg Bool.false_ne_true, List.append_nil]

theorem putDelimiter_spec (hfree : u.busy = false) :
    u.putDelimiter = (.success, ⟨false, u.txTemp, true, u.wire ++ [SYNC_BYTE]⟩) := by
  rw [putDelimiter, send, hfree]
  rfl

end Uart

namespace Dispatcher
variable {d : Dispatcher}

/-- The bytes of the message that `nextByte` has not given out. -/
def rest (d : Dispatcher) : List UInt8 :=
  (d.sendBuffer.take d.sendLen.toNat).drop d.sendIndex.toNat

def advance (d : Dispatcher) : Dispatcher :=
  { d with sendIndex := d.sendIndex + 1 }

structure InBlock (d : Dispatcher) : Prop where
  size : d.sendBuffer.length = 64
  len_le : d.sendLen.toNat ≤ 52
  index_le : d.sendIndex.toNat ≤ d.sendLen.toNat

theorem InBlock.rest_length (h : d.InBlock) : d.rest.length = d.sendLen.toNat - d.sendIndex.toNat := by
  have hsize := h.size
  have hlen := h.len_le
  rw [rest, List.length_drop, List.length_take]
  omega

private theorem InBlock.index_succ (h : d.InBlock) : (d.sendIndex + 1).toNat = d.sendIndex.toNat + 1 := by
  have hlen := h.len_le
  have hindex := h.index_le
  rw [UInt8.toNat_add]
  exact Nat.mod_eq_of_lt (by simp; omega)

/-- The message is over, or one byte of it is next. -/
theorem InBlock.next (h : d.InBlock) :
    (d.rest = [] ∧ d.sendLen < d.sendIndex + 1) ∨
      d.rest = d.sendBuffer.getD d.sendIndex.toNat 0 :: d.advance.rest ∧ ¬ d.sendLen < d.sendIndex + 1 ∧
        d.advance.InBlock := by
  have hlength := h.rest_length
  have hsucc := h.index_succ
  by_cases hend : d.sendLen < d.sendIndex + 1
  · have hnat := UInt8.lt_iff_toNat_lt.mp hend
    exact .inl ⟨List.eq_nil_of_length_eq_zero (by omega), hend⟩
  · have hnat : (d.sendIndex + 1).toNat ≤ d.sendLen.toNat :=
      UInt8.le_iff_toNat_le.mp (UInt8.not_lt.mp hend)
    have hsize := h.size
    have hlen := h.len_le
    have hin : d.sendIndex.toNat < (d.sendBuffer.take d.sendLen.toNat).length := by
      rw [List.length_take]
      omega
    have hlt : d.sendIndex.toNat < d.sendBuffer.length := by omega
    refine .inr ⟨?_, hend, h.size, h.len_le, hnat⟩
    rw [rest, List.drop_eq_getElem_cons hin, List.getElem_take, List.getD_eq_getElem _ _ hlt, rest, advance, hsucc]

end Dispatcher

namespace SerialSender
variable {s s' : SerialSender} {bodies : List (List UInt8)}

/-- `nextByte` gives out the rest byte by byte; with the last one gone, the message is complete. -/
private theorem nextByte_spec (h : s.dispatcher.InBlock) :
    (s.dispatcher.rest = [] ∧ s.nextByte = (0, { s with dispatcher := s.dispatcher.advance }.completeSend)) ∨
      ∃ b, s.nextByte = (b, { s with dispatcher := s.dispatcher.advance }) ∧
        s.dispatcher.rest = b :: s.dispatcher.advance.rest ∧ s.dispatcher.advance.InBlock := by
  rcases h.next with ⟨hrest, hend⟩ | ⟨hrest, hend, hin⟩
  · refine .inl ⟨hrest, ?_⟩
    rw [nextByte]
    exact if_pos hend
  · refine .inr ⟨_, ?_, hrest, hin⟩
    rw [nextByte]
    exact if_neg hend

private theorem infoNext_spec (hin : s.txIndex = .data → s.dataBuf.state = .filling ∧ s.dispatcher.InBlock)
    (hcount : s.txIndex = .data → s.txByteCnt.toNat + s.dispatcher.rest.length ≤ 255) :
    (s.txIndex = .ack ∧ s.infoNext = { s with txState := .fcs1 }) ∨
      (s.txIndex = .data ∧ s.dispatcher.rest = [] ∧ s.infoNext =
        { s with
          dispatcher := s.dispatcher.advance, dataBuf := { s.dataBuf with state := .complete }, txState := .fcs1 }) ∨
      s.txIndex = .data ∧ ∃ b, s.dispatcher.rest = b :: s.dispatcher.advance.rest ∧ s.dispatcher.advance.InBlock ∧
        s.infoNext = { s with dispatcher := s.dispatcher.advance, dataBuf := { s.dataBuf with buf := b } } := by
  by_cases hindex : s.txIndex = .data
  · obtain ⟨hstate, hblock⟩ := hin hindex
    rw [infoNext, if_pos hindex]
    rcases nextByte_spec hblock with ⟨hrest, hbyte⟩ | ⟨b, hbyte, hrest, hblock'⟩
    · refine .inr (.inl ⟨hindex, hrest, ?_⟩)
      rw [hbyte]
      exact if_pos (Or.inl rfl)
    · have hroom := hcount hindex
      rw [hrest, List.length_cons] at hroom
      have hmtu : ¬ SERIAL_MTU ≤ s.txByteCnt := by
        intro hle
        have hnat := UInt8.le_iff_toNat_le.mp hle
        have hmax : SERIAL_MTU.toNat = 255 := rfl
        omega
      have hmore : ¬ (s.dataBuf.state = .complete ∨ SERIAL_MTU ≤ s.txByteCnt) := by
        rw [hstate]
        simpa using hmtu
      refine .inr (.inr ⟨hindex, b, hrest, hblock', ?_⟩)
      rw [hbyte]
      exact if_neg hmore
  · refine .inl ⟨?_, ?_⟩
    · cases htx : s.txIndex with
      | ack => rfl
      | data => exact absurd htx hindex
    · rw [infoNext, if_neg hindex]

/-- The bytes in front of the check that are still to be sent, the one in `txBuf` first. -/
def info (s : SerialSender) : List UInt8 :=
  s.txByte :: match s.txIndex with
    | .ack => []
    | .data => s.dispatcher.rest

theorem info_ack (hindex : s.txIndex = .ack) : s.info = [s.ackBuf.buf] := by
  rw [info, txByte, hindex]

theorem info_data (hindex : s.txIndex = .data) : s.info = s.dataBuf.buf :: s.dispatcher.rest := by
  rw [info, txByte, hindex]

/-- The last body is on the line as far as `sent`, and the frames in front of it are whole. -/
def InFrame (s : SerialSender) (bodies : List (List UInt8)) (body sent : List UInt8) : Prop :=
  body.head? = some s.txProto ∧ ∃ done,
    bodies = done ++ [body] ∧ s.uart.out = done.flatMap frameOf ++ SYNC_BYTE :: hdlc.stuff sent

/-- All frames are whole. -/
def BetweenFrames (s : SerialSender) (bodies : List (List UInt8)) : Prop :=
  s.uart.sendEscape = false ∧ s.uart.wire = bodies.flatMap frameOf

/-- The frame has room for what is still to be sent of it. -/
def Filling (s : SerialSender) : Prop :=
  s.txByteCnt.toNat + s.info.length ≤ 255 ∧
    (s.txIndex = .data → s.dataBuf.state = .filling ∧ s.dispatcher.InBlock)

/-- What `txState` says of the line. -/
def Phase (s : SerialSender) (bodies : List (List UInt8)) : Prop :=
  match s.txState with
  | .idle | .endwait | .finish => s.BetweenFrames bodies
  | .proto => s.Filling ∧ s.txCRC = 0 ∧ s.InFrame bodies (s.txProto :: s.info) []
  | .info => s.Filling ∧ ∃ sent, s.txCRC = crcPacket sent ∧ s.InFrame bodies (sent ++ s.info) sent
  | .fcs1 => ∃ body, s.txCRC = crcPacket body ∧ s.InFrame bodies body body
  | .fcs2 => ∃ body, s.txCRC = crcPacket body ∧ s.InFrame bodies body (body ++ [(crcPacket body).toUInt8])
  | .endflag => ∃ body, s.InFrame bodies body (sealed body)
  | .seqno | .error | .inactive => False

/-- A byte is on its way as long as a frame is sent. -/
def Busy (s : SerialSender) : Prop :=
  s.uart.busy = true ↔ s.txState ≠ .idle ∧ s.txState ≠ .finish

theorem InFrame.next {body sent : List UInt8} {b : UInt8} (h : s.InFrame bodies body sent)
    (hproto : s'.txProto = s.txProto) (hout : s'.uart.out = s.uart.out ++ hdlc.stuffOne b) :
    s'.InFrame bodies body (sent ++ [b]) := by
  obtain ⟨hhead, done, hbodies, hline⟩ := h
  refine ⟨by rw [hproto, hhead], done, hbodies, ?_⟩
  rw [hout, hline, stuff_append, List.append_assoc, List.cons_append]
  simp [stuff]

private theorem crcPacket_append (bs : List UInt8) (b : UInt8) : crcPacket (bs ++ [b]) = crcByte (crcPacket bs) b := by
  rw [crcPacket, List.foldl_append]
  rfl

private theorem putData_eq {b : UInt8} {u : Uart} (h : s.uart.putData b = (.success, u)) :
    s.putData b = (.success, { s with uart := u }) := by
  rw [putData, h]

private theorem putChecked_eq {b : UInt8} {u : Uart} (h : s.uart.putData b = (.success, u)) :
    s.putChecked b = (.success, { s with uart := u, txCRC := crcByte s.txCRC b }) := by
  rw [putChecked, putData_eq h]

private theorem putDone_of {t : SerialSender} (h : s.putNext = (.success, t)) : s.putDone = t := by
  rw [putDone, h]
  rfl

def taskWork (s : SerialSender) : Nat :=
  if s.txPending then 3 else 0

/-- What is still to be done for a frame: each byte may need an escape, and the task has to count it. -/
def frameWork (s : SerialSender) : Nat :=
  match s.txState with
  | .proto => 11 + 2 * s.info.length
  | .info => 9 + 2 * s.info.length
  | .fcs1 => 9
  | .fcs2 => 7
  | .endflag => 5
  | .endwait => 4
  | .idle | .seqno | .finish | .error | .inactive => 0

def lineWork (s : SerialSender) : Nat :=
  s.taskWork + s.uart.kept + s.frameWork

/-- What a byte that is gone does not change, and that less is to be done. -/
structure Quiet (s s' : SerialSender) : Prop where
  ackQ : s'.ackQ = s.ackQ
  pushed : s'.pushed = s.pushed
  accepted : s'.accepted = s.accepted
  signalled : s'.signalled = s.signalled
  sendState : s'.dispatcher.sendState = s.dispatcher.sendState
  sendError : s'.dispatcher.sendError = s.dispatcher.sendError
  posted : s'.dispatcher.posted = s.dispatcher.posted
  runTx : s'.runTx = s.runTx
  txIndex : s'.txIndex = s.txIndex
  txProto : s'.txProto = s.txProto
  ackBuf : s'.ackBuf = s.ackBuf
  available : s'.dataBuf.state = .available ↔ s.dataBuf.state = .available
  other : s.txIndex = .ack → s'.dataBuf = s.dataBuf ∧ s'.dispatcher = s.dispatcher
  active : s'.txState ≠ .idle
  pending : s.txPending = true → s'.txPending = true
  finish : s'.txState = .finish → s'.txPending = true
  work : s'.lineWork < s.lineWork

section PutDone
variable (hfree : s.uart.busy = false) (hescape : s.uart.sendEscape = false)
include hfree hescape

private theorem putDone_proto (hstate : s.txState = .proto) (hphase : s.Phase bodies) :
    s.putDone.Phase bodies ∧ s.putDone.Busy ∧ s.Quiet s.putDone := by
  rw [Phase, hstate] at hphase
  obtain ⟨hfilling, hcrc, hframe⟩ := hphase
  obtain ⟨u, hput, hbusy, hout⟩ := Uart.putData_spec hfree hescape s.txProto
  have hnext : s.putNext = (.success, { s with uart := u, txCRC := crcByte s.txCRC s.txProto, txState := .info }) := by
    simp only [putNext, hstate, putChecked_eq hput]
  rw [putDone_of hnext]
  refine ⟨⟨hfilling, [s.txProto], ?_, hframe.next rfl hout⟩, by simp [Busy, hbusy], ?_⟩
  · rw [hcrc]
    rfl
  · refine ⟨rfl, rfl, rfl, rfl, rfl, rfl, rfl, rfl, rfl, rfl, rfl, Iff.rfl, fun _ => ⟨rfl, rfl⟩, nofun, id, nofun, ?_⟩
    have hkept := u.kept_le
    have hwork : s.frameWork = 11 + 2 * s.info.length := by rw [frameWork, hstate]
    show s.taskWork + u.kept + (9 + 2 * s.info.length) < s.taskWork + s.uart.kept + s.frameWork
    omega

private theorem putDone_info (hstate : s.txState = .info) (hphase : s.Phase bodies) :
    s.putDone.Phase bodies ∧ s.putDone.Busy ∧ s.Quiet s.putDone := by
  rw [Phase, hstate] at hphase
  obtain ⟨hfilling, sent, hcrc, hframe⟩ := hphase
  obtain ⟨u, hput, hbusy, hout⟩ := Uart.putData_spec hfree hescape s.txByte
  have hcount := hfilling.1
  rw [info, List.length_cons] at hcount
  have hlen : (s.txByteCnt + 1).toNat = s.txByteCnt.toNat + 1 := by
    rw [UInt8.toNat_add]
    exact Nat.mod_eq_of_lt (by simp; omega)
  have hkept := u.kept_le
  have hwork : s.frameWork = 9 + 2 * s.info.length := by rw [frameWork, hstate]
  have hsent : crcByte s.txCRC s.txByte = crcPacket (sent ++ [s.txByte]) := by
    rw [crcPacket_append, hcrc]
  have hnext : s.putNext = (.success,
      infoNext { s with uart := u, txCRC := crcByte s.txCRC s.txByte, txByteCnt := s.txByteCnt + 1 }) := by
    simp only [putNext, hstate, putChecked_eq hput]
  rw [putDone_of hnext]
  rcases infoNext_spec
      (s := { s with uart := u, txCRC := crcByte s.txCRC s.txByte, txByteCnt := s.txByteCnt + 1 }) hfilling.2
      (fun hindex => by
        rw [show s.txIndex = .data from hindex] at hcount
        dsimp only at hcount ⊢
        omega) with
    ⟨hindex, heq⟩ | ⟨hindex, hrest, heq⟩ | ⟨hindex, b, hrest, hblock, heq⟩
  · replace hindex : s.txIndex = .ack := hindex
    rw [heq]
    have hframe' : InFrame { s with uart := u } bodies (sent ++ s.info) (sent ++ [s.txByte]) := hframe.next rfl hout
    rw [info, hindex] at hframe'
    refine ⟨⟨sent ++ [s.txByte], hsent, hframe'⟩, by simp [Busy, hbusy], ?_⟩
    refine ⟨rfl, rfl, rfl, rfl, rfl, rfl, rfl, rfl, rfl, rfl, rfl, Iff.rfl, fun _ => ⟨rfl, rfl⟩, nofun, id, nofun, ?_⟩
    have hinfo : 1 ≤ s.info.length := Nat.succ_le_succ (Nat.zero_le _)
    show s.taskWork + u.kept + 9 < s.taskWork + s.uart.kept + s.frameWork
    omega
  · replace hindex : s.txIndex = .data := hindex
    replace hrest : s.dispatcher.rest = [] := hrest
    rw [heq]
    have hframe' : InFrame { s with uart := u } bodies (sent ++ s.info) (sent ++ [s.txByte]) := hframe.next rfl hout
    rw [info, hindex, hrest] at hframe'
    have hfull := (hfilling.2 hindex).1
    refine ⟨⟨sent ++ [s.txByte], hsent, hframe'⟩, by simp [Busy, hbusy], ?_⟩
    refine ⟨rfl, rfl, rfl, rfl, rfl, rfl, rfl, rfl, rfl, rfl, rfl, by simp [hfull], by simp [hindex], nofun, id, nofun,
      ?_⟩
    have hinfo : 1 ≤ s.info.length := Nat.succ_le_succ (Nat.zero_le _)
    show s.taskWork + u.kept + 9 < s.taskWork + s.uart.kept + s.frameWork
    omega
  · replace hindex : s.txIndex = .data := hindex
    replace hrest : s.dispatcher.rest = b :: s.dispatcher.advance.rest := hrest
    rw [heq]
    have hframe' : InFrame { s with uart := u } bodies (sent ++ s.info) (sent ++ [s.txByte]) := hframe.next rfl hout
    have hline : s.info = s.txByte :: b :: s.dispatcher.advance.rest := by
      rw [info, hindex, hrest]
    have hbody : sent ++ s.info = sent ++ [s.txByte] ++ b :: s.dispatcher.advance.rest := by
      rw [hline, List.append_assoc]
      rfl
    rw [hbody] at hframe'
    rw [hindex, hrest, List.length_cons] at hcount
    have hfull := (hfilling.2 hindex).1
    refine ⟨?_, by simp [Busy, hbusy, hstate], ?_⟩
    · simp only [Phase, hstate]
      refine ⟨⟨?_, fun _ => ⟨hfull, hblock⟩⟩, sent ++ [s.txByte], hsent, ?_⟩
      · rw [info_data]
        · simp only [hlen, List.length_cons]
          omega
        · exact hindex
      · rw [info_data]
        · exact hframe'
        · exact hindex
    · refine ⟨rfl, rfl, rfl, rfl, rfl, rfl, rfl, rfl, rfl, rfl, rfl, Iff.rfl, by simp [hindex], by simp [hstate], id,
        by simp [hstate], ?_⟩
      have hless : s.info.length = (b :: s.dispatcher.advance.rest).length + 1 := by rw [hline, List.length_cons]
      rw [lineWork, lineWork, hwork, hless]
      simp only [frameWork, hstate]
      rw [info_data]
      · show s.taskWork + u.kept + (9 + 2 * (b :: s.dispatcher.advance.rest).length) < s.taskWork + s.uart.kept + _
        omega
      · exact hindex

private theorem putDone_fcs1 (hstate : s.txState = .fcs1) (hphase : s.Phase bodies) :
    s.putDone.Phase bodies ∧ s.putDone.Busy ∧ s.Quiet s.putDone := by
  rw [Phase, hstate] at hphase
  obtain ⟨body, hcrc, hframe⟩ := hphase
  obtain ⟨u, hput, hbusy, hout⟩ := Uart.putData_spec hfree hescape s.txCRC.toUInt8
  have hnext : s.putNext = (.success, { s with uart := u, txState := .fcs2 }) := by
    simp only [putNext, hstate, putData_eq hput]
  rw [putDone_of hnext]
  refine ⟨⟨body, hcrc, ?_⟩, by simp [Busy, hbusy], ?_⟩
  · rw [← hcrc]
    exact hframe.next rfl hout
  · refine ⟨rfl, rfl, rfl, rfl, rfl, rfl, rfl, rfl, rfl, rfl, rfl, Iff.rfl, fun _ => ⟨rfl, rfl⟩, nofun, id, nofun, ?_⟩
    have hkept := u.kept_le
    have hwork : s.frameWork = 9 := by rw [frameWork, hstate]
    show s.taskWork + u.kept + 7 < s.taskWork + s.uart.kept + s.frameWork
    omega

private theorem putDone_fcs2 (hstate : s.txState = .fcs2) (hphase : s.Phase bodies) :
    s.putDone.Phase bodies ∧ s.putDone.Busy ∧ s.Quiet s.putDone := by
  rw [Phase, hstate] at hphase
  obtain ⟨body, hcrc, hframe⟩ := hphase
  obtain ⟨u, hput, hbusy, hout⟩ := Uart.putData_spec hfree hescape (s.txCRC >>> 8).toUInt8
  have hnext : s.putNext = (.success, { s with uart := u, txState := .endflag }) := by
    simp only [putNext, hstate, putData_eq hput]
  have hbody : sealed body = body ++ [(crcPacket body).toUInt8] ++ [(s.txCRC >>> 8).toUInt8] := by
    rw [hcrc, List.append_assoc]
    rfl
  rw [putDone_of hnext]
  refine ⟨⟨body, ?_⟩, by simp [Busy, hbusy], ?_⟩
  · rw [hbody]
    exact hframe.next rfl hout
  · refine ⟨rfl, rfl, rfl, rfl, rfl, rfl, rfl, rfl, rfl, rfl, rfl, Iff.rfl, fun _ => ⟨rfl, rfl⟩, nofun, id, nofun, ?_⟩
    have hkept := u.kept_le
    have hwork : s.frameWork = 7 := by rw [frameWork, hstate]
    show s.taskWork + u.kept + 5 < s.taskWork + s.uart.kept + s.frameWork
    omega

private theorem putDone_endflag (hstate : s.txState = .endflag) (hphase : s.Phase bodies) :
    s.putDone.Phase bodies ∧ s.putDone.Busy ∧ s.Quiet s.putDone := by
  rw [Phase, hstate] at hphase
  obtain ⟨body, -, done, rfl, hline⟩ := hphase
  have hnext : s.putNext = (.success,
      { s with uart := ⟨false, s.uart.txTemp, true, s.uart.wire ++ [SYNC_BYTE]⟩, txState := .endwait }) := by
    simp only [putNext, hstate, putDelimiter, Uart.putDelimiter_spec hfree]
  rw [putDone_of hnext]
  refine ⟨⟨rfl, ?_⟩, by simp [Busy], ?_⟩
  · rw [Uart.wire_eq_out hescape, hline, List.flatMap_append, List.append_assoc]
    simp [frameOf, frame, hdlc]
  · have hsending : TxState.endwait ≠ .idle := by decide
    have hunfinished : TxState.endwait ≠ .finish := by decide
    refine ⟨rfl, rfl, rfl, rfl, rfl, rfl, rfl, rfl, rfl, rfl, rfl, Iff.rfl, fun _ => ⟨rfl, rfl⟩, hsending, id,
      fun hfinish => absurd hfinish hunfinished, ?_⟩
    have hwork : s.frameWork = 5 := by rw [frameWork, hstate]
    show s.taskWork + 0 + 4 < s.taskWork + s.uart.kept + s.frameWork
    omega

omit hescape in
private theorem putDone_endwait (hstate : s.txState = .endwait) (hphase : s.Phase bodies) :
    s.putDone.Phase bodies ∧ s.putDone.Busy ∧ s.Quiet s.putDone := by
  rw [Phase, hstate] at hphase
  have hnext : s.putNext = (.success, { s with txState := .finish }.maybeScheduleTx) := by
    simp only [putNext, hstate]
  rw [putDone_of hnext]
  refine ⟨hphase, by simp [Busy, maybeScheduleTx, hfree], ?_⟩
  refine ⟨rfl, rfl, rfl, rfl, rfl, rfl, rfl, rfl, rfl, rfl, rfl, Iff.rfl, fun _ => ⟨rfl, rfl⟩, nofun, fun _ => rfl,
    fun _ => rfl, ?_⟩
  have hwork : s.frameWork = 4 := by rw [frameWork, hstate]
  show 3 + s.uart.kept + 0 < s.taskWork + s.uart.kept + s.frameWork
  omega

end PutDone

/-- Only what the UART has counts. -/
theorem Phase.uart {u : Uart} (hphase : s.Phase bodies) (hout : u.out = s.uart.out)
    (hwhole : s.BetweenFrames bodies → BetweenFrames { s with uart := u } bodies) :
    Phase { s with uart := u } bodies := by
  have hframe : ∀ {body sent}, s.InFrame bodies body sent → InFrame { s with uart := u } bodies body sent :=
    fun ⟨hhead, done, hbodies, hline⟩ => ⟨hhead, done, hbodies, hout.trans hline⟩
  cases hstate : s.txState <;> simp only [Phase, hstate] at hphase ⊢
  case idle | endwait | finish => exact hwhole hphase
  case proto => exact ⟨hphase.1, hphase.2.1, hframe hphase.2.2⟩
  case info =>
    obtain ⟨hfilling, sent, hcrc, h⟩ := hphase
    exact ⟨hfilling, sent, hcrc, hframe h⟩
  case fcs1 | fcs2 =>
    obtain ⟨body, hcrc, h⟩ := hphase
    exact ⟨body, hcrc, hframe h⟩
  case endflag =>
    obtain ⟨body, h⟩ := hphase
    exact ⟨body, hframe h⟩

private theorem Quiet.of_uart {u : Uart} (h : Quiet { s with uart := u } s') (hkept : u.kept = s.uart.kept) :
    s.Quiet s' :=
  ⟨h.ackQ, h.pushed, h.accepted, h.signalled, h.sendState, h.sendError, h.posted, h.runTx, h.txIndex, h.txProto,
    h.ackBuf, h.available, h.other, h.active, h.pending, h.finish,
    h.work.trans_eq (by rw [lineWork, lineWork, hkept]; rfl)⟩

private theorem sendDone_escaped (hphase : s.Phase bodies) (hsending : s.txState ≠ .idle ∧ s.txState ≠ .finish)
    (hescape : s.uart.sendEscape = true) :
    s.sendDone.Phase bodies ∧ s.sendDone.Busy ∧ s.Quiet s.sendDone := by
  have heq : s.sendDone = { s with uart := ⟨false, s.uart.txTemp, true, s.uart.wire ++ [s.uart.txTemp]⟩ } := by
    rw [sendDone]
    exact if_pos hescape
  have hout : Uart.out ⟨false, s.uart.txTemp, true, s.uart.wire ++ [s.uart.txTemp]⟩ = s.uart.out := by
    simp [Uart.out, hescape]
  rw [heq]
  refine ⟨hphase.uart hout fun h => ?_, ⟨fun _ => hsending, fun _ => rfl⟩, ?_⟩
  · exact absurd (h.1.symm.trans hescape) Bool.false_ne_true
  · refine ⟨rfl, rfl, rfl, rfl, rfl, rfl, rfl, rfl, rfl, rfl, rfl, Iff.rfl, fun _ => ⟨rfl, rfl⟩, hsending.1, id,
      fun h => absurd h hsending.2, ?_⟩
    have hkept : s.uart.kept = 1 := by rw [Uart.kept, if_pos hescape]
    show s.taskWork + 0 + s.frameWork < s.taskWork + s.uart.kept + s.frameWork
    omega

private theorem sendDone_put (hphase : s.Phase bodies) (hsending : s.txState ≠ .idle ∧ s.txState ≠ .finish)
    (hescape : s.uart.sendEscape = false) :
    s.sendDone.Phase bodies ∧ s.sendDone.Busy ∧ s.Quiet s.sendDone := by
  let freed : SerialSender := { s with uart := { s.uart with busy := false } }
  have heq : s.sendDone = freed.putDone := by
    rw [sendDone]
    exact if_neg (by simp [hescape])
  have hfreed : freed.Phase bodies := hphase
  suffices freed.putDone.Phase bodies ∧ freed.putDone.Busy ∧ freed.Quiet freed.putDone by
    rw [heq]
    exact ⟨this.1, this.2.1, this.2.2.of_uart rfl⟩
  cases hstate : s.txState with
  | idle => exact absurd hstate hsending.1
  | finish => exact absurd hstate hsending.2
  | proto => exact putDone_proto rfl hescape hstate hfreed
  | info => exact putDone_info rfl hescape hstate hfreed
  | fcs1 => exact putDone_fcs1 rfl hescape hstate hfreed
  | fcs2 => exact putDone_fcs2 rfl hescape hstate hfreed
  | endflag => exact putDone_endflag rfl hescape hstate hfreed
  | endwait => exact putDone_endwait rfl hstate hfreed
  | seqno | error | inactive =>
    rw [Phase, hstate] at hphase
    exact hphase.elim

/-- A byte is gone: the next one of the frame is put on the line, or the frame is over. -/
theorem sendDone_spec (hphase : s.Phase bodies) (hbusy : s.Busy) (hgone : s.uart.busy = true) :
    s.sendDone.Phase bodies ∧ s.sendDone.Busy ∧ s.Quiet s.sendDone := by
  cases hescape : s.uart.sendEscape with
  | true => exact sendDone_escaped hphase (hbusy.mp hgone) hescape
  | false => exact sendDone_put hphase (hbusy.mp hgone) hescape

end SerialSender
end TinyosGraphics.Motes
