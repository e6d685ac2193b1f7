import TinyosGraphics.Serial.Source

/-! `read_serial_packet` and `write_serial_packet`. -/
namespace TinyosGraphics.Serial
open Lib Stuffing

namespace Port

theorem entries_length (type : UInt8) (bodies : List (List UInt8)) : (entries type bodies).length ≤ bodies.length :=
  List.length_filterMap_le _ _

/-- What is to be done until an acknowledgement is found, and no more time is left. -/
def ackWork (p : Port) : Nat :=
  2 * p.incoming.length + (p.queue P_ACK).length + p.selects.length

/-- Looking at bytes is worth more than the acknowledgement that they may hold. -/
private theorem readAndProcess_ackWork (p : Port) :
    p.readAndProcess.ackWork ≤ p.ackWork ∧ (p.readAndProcess.buffer ≠ [] → p.readAndProcess.ackWork < p.ackWork) := by
  obtain ⟨bs, hincoming, habsorbs, hend⟩ := p.readAndProcess_spec
  have hqueue := habsorbs.queue P_ACK
  have hentries := entries_length P_ACK (bodies p.receiver bs)
  simp only [ackWork, hincoming, hqueue, habsorbs.selects, List.length_append]
  obtain ⟨hnone, hbuffer⟩ | ⟨hbs, hone⟩ := hend
  · have hzero : (entries P_ACK (bodies p.receiver bs)).length = 0 := by rw [hnone]; rfl
    exact ⟨by omega, fun h => absurd hbuffer h⟩
  · have hpos := List.length_pos_of_ne_nil hbs
    omega

/-- A wait changes nothing that packets depend on. -/
structure Waits (p p' : Port) : Prop where
  incoming : p'.incoming = p.incoming
  receiver : p'.receiver = p.receiver
  queue : p'.queue = p.queue
  seqno : p'.seqno = p.seqno
  writes : p'.writes = p.writes
  sent : p'.sent = p.sent

private theorem selectLoop_spec (selects : List SelectAnswer) (p : Port) :
    Waits p (selectLoop selects p).2 ∧ (selectLoop selects p).2.selects.length ≤ selects.length ∧
      ((selectLoop selects p).1 = true → (selectLoop selects p).2.selects.length < selects.length) := by
  fun_induction selectLoop selects p with
  | case1 p => exact ⟨⟨rfl, rfl, rfl, rfl, rfl, rfl⟩, by simp, by simp⟩
  | case2 p rest => exact ⟨⟨rfl, rfl, rfl, rfl, rfl, rfl⟩, by simp, by simp⟩
  | case3 p rest => exact ⟨⟨rfl, rfl, rfl, rfl, rfl, rfl⟩, by simp, by simp⟩
  | case4 p rest ih => exact ⟨ih.1, Nat.le_succ_of_le ih.2.1, fun h => Nat.lt_succ_of_lt (ih.2.2 h)⟩
  | case5 p rest => exact ⟨⟨rfl, rfl, rfl, rfl, rfl, rfl⟩, by simp, by simp⟩

private theorem sourceWait_waits (p : Port) : Waits p p.sourceWait.2 := by
  unfold sourceWait
  split
  · exact ⟨rfl, rfl, rfl, rfl, rfl, rfl⟩
  · exact (selectLoop_spec p.selects p).1

private theorem sourceWait_ready {p : Port} (h : p.sourceWait.1 = true) :
    p.sourceWait.2.ackWork < p.ackWork ∨ (p.buffer ≠ [] ∧ p.sourceWait.2 = p) := by
  unfold sourceWait at h ⊢
  split
  case isTrue hbuffer => exact .inr ⟨hbuffer, rfl⟩
  case isFalse hbuffer =>
    rw [if_neg hbuffer] at h
    obtain ⟨hwaits, -, hlt⟩ := selectLoop_spec p.selects p
    have hlt := hlt h
    simp only [ackWork, hwaits.incoming, hwaits.queue]
    exact .inl (by omega)

private theorem popProtocolPacket_cases (p : Port) (type : UInt8) :
    (p.queue type = [] ∧ p.popProtocolPacket type = none) ∨
      ∃ entry rest, p.queue type = entry :: rest ∧
        p.popProtocolPacket type = some (entry, { p with queue := Function.update p.queue type rest }) := by
  unfold popProtocolPacket
  cases p.queue type with
  | nil => exact .inl ⟨rfl, rfl⟩
  | cons entry rest => exact .inr ⟨entry, rest, rfl, rfl⟩

/-- One turn of the loop in `write_serial_packet`; a result leaves it. An acknowledgement holds at least one byte. -/
def ackTurn (p : Port) : Option Int × Port :=
  let p := p.readAndProcess
  match p.popProtocolPacket P_ACK with
  | some (packet, p) => (if packet.getD 0 0 = p.seqno then some 0 else none, p)
  | none =>
    let (ready, p) := p.sourceWait
    (if ready then none else some 1, p)

private theorem ackTurn_ackWork {p : Port} (h : p.ackTurn.1 = none) : p.ackTurn.2.ackWork < p.ackWork := by
  obtain ⟨hle, hlt⟩ := p.readAndProcess_ackWork
  obtain ⟨-, hpop⟩ | ⟨entry, rest, hqueue, hpop⟩ := p.readAndProcess.popProtocolPacket_cases P_ACK
  · rw [ackTurn, hpop] at h ⊢
    dsimp only at h ⊢
    cases hready : p.readAndProcess.sourceWait.1 with
    | false => simp [hready] at h
    | true =>
      obtain hless | ⟨hbuffer, hsame⟩ := sourceWait_ready hready
      · omega
      · rw [hsame]
        exact hlt hbuffer
  · have hpopped : p.ackTurn.2 =
        { p.readAndProcess with queue := Function.update p.readAndProcess.queue P_ACK rest } := by
      rw [ackTurn, hpop]
    have hwork : p.readAndProcess.ackWork = p.ackTurn.2.ackWork + 1 := by
      rw [hpopped]
      simp only [ackWork, hqueue, Function.update_self, List.length_cons]
      show _ = 2 * p.readAndProcess.incoming.length + _ + _ + 1
      omega
    omega

/-- The `for (;;)` of `write_serial_packet`. -/
def ackLoop (p : Port) : Int × Port :=
  match _h : p.ackTurn.1 with
  | some ret => (ret, p.ackTurn.2)
  | none => ackLoop p.ackTurn.2
termination_by p.ackWork
decreasing_by exact ackTurn_ackWork _h

/-- The start of `write_serial_packet`: whether the packet is on its way. -/
def sendPacket (p : Port) (packet : List UInt8) : Bool × Port :=
  let p := { p with seqno := p.seqno + 1 }
  p.writeFramedPacket P_PACKET_ACK p.seqno packet

def writeSerialPacket (p : Port) (packet : List UInt8) : Int × Port :=
  let (sent, p) := p.sendPacket packet
  if sent then p.ackLoop else (-1, p)

private theorem readAndProcess_incoming (p : Port) : p.readAndProcess.incoming.length ≤ p.incoming.length := by
  obtain ⟨bs, hincoming, -⟩ := p.readAndProcess_spec
  simp [hincoming]

private theorem serialSourceEmpty_iff (p : Port) :
    p.serialSourceEmpty = true ↔ p.buffer = [] ∧ p.queue P_PACKET_NO_ACK = [] := by
  simp [serialSourceEmpty, packetAvailable]

private theorem readAndProcess_buffered {p : Port} (h : p.buffer ≠ []) :
    p.readAndProcess.incoming.length < p.incoming.length := by
  obtain ⟨byte, buffer, hbuffer⟩ := List.exists_cons_of_ne_nil h
  have hread : p.readByte = (some byte, { p with buffer := buffer }) := by
    rw [readByte, if_neg h, takeByte, hbuffer]
  have hincoming := (readByte_some hread).2
  rw [hincoming, List.length_cons, readAndProcess]
  split
  · rename_i hnone
    rw [hread] at hnone
    cases hnone
  · rename_i byte' p' hsome
    obtain ⟨rfl, rfl⟩ := Prod.mk.inj (hread.symm.trans hsome) |>.imp Option.some.inj id
    split
    · rw [processByte_incoming]
      exact Nat.lt_succ_self _
    · have := readAndProcess_incoming (({ p with buffer := buffer } : Port).processByte byte).2
      rw [processByte_incoming] at this
      exact Nat.lt_succ_of_le this

/-- What is not empty without a packet has bytes in the buffer, and does not wait. -/
private theorem buffered_of_not_empty {p : Port} (hpop : p.queue P_PACKET_NO_ACK = [])
    (h : ¬ p.serialSourceEmpty = true) :
    p.buffer ≠ [] ∧ p.sourceWait.2 = p := by
  rw [serialSourceEmpty_iff] at h
  have hbuffer : p.buffer ≠ [] := fun hbuffer => h ⟨hbuffer, hpop⟩
  exact ⟨hbuffer, by rw [sourceWait, if_pos hbuffer]⟩

private theorem queue_of_pop_none {p : Port} {type : UInt8} (h : p.popProtocolPacket type = none) :
    p.queue type = [] := by
  obtain ⟨hqueue, -⟩ | ⟨_, _, -, hpop⟩ := p.popProtocolPacket_cases type
  · exact hqueue
  · rw [hpop] at h
    cases h

/-- The `for (;;)` of `read_serial_packet`, with a result when a packet is there and `none` for `NULL`. -/
def readLoop (p : Port) : Option (List UInt8) × Port :=
  match _h : p.popProtocolPacket P_PACKET_NO_ACK with
  | some (packet, p') => (some packet, p')
  | none => if _hempty : p.serialSourceEmpty then (none, p) else readLoop p.sourceWait.2.readAndProcess
termination_by p.incoming.length
decreasing_by
  obtain ⟨hbuffer, hwait⟩ := buffered_of_not_empty (queue_of_pop_none _h) _hempty
  rw [hwait]
  exact readAndProcess_buffered hbuffer

def readSerialPacket (p : Port) : Option (List UInt8) × Port :=
  p.readAndProcess.readLoop

/-- A source that hands out the oldest entry of a queue. -/
structure Pops (type : UInt8) (p p' : Port) (entry : List UInt8) : Prop where
  queue : p.queue type = entry :: p'.queue type
  others : ∀ type', type' ≠ type → p'.queue type' = p.queue type'
  incoming : p'.incoming = p.incoming
  receiver : p'.receiver = p.receiver
  seqno : p'.seqno = p.seqno
  writes : p'.writes = p.writes
  sent : p'.sent = p.sent
  selects : p'.selects = p.selects

private theorem pops_of_some {p p' : Port} {type : UInt8} {entry : List UInt8}
    (h : p.popProtocolPacket type = some (entry, p')) : Pops type p p' entry := by
  obtain ⟨-, hpop⟩ | ⟨entry', rest, hqueue, hpop⟩ := p.popProtocolPacket_cases type
  · rw [hpop] at h
    cases h
  · rw [hpop] at h
    obtain ⟨rfl, rfl⟩ := Prod.mk.inj (Option.some.inj h)
    exact ⟨by simp [hqueue], fun type' hne => by simp [Function.update_of_ne hne], rfl, rfl, rfl, rfl, rfl, rfl⟩

/-- What a call of `read_serial_packet` comes to: it looks at some bytes, and then hands out the oldest packet; or there
is none, and nothing is left in the buffer. -/
structure Reads (p p' : Port) (bs : List UInt8) (result : Option (List UInt8)) : Prop where
  incoming : p.incoming = bs ++ p'.incoming
  outcome : ∃ q, Absorbs p q bs ∧
    ((result = none ∧ p' = q ∧ q.buffer = [] ∧ q.queue P_PACKET_NO_ACK = []) ∨
      ∃ packet, result = some packet ∧ Pops P_PACKET_NO_ACK q p' packet)

private theorem readLoop_spec (p : Port) : ∃ bs, Reads p p.readLoop.2 bs p.readLoop.1 := by
  fun_induction readLoop p with
  | case1 p packet p' h =>
    have hpops := pops_of_some h
    exact ⟨[], hpops.incoming.symm, p, (⟨rfl, rfl, rfl, rfl, rfl, rfl, rfl, rfl⟩ : SameOutside p p).absorbs,
      .inr ⟨packet, rfl, hpops⟩⟩
  | case2 p h hempty =>
    obtain ⟨hbuffer, hqueue⟩ := (serialSourceEmpty_iff p).mp hempty
    exact ⟨[], rfl, p, (⟨rfl, rfl, rfl, rfl, rfl, rfl, rfl, rfl⟩ : SameOutside p p).absorbs,
      .inl ⟨rfl, rfl, hbuffer, hqueue⟩⟩
  | case3 p h hempty ih =>
    obtain ⟨-, hwait⟩ := buffered_of_not_empty (queue_of_pop_none h) hempty
    rw [hwait] at ih ⊢
    obtain ⟨bs, hincoming, habsorbs, -⟩ := p.readAndProcess_spec
    obtain ⟨bs', hincoming', q, habsorbs', houtcome⟩ := ih
    exact ⟨bs ++ bs', by rw [hincoming, hincoming', List.append_assoc], q, habsorbs.trans habsorbs', houtcome⟩

theorem readSerialPacket_spec (p : Port) : ∃ bs, Reads p p.readSerialPacket.2 bs p.readSerialPacket.1 := by
  obtain ⟨bs, hincoming, habsorbs, -⟩ := p.readAndProcess_spec
  obtain ⟨bs', hincoming', q, habsorbs', houtcome⟩ := p.readAndProcess.readLoop_spec
  exact ⟨bs ++ bs', by rw [hincoming, readSerialPacket, hincoming', List.append_assoc], q, habsorbs.trans habsorbs',
    houtcome⟩

/-- What a turn that waits for an acknowledgement comes to: it looks at some bytes, and then takes the oldest
acknowledgement, or waits when there is none. -/
structure Acks (p p' : Port) (bs : List UInt8) (result : Option Int) : Prop where
  incoming : p.incoming = bs ++ p'.incoming
  outcome : ∃ q, Absorbs p q bs ∧
    ((q.queue P_ACK = [] ∧ Waits q p' ∧ result ≠ some 0) ∨
      ∃ ack, Pops P_ACK q p' ack ∧ result = if ack.getD 0 0 = q.seqno then some 0 else none)

theorem ackTurn_spec (p : Port) : ∃ bs, Acks p p.ackTurn.2 bs p.ackTurn.1 := by
  obtain ⟨bs, hincoming, habsorbs, -⟩ := p.readAndProcess_spec
  obtain ⟨hqueue, hpop⟩ | ⟨ack, rest, -, hpop⟩ := p.readAndProcess.popProtocolPacket_cases P_ACK
  · have hturn : p.ackTurn = (if p.readAndProcess.sourceWait.1 then none else some 1,
        p.readAndProcess.sourceWait.2) := by
      rw [ackTurn, hpop]
    have hwaits := p.readAndProcess.sourceWait_waits
    rw [hturn]
    refine ⟨bs, by rw [hincoming, hwaits.incoming], p.readAndProcess, habsorbs, .inl ⟨hqueue, hwaits, ?_⟩⟩
    split <;> simp
  · have hpops := pops_of_some hpop
    rw [ackTurn, hpop]
    exact ⟨bs, by rw [hincoming, hpops.incoming], p.readAndProcess, habsorbs, .inr ⟨ack, hpops, by rw [hpops.seqno]⟩⟩

end Port
end TinyosGraphics.Serial
