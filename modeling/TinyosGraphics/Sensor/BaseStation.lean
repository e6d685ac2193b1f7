import TinyosGraphics.Motes.SerialRuns
import TinyosGraphics.Sensor.Pipeline

/-! From the mote on the serial line to the programs that read the line: what they get is what the mote accepted. -/
namespace TinyosGraphics.Sensor
open Lib Stuffing Serial Motes SerialSender

variable {s s' : SerialSender} {ok : SerialSender → SenderEvent → Prop}

private theorem sendable_fits {bodies : List (List UInt8)} (h : ∀ body ∈ bodies, Sendable body) :
    (∀ body ∈ bodies, 2 ≤ body.length) ∧ bodies.filter (Fits ·) = bodies := by
  have hlength : ∀ body ∈ bodies, 2 ≤ body.length ∧ Fits body := by
    intro body hbody
    obtain ⟨token, rfl⟩ | ⟨packet, rfl, hlong, hshort⟩ := h body hbody
    · exact ⟨Nat.le_refl 2, show 4 < 256 by decide⟩
    · exact ⟨Nat.succ_le_succ hlong, show packet.length + 1 + 2 < 256 by omega⟩
  exact ⟨fun body hbody => (hlength body hbody).1,
    List.filter_eq_self.mpr fun body hbody => decide_eq_true (hlength body hbody).2⟩

/-- The bodies of the frames are found on the line, whatever without a flag lies in front of them. -/
private theorem bodies_line {noise : List UInt8} (hnoise : SYNC_BYTE ∉ noise) {out : List (List UInt8)}
    (hout : ∀ body ∈ out, Sendable body) : bodies .lost (noise ++ out.flatMap frameOf) = out := by
  have hlost : hdlc.feedAll MTU .lost noise = (.lost, []) := feedAll_lost rfl hnoise
  have hnone : bodies .lost noise = [] := by
    rw [bodies, hlost]
    rfl
  obtain ⟨hlong, hfits⟩ := sendable_fits hout
  rw [bodies_append, hnone, hlost, List.nil_append, bodies_frames (.inl rfl) hlong, hfits]

/-- The packets on the line are the first of those that the mote accepted; with nothing left to do, they are all. -/
private theorem entries_line (h : serialSender.Reachable ok s) {noise bs : List UInt8} (hnoise : SYNC_BYTE ∉ noise)
    (hline : bs <+: noise ++ s.uart.wire) : entries P_PACKET_NO_ACK (bodies .lost bs) <+: s.accepted ∧
      (s.Drained → bs = noise ++ s.uart.wire → entries P_PACKET_NO_ACK (bodies .lost bs) = s.accepted) := by
  obtain ⟨out, queue, hsending, hawake⟩ := sending_of_reachable h
  have hfound := bodies_line hnoise hsending.sendable
  refine ⟨?_, fun hnone hall => ?_⟩
  · have hwire : bs <+: noise ++ out.flatMap frameOf :=
      hline.trans ((List.prefix_append_right_inj _).mpr hsending.phase.line.1)
    have hbegins := bodies_begins .lost hwire
    rw [hfound] at hbegins
    exact (hbegins.filterMap _).trans hsending.accepted_begins
  · obtain ⟨hwire, -, haccepted, -⟩ := hsending.drained hawake hnone
    rw [hall, hwire, hfound, haccepted]

/-- A program on the line reads, however it mixes its calls and however the line cuts the bytes, the packets that the
mote accepted, each once and in order; and once the mote is done and everything has arrived, all of them. -/
theorem read_from_mote (h : serialSender.Reachable (fun _ _ => True) s) {noise : List UInt8}
    (hnoise : SYNC_BYTE ∉ noise) (device : Device)
    (hline : device.reads.flatMap ReadAnswer.bytes <+: noise ++ s.uart.wire) (cs : List Call) :
    ((openSerialSource device).calls cs).1 <+: s.accepted ∧
      (s.Drained → device.reads.flatMap ReadAnswer.bytes = noise ++ s.uart.wire →
        ((openSerialSource device).calls cs).2.incoming = [] →
        ((openSerialSource device).calls cs).1 ++ ((openSerialSource device).calls cs).2.queue P_PACKET_NO_ACK =
          s.accepted) := by
  obtain ⟨bs, took, hmoves, htook, -⟩ := (openSerialSource device).calls_moves cs
  have hbytes : device.reads.flatMap ReadAnswer.bytes = bs ++ ((openSerialSource device).calls cs).2.incoming :=
    hmoves.incoming
  have hqueue : entries P_PACKET_NO_ACK (bodies .lost bs) = ((openSerialSource device).calls cs).1 ++
      ((openSerialSource device).calls cs).2.queue P_PACKET_NO_ACK := by
    rw [← htook]
    exact hmoves.queue P_PACKET_NO_ACK
  have hfront : bs <+: noise ++ s.uart.wire := List.IsPrefix.trans ⟨_, hbytes.symm⟩ hline
  obtain ⟨hbegins, hwhole⟩ := entries_line h hnoise hfront
  refine ⟨?_, fun hnone hall hincoming => ?_⟩
  · rw [hqueue] at hbegins
    exact (List.prefix_append _ _).trans hbegins
  · rw [hincoming, List.append_nil] at hbytes
    rw [← hqueue]
    exact hwhole hnone (hbytes.symm.trans hall)

def moteLine : Device :=
  ⟨[.data [1, 125], .data (bothOut.uart.wire.take 20), .again, .intr, .data (bothOut.uart.wire.drop 20)],
    [], [], [], []⟩

private theorem moteLine_bytes : moteLine.reads.flatMap ReadAnswer.bytes = [1, 125] ++ bothOut.uart.wire := by
  simp only [moteLine, List.flatMap_cons, List.flatMap_nil, ReadAnswer.bytes, List.nil_append, List.append_nil,
    List.take_append_drop]

private theorem bothOut_reachable : serialSender.Reachable (fun _ _ => True) bothOut :=
  bothGiven_reachable.run bothOut_run fun _ _ => trivial

theorem read_from_mote_both : ((openSerialSource moteLine).calls [.read, .read]).1 ++
    ((openSerialSource moteLine).calls [.read, .read]).2.queue P_PACKET_NO_ACK = bothOut.accepted :=
  (read_from_mote bothOut_reachable (show SYNC_BYTE ∉ [1, 125] by decide) moteLine (by rw [moteLine_bytes])
    [.read, .read]).2 bothOut_drained moteLine_bytes (by decide +kernel)

/-- Every message that the mote is given is a `sensor_msg_t` with its check, as `TgxC` has them. -/
def SensorMessages (_ : SerialSender) : SenderEvent → Prop
  | .send _ _ msg len => len = 24 ∧ ∃ m, (msg.bytes.drop messageHeader).take 24 = (calcMsgCrc m).bytes
  | .push _ | .runTx | .sendDone | .signalSendDone => True

private theorem addressed_payload (id : UInt8) (dest : UInt16) (msg : MessageT) (len : UInt8) :
    (addressed id dest msg len).bytes.drop messageHeader = msg.bytes.drop messageHeader := by
  have hset : ∀ (m : MessageT) (i : Nat) (b : UInt8), i < messageHeader →
      (m.setByte i b).bytes.drop messageHeader = m.bytes.drop messageHeader := fun m i b hi => List.drop_set_of_lt hi
  rw [addressed, MessageT.setLength, MessageT.setType, MessageT.setDest, hset _ _ _ (by decide), hset _ _ _ (by decide),
    hset _ _ _ (by decide), hset _ _ _ (by decide)]

/-- A sensor message goes out as a packet: the dispatch byte, the serial header, and the message. -/
private theorem packet_of_message (d : Dispatcher) (id : UInt8) (dest : UInt16) (msg : MessageT) {m : SensorMsg}
    (hmsg : (msg.bytes.drop messageHeader).take 24 = (calcMsgCrc m).bytes) :
    ∃ p : Packet, p.msg = calcMsgCrc m ∧
      TOS_SERIAL_ACTIVE_MESSAGE_ID :: (loaded d (addressed id dest msg 24) 24).rest = p.bytes := by
  let bytes := (addressed id dest msg 24).bytes
  have hsize : bytes.length = 64 := (addressed id dest msg 24).size
  have hrest : (loaded d (addressed id dest msg 24) 24).rest = (bytes.take 12).drop 5 ++ (calcMsgCrc m).bytes := by
    have hsplit : bytes.take 36 = bytes.take 12 ++ (bytes.drop 12).take 24 := List.take_add (i := 12) (j := 24)
    have hpayload : bytes.drop 12 = msg.bytes.drop 12 := addressed_payload id dest msg 24
    have hlong : 5 ≤ (bytes.take 12).length := by
      rw [List.length_take, hsize]
      decide
    rw [← hmsg]
    show (bytes.take 36).drop 5 = _
    rw [hsplit, List.drop_append_of_le_length hlong, hpayload]
    rfl
  have hlength : (TOS_SERIAL_ACTIVE_MESSAGE_ID :: (bytes.take 12).drop 5).length = 8 := by
    rw [List.length_cons, List.length_drop, List.length_take, hsize]
    rfl
  have hcheck := dataCorrupt_calcMsgCrc (TOS_SERIAL_ACTIVE_MESSAGE_ID :: (bytes.take 12).drop 5) [] m
  rw [List.append_nil, hlength] at hcheck
  refine ⟨⟨_, calcMsgCrc m, hlength, hcheck⟩, rfl, ?_⟩
  rw [hrest]
  rfl

private theorem sensor_accepted (h : serialSender.Reachable SensorMessages s) :
    ∃ ps : List Packet, s.accepted = ps.map Packet.bytes := by
  refine h.invariant_of (P := fun s => ∃ ps : List Packet, s.accepted = ps.map Packet.bytes) ?_ ?_
  · rintro s ⟨ackBuf, dataBuf, txTemp, sendIndex, sendLen, tokens, sendBuffer, -, rfl⟩
    exact ⟨[], rfl⟩
  · rintro s event s' hreachable ⟨ps, hps⟩ hok hstep
    obtain ⟨bodies, queue, hsending, -⟩ := sending_of_reachable hreachable
    obtain hsame | ⟨id, dest, msg, len, rfl, -, hmore⟩ := hsending.step_accepted hstep
    · exact ⟨ps, hsame.trans hps⟩
    · obtain ⟨rfl, m, hmsg⟩ := hok
      obtain ⟨p, -, hp⟩ := packet_of_message s.dispatcher id dest msg hmsg
      refine ⟨ps ++ [p], ?_⟩
      rw [hmore, hps, hp, List.map_append]
      rfl

/-- From the mote to the database: whatever the mote's tasks and interrupts do in between, and however the line and the
connections cut their bytes, a client of the forwarder passes on the sensor messages that the mote accepted, from those
that were dispatched since it came on, whole, each once and in order, and the server records them so. -/
theorem reported (h : serialSender.Reachable SensorMessages s) {device : Device} {f : Forwarder}
    (hf : (serialForwarder device).Reachable (fun _ _ => True) f) {noise : List UInt8} (hnoise : SYNC_BYTE ∉ noise)
    (hline : device.reads.flatMap ReadAnswer.bytes <+: noise ++ s.uart.wire) {c : Client} (hc : c ∈ f.clients)
    (hfresh : c.offered.sent = []) {t : Socket} (hreads : Transfer.Sound t.reads) (hwrites : Transfer.Sound t.writes)
    (hstream : t.stream = c.socket.sent) :
    ∃ ps : List Packet, ∃ n ≤ ps.length, s.accepted = ps.map Packet.bytes ∧
      (s.Drained → device.reads.flatMap ReadAnswer.bytes = noise ++ s.uart.wire → f.src.incoming = [] →
        f.src.queue P_PACKET_NO_ACK = [] → n = ps.length) ∧
      t.initSfSource.1 = true ∧ clientLoop t.initSfSource.2 = some (((ps.take n).drop c.since).map Packet.bytes) ∧
      ∀ (T : Type) (celsius : UInt16 → T) (netname : List UInt8), RecordsPackets celsius netname
        ((ps.take n).drop c.since) (List.replicate ((ps.take n).drop c.since).length 32) := by
  obtain ⟨ps, hps⟩ := sensor_accepted h
  obtain ⟨bs, hbs, hqueue⟩ := (Forwarder.reachable_kept hf).dispatched_entries
  have hfront : bs <+: noise ++ s.uart.wire := List.IsPrefix.trans ⟨_, hbs.symm⟩ hline
  obtain ⟨hbegins, hwhole⟩ := entries_line h hnoise hfront
  rw [← hqueue, hps] at hbegins
  have hdispatched : f.dispatched <+: ps.map Packet.bytes := (List.prefix_append _ _).trans hbegins
  have htake : f.dispatched = (ps.take f.dispatched.length).map Packet.bytes := by
    rw [List.map_take]
    exact List.prefix_iff_eq_take.mp hdispatched
  obtain ⟨hok, hloop, hrecords⟩ := dispatched_recorded hf htake hc hfresh hreads hwrites hstream
  refine ⟨ps, f.dispatched.length, by simpa using hdispatched.length_le, hps, fun hnone hall hincoming hempty => ?_,
    hok, hloop, hrecords⟩
  rw [hincoming, List.append_nil] at hbs
  have hall' := hwhole hnone (hbs.symm.trans hall)
  rw [← hqueue, hempty, List.append_nil, hps] at hall'
  rw [hall', List.length_map]

def reportingStart : Forwarder :=
  { waiting with src := openSerialSource moteLine }

def reporting : Forwarder :=
  ((serialForwarder moteLine).replay reportingStart listening).getD reportingStart

def reportingClient : Client :=
  reporting.clients.getD 0 Forwarder.visitor

def reportReader : Socket :=
  ⟨[.count 0, .intr, .count 4], [.count 1], reportingClient.socket.sent, []⟩

private theorem reporting_replayed :
    ((serialForwarder moteLine).replay reportingStart listening).isSome ∧ reportingClient ∈ reporting.clients ∧
      reportingClient.offered.sent = [] ∧ reportingClient.since = 0 ∧ reporting.src.incoming = [] ∧
      reporting.src.queue P_PACKET_NO_ACK = [] ∧
      (sampleMessageT.bytes.drop messageHeader).take 24 = sampleMessage.bytes := by
  refine ⟨?_, ?_, ?_, ?_, ?_, ?_, ?_⟩ <;> decide +kernel

private theorem reporting_reachable : (serialForwarder moteLine).Reachable (fun _ _ => True) reporting :=
  .of_replay ⟨3, 4, by decide, rfl⟩ listening (Transition.replay_getD reporting_replayed.1 reportingStart)

private theorem bothOut_sensor : serialSender.Reachable SensorMessages bothOut := by
  obtain ⟨-, -, -, -, -, -, hsample⟩ := reporting_replayed
  have hgiven : serialSender.Reachable SensorMessages bothGiven := by
    refine .of_good_replay portStarted_init _ (Transition.replay_getD both_replayed.1 portStarted)
      fun event hevent _ => ?_
    obtain rfl | rfl := by simpa using hevent
    · exact ⟨rfl, ⟨1, 0, ⟨3, 4⟩, ⟨5, 6, 7, 8, 9, 10, 0x7e7d⟩, 0⟩, hsample⟩
    · trivial
  refine hgiven.run bothOut_run fun p hp => ?_
  have hinternal := bothLeft_internal p.2 (Transition.mem_trail hp)
  cases hevent : p.2 with
  | send | push =>
    rw [hevent] at hinternal
    exact hinternal.elim
  | runTx | sendDone | signalSendDone => trivial

theorem reported_both : clientLoop reportReader.initSfSource.2 = some bothOut.accepted := by
  obtain ⟨-, hmem, hfresh, hsince, hincoming, hqueue, -⟩ := reporting_replayed
  obtain ⟨ps, n, -, hps, hall, -, hloop, -⟩ := reported bothOut_sensor reporting_reachable
    (show SYNC_BYTE ∉ [1, 125] by decide) (by rw [moteLine_bytes]) hmem hfresh (t := reportReader) (by decide)
    (by decide) rfl
  have hn : n = ps.length := hall bothOut_drained moteLine_bytes hincoming hqueue
  rw [hn, hsince, List.take_length, List.drop_zero] at hloop
  rw [hloop, hps]

end TinyosGraphics.Sensor
