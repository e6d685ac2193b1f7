import TinyosGraphics.Motes.SerialFrames

/-! The way out of a mote over whole runs: every token and every message goes out once, in its order and in a whole
frame, and what the dispatcher signals is gone. -/
namespace TinyosGraphics.Motes
open Lib Stuffing Serial

namespace RunTx

/-- A frame is over, and the task has not counted it yet. -/
def done : RunTx → Bool
  | .checked _ done _ => done
  | _ => false

/-- The dispatcher is about to be told. -/
def completed : RunTx → Bool
  | .counted _ _ completed => completed
  | _ => false

def left : RunTx → Nat
  | .off => 0
  | .checked .. => 2
  | .counted .. => 1

end RunTx

namespace SerialSender
variable {s s' : SerialSender} {bodies sent : List (List UInt8)} {queue : List UInt8}

/-- A frame of this kind is on the line, or over and not counted. -/
def Carries (s : SerialSender) (i : TxIndex) : Prop :=
  s.txIndex = i ∧ (s.txState ≠ .idle ∨ s.runTx.done = true)

instance (s : SerialSender) (i : TxIndex) : Decidable (s.Carries i) :=
  inferInstanceAs (Decidable (_ ∧ _))

def tokens (queue : List UInt8) : List (List UInt8) :=
  queue.map ([·])

private theorem tokens_concat (queue : List UInt8) (token : UInt8) :
    tokens (queue ++ [token]) = tokens queue ++ [[token]] := by
  rw [tokens, List.map_append]
  rfl

/-- Where the tokens are. The one that is sent stays in the queue until its frame is counted. -/
inductive AckAt (s : SerialSender) (sent : List (List UInt8)) (queue : List UInt8) : Prop
  | waiting (carries : ¬ s.Carries .ack) (available : s.ackBuf.state = .available)
      (pushed : tokens s.pushed = sent ++ tokens queue)
  | carried (token : UInt8) (rest : List UInt8) (queue_eq : queue = token :: rest) (carries : s.Carries .ack)
      (proto : s.txProto = SERIAL_PROTO_ACK) (available : s.ackBuf.state = .available ↔ s.txState = .idle)
      (pushed : tokens s.pushed = sent ++ tokens rest)

inductive DataAt (s : SerialSender) (sent : List (List UInt8)) : Prop
  | none (hidden : s.dispatcher.sendState = false) (posted : s.dispatcher.posted = false)
      (completed : s.runTx.completed = false) (carries : ¬ s.Carries .data) (available : s.dataBuf.state = .available)
      (accepted : s.accepted = sent)
  | waiting (sending : s.dispatcher.sendState = true) (posted : s.dispatcher.posted = false)
      (completed : s.runTx.completed = false) (carries : ¬ s.Carries .data) (filling : s.dataBuf.state = .filling)
      (block : s.dispatcher.InBlock)
      (accepted : s.accepted = sent ++ [s.dataBuf.buf :: s.dispatcher.rest])
  | carried (sending : s.dispatcher.sendState = true) (posted : s.dispatcher.posted = false)
      (completed : s.runTx.completed = false) (carries : s.Carries .data)
      (proto : s.txProto = SERIAL_PROTO_PACKET_NOACK)
      (available : s.dataBuf.state = .available ↔ s.txState = .idle)
      (accepted : s.accepted = sent)
  | counted (sending : s.dispatcher.sendState = true) (posted : s.dispatcher.posted = false)
      (completed : s.runTx.completed = true) (carries : ¬ s.Carries .data) (available : s.dataBuf.state = .available)
      (accepted : s.accepted = sent)
  | told (sending : s.dispatcher.sendState = true) (posted : s.dispatcher.posted = true)
      (completed : s.runTx.completed = false) (carries : ¬ s.Carries .data) (available : s.dataBuf.state = .available)
      (error : s.dispatcher.sendError = .success) (accepted : s.accepted = sent)

def Sendable (body : List UInt8) : Prop :=
  (∃ token, body = [P_ACK, token]) ∨
    ∃ packet, body = P_PACKET_NO_ACK :: packet ∧ 1 ≤ packet.length ∧ packet.length ≤ 53

/-- What the task remembers is still so. -/
def TaskOk (s : SerialSender) : Prop :=
  match s.runTx with
  | .off => True
  | .checked idle done fail => fail = false ∧ (idle = true ∨ done = true → s.txState = .idle)
  | .counted idle result completed =>
    result = .success ∧ (idle = true → s.txState = .idle) ∧ (completed = true → idle = true)

/-- The frames so far are `bodies`, and `queue` is what the ring holds. -/
structure Sending (s : SerialSender) (bodies : List (List UInt8)) (queue : List UInt8) : Prop where
  ring : s.ackQ.Holds ACK_QUEUE_SIZE queue
  phase : s.Phase bodies
  busy : s.Busy
  task : s.TaskOk
  acks : s.AckAt (entries P_ACK bodies) queue
  data : s.DataAt (entries P_PACKET_NO_ACK bodies)
  told : s.signalled.length + s.dispatcher.sendState.toNat = s.accepted.length
  success : ∀ e ∈ s.signalled, e = .success
  sendable : ∀ body ∈ bodies, Sendable body

def Awake (s : SerialSender) (queue : List UInt8) : Prop :=
  s.txPending = true ∨ s.txState ≠ .finish ∧ (s.txState = .idle →
    match s.runTx with
    | .off => queue = [] ∧ s.dataBuf.state = .available
    | .checked idle done _ => idle = true ∨ done = true
    | .counted idle _ _ => idle = true)

theorem Sending.active (h : s.Sending bodies queue) : s.txState ≠ .inactive := by
  intro hstate
  have hphase := h.phase
  rw [Phase, hstate] at hphase
  exact hphase

private theorem index_ack (hsending : s.txState ≠ .idle) (hcarries : ¬ s.Carries .data) : s.txIndex = .ack := by
  cases hindex : s.txIndex with
  | ack => rfl
  | data => exact absurd ⟨hindex, .inl hsending⟩ hcarries

/-- The message waits for its frame. -/
def Waiting (s : SerialSender) : Prop :=
  s.dataBuf.state = .filling ∧ ¬ s.Carries .data

instance (s : SerialSender) : Decidable s.Waiting :=
  inferInstanceAs (Decidable (_ ∧ _))

def tokensWork (s : SerialSender) : Nat :=
  14 * (s.ackQ.count ACK_QUEUE_SIZE - if s.Carries .ack then 1 else 0)

/-- The frame of a message that waits, and the signal. -/
def messageWork (s : SerialSender) : Nat :=
  (if s.dispatcher.sendState then 1 else 0) + if s.Waiting then 14 + 2 * s.dispatcher.rest.length else 0

/-- A bound on what the task, the UART and the dispatcher have still to do. -/
def work (s : SerialSender) : Nat :=
  s.lineWork + s.runTx.left + s.tokensWork + s.messageWork

private theorem tokensWork_congr (hqueue : s'.ackQ = s.ackQ) (hcarries : s'.Carries .ack ↔ s.Carries .ack) :
    s'.tokensWork = s.tokensWork := by
  simp only [tokensWork, hqueue, hcarries]

private theorem tokensWork_waiting (hring : s.ackQ.Holds ACK_QUEUE_SIZE queue) (hcarries : ¬ s.Carries .ack) :
    s.tokensWork = 14 * queue.length := by
  rw [tokensWork, hring.count_eq, if_neg hcarries, Nat.sub_zero]

private theorem tokensWork_carried {token : UInt8} (hring : s.ackQ.Holds ACK_QUEUE_SIZE (token :: queue))
    (hcarries : s.Carries .ack) : s.tokensWork = 14 * queue.length := by
  rw [tokensWork, hring.count_eq, if_pos hcarries, List.length_cons, Nat.add_sub_cancel]

private theorem messageWork_le (hsend : s'.dispatcher.sendState = s.dispatcher.sendState)
    (hwaiting : s'.Waiting → s.Waiting ∧ s'.dispatcher.rest = s.dispatcher.rest) : s'.messageWork ≤ s.messageWork := by
  rw [messageWork, messageWork, hsend]
  refine Nat.add_le_add_left ?_ _
  by_cases h : s'.Waiting
  · obtain ⟨hsame, hrest⟩ := hwaiting h
    rw [if_pos h, if_pos hsame, hrest]
  · rw [if_neg h]
    exact Nat.zero_le _

private theorem messageWork_same (hdispatcher : s'.dispatcher = s.dispatcher) (hbuf : s'.dataBuf = s.dataBuf)
    (hcarries : s'.Carries .data ↔ s.Carries .data) : s'.messageWork ≤ s.messageWork := by
  refine messageWork_le (by rw [hdispatcher]) fun h => ⟨⟨by rw [← hbuf]; exact h.1, hcarries.not.mp h.2⟩, ?_⟩
  rw [hdispatcher]

theorem AckAt.congr (h : s.AckAt sent queue) (hcarries : s'.Carries .ack ↔ s.Carries .ack)
    (hbuf : s'.ackBuf.state = s.ackBuf.state)
    (hproto : s.Carries .ack → s'.txProto = s.txProto ∧ (s'.txState = .idle ↔ s.txState = .idle))
    (hpushed : s'.pushed = s.pushed) : s'.AckAt sent queue := by
  cases h with
  | waiting carries available pushed =>
    exact .waiting (hcarries.not.mpr carries) (hbuf.trans available) (by rw [hpushed, pushed])
  | carried token rest queue_eq carries proto available pushed =>
    obtain ⟨hsame, hidle⟩ := hproto carries
    exact .carried token rest queue_eq (hcarries.mpr carries) (hsame.trans proto) (by rw [hbuf, available, hidle])
      (by rw [hpushed, pushed])

theorem DataAt.congr (h : s.DataAt sent) (hcarries : s'.Carries .data ↔ s.Carries .data)
    (hcompleted : s'.runTx.completed = s.runTx.completed) (hdispatcher : s'.dispatcher = s.dispatcher)
    (hbuf : s'.dataBuf = s.dataBuf)
    (hproto : s.Carries .data → s'.txProto = s.txProto ∧ (s'.txState = .idle ↔ s.txState = .idle))
    (haccepted : s'.accepted = s.accepted) : s'.DataAt sent := by
  cases h with
  | none hidden posted completed carries available accepted =>
    exact .none (by rw [hdispatcher, hidden]) (by rw [hdispatcher, posted]) (hcompleted.trans completed)
      (hcarries.not.mpr carries) (by rw [hbuf, available]) (haccepted.trans accepted)
  | waiting sending posted completed carries filling block accepted =>
    exact .waiting (by rw [hdispatcher, sending]) (by rw [hdispatcher, posted]) (hcompleted.trans completed)
      (hcarries.not.mpr carries) (by rw [hbuf, filling]) (by rw [hdispatcher]; exact block)
      (by rw [haccepted, accepted, hbuf, hdispatcher])
  | carried sending posted completed carries proto available accepted =>
    obtain ⟨hsame, hidle⟩ := hproto carries
    exact .carried (by rw [hdispatcher, sending]) (by rw [hdispatcher, posted]) (hcompleted.trans completed)
      (hcarries.mpr carries) (hsame.trans proto) (by rw [hbuf, available, hidle]) (haccepted.trans accepted)
  | counted sending posted completed carries available accepted =>
    exact .counted (by rw [hdispatcher, sending]) (by rw [hdispatcher, posted]) (hcompleted.trans completed)
      (hcarries.not.mpr carries) (by rw [hbuf, available]) (haccepted.trans accepted)
  | told sending posted completed carries available error accepted =>
    exact .told (by rw [hdispatcher, sending]) (by rw [hdispatcher, posted]) (hcompleted.trans completed)
      (hcarries.not.mpr carries) (by rw [hbuf, available]) (by rw [hdispatcher, error]) (haccepted.trans accepted)

theorem Quiet.carries (h : s.Quiet s') (hsending : s.txState ≠ .idle) (i : TxIndex) : s'.Carries i ↔ s.Carries i := by
  rw [Carries, Carries, h.txIndex]
  exact and_congr_right fun _ => ⟨fun _ => .inl hsending, fun _ => .inl h.active⟩

theorem Quiet.acks (h : s.Quiet s') (hsending : s.txState ≠ .idle) (hacks : s.AckAt sent queue) :
    s'.AckAt sent queue :=
  hacks.congr (h.carries hsending _) (by rw [h.ackBuf]) (fun _ => ⟨h.txProto, iff_of_false h.active hsending⟩) h.pushed

theorem Quiet.data (h : s.Quiet s') (hsending : s.txState ≠ .idle) (hdata : s.DataAt sent) : s'.DataAt sent := by
  have hcarries := h.carries hsending .data
  have hcompleted : s'.runTx.completed = s.runTx.completed := by rw [h.runTx]
  cases hdata with
  | none hidden posted completed carries available accepted =>
    exact .none (h.sendState.trans hidden) (h.posted.trans posted) (hcompleted.trans completed)
      (hcarries.not.mpr carries) (h.available.mpr available) (h.accepted.trans accepted)
  | waiting sending posted completed carries filling block accepted =>
    obtain ⟨hbuf, hdispatcher⟩ := h.other (index_ack hsending carries)
    exact .waiting (h.sendState.trans sending) (h.posted.trans posted) (hcompleted.trans completed)
      (hcarries.not.mpr carries) (by rw [hbuf, filling]) (by rw [hdispatcher]; exact block)
      (by rw [h.accepted, accepted, hbuf, hdispatcher])
  | carried sending posted completed carries proto available accepted =>
    refine .carried (h.sendState.trans sending) (h.posted.trans posted) (hcompleted.trans completed)
      (hcarries.mpr carries) (h.txProto.trans proto) ?_ (h.accepted.trans accepted)
    rw [h.available, available]
    exact iff_of_false hsending h.active
  | counted sending posted completed carries available accepted =>
    exact .counted (h.sendState.trans sending) (h.posted.trans posted) (hcompleted.trans completed)
      (hcarries.not.mpr carries) (h.available.mpr available) (h.accepted.trans accepted)
  | told sending posted completed carries available error accepted =>
    exact .told (h.sendState.trans sending) (h.posted.trans posted) (hcompleted.trans completed)
      (hcarries.not.mpr carries) (h.available.mpr available) (h.sendError.trans error) (h.accepted.trans accepted)

/-- What the task remembers does not depend on a frame that is being sent. -/
theorem Quiet.task (h : s.Quiet s') (hsending : s.txState ≠ .idle) (htask : s.TaskOk) : s'.TaskOk := by
  rw [TaskOk, h.runTx]
  rw [TaskOk] at htask
  cases hrun : s.runTx with
  | off => trivial
  | checked idle done fail =>
    rw [hrun] at htask
    exact ⟨htask.1, fun hidle => absurd (htask.2 hidle) hsending⟩
  | counted idle result completed =>
    rw [hrun] at htask
    exact ⟨htask.1, fun hidle => absurd (htask.2.1 hidle) hsending, htask.2.2⟩

private theorem Quiet.work_lt (h : s.Quiet s') (hsending : s.txState ≠ .idle) : s'.work < s.work := by
  have hline := h.work
  have htokens := tokensWork_congr h.ackQ (h.carries hsending .ack)
  have hmessage : s'.messageWork ≤ s.messageWork := by
    refine messageWork_le h.sendState fun hwaiting => ?_
    have hfree := (h.carries hsending .data).not.mp hwaiting.2
    obtain ⟨hbuf, hdispatcher⟩ := h.other (index_ack hsending hfree)
    exact ⟨⟨by rw [← hbuf]; exact hwaiting.1, hfree⟩, by rw [hdispatcher]⟩
  rw [SerialSender.work, SerialSender.work, h.runTx, htokens]
  omega

theorem Sending.sendDone (h : s.Sending bodies queue) (hgone : s.uart.busy = true) :
    s.sendDone.Sending bodies queue ∧ s.sendDone.Awake queue ∧ s.sendDone.work < s.work := by
  have hsending := (h.busy.mp hgone).1
  obtain ⟨hphase, hbusy, hquiet⟩ := sendDone_spec h.phase h.busy hgone
  refine ⟨⟨?_, hphase, hbusy, hquiet.task hsending h.task, hquiet.acks hsending h.acks, hquiet.data hsending h.data,
    ?_, ?_, h.sendable⟩, ?_, hquiet.work_lt hsending⟩
  · rw [hquiet.ackQ]
    exact h.ring
  · rw [hquiet.signalled, hquiet.sendState, hquiet.accepted]
    exact h.told
  · rw [hquiet.signalled]
    exact h.success
  · cases hpending : s.sendDone.txPending with
    | true => exact .inl hpending
    | false => exact .inr ⟨fun hfinish => Bool.false_ne_true (hpending.symm.trans (hquiet.finish hfinish)),
        fun hidle => absurd hidle hquiet.active⟩

theorem Sending.push (h : s.Sending bodies queue) (hawake : s.Awake queue) (token : UInt8) :
    ∃ queue', (s.ackQueuePush token).Sending bodies queue' ∧ (s.ackQueuePush token).Awake queue' := by
  rw [ackQueuePush]
  by_cases hfull : s.ackQ.isFull ACK_QUEUE_SIZE = true
  · rw [if_pos hfull]
    exact ⟨queue, h, hawake⟩
  · rw [if_neg hfull]
    have hroom : queue.length < ACK_QUEUE_SIZE := lt_of_le_of_ne h.ring.room (h.ring.isFull_iff.not.mp hfull)
    refine ⟨queue ++ [token], ⟨h.ring.write hroom token, h.phase, h.busy, h.task, ?_, ?_, h.told, h.success,
      h.sendable⟩, .inl rfl⟩
    · cases h.acks with
      | waiting carries available pushed =>
        refine .waiting carries available ?_
        rw [tokens_concat, ← List.append_assoc, ← pushed]
        exact tokens_concat _ _
      | carried next rest queue_eq carries proto available pushed =>
        refine .carried next (rest ++ [token]) (by rw [queue_eq]; rfl) carries proto available ?_
        rw [tokens_concat, ← List.append_assoc, ← pushed]
        exact tokens_concat _ _
    · exact h.data.congr Iff.rfl rfl rfl rfl (fun _ => ⟨rfl, Iff.rfl⟩) rfl

def loaded (d : Dispatcher) (msg : MessageT) (len : UInt8) : Dispatcher :=
  ⟨true, msg.bytes, packetOffset, len + serialHeader + packetOffset, .success, d.posted⟩

private theorem loaded_inBlock (d : Dispatcher) (msg : MessageT) {len : UInt8} (hlen : len ≤ maxPayloadLength) :
    (loaded d msg len).InBlock := by
  have hnat : len.toNat ≤ 40 := UInt8.le_iff_toNat_le.mp hlen
  have hsend : (len + serialHeader + packetOffset).toNat = len.toNat + 12 := by
    have hheader : serialHeader.toNat = 7 := rfl
    have hoffset : packetOffset.toNat = 5 := rfl
    simp only [UInt8.toNat_add, hheader, hoffset]
    omega
  refine ⟨msg.size, ?_, ?_⟩
  · rw [loaded, hsend]
    omega
  · rw [loaded, hsend]
    exact (show 5 ≤ 12 by decide).trans (Nat.le_add_left _ _)

def addressed (id : UInt8) (dest : UInt16) (msg : MessageT) (len : UInt8) : MessageT :=
  ((msg.setDest dest).setType id).setLength len

/-- A message is turned away, or stands in the port until it goes out. -/
theorem send_cases (h : s.Sending bodies queue) (id : UInt8) (dest : UInt16) (msg : MessageT) (len : UInt8) :
    (s.send id dest msg len).2 = s ∨ s.dispatcher.sendState = false ∧ len ≤ maxPayloadLength ∧
      (s.send id dest msg len).2 =
        { s with
          dispatcher := loaded s.dispatcher (addressed id dest msg len) len
          dataBuf := ⟨.filling, TOS_SERIAL_ACTIVE_MESSAGE_ID⟩, txPending := true
          accepted := s.accepted ++
            [TOS_SERIAL_ACTIVE_MESSAGE_ID :: (loaded s.dispatcher (addressed id dest msg len) len).rest] } := by
  rw [send]
  by_cases hlong : maxPayloadLength < len
  · exact .inl (by rw [if_pos hlong])
  · rw [if_neg hlong, dispatch]
    cases hstate : s.dispatcher.sendState with
    | true => exact .inl (by rw [if_pos rfl])
    | false =>
      -- the port is free whenever the dispatcher is
      have hfree : s.dataBuf.state = .available := by
        cases h.data with
        | none hidden posted completed carries available accepted => exact available
        | waiting sending | carried sending | counted sending | told sending =>
          exact absurd (hstate.symm.trans sending) Bool.false_ne_true
      refine .inr ⟨rfl, UInt8.not_lt.mp hlong, ?_⟩
      rw [if_neg Bool.false_ne_true]
      simp only [startSend, if_neg h.active, hfree, if_true, maybeScheduleTx]
      rfl

/-- What is behind an acknowledgement may change. -/
theorem Phase.behind (hphase : s.Phase bodies) (hindex : s.txState ≠ .idle → s.txIndex = .ack) (d : Dispatcher)
    (buf : TxBuf) : Phase { s with dispatcher := d, dataBuf := buf } bodies := by
  by_cases hidle : s.txState = .idle
  · rw [Phase, hidle] at hphase ⊢
    exact hphase
  · have hack := hindex hidle
    have hinfo : info { s with dispatcher := d, dataBuf := buf } = s.info := by
      rw [info_ack hack, info_ack]
      exact hack
    have hfilling : s.Filling → Filling { s with dispatcher := d, dataBuf := buf } := by
      refine fun h => ⟨by rw [hinfo]; exact h.1, fun hdata => ?_⟩
      exact absurd (hack.symm.trans hdata) (by decide)
    have hframe : ∀ front sent, s.InFrame bodies (front ++ s.info) sent →
        InFrame { s with dispatcher := d, dataBuf := buf } bodies
          (front ++ info { s with dispatcher := d, dataBuf := buf }) sent := by
      intro front sent h
      rw [hinfo]
      exact h
    rw [Phase] at hphase ⊢
    cases hstate : s.txState <;> simp only [hstate] at hphase ⊢
    case proto => exact ⟨hfilling hphase.1, hphase.2.1, hframe [_] _ hphase.2.2⟩
    case info =>
      obtain ⟨h, sent, hcrc, hline⟩ := hphase
      exact ⟨hfilling h, sent, hcrc, hframe _ _ hline⟩
    all_goals exact hphase

theorem Sending.send (h : s.Sending bodies queue) (hawake : s.Awake queue) (id : UInt8) (dest : UInt16)
    (msg : MessageT) (len : UInt8) :
    (s.send id dest msg len).2.Sending bodies queue ∧ (s.send id dest msg len).2.Awake queue := by
  obtain hsame | ⟨hhidden, hlen, heq⟩ := send_cases h id dest msg len
  · rw [hsame]
    exact ⟨h, hawake⟩
  · rw [heq]
    have htold := h.told
    rw [hhidden] at htold
    cases h.data with
    | none hidden posted completed carries available accepted =>
      refine ⟨⟨h.ring, ?_, h.busy, h.task, h.acks.congr Iff.rfl rfl (fun _ => ⟨rfl, Iff.rfl⟩) rfl, ?_, ?_, h.success,
        h.sendable⟩, .inl rfl⟩
      · exact h.phase.behind (fun hsending => index_ack hsending carries) _ _
      · refine .waiting rfl posted completed carries rfl (loaded_inBlock _ _ hlen) ?_
        rw [← accepted]
      · rw [List.length_append, ← htold]
        rfl
    | waiting sending | carried sending | counted sending | told sending =>
      exact absurd (hhidden.symm.trans sending) Bool.false_ne_true

theorem Sending.signalSendDone (h : s.Sending bodies queue) (hawake : s.Awake queue)
    (hposted : s.dispatcher.posted = true) :
    s.signalSendDone.Sending bodies queue ∧ s.signalSendDone.Awake queue ∧ s.signalSendDone.work < s.work := by
  have htold := h.told
  cases h.data with
  | told sending posted completed carries available error accepted =>
    rw [sending] at htold
    refine ⟨⟨h.ring, ?_, h.busy, h.task, h.acks.congr Iff.rfl rfl (fun _ => ⟨rfl, Iff.rfl⟩) rfl, ?_, ?_, ?_,
      h.sendable⟩, ?_⟩
    · exact h.phase.behind (fun hsending => index_ack hsending carries) _ s.dataBuf
    · exact .none rfl rfl completed carries available accepted
    · simpa [SerialSender.signalSendDone] using htold
    · intro e he
      rcases List.mem_append.mp he with he | he
      · exact h.success e he
      · exact (List.mem_singleton.mp he).trans error
    · refine ⟨hawake, ?_⟩
      have hwaiting : ¬ s.Waiting := fun hw => absurd (hw.1.symm.trans available) (by decide)
      have hmessage : s.messageWork = 1 := by rw [messageWork, sending, if_pos rfl, if_neg hwaiting]
      have hmessage' : s.signalSendDone.messageWork = 0 := by
        rw [messageWork, if_neg (show ¬ s.signalSendDone.Waiting from hwaiting)]
        rfl
      show s.lineWork + s.runTx.left + s.tokensWork + s.signalSendDone.messageWork < s.work
      rw [work]
      omega
  | none hidden posted | waiting sending posted | carried sending posted | counted sending posted =>
    exact absurd (posted.symm.trans hposted) Bool.false_ne_true

private theorem not_carries {i j : TxIndex} (hindex : s.txIndex = i) (hne : i ≠ j) : ¬ s.Carries j :=
  fun h => hne (hindex.symm.trans h.1)

private theorem runTxCheck_ack (hstate : s.txState = .finish) (hindex : s.txIndex = .ack) : s.runTxCheck =
    { s with
      txPending := false, runTx := .checked false true false, txState := .idle
      ackBuf := { s.ackBuf with state := .available } } := by
  simp [runTxCheck, hstate, hindex]

private theorem runTxCheck_data (hstate : s.txState = .finish) (hindex : s.txIndex = .data) : s.runTxCheck =
    { s with
      txPending := false, runTx := .checked false true false, txState := .idle
      dataBuf := { s.dataBuf with state := .available } } := by
  simp [runTxCheck, hstate, hindex]

private theorem runTxCheck_other (hfinish : s.txState ≠ .finish) (herror : s.txState ≠ .error) :
    s.runTxCheck = { s with txPending := false, runTx := .checked (s.txState = .idle) false false } := by
  rw [runTxCheck]
  simp [hfinish, herror]

private theorem work_check {idle done fail : Bool} (hoff : s.runTx = .off) (hpending : s.txPending = true)
    (hframe : s'.frameWork = s.frameWork ∨ s.txState = .finish ∧ s'.txState = .idle)
    (hrun : s'.runTx = .checked idle done fail) (htask : s'.txPending = false) (huart : s'.uart = s.uart)
    (hqueue : s'.ackQ = s.ackQ) (hcarries : s'.Carries .ack ↔ s.Carries .ack)
    (hmessage : s'.messageWork ≤ s.messageWork) : s'.work < s.work := by
  have hframe' : s'.frameWork = s.frameWork := by
    rcases hframe with hsame | ⟨hfinish, hidle⟩
    · exact hsame
    · rw [frameWork, frameWork, hfinish, hidle]
  have hleft : s'.runTx.left = 2 ∧ s.runTx.left = 0 := by rw [hrun, hoff]; exact ⟨rfl, rfl⟩
  have hposted : s'.taskWork = 0 ∧ s.taskWork = 3 := by rw [taskWork, taskWork, htask, hpending]; exact ⟨rfl, rfl⟩
  rw [work, work, lineWork, lineWork, huart, hframe', tokensWork_congr hqueue hcarries]
  omega

/-- The first section: a frame that is over frees its place, and is counted later. -/
theorem Sending.runTxCheck (h : s.Sending bodies queue) (hoff : s.runTx = .off) (hpending : s.txPending = true) :
    s.runTxCheck.Sending bodies queue ∧ s.runTxCheck.Awake queue ∧ s.runTxCheck.work < s.work := by
  have hphase := h.phase
  have hdone : s.runTx.done = false := by rw [hoff]; rfl
  have hcompleted : s.runTx.completed = false := by rw [hoff]; rfl
  by_cases hfinish : s.txState = .finish
  · rw [Phase, hfinish] at hphase
    have hfree : s.uart.busy = false := by simpa [Busy, hfinish] using h.busy
    have hsending : s.txState ≠ .idle := by simp [hfinish]
    have hstart : TxState.idle ≠ .finish := by decide
    cases hindex : s.txIndex with
    | ack =>
      have hother : TxIndex.ack ≠ .data := by decide
      rw [runTxCheck_ack hfinish hindex]
      cases h.acks with
      | waiting carries => exact absurd ⟨hindex, .inl hsending⟩ carries
      | carried token rest queue_eq carries proto available pushed =>
        refine ⟨⟨h.ring, hphase, by simp [Busy, hfree], ⟨rfl, fun _ => rfl⟩, ?_, ?_, h.told, h.success, h.sendable⟩,
          .inr ⟨hstart, fun _ => .inr rfl⟩, ?_⟩
        · exact .carried token rest queue_eq ⟨hindex, .inr rfl⟩ proto (iff_of_true rfl rfl) pushed
        · exact h.data.congr (iff_of_false (not_carries hindex hother) (not_carries hindex hother)) hcompleted.symm rfl
            rfl (fun hc => absurd hc (not_carries hindex hother)) rfl
        · exact work_check hoff hpending (.inr ⟨hfinish, rfl⟩) rfl rfl rfl rfl (iff_of_true ⟨hindex, .inr rfl⟩ carries)
            (messageWork_same rfl rfl (iff_of_false (not_carries hindex hother) (not_carries hindex hother)))
    | data =>
      have hother : TxIndex.data ≠ .ack := by decide
      rw [runTxCheck_data hfinish hindex]
      cases h.data with
      | carried sending posted completed carries proto available accepted =>
        refine ⟨⟨h.ring, hphase, by simp [Busy, hfree], ⟨rfl, fun _ => rfl⟩, ?_, ?_, h.told, h.success, h.sendable⟩,
          .inr ⟨hstart, fun _ => .inr rfl⟩, ?_⟩
        · exact h.acks.congr (iff_of_false (not_carries hindex hother) (not_carries hindex hother)) rfl
            (fun hc => absurd hc (not_carries hindex hother)) rfl
        · exact .carried sending posted rfl ⟨hindex, .inr rfl⟩ proto (iff_of_true rfl rfl) accepted
        · exact work_check hoff hpending (.inr ⟨hfinish, rfl⟩) rfl rfl rfl rfl
            (iff_of_false (not_carries hindex hother) (not_carries hindex hother))
            (messageWork_le rfl fun hwaiting => absurd hwaiting.1 (show TxBufferState.available ≠ .filling by decide))
      | none _ _ _ carries | waiting _ _ _ carries | counted _ _ _ carries | told _ _ _ carries =>
        exact absurd ⟨hindex, .inl hsending⟩ carries
  · have herror : s.txState ≠ .error := by
      intro hstate
      rw [Phase, hstate] at hphase
      exact hphase
    have hcarries : ∀ i, Carries { s with txPending := false, runTx := .checked (s.txState = .idle) false false } i ↔
        s.Carries i := by
      intro i
      rw [Carries, Carries, hdone]
      rfl
    rw [runTxCheck_other hfinish herror]
    refine ⟨⟨h.ring, hphase, h.busy, ⟨rfl, ?_⟩, h.acks.congr (hcarries _) rfl (fun _ => ⟨rfl, Iff.rfl⟩) rfl,
      h.data.congr (hcarries _) hcompleted.symm rfl rfl (fun _ => ⟨rfl, Iff.rfl⟩) rfl, h.told, h.success, h.sendable⟩,
      .inr ⟨hfinish, fun hidle => .inl (decide_eq_true hidle)⟩, ?_⟩
    · rintro (hidle | hdone')
      · exact of_decide_eq_true hidle
      · exact absurd hdone' Bool.false_ne_true
    · exact work_check hoff hpending (.inl rfl) rfl rfl rfl rfl (hcarries _) (messageWork_same rfl rfl (hcarries _))

private theorem work_lt (hleft : s'.runTx.left < s.runTx.left) (hline : s'.lineWork ≤ s.lineWork)
    (htokens : s'.tokensWork = s.tokensWork) (hmessage : s'.messageWork ≤ s.messageWork) : s'.work < s.work := by
  rw [work, work]
  omega

private theorem runTxCount_ack {idle : Bool} (hproto : s.txProto = SERIAL_PROTO_ACK) (hqueue : s.ackQ.isEmpty = false) :
    s.runTxCount idle true false =
      { s with
        txSeqno := s.txSeqno + 1, ackQ := s.ackQ.drop ACK_QUEUE_SIZE, runTx := .counted true .success false } := by
  simp [runTxCount, hproto, ackQueuePop, hqueue]

private theorem runTxCount_data {idle : Bool} (hproto : s.txProto ≠ SERIAL_PROTO_ACK) :
    s.runTxCount idle true false = { s with txSeqno := s.txSeqno + 1, runTx := .counted true .success true } := by
  simp [runTxCount, hproto]

private theorem runTxCount_other (idle : Bool) :
    s.runTxCount idle false false = { s with runTx := .counted idle .success false } :=
  rfl

/-- The section that counts: with its frame over, a token leaves the queue. -/
theorem Sending.runTxCount {idle done fail : Bool} (h : s.Sending bodies queue) (hawake : s.Awake queue)
    (hrun : s.runTx = .checked idle done fail) :
    ∃ queue', (s.runTxCount idle done fail).Sending bodies queue' ∧ (s.runTxCount idle done fail).Awake queue' ∧
      (s.runTxCount idle done fail).work < s.work := by
  have htask := h.task
  have hcompleted : s.runTx.completed = false := by rw [hrun]; rfl
  have hleft : 1 < s.runTx.left := by rw [hrun]; exact Nat.one_lt_two
  rw [TaskOk, hrun] at htask
  obtain ⟨rfl, hidle⟩ := htask
  rw [Awake, hrun] at hawake
  cases done with
  | true =>
    have hstate := hidle (.inr rfl)
    have hover : s.runTx.done = true := by rw [hrun]; rfl
    have htask' : ∀ completed, ErrorT.success = .success ∧ (true = true → s.txState = .idle) ∧
        (completed = true → true = true) := fun _ => ⟨rfl, fun _ => hstate, fun _ => rfl⟩
    cases hindex : s.txIndex with
    | ack =>
      cases h.acks with
      | waiting carries => exact absurd ⟨hindex, .inr hover⟩ carries
      | carried token rest queue_eq carries proto available pushed =>
        subst queue_eq
        rw [runTxCount_ack proto (by rw [← Bool.not_eq_true, h.ring.isEmpty_iff]; exact List.cons_ne_nil _ _)]
        refine ⟨rest, ⟨h.ring.drop, h.phase, h.busy, htask' _, ?_, ?_, h.told, h.success, h.sendable⟩, ?_, ?_⟩
        · exact .waiting (fun hc => hc.2.elim (absurd hstate) nofun) (available.mpr hstate) pushed
        · exact h.data.congr (iff_of_false (not_carries hindex nofun) (not_carries hindex nofun)) hcompleted.symm rfl
            rfl (fun hc => absurd hc (not_carries hindex nofun)) rfl
        · exact hawake.imp id fun ⟨hfinish, _⟩ => ⟨hfinish, fun _ => rfl⟩
        · refine work_lt hleft (Nat.le_refl _) ?_
            (messageWork_same rfl rfl (iff_of_false (not_carries hindex nofun) (not_carries hindex nofun)))
          rw [tokensWork_carried h.ring carries]
          exact tokensWork_waiting h.ring.drop fun hc => hc.2.elim (absurd hstate) nofun
    | data =>
      cases h.data with
      | carried sending posted completed carries proto available accepted =>
        rw [runTxCount_data (by rw [proto]; decide)]
        refine ⟨queue, ⟨h.ring, h.phase, h.busy, htask' _, ?_, ?_, h.told, h.success, h.sendable⟩, ?_, ?_⟩
        · exact h.acks.congr (iff_of_false (not_carries hindex nofun) (not_carries hindex nofun)) rfl
            (fun hc => absurd hc (not_carries hindex nofun)) rfl
        · exact .counted sending posted rfl (fun hc => hc.2.elim (absurd hstate) nofun) (available.mpr hstate) accepted
        · exact hawake.imp id fun ⟨hfinish, _⟩ => ⟨hfinish, fun _ => rfl⟩
        · refine work_lt hleft (Nat.le_refl _)
            (tokensWork_congr rfl (iff_of_false (not_carries hindex nofun) (not_carries hindex nofun)))
            (messageWork_le rfl fun hwaiting => absurd (hwaiting.1.symm.trans (available.mpr hstate)) nofun)
      | none _ _ _ carries | waiting _ _ _ carries | counted _ _ _ carries | told _ _ _ carries =>
        exact absurd ⟨hindex, .inr hover⟩ carries
  | false =>
    have hcarries : ∀ i, Carries { s with runTx := .counted idle .success false } i ↔ s.Carries i := by
      intro i
      rw [Carries, Carries, hrun]
      rfl
    rw [runTxCount_other]
    refine ⟨queue, ⟨h.ring, h.phase, h.busy, ⟨rfl, fun hi => hidle (.inl hi), nofun⟩,
      h.acks.congr (hcarries _) rfl (fun _ => ⟨rfl, Iff.rfl⟩) rfl,
      h.data.congr (hcarries _) hcompleted.symm rfl rfl (fun _ => ⟨rfl, Iff.rfl⟩) rfl, h.told, h.success, h.sendable⟩,
      ?_, work_lt hleft (Nat.le_refl _) (tokensWork_congr rfl (hcarries _)) (messageWork_same rfl rfl (hcarries _))⟩
    exact hawake.imp id fun ⟨hfinish, hnext⟩ => ⟨hfinish, fun hi => (hnext hi).elim id nofun⟩

def ackChosen (s : SerialSender) (token : UInt8) : SerialSender :=
  { s with ackBuf := ⟨.complete, token⟩, txProto := SERIAL_PROTO_ACK, txIndex := .ack }

def dataChosen (s : SerialSender) : SerialSender :=
  { s with txProto := SERIAL_PROTO_PACKET_NOACK, txIndex := .data }

def begun (s : SerialSender) : SerialSender :=
  { s with
    txCRC := 0, txByteCnt := 0, txState := .proto
    uart := ⟨false, s.uart.txTemp, true, s.uart.wire ++ [SYNC_BYTE]⟩ }

private theorem begun_lineWork : s.begun.lineWork = s.taskWork + (11 + 2 * s.info.length) := rfl

private theorem runTxStart_spec (hidle : s.txState = .idle) (hphase : s.Phase bodies) (hbusy : s.Busy)
    (hroom : s.info.length ≤ 255) (hdata : s.txIndex = .data → s.dataBuf.state = .filling ∧ s.dispatcher.InBlock) :
    s.runTxStart = s.begun ∧ s.begun.Phase (bodies ++ [s.txProto :: s.info]) ∧ s.begun.Busy := by
  rw [Phase, hidle] at hphase
  have hfree : s.uart.busy = false := by simpa [Busy, hidle] using hbusy
  have heq : s.runTxStart = s.begun := by
    simp only [runTxStart, putDelimiter, Uart.putDelimiter_spec hfree, if_true, begun]
  refine ⟨heq, ⟨⟨?_, hdata⟩, rfl, rfl, bodies, rfl, ?_⟩, by simp [Busy, begun]⟩
  · exact (Nat.zero_add _).trans_le hroom
  · rw [← hphase.2]
    exact List.append_nil _

/-- The section has told the dispatcher, and looks for a frame. -/
def told (s : SerialSender) (completed : Bool) : SerialSender :=
  if completed then { s with runTx := .off }.sendCompleted .success else { s with runTx := .off }

private theorem runTxChoose_ack (hqueue : s.ackQ.isEmpty = false) (hbuf : s.ackBuf.state = .available) : s.runTxChoose =
    (true, s.ackChosen s.ackQueueTop) := by
  rw [runTxChoose, if_pos ⟨hqueue, hbuf⟩, ackChosen]

private theorem runTxChoose_data (hack : ¬ (s.ackQ.isEmpty = false ∧ s.ackBuf.state = .available))
    (hbuf : s.dataBuf.state = .filling ∨ s.dataBuf.state = .complete) : s.runTxChoose = (true, s.dataChosen) := by
  rw [runTxChoose, if_neg hack, if_pos hbuf, dataChosen]

private theorem runTxChoose_none (hack : ¬ (s.ackQ.isEmpty = false ∧ s.ackBuf.state = .available))
    (hbuf : ¬ (s.dataBuf.state = .filling ∨ s.dataBuf.state = .complete)) : s.runTxChoose = (false, s) := by
  rw [runTxChoose, if_neg hack, if_neg hbuf]

private theorem runTxChoose_sendCompleted (error : ErrorT) : (s.sendCompleted error).runTxChoose =
    (s.runTxChoose.1, s.runTxChoose.2.sendCompleted error) := by
  by_cases hack : s.ackQ.isEmpty = false ∧ s.ackBuf.state = .available
  · rw [runTxChoose_ack hack.1 hack.2, runTxChoose_ack (s := s.sendCompleted error) hack.1 hack.2]
    rfl
  · by_cases hdata : s.dataBuf.state = .filling ∨ s.dataBuf.state = .complete
    · rw [runTxChoose_data hack hdata, runTxChoose_data (s := s.sendCompleted error) hack hdata]
      rfl
    · rw [runTxChoose_none hack hdata, runTxChoose_none (s := s.sendCompleted error) hack hdata]

private theorem runTxChoose_txState : s.runTxChoose.2.txState = s.txState := by
  rw [runTxChoose]
  split
  · rfl
  · split <;> rfl

private theorem runTxGo_idle (hactive : s.txState ≠ .inactive) (completed : Bool) :
    s.runTxGo true .success completed = if (s.told completed).runTxChoose.1 then
      (s.told completed).runTxChoose.2.runTxStart else (s.told completed).runTxChoose.2 := by
  have hchosen : ({ s with runTx := .off } : SerialSender).runTxChoose.2.txState ≠ .inactive := by
    rw [runTxChoose_txState]
    exact hactive
  cases completed with
  | true =>
    rw [told, if_pos rfl, runTxChoose_sendCompleted, runTxGo]
    exact if_neg hchosen
  | false =>
    rw [told, if_neg Bool.false_ne_true, runTxGo]
    exact if_neg hchosen

theorem Phase.between (hphase : s.Phase bodies) (hidle : s.txState = .idle) (hidle' : s'.txState = .idle)
    (huart : s'.uart = s.uart) : s'.Phase bodies := by
  rw [Phase, hidle] at hphase
  rw [Phase, hidle']
  exact ⟨by rw [huart, hphase.1], by rw [huart, hphase.2]⟩

/-- Between two frames nothing is on its way. -/
theorem still (hidle : s.txState = .idle) (hdone : s.runTx.done = false) (i : TxIndex) : ¬ s.Carries i :=
  fun hc => hc.2.elim (absurd hidle) fun h => Bool.false_ne_true (hdone.symm.trans h)

private theorem Sending.tell {completed : Bool} (h : s.Sending bodies queue)
    (hrun : s.runTx = .counted true .success completed) :
    (s.told completed).Sending bodies queue ∧ (s.told completed).txState = .idle ∧ (s.told completed).runTx = .off ∧
      (s.told completed).work < s.work := by
  have htask := h.task
  rw [TaskOk, hrun] at htask
  have hidle := htask.2.1 rfl
  have hdone : s.runTx.done = false := by rw [hrun]; rfl
  have hrest := still hidle hdone
  have hrest' : ∀ i, ¬ (s.told completed).Carries i := by
    intro i hc
    cases completed <;> exact hc.2.elim (absurd hidle) nofun
  have hwork : (s.told completed).work < s.work := by
    refine work_lt ?_ ?_ (tokensWork_congr ?_ (iff_of_false (hrest' _) (hrest _)))
      (messageWork_le ?_ fun hw => ⟨⟨?_, hrest _⟩, ?_⟩)
    · rw [hrun]
      cases completed <;> exact Nat.one_pos
    · cases completed <;> exact Nat.le_refl _
    · cases completed <;> rfl
    · cases completed <;> rfl
    · cases completed <;> exact hw.1
    · cases completed <;> rfl
  cases completed with
  | true =>
    cases h.data with
    | counted sending posted completed carries available accepted =>
      refine ⟨⟨h.ring, ?_, h.busy, trivial, ?_, ?_, h.told, h.success, h.sendable⟩, hidle, rfl, hwork⟩
      · exact h.phase.between hidle hidle rfl
      · exact h.acks.congr (iff_of_false (hrest' _) (hrest _)) rfl (fun hc => absurd hc (hrest _)) rfl
      · exact .told sending rfl rfl (hrest' _) available rfl accepted
    | none _ _ hc | waiting _ _ hc | carried _ _ hc | told _ _ hc =>
      rw [hrun] at hc
      exact absurd hc (by decide)
  | false =>
    refine ⟨⟨h.ring, h.phase, h.busy, trivial, ?_, ?_, h.told, h.success, h.sendable⟩, hidle, rfl, hwork⟩
    · exact h.acks.congr (iff_of_false (hrest' _) (hrest _)) rfl (fun hc => absurd hc (hrest _)) rfl
    · refine h.data.congr (iff_of_false (hrest' _) (hrest _)) ?_ rfl rfl (fun hc => absurd hc (hrest _)) rfl
      rw [hrun]
      rfl

private theorem Sending.begin_ack {token : UInt8} {rest : List UInt8} (h : s.Sending bodies (token :: rest))
    (hidle : s.txState = .idle) (hoff : s.runTx = .off) :
    s.runTxChoose.1 = true ∧
      s.runTxChoose.2.runTxStart.Sending (bodies ++ [[P_ACK, token]]) (token :: rest) ∧
      s.runTxChoose.2.runTxStart.Awake (token :: rest) ∧ s.runTxChoose.2.runTxStart.work ≤ s.work := by
  have hfull : s.ackQ.isEmpty = false := by
    rw [← Bool.not_eq_true, h.ring.isEmpty_iff]
    exact List.cons_ne_nil _ _
  have hdone : s.runTx.done = false := by rw [hoff]; rfl
  cases h.acks with
  | carried _ _ _ carries => exact absurd carries (still hidle hdone _)
  | waiting _ available pushed =>
    have htop : s.ackQueueTop = token := by
      rw [ackQueueTop, if_neg (by rw [hfull]; exact Bool.false_ne_true), List.getD_eq_getElem?_getD, h.ring.head]
      rfl
    rw [runTxChoose_ack hfull available, htop]
    obtain ⟨heq, hphase, hbusy⟩ := runTxStart_spec (s := s.ackChosen token)
      hidle (h.phase.between hidle hidle rfl) h.busy (show 1 ≤ 255 by decide) nofun
    have hcarries : (s.ackChosen token).begun.Carries .ack := ⟨rfl, .inl nofun⟩
    have hdata : (s.ackChosen token).begun.Carries .data ↔ s.Carries .data :=
      iff_of_false (not_carries (i := .ack) rfl nofun) (still hidle hdone _)
    rw [heq]
    refine ⟨rfl, ⟨h.ring, hphase, hbusy, ?_, ?_, ?_, h.told, h.success, ?_⟩, .inr ⟨nofun, nofun⟩, ?_⟩
    · rw [TaskOk, show (s.ackChosen token).begun.runTx = .off from hoff]
      trivial
    · refine .carried token rest rfl hcarries rfl (iff_of_false nofun nofun) ?_
      rw [entries_append, List.append_assoc]
      exact pushed
    · have hnone : entries P_PACKET_NO_ACK [[P_ACK, token]] = [] := rfl
      rw [entries_append, hnone, List.append_nil]
      exact h.data.congr hdata rfl rfl rfl (fun hc => absurd hc (still hidle hdone _)) rfl
    · intro body hbody
      rcases List.mem_append.mp hbody with hbody | hbody
      · exact h.sendable body hbody
      · obtain rfl := List.mem_singleton.mp hbody
        exact .inl ⟨token, rfl⟩
    · have htokens := tokensWork_waiting h.ring (still hidle hdone _)
      have htokens' : (s.ackChosen token).begun.tokensWork = 14 * rest.length := tokensWork_carried h.ring hcarries
      have hmessage : (s.ackChosen token).begun.messageWork ≤ s.messageWork := messageWork_same rfl rfl hdata
      have hline : (s.ackChosen token).begun.lineWork = s.taskWork + 13 := begun_lineWork
      have htask : s.taskWork ≤ s.lineWork := Nat.le_add_right_of_le (Nat.le_add_right _ _)
      rw [List.length_cons] at htokens
      show _ + s.runTx.left + _ + _ ≤ s.work
      rw [work]
      omega

private theorem Sending.begin_data (h : s.Sending bodies []) (hidle : s.txState = .idle) (hoff : s.runTx = .off) :
    (s.runTxChoose = (false, s) ∧ s.Awake []) ∨ s.runTxChoose.1 = true ∧ ∃ body,
      s.runTxChoose.2.runTxStart.Sending (bodies ++ [body]) [] ∧ s.runTxChoose.2.runTxStart.Awake [] ∧
      s.runTxChoose.2.runTxStart.work ≤ s.work := by
  have hempty : ¬ (s.ackQ.isEmpty = false ∧ s.ackBuf.state = .available) := by
    rw [h.ring.isEmpty_iff.mpr rfl]
    exact fun hc => absurd hc.1 (by decide)
  have hdone : s.runTx.done = false := by rw [hoff]; rfl
  have hnothing : s.dataBuf.state = .available → s.runTxChoose = (false, s) ∧ s.Awake [] := by
    intro hfree
    refine ⟨runTxChoose_none hempty (by rw [hfree]; decide), .inr ⟨by rw [hidle]; exact nofun, fun _ => ?_⟩⟩
    rw [hoff]
    exact ⟨rfl, hfree⟩
  cases h.data with
  | none _ _ _ _ available | counted _ _ _ _ available | told _ _ _ _ available => exact .inl (hnothing available)
  | carried _ _ _ carries => exact absurd carries (still hidle hdone _)
  | waiting sending posted completed carries filling block accepted =>
    have hlength : s.dispatcher.rest.length ≤ 52 := by
      rw [block.rest_length]
      exact (Nat.sub_le _ _).trans block.len_le
    rw [runTxChoose_data hempty (.inl filling)]
    obtain ⟨heq, hphase, hbusy⟩ := runTxStart_spec (s := s.dataChosen) hidle
      (h.phase.between hidle hidle rfl) h.busy (show s.dispatcher.rest.length + 1 ≤ 255 by omega)
      (fun _ => ⟨filling, block⟩)
    have hcarries : s.dataChosen.begun.Carries .data := ⟨rfl, .inl nofun⟩
    have hack : s.dataChosen.begun.Carries .ack ↔ s.Carries .ack :=
      iff_of_false (not_carries (i := .data) rfl nofun) (still hidle hdone _)
    rw [heq]
    refine .inr ⟨rfl, SERIAL_PROTO_PACKET_NOACK :: s.dataBuf.buf :: s.dispatcher.rest, ⟨h.ring, hphase, hbusy, ?_, ?_,
      ?_, h.told, h.success, ?_⟩, .inr ⟨nofun, nofun⟩, ?_⟩
    · rw [TaskOk, show s.dataChosen.begun.runTx = .off from hoff]
      trivial
    · have hnone : entries P_ACK [SERIAL_PROTO_PACKET_NOACK :: s.dataBuf.buf :: s.dispatcher.rest] = [] := rfl
      rw [entries_append, hnone, List.append_nil]
      exact h.acks.congr hack rfl (fun hc => absurd hc (still hidle hdone _)) rfl
    · refine .carried sending posted completed hcarries rfl (iff_of_false ?_ nofun) ?_
      · rw [show s.dataChosen.begun.dataBuf = s.dataBuf from rfl, filling]
        exact nofun
      · rw [entries_append]
        exact accepted
    · intro body hbody
      rcases List.mem_append.mp hbody with hbody | hbody
      · exact h.sendable body hbody
      · obtain rfl := List.mem_singleton.mp hbody
        exact .inr ⟨_, rfl, Nat.succ_le_succ (Nat.zero_le _), Nat.succ_le_succ hlength⟩
    · have htokens : s.dataChosen.begun.tokensWork = s.tokensWork := tokensWork_congr rfl hack
      have hwaiting : ¬ s.dataChosen.begun.Waiting := fun hw => hw.2 hcarries
      have hmessage : s.messageWork = 1 + (14 + 2 * s.dispatcher.rest.length) := by
        rw [messageWork, sending, if_pos rfl, if_pos ⟨filling, carries⟩]
      have hmessage' : s.dataChosen.begun.messageWork = 1 := by
        rw [messageWork, if_neg hwaiting]
        exact if_pos sending
      have hline : s.dataChosen.begun.lineWork = s.taskWork + (11 + 2 * (s.dispatcher.rest.length + 1)) :=
        begun_lineWork
      have htask : s.taskWork ≤ s.lineWork := Nat.le_add_right_of_le (Nat.le_add_right _ _)
      show _ + s.runTx.left + _ + _ ≤ s.work
      rw [work]
      omega

/-- The last section begins the next frame, if there is something to send. -/
theorem Sending.runTxGo {idle completed : Bool} {result : ErrorT} (h : s.Sending bodies queue) (hawake : s.Awake queue)
    (hrun : s.runTx = .counted idle result completed) :
    ∃ bodies', (s.runTxGo idle result completed).Sending bodies' queue ∧
      (s.runTxGo idle result completed).Awake queue ∧ (s.runTxGo idle result completed).work < s.work := by
  have htask := h.task
  rw [TaskOk, hrun] at htask
  obtain ⟨rfl, -, htold⟩ := htask
  cases idle with
  | true =>
    obtain ⟨hsending, hidle, hoff, hwork⟩ := h.tell hrun
    rw [runTxGo_idle h.active]
    cases queue with
    | cons token rest =>
      obtain ⟨hchosen, hnext, hawake', hless⟩ := hsending.begin_ack hidle hoff
      rw [if_pos hchosen]
      exact ⟨_, hnext, hawake', hless.trans_lt hwork⟩
    | nil =>
      obtain ⟨hnone, hawake'⟩ | ⟨hchosen, body, hnext, hawake', hless⟩ := hsending.begin_data hidle hoff
      · rw [hnone]
        exact ⟨bodies, hsending, hawake', hwork⟩
      · rw [if_pos hchosen]
        exact ⟨_, hnext, hawake', hless.trans_lt hwork⟩
  | false =>
    obtain rfl : completed = false := by
      cases completed with
      | true => exact (htold rfl).symm
      | false => rfl
    have heq : s.runTxGo false .success false = { s with runTx := .off } := by
      rw [SerialSender.runTxGo]
      exact if_neg h.active
    have hcarries : ∀ i, Carries { s with runTx := .off } i ↔ s.Carries i := by
      intro i
      rw [Carries, Carries, hrun]
      rfl
    have hcompleted : RunTx.off.completed = s.runTx.completed := by rw [hrun]; rfl
    have hleft : 0 < s.runTx.left := by rw [hrun]; exact Nat.one_pos
    rw [heq]
    refine ⟨bodies, ⟨h.ring, h.phase, h.busy, trivial, h.acks.congr (hcarries _) rfl (fun _ => ⟨rfl, Iff.rfl⟩) rfl,
      h.data.congr (hcarries _) hcompleted rfl rfl (fun _ => ⟨rfl, Iff.rfl⟩) rfl, h.told, h.success, h.sendable⟩, ?_,
      work_lt hleft (Nat.le_refl _) (tokensWork_congr rfl (hcarries _)) (messageWork_same rfl rfl (hcarries _))⟩
    rw [Awake, hrun] at hawake
    exact hawake.imp id fun ⟨hfinish, hnext⟩ => ⟨hfinish, fun hidle => absurd (hnext hidle) Bool.false_ne_true⟩

end SerialSender
end TinyosGraphics.Motes
