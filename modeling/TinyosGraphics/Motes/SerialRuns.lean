import TinyosGraphics.Motes.SerialOrder

/-! Whole runs of the way out of a mote, with whatever is sent and pushed at any time. -/
namespace TinyosGraphics.Motes
open Lib Stuffing Serial

namespace SerialSender
variable {s s' : SerialSender} {bodies : List (List UInt8)} {queue : List UInt8}

def SenderEvent.Internal : SenderEvent → Prop
  | .runTx | .sendDone | .signalSendDone => True
  | .send .. | .push _ => False

private theorem Sending.internal (h : s.Sending bodies queue) (hawake : s.Awake queue) {event : SenderEvent}
    (hinternal : SenderEvent.Internal event) (hstep : s.step event = some s') :
    ∃ bodies' queue', s'.Sending bodies' queue' ∧ s'.Awake queue' ∧ s'.work < s.work := by
  cases event with
  | send | push => exact hinternal.elim
  | runTx =>
    rw [SerialSender.step] at hstep
    cases hrun : s.runTx <;> rw [hrun] at hstep <;> dsimp only at hstep
    case off =>
      split at hstep
      · obtain rfl := Option.some.inj hstep
        exact ⟨bodies, queue, h.runTxCheck hrun ‹_›⟩
      · cases hstep
    case checked =>
      obtain rfl := Option.some.inj hstep
      exact ⟨bodies, h.runTxCount hawake hrun⟩
    case counted =>
      obtain rfl := Option.some.inj hstep
      obtain ⟨bodies', h'⟩ := h.runTxGo hawake hrun
      exact ⟨bodies', queue, h'⟩
  | sendDone =>
    rw [SerialSender.step] at hstep
    split at hstep
    · obtain rfl := Option.some.inj hstep
      exact ⟨bodies, queue, h.sendDone ‹_›⟩
    · cases hstep
  | signalSendDone =>
    rw [SerialSender.step] at hstep
    split at hstep
    · obtain rfl := Option.some.inj hstep
      rename_i hwaits
      exact ⟨bodies, queue, h.signalSendDone hawake hwaits.2⟩
    · cases hstep

theorem Sending.step (h : s.Sending bodies queue) (hawake : s.Awake queue) {event : SenderEvent}
    (hstep : s.step event = some s') : ∃ bodies' queue', s'.Sending bodies' queue' ∧ s'.Awake queue' := by
  cases event with
  | send id dest msg len =>
    rw [SerialSender.step] at hstep
    split at hstep
    · obtain rfl := Option.some.inj hstep
      exact ⟨bodies, queue, h.send hawake id dest msg len⟩
    · cases hstep
  | push token =>
    obtain rfl := Option.some.inj hstep
    exact ⟨bodies, h.push hawake token⟩
  | runTx | sendDone | signalSendDone =>
    obtain ⟨bodies', queue', hnext, hawake', -⟩ := h.internal hawake (by exact trivial) hstep
    exact ⟨bodies', queue', hnext, hawake'⟩

/-! What is accepted changes with a send only. -/

private theorem ackQueuePush_accepted (token : UInt8) : (s.ackQueuePush token).accepted = s.accepted := by
  rw [ackQueuePush]
  split <;> rfl

private theorem runTxCheck_accepted : s.runTxCheck.accepted = s.accepted := by
  rw [runTxCheck]
  dsimp only
  split
  · split <;> rfl
  · rfl

private theorem ackQueuePop_accepted : s.ackQueuePop.accepted = s.accepted := by
  rw [ackQueuePop]
  split <;> rfl

private theorem runTxCount_accepted (idle done fail : Bool) : (s.runTxCount idle done fail).accepted = s.accepted := by
  rw [SerialSender.runTxCount]
  split
  · dsimp only
    split
    · exact ackQueuePop_accepted
    · rfl
  · rfl

private theorem runTxChoose_accepted : s.runTxChoose.2.accepted = s.accepted := by
  rw [runTxChoose]
  split
  · rfl
  · split <;> rfl

private theorem runTxStart_accepted : s.runTxStart.accepted = s.accepted := by
  rw [runTxStart]
  dsimp only
  split <;> rfl

private theorem runTxGo_accepted (idle : Bool) (result : ErrorT) (completed : Bool) :
    (s.runTxGo idle result completed).accepted = s.accepted := by
  let next := if idle then ({ s with runTx := .off } : SerialSender).runTxChoose else (false, { s with runTx := .off })
  have hnext : next.2.accepted = s.accepted := by
    cases idle with
    | true => exact runTxChoose_accepted
    | false => rfl
  let told := if completed then next.2.sendCompleted result else next.2
  have htold : told.accepted = s.accepted := by cases completed <;> exact hnext
  show (if told.txState = .inactive then told else if next.1 then told.runTxStart else told).accepted = s.accepted
  split
  · exact htold
  · split
    · exact runTxStart_accepted.trans htold
    · exact htold

theorem Sending.step_accepted (h : s.Sending bodies queue) {event : SenderEvent} (hstep : s.step event = some s') :
    s'.accepted = s.accepted ∨ ∃ id dest msg len, event = .send id dest msg len ∧ len ≤ maxPayloadLength ∧
      s'.accepted = s.accepted ++
        [TOS_SERIAL_ACTIVE_MESSAGE_ID :: (loaded s.dispatcher (addressed id dest msg len) len).rest] := by
  cases event with
  | send id dest msg len =>
    rw [SerialSender.step] at hstep
    split at hstep
    · obtain rfl := Option.some.inj hstep
      obtain hsame | ⟨-, hlen, heq⟩ := send_cases h id dest msg len
      · exact .inl (by rw [hsame])
      · exact .inr ⟨id, dest, msg, len, rfl, hlen, by rw [heq]⟩
    · cases hstep
  | push token =>
    obtain rfl := Option.some.inj hstep
    exact .inl (ackQueuePush_accepted token)
  | runTx =>
    rw [SerialSender.step] at hstep
    cases hrun : s.runTx <;> rw [hrun] at hstep <;> dsimp only at hstep
    case off =>
      split at hstep
      · obtain rfl := Option.some.inj hstep
        exact .inl runTxCheck_accepted
      · cases hstep
    case checked =>
      obtain rfl := Option.some.inj hstep
      exact .inl (runTxCount_accepted _ _ _)
    case counted =>
      obtain rfl := Option.some.inj hstep
      exact .inl (runTxGo_accepted _ _ _)
  | sendDone =>
    rw [SerialSender.step] at hstep
    split at hstep
    · obtain rfl := Option.some.inj hstep
      exact .inl (sendDone_spec h.phase h.busy ‹_›).2.2.accepted
    · cases hstep
  | signalSendDone =>
    rw [SerialSender.step] at hstep
    split at hstep
    · obtain rfl := Option.some.inj hstep
      exact .inl rfl
    · cases hstep

private theorem sending_started {tokens : List UInt8} (htokens : tokens.length = ACK_QUEUE_SIZE + 1)
    (ackBuf dataBuf txTemp sendIndex sendLen : UInt8) (sendBuffer : List UInt8) :
    (started ackBuf dataBuf txTemp sendIndex sendLen tokens sendBuffer).Sending [] [] ∧
      (started ackBuf dataBuf txTemp sendIndex sendLen tokens sendBuffer).Awake [] := by
  have hstill := still (s := started ackBuf dataBuf txTemp sendIndex sendLen tokens sendBuffer) rfl rfl
  refine ⟨⟨.start htokens, ⟨rfl, rfl⟩, iff_of_false nofun (fun h => h.1 rfl), trivial, ?_, ?_, rfl, nofun, nofun⟩, ?_⟩
  · exact .waiting (hstill _) rfl rfl
  · exact .none rfl rfl rfl (hstill _) rfl rfl
  · exact .inr ⟨nofun, fun _ => ⟨rfl, rfl⟩⟩

theorem sending_of_reachable {ok : SerialSender → SenderEvent → Prop} (h : serialSender.Reachable ok s) :
    ∃ bodies queue, s.Sending bodies queue ∧ s.Awake queue := by
  refine h.invariant (P := fun s => ∃ bodies queue, s.Sending bodies queue ∧ s.Awake queue) ?_ ?_
  · rintro s ⟨ackBuf, dataBuf, txTemp, sendIndex, sendLen, tokens, sendBuffer, htokens, rfl⟩
    exact ⟨[], [], sending_started htokens ackBuf dataBuf txTemp sendIndex sendLen sendBuffer⟩
  · rintro s event s' ⟨bodies, queue, hsending, hawake⟩ - hstep
    exact hsending.step hawake hstep

/-- The line holds whole frames, and a part of the one that is being sent. -/
def Line (s : SerialSender) (bodies : List (List UInt8)) : Prop :=
  s.uart.wire <+: bodies.flatMap frameOf ∧ ∃ whole, whole.flatMap frameOf <+: s.uart.wire ∧
    (bodies = whole ∨ s.txState ≠ .idle ∧ ∃ body, bodies = whole ++ [body] ∧ body.head? = some s.txProto)

theorem BetweenFrames.line (h : s.BetweenFrames bodies) : s.Line bodies :=
  ⟨by rw [h.2], bodies, by rw [h.2], .inl rfl⟩

theorem InFrame.line {body sent : List UInt8} (h : s.InFrame bodies body sent) (hsent : sent <+: sealed body)
    (hsending : s.txState ≠ .idle) : s.Line bodies := by
  obtain ⟨hhead, done, rfl, hline⟩ := h
  have hwire : s.uart.wire <+: s.uart.out := List.prefix_append _ _
  have hshort : s.uart.out.length ≤ s.uart.wire.length + 1 := by
    rw [Uart.out, List.length_append]
    split <;> simp
  rw [hline] at hwire hshort
  obtain ⟨rest, hrest⟩ := hsent
  refine ⟨hwire.trans ⟨hdlc.stuff rest ++ [SYNC_BYTE], ?_⟩, done, ?_, .inr ⟨hsending, body, rfl, hhead⟩⟩
  · rw [List.flatMap_append, List.flatMap_singleton, frameOf, ← hrest, frame, stuff_append]
    simp [hdlc]
  · refine List.prefix_of_prefix_length_le (List.prefix_append _ _) hwire ?_
    rw [List.length_append, List.length_cons] at hshort
    omega

theorem Phase.line (hphase : s.Phase bodies) : s.Line bodies := by
  rw [Phase] at hphase
  cases hstate : s.txState <;> rw [hstate] at hphase <;> dsimp only at hphase
  case' proto | info | fcs1 | fcs2 | endflag => have hsending : s.txState ≠ .idle := by rw [hstate]; decide
  case idle | endwait | finish => exact hphase.line
  case proto => exact hphase.2.2.line List.nil_prefix hsending
  case info =>
    obtain ⟨-, sent, -, hframe⟩ := hphase
    exact hframe.line ((List.prefix_append _ _).trans (List.prefix_append _ _)) hsending
  case fcs1 =>
    obtain ⟨body, -, hframe⟩ := hphase
    exact hframe.line (List.prefix_append _ _) hsending
  case fcs2 =>
    obtain ⟨body, -, hframe⟩ := hphase
    refine hframe.line ⟨[(crcPacket body >>> 8).toUInt8], ?_⟩ hsending
    rw [List.append_assoc]
    rfl
  case endflag =>
    obtain ⟨body, hframe⟩ := hphase
    exact hframe.line (List.prefix_refl _) hsending

theorem entries_ack {body : List UInt8} (hhead : body.head? = some SERIAL_PROTO_ACK) :
    entries P_PACKET_NO_ACK [body] = [] := by
  obtain ⟨rest, rfl⟩ := List.head?_eq_some_iff.mp hhead
  rfl

private theorem DataAt.signalled_le {sent : List (List UInt8)} (h : s.DataAt sent)
    (htold : s.signalled.length + s.dispatcher.sendState.toNat = s.accepted.length) :
    s.signalled.length ≤ sent.length := by
  cases h with
  | none hidden _ _ _ _ accepted =>
    rw [hidden, accepted] at htold
    exact htold.le
  | waiting sending _ _ _ _ _ accepted =>
    rw [sending, accepted, List.length_append] at htold
    exact (Nat.succ.inj htold).le
  | carried sending _ _ _ _ _ accepted | counted sending _ _ _ _ accepted | told sending _ _ _ _ _ accepted =>
    rw [sending, accepted] at htold
    exact (Nat.le_succ _).trans htold.le

private theorem Sending.signalled_sent (h : s.Sending bodies queue) {whole : List (List UInt8)}
    (hwhole : bodies = whole ∨ s.txState ≠ .idle ∧ ∃ body, bodies = whole ++ [body] ∧ body.head? = some s.txProto) :
    s.signalled.length ≤ (entries P_PACKET_NO_ACK whole).length := by
  rcases hwhole with rfl | ⟨hsending, body, rfl, hhead⟩
  · exact h.data.signalled_le h.told
  · cases hindex : s.txIndex with
    | ack =>
      cases h.acks with
      | waiting carries => exact absurd ⟨hindex, .inl hsending⟩ carries
      | carried _ _ _ _ proto =>
        have hnone := entries_ack (hhead.trans (congrArg some proto))
        have hdata := h.data
        rw [entries_append, hnone, List.append_nil] at hdata
        exact hdata.signalled_le h.told
    | data =>
      cases h.data with
      | none _ _ _ carries | waiting _ _ _ carries | counted _ _ _ carries | told _ _ _ carries =>
        exact absurd ⟨hindex, .inl hsending⟩ carries
      | carried sending _ _ _ _ _ accepted =>
        have hlast := Port.entries_length P_PACKET_NO_ACK [body]
        have htold := h.told
        have hone : true.toNat = 1 := rfl
        rw [sending, accepted, entries_append, List.length_append] at htold
        rw [List.length_singleton] at hlast
        omega

private theorem Sending.pushed_begins (h : s.Sending bodies queue) : entries P_ACK bodies <+: tokens s.pushed := by
  cases h.acks with
  | waiting _ _ pushed | carried _ _ _ _ _ _ pushed =>
    rw [pushed]
    exact List.prefix_append _ _

theorem Sending.accepted_begins (h : s.Sending bodies queue) : entries P_PACKET_NO_ACK bodies <+: s.accepted := by
  cases h.data with
  | waiting _ _ _ _ _ _ accepted =>
    rw [accepted]
    exact List.prefix_append _ _
  | none _ _ _ _ _ accepted | carried _ _ _ _ _ _ accepted | counted _ _ _ _ _ accepted
  | told _ _ _ _ _ _ accepted => rw [accepted]

/-- In every state reached, the bytes that the UART was given are the frames of the tokens and the messages, each in
their order and none twice, the last frame in part; and what was signalled is a message that is out. -/
theorem sent_in_order (h : serialSender.Reachable (fun _ _ => True) s) : ∃ bodies whole,
    (∀ body ∈ bodies, Sendable body) ∧ whole <+: bodies ∧ whole.flatMap frameOf <+: s.uart.wire ∧
      s.uart.wire <+: bodies.flatMap frameOf ∧
      entries P_ACK bodies <+: tokens s.pushed ∧ entries P_PACKET_NO_ACK bodies <+: s.accepted ∧
      (∀ e ∈ s.signalled, e = .success) ∧ s.signalled.length ≤ (entries P_PACKET_NO_ACK whole).length ∧
      s.accepted.length ≤ s.signalled.length + 1 := by
  obtain ⟨bodies, queue, hsending, -⟩ := sending_of_reachable h
  obtain ⟨hwire, whole, hfront, hwhole⟩ := hsending.phase.line
  refine ⟨bodies, whole, hsending.sendable, ?_, hfront, hwire, hsending.pushed_begins, hsending.accepted_begins,
    hsending.success, hsending.signalled_sent hwhole, ?_⟩
  · rcases hwhole with rfl | ⟨-, body, rfl, -⟩
    · exact List.prefix_refl _
    · exact List.prefix_append _ _
  · rw [← hsending.told]
    exact Nat.add_le_add_left (Bool.toNat_le _) _

def sampleMessage : SensorMsg :=
  calcMsgCrc ⟨1, 0, ⟨3, 4⟩, ⟨5, 6, 7, 8, 9, 10, 0x7e7d⟩, 0⟩

def sampleMessageT : MessageT :=
  ⟨List.replicate 12 0 ++ sampleMessage.bytes ++ List.replicate 28 0, by decide⟩

def portStarted : SerialSender :=
  started 0 0 0 0 0 (List.replicate 6 0) (List.replicate 64 0)

theorem portStarted_init : serialSender.init portStarted :=
  ⟨0, 0, 0, 0, 0, List.replicate 6 0, List.replicate 64 0, rfl, rfl⟩

def bothGiven : SerialSender :=
  (serialSender.replay portStarted [.send 43 0xffff sampleMessageT 24, .push 38]).getD portStarted

/-- The task, six bytes, the task, and the front of the second frame. -/
def bothHalfway : List SenderEvent :=
  List.replicate 3 .runTx ++ List.replicate 6 .sendDone ++ List.replicate 3 .runTx ++ List.replicate 20 .sendDone

def halfway : SerialSender :=
  (serialSender.replay bothGiven bothHalfway).getD bothGiven

def bothLeft : List SenderEvent :=
  bothHalfway ++ List.replicate 19 .sendDone ++ List.replicate 3 .runTx ++ [.signalSendDone]

def bothOut : SerialSender :=
  (serialSender.replay bothGiven bothLeft).getD bothGiven

/-- What these runs come to. -/
theorem both_replayed :
    (serialSender.replay portStarted [.send 43 0xffff sampleMessageT 24, .push 38]).isSome ∧
      (serialSender.replay bothGiven bothHalfway).isSome ∧ (serialSender.replay bothGiven bothLeft).isSome ∧
      tokens halfway.pushed = [[38]] ∧ tokens bothOut.pushed = [[38]] ∧ bothOut.accepted.length = 1 ∧
      ∀ event ∈ [SenderEvent.runTx, .sendDone, .signalSendDone], bothOut.step event = none := by
  refine ⟨?_, ?_, ?_, ?_, ?_, ?_, ?_⟩ <;> decide +kernel

theorem bothGiven_reachable : serialSender.Reachable (fun _ _ => True) bothGiven :=
  .of_replay portStarted_init [.send 43 0xffff sampleMessageT 24, .push 38]
    (Transition.replay_getD both_replayed.1 portStarted)

private theorem halfway_run : serialSender.Run bothGiven (serialSender.trail bothGiven bothHalfway) halfway :=
  Transition.run_of_replay bothHalfway (Transition.replay_getD both_replayed.2.1 bothGiven)

private theorem halfway_reachable : serialSender.Reachable (fun _ _ => True) halfway :=
  bothGiven_reachable.run halfway_run fun _ _ => trivial

theorem sent_in_order_halfway : ∃ bodies, entries P_ACK bodies <+: [[38]] ∧
    halfway.uart.wire <+: bodies.flatMap frameOf := by
  obtain ⟨bodies, whole, -, -, -, hwire, hpushed, -⟩ := sent_in_order halfway_reachable
  obtain ⟨-, -, -, htokens, -⟩ := both_replayed
  exact ⟨bodies, htokens ▸ hpushed, hwire⟩

theorem Sending.run (h : s.Sending bodies queue) (hawake : s.Awake queue) {tr : List (SerialSender × SenderEvent)}
    (hrun : serialSender.Run s tr s') (hinternal : ∀ p ∈ tr, SenderEvent.Internal p.2) :
    ∃ bodies' queue', s'.Sending bodies' queue' ∧ s'.Awake queue' ∧ tr.length + s'.work ≤ s.work := by
  induction hrun with
  | start => exact ⟨bodies, queue, h, hawake, (Nat.zero_add _).le⟩
  | next _ hlast ih =>
    obtain ⟨bodies', queue', hmid, hawake', hwork⟩ := ih fun p hp => hinternal p (List.mem_append_left _ hp)
    obtain ⟨bodies'', queue'', hnext, hawake'', hless⟩ := hmid.internal hawake'
      (hinternal _ (List.mem_append_right _ (List.mem_singleton_self _))) hlast
    refine ⟨bodies'', queue'', hnext, hawake'', ?_⟩
    rw [List.length_append, List.length_singleton]
    omega

private theorem InBlock.rest_le {d : Dispatcher} (h : d.InBlock) : d.rest.length ≤ 52 := by
  rw [h.rest_length]
  exact (Nat.sub_le _ _).trans h.len_le

private theorem Filling.frameWork_le (h : s.Filling) : s.frameWork ≤ 117 := by
  have hinfo : s.info.length ≤ 53 := by
    cases hindex : s.txIndex with
    | ack =>
      rw [info_ack hindex]
      exact Nat.le_add_left 1 52
    | data =>
      rw [info_data hindex]
      exact Nat.succ_le_succ (InBlock.rest_le (h.2 hindex).2)
  rw [frameWork]
  split <;> omega

private theorem Sending.work_le (h : s.Sending bodies queue) : s.work ≤ 312 := by
  have htask : s.taskWork ≤ 3 := by
    rw [taskWork]
    split <;> omega
  have hkept := s.uart.kept_le
  have hframe : s.frameWork ≤ 117 := by
    have hphase := h.phase
    rw [Phase] at hphase
    cases hstate : s.txState <;> rw [hstate] at hphase <;> dsimp only at hphase
    case proto | info => exact hphase.1.frameWork_le
    all_goals simp [frameWork, hstate]
  have hleft : s.runTx.left ≤ 2 := by cases s.runTx <;> simp [RunTx.left]
  have htokens : s.tokensWork ≤ 70 := by
    have hroom : queue.length ≤ 5 := h.ring.room
    rw [tokensWork, h.ring.count_eq]
    omega
  have hmessage : s.messageWork ≤ 119 := by
    have hone : (if s.dispatcher.sendState then 1 else 0) ≤ 1 := by split <;> omega
    rw [messageWork]
    by_cases hwaiting : s.Waiting
    · rw [if_pos hwaiting]
      cases h.data with
      | waiting _ _ _ _ _ block =>
        have hrest := InBlock.rest_le block
        omega
      | carried _ _ _ carries => exact absurd carries hwaiting.2
      | none _ _ _ _ available | counted _ _ _ _ available | told _ _ _ _ available =>
        exact absurd (hwaiting.1.symm.trans available) (by decide)
    · rw [if_neg hwaiting]
      omega
  rw [work, lineWork]
  omega

/-- Nothing of this can be done. -/
def Drained (s : SerialSender) : Prop :=
  ∀ event, SenderEvent.Internal event → s.step event = none

/-- Where the task, the UART and the dispatcher have nothing left to do, everything is out and signalled. -/
theorem Sending.drained (h : s.Sending bodies queue) (hawake : s.Awake queue) (hnone : s.Drained) :
    s.uart.wire = bodies.flatMap frameOf ∧ entries P_ACK bodies = tokens s.pushed ∧
      entries P_PACKET_NO_ACK bodies = s.accepted ∧ s.signalled = List.replicate s.accepted.length .success := by
  have htask := hnone .runTx trivial
  have hoff : s.runTx = .off := by
    cases hrun : s.runTx with
    | off => rfl
    | checked | counted => simp [SerialSender.step, hrun] at htask
  have hpending : s.txPending = false := by simpa [SerialSender.step, hoff] using htask
  have hfree : s.uart.busy = false := by simpa [SerialSender.step] using hnone .sendDone trivial
  have hposted : s.dispatcher.posted = false := by
    simpa [SerialSender.step, hoff] using hnone .signalSendDone trivial
  rw [Awake, hpending, hoff] at hawake
  obtain hawake | ⟨hfinish, hrest⟩ := hawake
  · exact absurd hawake Bool.false_ne_true
  · have hidle : s.txState = .idle := by
      by_contra hidle
      exact Bool.false_ne_true (hfree.symm.trans (h.busy.mpr ⟨hidle, hfinish⟩))
    obtain ⟨rfl, hempty⟩ := hrest hidle
    have hphase := h.phase
    rw [Phase, hidle] at hphase
    have hdone : s.runTx.done = false := by rw [hoff]; rfl
    have htold := h.told
    refine ⟨hphase.2, ?_, ?_⟩
    · cases h.acks with
      | waiting _ _ pushed => rw [pushed]; exact (List.append_nil _).symm
      | carried _ _ _ carries => exact absurd carries (still hidle hdone _)
    · cases h.data with
      | none hidden _ _ _ _ accepted =>
        refine ⟨accepted.symm, ?_⟩
        rw [hidden] at htold
        exact List.eq_replicate_iff.mpr ⟨htold, h.success⟩
      | waiting _ _ _ _ filling => rw [hempty] at filling; cases filling
      | carried _ _ _ carries => exact absurd carries (still hidle hdone _)
      | counted _ _ completed => rw [hoff] at completed; cases completed
      | told _ posted => rw [hposted] at posted; cases posted

/-- From every state reached, what the mote does by itself comes to an end after 312 steps at most, and then all that
was accepted and pushed is out, in whole frames and in its order, and signalled. -/
theorem comes_to_rest {tr : List (SerialSender × SenderEvent)} (h : serialSender.Reachable (fun _ _ => True) s)
    (hrun : serialSender.Run s tr s') (hinternal : ∀ p ∈ tr, SenderEvent.Internal p.2) :
    tr.length ≤ 312 ∧ (s'.Drained → ∃ bodies, s'.uart.wire = bodies.flatMap frameOf ∧
      entries P_ACK bodies = tokens s'.pushed ∧ entries P_PACKET_NO_ACK bodies = s'.accepted ∧
      s'.signalled = List.replicate s'.accepted.length .success) := by
  obtain ⟨bodies, queue, hsending, hawake⟩ := sending_of_reachable h
  obtain ⟨bodies', queue', hsending', hawake', hwork⟩ := hsending.run hawake hrun hinternal
  refine ⟨?_, fun hnone => ⟨bodies', hsending'.drained hawake' hnone⟩⟩
  exact (Nat.le_add_right _ _).trans (hwork.trans hsending.work_le)

theorem bothOut_run : serialSender.Run bothGiven (serialSender.trail bothGiven bothLeft) bothOut :=
  Transition.run_of_replay bothLeft (Transition.replay_getD both_replayed.2.2.1 bothGiven)

theorem bothOut_drained : bothOut.Drained := by
  obtain ⟨-, -, -, -, -, -, hnone⟩ := both_replayed
  intro event hinternal
  cases event with
  | send | push => exact hinternal.elim
  | runTx | sendDone | signalSendDone => exact hnone _ (by simp)

theorem bothLeft_internal : ∀ event ∈ bothLeft, SenderEvent.Internal event := by
  intro event hevent
  cases event with
  | runTx | sendDone | signalSendDone => trivial
  | send | push => simp [bothLeft, bothHalfway] at hevent

theorem comes_to_rest_both : ∃ bodies, bothOut.uart.wire = bodies.flatMap frameOf ∧ entries P_ACK bodies = [[38]] ∧
    bothOut.signalled = [.success] := by
  obtain ⟨-, hdrained⟩ := comes_to_rest bothGiven_reachable bothOut_run
    fun p hp => bothLeft_internal p.2 (Transition.mem_trail hp)
  obtain ⟨bodies, hwire, hpushed, -, hsignalled⟩ := hdrained bothOut_drained
  obtain ⟨-, -, -, -, htokens, haccepted, -⟩ := both_replayed
  exact ⟨bodies, hwire, hpushed.trans htokens, by rw [hsignalled, haccepted]; rfl⟩

end SerialSender
end TinyosGraphics.Motes
