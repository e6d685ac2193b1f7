import TinyosGraphics.Serial.Packets

/-! What a program gets that reads and writes packets through one source, over any sequence of calls. -/
namespace TinyosGraphics.Serial
open Lib Stuffing

/-- The longest packet that gets through is four bytes and a flag shorter than the receiver's block. -/
def Fits (body : List UInt8) : Prop :=
  body.length + 2 < MTU

instance (body : List UInt8) : Decidable (Fits body) :=
  inferInstanceAs (Decidable (body.length + 2 < MTU))

private theorem filterMap_opened_filter (cs : List (List UInt8)) :
    (cs.filter (· ≠ [])).filterMap opened = cs.filterMap opened := by
  induction cs with
  | nil => rfl
  | cons c cs ih =>
    by_cases hc : c = []
    · subst hc
      simpa [opened] using ih
    · have hkeep : (c :: cs).filter (· ≠ []) = c :: cs.filter (· ≠ []) := List.filter_cons_of_pos (by simpa using hc)
      rw [hkeep, List.filterMap_cons, List.filterMap_cons, ih]

private theorem frames_eq (out : List (List UInt8)) : out.flatMap frameOf = (out.map sealed).flatMap hdlc.frame := by
  rw [List.flatMap_map]
  rfl

private theorem opened_fitting {out : List (List UInt8)} (hout : ∀ body ∈ out, 2 ≤ body.length) :
    (fitting MTU (out.map sealed)).filterMap opened = out.filter (Fits ·) := by
  induction out with
  | nil => rfl
  | cons body out ih =>
    have hbody := hout body List.mem_cons_self
    have hne : sealed body ≠ [] := by simp [sealed, crcBytes]
    have hlen : (sealed body).length < MTU ↔ Fits body := by rw [sealed_length, Fits]
    have hrest := ih fun b hb => hout b (List.mem_cons_of_mem _ hb)
    rw [fitting] at hrest ⊢
    rw [List.map_cons]
    by_cases hfits : Fits body
    · rw [List.filter_cons_of_pos (by simpa [hlen] using ⟨hne, hfits⟩), List.filter_cons_of_pos (by simpa using hfits),
        List.filterMap_cons, opened_sealed hbody, hrest]
    · rw [List.filter_cons_of_neg (by simp [hlen, hfits]), List.filter_cons_of_neg (by simpa using hfits), hrest]

/-- Where nothing is held back, exactly the bodies that fit are found. -/
theorem bodies_frames {r : Receiver UInt8} (hr : r.Settled) {out : List (List UInt8)}
    (hout : ∀ body ∈ out, 2 ≤ body.length) : bodies r (out.flatMap frameOf) = out.filter (Fits ·) := by
  have hmtu : 0 < MTU := by decide
  obtain ⟨-, hcontents⟩ := feedAll_frames (C := hdlc) hmtu hr (out.map sealed)
  rw [bodies, frames_eq, ← filterMap_opened_filter, hcontents, opened_fitting hout]

/-- A part of the line holds a part of the bodies. -/
theorem bodies_begins (r : Receiver UInt8) {bs line : List UInt8} (h : bs <+: line) :
    bodies r bs <+: bodies r line := by
  obtain ⟨rest, rfl⟩ := h
  rw [bodies_append]
  exact List.prefix_append _ _

private theorem bodies_resync (r : Receiver UInt8) (noise : List UInt8) {out : List (List UInt8)}
    (hout : ∀ body ∈ out, 2 ≤ body.length) :
    bodies r (noise ++ [SYNC_BYTE] ++ out.flatMap frameOf) =
      bodies r (noise ++ [SYNC_BYTE]) ++ out.filter (Fits ·) := by
  have hsettled : (hdlc.feedAll MTU r (noise ++ [SYNC_BYTE])).1.Settled := settled_of_flag (C := hdlc) r noise
  rw [bodies_append, bodies_frames hsettled hout]

inductive Call
  | read
  | write (packet : List UInt8)
  deriving DecidableEq

/-- The bodies of the packets that a program writes, numbered from the last number on. -/
def dataBodies : UInt8 → List (List UInt8) → List (List UInt8)
  | _, [] => []
  | seqno, packet :: packets => (P_PACKET_ACK :: (seqno + 1) :: packet) :: dataBodies (seqno + 1) packets

/-- A body that acknowledges. -/
def IsAck (body : List UInt8) : Prop :=
  body.getD 0 0 = P_ACK

instance (body : List UInt8) : Decidable (IsAck body) :=
  inferInstanceAs (Decidable (body.getD 0 0 = P_ACK))

private theorem isAck_acks {bodies : List (List UInt8)} : ∀ body ∈ acks bodies, IsAck body := by
  intro body hbody
  obtain ⟨a, -, ha⟩ := List.mem_filterMap.mp hbody
  split at ha
  · obtain rfl := Option.some.inj ha
    rfl
  · cases ha

private theorem filter_isAck_acks (bodies : List (List UInt8)) :
    (acks bodies).filter (IsAck ·) = acks bodies ∧ (acks bodies).filter (¬ IsAck ·) = [] := by
  constructor
  · exact List.filter_eq_self.mpr fun body hbody => by simpa using isAck_acks body hbody
  · exact List.filter_eq_nil_iff.mpr fun body hbody => by simpa using isAck_acks body hbody

namespace Port

def call (p : Port) : Call → List (List UInt8) × Port
  | .read => (p.readSerialPacket.1.toList, p.readSerialPacket.2)
  | .write packet => ([], (p.writeSerialPacket packet).2)

/-- The packets handed out by a sequence of calls. -/
def calls : Port → List Call → List (List UInt8) × Port
  | p, [] => ([], p)
  | p, c :: cs =>
    let first := p.call c
    let rest := calls first.2 cs
    (first.1 ++ rest.1, rest.2)

/-- A source that has looked at some bytes, handed out entries, `took type` of the queue for a type, and sent some
packets. Whatever else it sent are the acknowledgements it owed for what it looked at. -/
structure Moves (p p' : Port) (bs : List UInt8) (took : UInt8 → List (List UInt8)) (data : List (List UInt8)) :
    Prop where
  incoming : p.incoming = bs ++ p'.incoming
  receiver : p'.receiver = (hdlc.feedAll MTU p.receiver bs).1
  queue : ∀ type, p.queue type ++ entries type (bodies p.receiver bs) = took type ++ p'.queue type
  sent : Transfer.Sound p.writes → Transfer.Sound p'.writes ∧ ∃ out : List (List UInt8),
    p'.sent = p.sent ++ out.flatMap frameOf ∧
      out.filter (IsAck ·) = acks (bodies p.receiver bs) ∧ out.filter (¬ IsAck ·) = data

def only (type : UInt8) (took : List (List UInt8)) : UInt8 → List (List UInt8) :=
  fun type' => if type' = type then took else []

private theorem only_nil (type : UInt8) : only type [] = fun _ => [] := by
  funext type'
  simp [only]

private theorem only_append (type : UInt8) (took took' : List (List UInt8)) :
    (fun type' => only type took type' ++ only type took' type') = only type (took ++ took') := by
  funext type'
  unfold only
  split <;> simp

theorem Absorbs.moves {p q : Port} {bs : List UInt8} (h : Absorbs p q bs) (hincoming : p.incoming = bs ++ q.incoming) :
    Moves p q bs (fun _ => []) [] where
  incoming := hincoming
  receiver := h.receiver
  queue type := (h.queue type).symm
  sent hw := by
    obtain ⟨hw', hsent⟩ := h.sent hw
    obtain ⟨hacks, hdata⟩ := filter_isAck_acks (bodies p.receiver bs)
    exact ⟨hw', _, hsent, hacks, hdata⟩

theorem Moves.trans {p p' p'' : Port} {bs bs' : List UInt8} {took took' : UInt8 → List (List UInt8)}
    {data data' : List (List UInt8)} (h : Moves p p' bs took data) (h' : Moves p' p'' bs' took' data') :
    Moves p p'' (bs ++ bs') (fun type => took type ++ took' type) (data ++ data') where
  incoming := by rw [h.incoming, h'.incoming, List.append_assoc]
  receiver := by rw [h'.receiver, h.receiver, feedAll_append]
  queue type := by
    have hfirst := h.queue type
    have hsecond := h'.queue type
    rw [h.receiver] at hsecond
    rw [bodies_append, entries_append, ← List.append_assoc, hfirst, List.append_assoc, hsecond, List.append_assoc]
  sent hw := by
    obtain ⟨hw', out, hsent, hacks, hdata⟩ := h.sent hw
    obtain ⟨hw'', out', hsent', hacks', hdata'⟩ := h'.sent hw'
    refine ⟨hw'', out ++ out', ?_, ?_, ?_⟩
    · rw [hsent', hsent, List.flatMap_append, List.append_assoc]
    · rw [List.filter_append, hacks, hacks', h.receiver, bodies_append, acks_append]
    · rw [List.filter_append, hdata, hdata']

/-- Nothing was looked at, and nothing sent. -/
theorem moves_nil {p p' : Port} {took : UInt8 → List (List UInt8)} (hincoming : p'.incoming = p.incoming)
    (hreceiver : p'.receiver = p.receiver) (hqueue : ∀ type, p.queue type = took type ++ p'.queue type)
    (hwrites : p'.writes = p.writes) (hsent : p'.sent = p.sent) : Moves p p' [] took [] where
  incoming := hincoming.symm
  receiver := hreceiver
  queue type := by simpa [bodies, feedAll, entries] using hqueue type
  sent hw := ⟨hwrites ▸ hw, [], by simp [hsent], by simp [bodies, feedAll, acks], rfl⟩

theorem Pops.moves {type : UInt8} {p p' : Port} {entry : List UInt8} (h : Pops type p p' entry) :
    Moves p p' [] (only type [entry]) [] := by
  refine moves_nil h.incoming h.receiver (fun type' => ?_) h.writes h.sent
  by_cases htype : type' = type
  · subst htype
    simp [only, h.queue]
  · simp [only, htype, h.others type' htype]

theorem Waits.moves {p p' : Port} (h : Waits p p') : Moves p p' [] (fun _ => []) [] :=
  moves_nil h.incoming h.receiver (fun type => by simp [h.queue]) h.writes h.sent

theorem readSerialPacket_moves (p : Port) : ∃ bs,
    Moves p p.readSerialPacket.2 bs (only P_PACKET_NO_ACK p.readSerialPacket.1.toList) [] ∧
      p.readSerialPacket.2.seqno = p.seqno ∧
      (p.readSerialPacket.1 = none → p.readSerialPacket.2.buffer = [] ∧
        p.readSerialPacket.2.queue P_PACKET_NO_ACK = []) := by
  obtain ⟨bs, hincoming, q, habsorbs, ⟨hnone, hsame, hbuffer, hqueue⟩ | ⟨packet, hsome, hpops⟩⟩ :=
    p.readSerialPacket_spec
  · subst hsame
    refine ⟨bs, ?_, habsorbs.seqno, fun _ => ⟨hbuffer, hqueue⟩⟩
    rw [hnone, Option.toList_none, only_nil]
    exact habsorbs.moves hincoming
  · have hmoves := (habsorbs.moves (by rw [hincoming, hpops.incoming])).trans hpops.moves
    rw [hsome]
    exact ⟨bs, by simpa using hmoves, by rw [hpops.seqno, habsorbs.seqno], by simp⟩

/-- A turn of the wait takes one acknowledgement or none, and succeeds with the one that has the number. -/
theorem ackTurn_moves (p : Port) : ∃ bs taken, Moves p p.ackTurn.2 bs (only P_ACK taken) [] ∧
    p.ackTurn.2.seqno = p.seqno ∧
      ((taken = [] ∧ p.ackTurn.1 ≠ some 0) ∨
        ∃ ack, taken = [ack] ∧ p.ackTurn.1 = if ack.getD 0 0 = p.seqno then some 0 else none) := by
  obtain ⟨bs, hincoming, q, habsorbs, ⟨hempty, hwaits, hret⟩ | ⟨ack, hpops, hret⟩⟩ := p.ackTurn_spec
  · have hmoves := (habsorbs.moves (by rw [hincoming, hwaits.incoming])).trans hwaits.moves
    refine ⟨bs, [], ?_, by rw [hwaits.seqno, habsorbs.seqno], .inl ⟨rfl, hret⟩⟩
    rw [only_nil]
    simpa using hmoves
  · have hmoves := (habsorbs.moves (by rw [hincoming, hpops.incoming])).trans hpops.moves
    refine ⟨bs, [ack], by simpa using hmoves, by rw [hpops.seqno, habsorbs.seqno], .inr ⟨ack, rfl, ?_⟩⟩
    rw [hret, habsorbs.seqno]

/-- What a wait for an acknowledgement takes: everything up to the one with the number, where that is there. -/
private theorem ackLoop_moves (p : Port) : ∃ bs taken, Moves p p.ackLoop.2 bs (only P_ACK taken) [] ∧
    p.ackLoop.2.seqno = p.seqno := by
  fun_induction ackLoop p with
  | case1 p ret h =>
    obtain ⟨bs, taken, hmoves, hseqno, -⟩ := p.ackTurn_moves
    exact ⟨bs, taken, hmoves, hseqno⟩
  | case2 p h ih =>
    obtain ⟨bs, taken, hmoves, hseqno, -⟩ := p.ackTurn_moves
    obtain ⟨bs', taken', hmoves', hseqno'⟩ := ih
    have hall := hmoves.trans hmoves'
    rw [only_append] at hall
    exact ⟨bs ++ bs', taken ++ taken', hall, hseqno'.trans hseqno⟩

/-- The packet goes out under the next number. -/
theorem sendPacket_moves (p : Port) (packet : List UInt8) :
    (Transfer.Sound p.writes → (p.sendPacket packet).1 = true) ∧
      Moves p (p.sendPacket packet).2 [] (fun _ => []) [P_PACKET_ACK :: (p.seqno + 1) :: packet] ∧
      (p.sendPacket packet).2.seqno = p.seqno + 1 := by
  have hframe : framedPacket P_PACKET_ACK (p.seqno + 1) packet = frameOf (P_PACKET_ACK :: (p.seqno + 1) :: packet) :=
    framedPacket_eq _ _ _
  obtain ⟨hreceiver, hqueue, hseqno, -⟩ := ({ p with seqno := p.seqno + 1 } : Port).sourceWrite_keeps
    (framedPacket P_PACKET_ACK (p.seqno + 1) packet)
  refine ⟨fun hw => (sourceWrite_sound (p := { p with seqno := p.seqno + 1 }) hw _).1, ⟨?_, ?_, ?_, ?_⟩, ?_⟩
  · exact (writeFramedPacket_incoming { p with seqno := p.seqno + 1 } _ _ _).symm
  · exact hreceiver
  · intro type
    have hsame : (p.sendPacket packet).2.queue = p.queue := hqueue
    simp [hsame, bodies, feedAll, entries]
  · intro hw
    obtain ⟨-, hw', hsent⟩ := sourceWrite_sound (p := { p with seqno := p.seqno + 1 }) hw
      (framedPacket P_PACKET_ACK (p.seqno + 1) packet)
    refine ⟨hw', [P_PACKET_ACK :: (p.seqno + 1) :: packet], ?_, rfl, rfl⟩
    rw [List.flatMap_singleton, ← hframe]
    exact hsent
  · exact hseqno

/-- A packet that was sent is acknowledged or not; only one that could not be sent gives less than 0. -/
private theorem ackLoop_nonneg (p : Port) : 0 ≤ p.ackLoop.1 := by
  fun_induction ackLoop p with
  | case1 p ret hret =>
    unfold ackTurn at hret
    dsimp only at hret
    split at hret
    · split at hret <;> simp at hret
      omega
    · split at hret <;> simp at hret
      omega
  | case2 p hnone ih => exact ih

theorem writeSerialPacket_nonneg {p : Port} (h : Transfer.Sound p.writes) (packet : List UInt8) :
    0 ≤ (p.writeSerialPacket packet).1 := by
  have hsent := (p.sendPacket_moves packet).1 h
  rw [writeSerialPacket]
  simp only [hsent, if_true]
  exact ackLoop_nonneg _

/-- The packets that are written. -/
def writesOf (cs : List Call) : List (List UInt8) :=
  cs.filterMap fun
    | .read => none
    | .write packet => some packet

theorem writesOf_append (cs cs' : List Call) : writesOf (cs ++ cs') = writesOf cs ++ writesOf cs' :=
  List.filterMap_append

private theorem call_moves (p : Port) (c : Call) :
    ∃ bs took, Moves p (p.call c).2 bs took (dataBodies p.seqno (writesOf [c])) ∧
    took P_PACKET_NO_ACK = (p.call c).1 ∧ (p.call c).2.seqno = p.seqno + UInt8.ofNat (writesOf [c]).length := by
  cases c with
  | read =>
    obtain ⟨bs, hmoves, hseqno, -⟩ := p.readSerialPacket_moves
    exact ⟨bs, _, hmoves, by simp [only, call], by simpa [call, writesOf] using hseqno⟩
  | write packet =>
    obtain ⟨-, hmoves, hseqno⟩ := p.sendPacket_moves packet
    by_cases hsent : (p.sendPacket packet).1 = true
    · obtain ⟨bs, taken, hmoves', hseqno'⟩ := (p.sendPacket packet).2.ackLoop_moves
      have hcall : (p.call (.write packet)).2 = (p.sendPacket packet).2.ackLoop.2 := by
        simp only [call, writeSerialPacket, hsent, if_true]
      rw [hcall]
      exact ⟨bs, _, by simpa [writesOf, dataBodies] using hmoves.trans hmoves', rfl, by rw [hseqno', hseqno]; rfl⟩
    · have hcall : (p.call (.write packet)).2 = (p.sendPacket packet).2 := by
        simp [call, writeSerialPacket, hsent]
      rw [hcall]
      exact ⟨[], _, by simpa [writesOf, dataBodies] using hmoves, rfl, by rw [hseqno]; rfl⟩

/-- One call more. -/
theorem calls_concat (p : Port) (cs : List Call) (c : Call) :
    p.calls (cs ++ [c]) = ((p.calls cs).1 ++ ((p.calls cs).2.call c).1, ((p.calls cs).2.call c).2) := by
  induction cs generalizing p with
  | nil => simp [calls]
  | cons first cs ih => simp [calls, ih]

theorem dataBodies_append (seqno : UInt8) (packets packets' : List (List UInt8)) :
    dataBodies seqno (packets ++ packets') =
      dataBodies seqno packets ++ dataBodies (seqno + UInt8.ofNat packets.length) packets' := by
  induction packets generalizing seqno with
  | nil => simp [dataBodies]
  | cons packet packets ih =>
    have hseqno : seqno + UInt8.ofNat (packets.length + 1) = seqno + 1 + UInt8.ofNat packets.length := by
      rw [UInt8.ofNat_add, UInt8.add_comm (UInt8.ofNat packets.length), UInt8.add_assoc]
      rfl
    rw [List.cons_append, dataBodies, ih, List.length_cons, hseqno]
    rfl

/-- Whatever a program does with a source: every packet that comes in is handed out once, in the order of the line, or
waits in the queue; and what goes out are its own packets, numbered in order, and the acknowledgements it owes. -/
theorem calls_moves (p : Port) (cs : List Call) : ∃ bs took,
    Moves p (p.calls cs).2 bs took (dataBodies p.seqno (writesOf cs)) ∧ took P_PACKET_NO_ACK = (p.calls cs).1 ∧
      (p.calls cs).2.seqno = p.seqno + UInt8.ofNat (writesOf cs).length := by
  induction cs generalizing p with
  | nil => exact ⟨[], fun _ => [], moves_nil rfl rfl (fun _ => rfl) rfl rfl, rfl, by simp [calls, writesOf]⟩
  | cons c cs ih =>
    obtain ⟨bs, took, hmoves, htook, hseqno⟩ := p.call_moves c
    obtain ⟨bs', took', hmoves', htook', hseqno'⟩ := ih (p.call c).2
    have hwrites : writesOf (c :: cs) = writesOf [c] ++ writesOf cs := writesOf_append [c] cs
    have hall := hmoves.trans hmoves'
    rw [hseqno, ← dataBodies_append, ← hwrites] at hall
    refine ⟨bs ++ bs', _, hall, by simp only [htook, htook']; rfl, ?_⟩
    rw [calls, hseqno', hseqno, hwrites, List.length_append, UInt8.ofNat_add, UInt8.add_assoc]

/-- Over any calls, and however the device cuts its bytes into reads: the packets that were handed out and those that
wait are those of the good frames among the bytes that were looked at; and as long as the device takes what is written,
it was sent the program's packets under successive numbers and one acknowledgement for each packet that asked for it. -/
theorem delivery (device : Device) (cs : List Call) : ∃ bs,
    device.reads.flatMap ReadAnswer.bytes = bs ++ ((openSerialSource device).calls cs).2.incoming ∧
      ((openSerialSource device).calls cs).1 ++ ((openSerialSource device).calls cs).2.queue P_PACKET_NO_ACK =
        entries P_PACKET_NO_ACK (bodies .lost bs) ∧
      (Transfer.Sound device.writes → ∃ out : List (List UInt8),
        ((openSerialSource device).calls cs).2.sent = device.sent ++ out.flatMap frameOf ∧
          out.filter (IsAck ·) = acks (bodies .lost bs) ∧ out.filter (¬ IsAck ·) = dataBodies 37 (writesOf cs)) := by
  obtain ⟨bs, took, hmoves, htook, -⟩ := (openSerialSource device).calls_moves cs
  have hqueue := hmoves.queue P_PACKET_NO_ACK
  rw [htook] at hqueue
  exact ⟨bs, hmoves.incoming, hqueue.symm, fun hw => (hmoves.sent hw).2⟩

/-- Whatever a source was in the middle of, and whatever noise comes first: of what is framed after a flag, all that
fits is handed out in order, once everything has come in. -/
theorem resync_delivery (p : Port) (cs : List Call) (noise : List UInt8) (out : List (List UInt8))
    (hout : ∀ body ∈ out, 2 ≤ body.length)
    (hincoming : p.incoming = noise ++ [SYNC_BYTE] ++ out.flatMap frameOf) (hall : (p.calls cs).2.incoming = []) :
    (p.calls cs).1 ++ (p.calls cs).2.queue P_PACKET_NO_ACK =
      p.queue P_PACKET_NO_ACK ++ entries P_PACKET_NO_ACK (bodies p.receiver (noise ++ [SYNC_BYTE])) ++
        entries P_PACKET_NO_ACK (out.filter (Fits ·)) := by
  obtain ⟨bs, took, hmoves, htook, -⟩ := p.calls_moves cs
  have hbs : bs = noise ++ [SYNC_BYTE] ++ out.flatMap frameOf := by
    rw [← hincoming, hmoves.incoming, hall, List.append_nil]
  have hqueue := hmoves.queue P_PACKET_NO_ACK
  rw [htook, hbs, bodies_resync _ _ hout, entries_append, ← List.append_assoc] at hqueue
  exact hqueue.symm

/-- A source in the middle of an escape, noise that ends with a flag, and two packets, the first in two parts. -/
def interrupted : Port :=
  { openSerialSource ⟨[.data [1, 125], .again, .data [126, 3, 126, 126, 69], .intr, .data ((frameOf [69, 7]).drop 2),
      .data (frameOf [68, 5, 125])], [], [], [], []⟩ with inSync := true, escaped := true }

theorem resync_delivery_interrupted : (interrupted.calls [.read, .read, .read]).1 = [[7], [125]] := by
  have h := resync_delivery interrupted [.read, .read, .read] [1, 125, 126, 3] [[69, 7], [68, 5, 125]]
    (by decide) (by decide +kernel) (by decide +kernel)
  have hqueue : (interrupted.calls [.read, .read, .read]).2.queue P_PACKET_NO_ACK = [] := by decide +kernel
  have hfront : entries P_PACKET_NO_ACK (bodies interrupted.receiver ([1, 125, 126, 3] ++ [SYNC_BYTE])) = [] := by
    decide +kernel
  have hback : entries P_PACKET_NO_ACK ([[69, 7], [68, 5, 125]].filter (Fits ·)) = [[7], [125]] := by decide
  have hbefore : interrupted.queue P_PACKET_NO_ACK = [] := rfl
  rw [hqueue, hbefore, hfront, hback] at h
  simpa using h

/-- A packet that lay on the line, escaped between two flags, in front of its check. -/
def Received (line packet : List UInt8) : Prop :=
  ∃ content body, OnLine hdlc line content ∧ opened content = some body ∧ arrival body = (P_PACKET_NO_ACK, packet)

theorem received_of_entries {line bs : List UInt8} (hline : bs <+: line) :
    ∀ packet ∈ entries P_PACKET_NO_ACK (bodies .lost bs), Received line packet := by
  intro packet hpacket
  obtain ⟨body, hbody, htype⟩ := List.mem_filterMap.mp hpacket
  obtain ⟨content, hcontent, hopened⟩ := List.mem_filterMap.mp hbody
  split at htype
  · rename_i harrival
    have hopen : (Receiver.lost : Receiver UInt8).Open hdlc [] := fun h => by cases h
    have hread := (feedAll_open hopen bs).2 content hcontent
    obtain ⟨rest, rfl⟩ := hline
    exact ⟨content, body, hread.append _, hopened, Prod.ext harrival (Option.some.inj htype)⟩
  · cases htype

theorem delivered_received (device : Device) (cs : List Call) :
    ∀ packet ∈ ((openSerialSource device).calls cs).1, Received (device.reads.flatMap ReadAnswer.bytes) packet := by
  intro packet hpacket
  obtain ⟨bs, took, hmoves, htook, -⟩ := (openSerialSource device).calls_moves cs
  have hqueue : entries P_PACKET_NO_ACK (bodies .lost bs) = _ := hmoves.queue P_PACKET_NO_ACK
  refine received_of_entries ⟨_, hmoves.incoming.symm⟩ packet ?_
  rw [hqueue, htook]
  exact List.mem_append_left _ hpacket

def lateLine : Device :=
  ⟨[.data [1, 125], .again, .data (frameOf [69, 7, 126]), .data ((frameOf [68, 5, 8]).take 4)], [], [], [], []⟩

theorem delivered_received_late : Received (lateLine.reads.flatMap ReadAnswer.bytes) [7, 126] :=
  delivered_received lateLine [.read, .read] [7, 126] (by decide +kernel)

end Port
end TinyosGraphics.Serial
