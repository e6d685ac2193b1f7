import TinyosGraphics.Lib.Transition
import TinyosGraphics.Serial.Delivery

/-! Two programs at the ends of a serial line. The line keeps the order of the bytes and loses none; when they arrive,
and in what pieces, is open, and so is which end runs when. -/
namespace TinyosGraphics.Serial
open Lib Stuffing

/-- One end: its source, whether it is inside `write_serial_packet`, and what its calls got and returned so far. -/
structure Station where
  port : Port
  waiting : Bool
  written : List (List UInt8)
  results : List Int
  delivered : List (List UInt8)

namespace Station

/-- A source that has just been opened. -/
def opened (writes : List Transfer.Answer) : Station :=
  ⟨openSerialSource ⟨[], [], writes, [], []⟩, false, [], [], []⟩

/-- `write_serial_packet` is called: the packet goes out, and the loop for its acknowledgement begins. -/
def write (s : Station) (packet : List UInt8) : Option Station :=
  if s.waiting then none
  else
    let r := s.port.sendPacket packet
    some (if r.1 then { s with port := r.2, waiting := true, written := s.written ++ [packet] }
      else { s with port := r.2, written := s.written ++ [packet], results := s.results ++ [-1] })

/-- A turn of that loop, in which `select` answers so. -/
def turn (s : Station) (selects : List SelectAnswer) : Option Station :=
  if s.waiting then
    let r := ({ s.port with selects := selects } : Port).ackTurn
    some { s with port := r.2, waiting := r.1.isNone, results := s.results ++ r.1.toList }
  else none

/-- A call of `read_serial_packet`. -/
def read (s : Station) : Option Station :=
  if s.waiting then none
  else
    let r := s.port.readSerialPacket
    some { s with port := r.2, delivered := s.delivered ++ r.1.toList }

def arrive (s : Station) (answers : List ReadAnswer) : Station :=
  { s with port := { s.port with reads := s.port.reads ++ answers } }

end Station

inductive Action
  | write (packet : List UInt8)
  | turn (selects : List SelectAnswer)
  | read
  | arrive (answers : List ReadAnswer)

/-- Both ends, and how many of the bytes that the other end sent have arrived at each. -/
structure Link where
  station : Bool → Station
  arrived : Bool → Nat

namespace Link

def inFlight (s : Link) (i : Bool) : List UInt8 :=
  (s.station !i).port.sent.drop (s.arrived i)

def received (s : Link) (i : Bool) : List UInt8 :=
  (s.station !i).port.sent.take (s.arrived i)

def put (s : Link) (i : Bool) (t : Station) : Link :=
  { s with station := Function.update s.station i t }

def step (s : Link) (l : Bool × Action) : Option Link :=
  match l.2 with
  | .write packet => ((s.station l.1).write packet).map (s.put l.1)
  | .turn selects => ((s.station l.1).turn selects).map (s.put l.1)
  | .read => (s.station l.1).read.map (s.put l.1)
  | .arrive answers =>
    let bytes := answers.flatMap ReadAnswer.bytes
    if bytes <+: s.inFlight l.1 then
      some ⟨(s.put l.1 ((s.station l.1).arrive answers)).station,
        Function.update s.arrived l.1 (s.arrived l.1 + bytes.length)⟩
    else none

end Link

/-- Two sources are opened at the ends of a line; writing to it does not fail. -/
def serialLine : Transition Link (Bool × Action) where
  init s := ∃ writes : Bool → List Transfer.Answer, (∀ i, Transfer.Sound (writes i)) ∧
    s = ⟨fun i => .opened (writes i), fun _ => 0⟩
  step := Link.step

def PacketFits (packet : List UInt8) : Prop :=
  packet.length + 4 < MTU

instance (packet : List UInt8) : Decidable (PacketFits packet) :=
  inferInstanceAs (Decidable (packet.length + 4 < MTU))

/-- The packets that get through, each with its place among all that were written. -/
def passing (written : List (List UInt8)) : List (List UInt8 × Nat) :=
  written.zipIdx.filter fun x => PacketFits x.1

/-- The number of the packet in a place. -/
def numberOf (i : Nat) : UInt8 :=
  UInt8.ofNat (38 + i)

def dataBody (x : List UInt8 × Nat) : List UInt8 :=
  P_PACKET_ACK :: numberOf x.2 :: x.1

private theorem dataBodies_eq (written : List (List UInt8)) (k : Nat) :
    dataBodies (UInt8.ofNat (37 + k)) written = (written.zipIdx k).map dataBody := by
  induction written generalizing k with
  | nil => rfl
  | cons packet written ih =>
    have hnext : UInt8.ofNat (37 + k) + 1 = numberOf k := by
      rw [numberOf, show 38 + k = 37 + k + 1 by omega]
      exact (UInt8.ofNat_add _ 1).symm
    have hrest := ih (k + 1)
    rw [show 37 + (k + 1) = 38 + k by omega] at hrest
    rw [dataBodies, List.zipIdx_cons, List.map_cons, hnext, numberOf, hrest]
    rfl

theorem filter_dataBody (xs : List (List UInt8 × Nat)) :
    (xs.map dataBody).filter (Fits ·) = (xs.filter fun x => PacketFits x.1).map dataBody := by
  rw [List.filter_map]
  rfl

theorem entries_dataBody (xs : List (List UInt8 × Nat)) : entries P_PACKET_NO_ACK (xs.map dataBody) = xs.map (·.1) := by
  induction xs with
  | nil => rfl
  | cons x xs ih => exact congrArg (x.1 :: ·) ih

theorem acks_dataBody (xs : List (List UInt8 × Nat)) :
    acks (xs.map dataBody) = xs.map fun x => [P_ACK, numberOf x.2] := by
  induction xs with
  | nil => rfl
  | cons x xs ih => exact congrArg ([P_ACK, numberOf x.2] :: ·) ih

/-- What a body that acknowledges leaves, it leaves in the queue for acknowledgements. -/
private theorem arrival_of_isAck {body : List UInt8} (h : IsAck body) : arrival body = (P_ACK, body.drop 1) := by
  have hne : body.getD 0 0 ≠ P_PACKET_ACK := by
    rw [h]
    decide
  rw [arrival, if_neg hne, h]

private theorem arrival_eq_ack {body : List UInt8} (h : (arrival body).1 = P_ACK) : IsAck body := by
  unfold arrival at h
  split at h
  · exact absurd h (show P_PACKET_NO_ACK ≠ P_ACK by decide)
  · exact h

/-- Packets are not acknowledgements. -/
theorem entries_packets (bodies : List (List UInt8)) :
    entries P_PACKET_NO_ACK bodies = entries P_PACKET_NO_ACK (bodies.filter (¬ IsAck ·)) := by
  induction bodies with
  | nil => rfl
  | cons body bodies ih =>
    by_cases hack : IsAck body
    · have hskip : entries P_PACKET_NO_ACK (body :: bodies) = entries P_PACKET_NO_ACK bodies := by
        rw [entries, List.filterMap_cons, arrival_of_isAck hack]
        rfl
      rw [hskip, ih, List.filter_cons_of_neg (by simpa using hack)]
    · rw [List.filter_cons_of_pos (by simpa using hack), ← List.singleton_append, entries_append, ih, ← entries_append]
      rfl

theorem acks_packets (bodies : List (List UInt8)) : acks bodies = acks (bodies.filter (¬ IsAck ·)) := by
  induction bodies with
  | nil => rfl
  | cons body bodies ih =>
    by_cases hack : IsAck body
    · have hne : body.getD 0 0 ≠ P_PACKET_ACK := by
        rw [hack]
        decide
      have hskip : acks (body :: bodies) = acks bodies := by
        rw [acks, List.filterMap_cons, if_neg hne]
        rfl
      rw [hskip, ih, List.filter_cons_of_neg (by simpa using hack)]
    · rw [List.filter_cons_of_pos (by simpa using hack), ← List.singleton_append, acks_append, ih, ← acks_append]
      rfl

theorem entries_ack (bodies : List (List UInt8)) :
    entries P_ACK bodies = (bodies.filter (IsAck ·)).map (·.drop 1) := by
  induction bodies with
  | nil => rfl
  | cons body bodies ih =>
    by_cases hack : IsAck body
    · rw [entries, List.filterMap_cons, arrival_of_isAck hack, List.filter_cons_of_pos (by simpa using hack),
        List.map_cons, ← ih]
      rfl
    · have hne : (arrival body).1 ≠ P_ACK := fun h => hack (arrival_eq_ack h)
      rw [entries, List.filterMap_cons, if_neg hne, List.filter_cons_of_neg (by simpa using hack), ← ih]
      rfl

/-- Every packet that asks for it is acknowledged, and handed out. -/
theorem acks_length_le (bodies : List (List UInt8)) :
    (acks bodies).length ≤ (entries P_PACKET_NO_ACK bodies).length := by
  induction bodies with
  | nil => exact Nat.le_refl _
  | cons body bodies ih =>
    rw [← List.singleton_append, acks_append, entries_append, List.length_append, List.length_append]
    refine Nat.add_le_add ?_ ih
    by_cases hdata : body.getD 0 0 = P_PACKET_ACK
    · have hentry : entries P_PACKET_NO_ACK [body] = [body.drop 2] := by
        rw [entries, List.filterMap_cons, arrival, if_pos hdata]
        rfl
      rw [hentry]
      exact List.length_filterMap_le _ _
    · rw [acks, List.filterMap_cons, if_neg hdata]
      exact Nat.zero_le _

/-- A source that has just been opened, on a device with these bytes. -/
def origin (writes : List Transfer.Answer) (bytes : List UInt8) : Port :=
  openSerialSource ⟨[.data bytes], [], writes, [], []⟩

private theorem origin_incoming (writes : List Transfer.Answer) (bytes : List UInt8) :
    (origin writes bytes).incoming = bytes := by
  simp [origin, openSerialSource, Port.incoming, ReadAnswer.bytes]

namespace Station

/-- The history of an end: of the bytes that it received it has looked at `seen`, and took entries from its queues. -/
structure Kept (s : Station) (received seen : List UInt8) (took : UInt8 → List (List UInt8)) : Prop where
  moves : ∃ writes, Transfer.Sound writes ∧
    Port.Moves (origin writes received) s.port seen took (dataBodies 37 s.written)
  delivered : took P_PACKET_NO_ACK = s.delivered
  seqno : s.port.seqno = UInt8.ofNat (37 + s.written.length)
  finished : s.written.length = s.results.length + if s.waiting then 1 else 0
  taken : s.results.count 0 ≤ (took P_ACK).length

variable {s s' : Station} {got seen : List UInt8} {took : UInt8 → List (List UInt8)}

theorem Kept.received (h : s.Kept got seen took) : got = seen ++ s.port.incoming := by
  obtain ⟨writes, -, hmoves⟩ := h.moves
  rw [← hmoves.incoming, origin_incoming]

theorem Kept.queue (h : s.Kept got seen took) (type : UInt8) :
    entries type (bodies .lost seen) = took type ++ s.port.queue type := by
  obtain ⟨writes, -, hmoves⟩ := h.moves
  exact hmoves.queue type

theorem Kept.sound (h : s.Kept got seen took) : Transfer.Sound s.port.writes := by
  obtain ⟨writes, hw, hmoves⟩ := h.moves
  exact (hmoves.sent hw).1

/-- What an end sent, as bodies. -/
theorem Kept.sent (h : s.Kept got seen took) : ∃ out : List (List UInt8), s.port.sent = out.flatMap frameOf ∧
    out.filter (IsAck ·) = acks (bodies .lost seen) ∧ out.filter (¬ IsAck ·) = s.written.zipIdx.map dataBody := by
  obtain ⟨writes, hw, hmoves⟩ := h.moves
  obtain ⟨-, out, hsent, hacks, hdata⟩ := hmoves.sent hw
  exact ⟨out, by simpa [origin, openSerialSource] using hsent, hacks, hdata.trans (dataBodies_eq s.written 0)⟩

theorem opened_kept {writes : List Transfer.Answer} (hw : Transfer.Sound writes) :
    (opened writes).Kept [] [] fun _ => [] where
  moves := ⟨writes, hw, Port.moves_nil rfl rfl (fun _ => rfl) rfl rfl⟩
  delivered := rfl
  seqno := rfl
  finished := rfl
  taken := Nat.le_refl _

theorem arrive_kept (h : s.Kept got seen took) (answers : List ReadAnswer) :
    (s.arrive answers).Kept (got ++ answers.flatMap ReadAnswer.bytes) seen took where
  moves := by
    obtain ⟨writes, hw, hmoves⟩ := h.moves
    refine ⟨writes, hw, ?_, hmoves.receiver, hmoves.queue, hmoves.sent⟩
    rw [origin_incoming, h.received]
    simp [arrive, Port.incoming]
  delivered := h.delivered
  seqno := h.seqno
  finished := h.finished
  taken := h.taken

private theorem Kept.numbered (h : s.Kept got seen took) (packet : List UInt8) :
    dataBodies 37 s.written ++ [P_PACKET_ACK :: (s.port.seqno + 1) :: packet] =
      dataBodies 37 (s.written ++ [packet]) := by
  rw [Port.dataBodies_append, h.seqno, UInt8.ofNat_add]
  rfl

/-- A call of `write_serial_packet` puts its packet on the line, and waits. -/
theorem write_kept (h : s.Kept got seen took) {packet : List UInt8} (hs : s.write packet = some s') :
    s'.Kept got seen took ∧ s'.written = s.written ++ [packet] ∧ s'.results = s.results ∧
      s.port.sent <+: s'.port.sent := by
  unfold write at hs
  split at hs
  · cases hs
  · rename_i hidle
    obtain ⟨hok, hmoves', hseqno⟩ := s.port.sendPacket_moves packet
    dsimp only at hs
    rw [if_pos (hok h.sound)] at hs
    obtain rfl := Option.some.inj hs
    obtain ⟨writes, hw, hmoves⟩ := h.moves
    have hall := hmoves.trans hmoves'
    rw [h.numbered packet, List.append_nil] at hall
    simp only [List.append_nil] at hall
    obtain ⟨-, out, hsent, -⟩ := hmoves'.sent h.sound
    have hnext : s.port.seqno + 1 = UInt8.ofNat (37 + (s.written ++ [packet]).length) := by
      rw [h.seqno, List.length_append]
      exact (UInt8.ofNat_add _ 1).symm
    have hfinished := h.finished
    rw [if_neg hidle] at hfinished
    refine ⟨⟨⟨writes, hw, hall⟩, h.delivered, hseqno.trans hnext, ?_, h.taken⟩, rfl, rfl, ?_⟩
    · simpa using hfinished
    · show s.port.sent <+: (s.port.sendPacket packet).2.sent
      rw [hsent]
      exact List.prefix_append _ _

/-- A call of `read_serial_packet`. -/
theorem read_kept (h : s.Kept got seen took) (hs : s.read = some s') :
    (∃ seen' took', s'.Kept got seen' took' ∧ (took P_ACK) <+: (took' P_ACK)) ∧ s'.written = s.written ∧
      s'.results = s.results ∧ s.port.sent <+: s'.port.sent := by
  unfold read at hs
  split at hs
  · cases hs
  · rename_i hidle
    obtain rfl := Option.some.inj hs
    obtain ⟨bs, hmoves', hseqno, -⟩ := s.port.readSerialPacket_moves
    obtain ⟨writes, hw, hmoves⟩ := h.moves
    have hall := hmoves.trans hmoves'
    rw [List.append_nil] at hall
    obtain ⟨-, out, hsent, -⟩ := hmoves'.sent h.sound
    refine ⟨⟨seen ++ bs, _, ⟨⟨writes, hw, hall⟩, ?_, hseqno.trans h.seqno, h.finished, ?_⟩, ?_⟩, rfl, rfl, ?_⟩
    · simp [h.delivered, Port.only]
    · exact Nat.le_trans h.taken (by simp)
    · exact List.prefix_append _ _
    · show s.port.sent <+: s.port.readSerialPacket.2.sent
      rw [hsent]
      exact List.prefix_append _ _

/-- A turn takes one acknowledgement at most, and the write succeeds with the one that has its number. -/
theorem turn_kept (h : s.Kept got seen took) {selects : List SelectAnswer} (hs : s.turn selects = some s') :
    s.waiting = true ∧ s'.written = s.written ∧ s.port.sent <+: s'.port.sent ∧
      ∃ seen' took' taken, s'.Kept got seen' took' ∧ took' P_ACK = took P_ACK ++ taken ∧
        (s'.results = s.results ∨ ∃ r, s'.results = s.results ++ [r] ∧
          (r = 0 → ∃ ack, taken = [ack] ∧ ack.getD 0 0 = s.port.seqno)) := by
  unfold turn at hs
  split at hs
  case isFalse => cases hs
  case isTrue hwaiting =>
    obtain rfl := Option.some.inj hs
    obtain ⟨bs, taken, hmoves', hseqno, hresult⟩ := ({ s.port with selects := selects } : Port).ackTurn_moves
    have hmoves' : Port.Moves s.port _ bs _ [] := ⟨hmoves'.incoming, hmoves'.receiver, hmoves'.queue, hmoves'.sent⟩
    obtain ⟨writes, hw, hmoves⟩ := h.moves
    have hall := hmoves.trans hmoves'
    rw [List.append_nil] at hall
    obtain ⟨-, out, hsent, -⟩ := hmoves'.sent h.sound
    have hfinished := h.finished
    rw [if_pos hwaiting] at hfinished
    have hother : P_PACKET_NO_ACK ≠ P_ACK := by decide
    generalize ({ s.port with selects := selects } : Port).ackTurn = r at *
    have htaken : (s.results ++ r.1.toList).count 0 ≤ (took P_ACK ++ taken).length := by
      have hbefore := h.taken
      rw [List.count_append, List.length_append]
      obtain ⟨rfl, hret⟩ | ⟨ack, rfl, hret⟩ := hresult
      · cases hr : r.1 with
        | none => simpa using hbefore
        | some v =>
          have hv : v ≠ 0 := fun hv => hret (by rw [hr, hv])
          simpa [List.count_singleton, hv] using hbefore
      · have hone : r.1.toList.count 0 ≤ 1 := Nat.le_trans List.count_le_length (by cases r.1 <;> simp)
        exact Nat.add_le_add hbefore hone
    refine ⟨hwaiting, rfl, ?_, seen ++ bs, _, taken,
      ⟨⟨writes, hw, hall⟩, by simp [h.delivered, Port.only, hother], hseqno.trans h.seqno, ?_, ?_⟩,
      by simp [Port.only], ?_⟩
    · show s.port.sent <+: r.2.sent
      rw [hsent]
      exact List.prefix_append _ _
    · show s.written.length = (s.results ++ r.1.toList).length + _
      cases r.1 <;> simpa using hfinished
    · simpa [Port.only] using htaken
    · cases hr : r.1 with
      | none => exact .inl (by simp)
      | some v =>
        refine .inr ⟨v, by simp, fun hv => ?_⟩
        obtain ⟨-, hret⟩ | ⟨ack, rfl, hret⟩ := hresult
        · exact absurd (by rw [hr, hv]) hret
        · rw [hr] at hret
          split at hret
          · exact ⟨ack, rfl, ‹_›⟩
          · cases hret

end Station
end TinyosGraphics.Serial
