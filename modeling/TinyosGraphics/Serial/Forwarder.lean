import TinyosGraphics.Lib.Transition
import TinyosGraphics.Serial.Delivery
import TinyosGraphics.Serial.SfSource

/-! `sf.c`: the forwarder hands what comes in on the serial line to all of its clients, and what a client sends to the
serial line. Connections come and go, calls on them are cut short or fail, and `select` reports what it likes. -/
namespace TinyosGraphics.Serial
open Lib

/-- A member of `clients` with its connection. Besides, for the record: its place among all connections that were
accepted, the connection as it was accepted, and how many packets had been read from the serial line by then. -/
structure Client where
  fd : Nat
  socket : Socket
  id : Nat
  offered : Socket
  since : Nat
  deriving DecidableEq

/-- The globals of `sf.c`, and whether it has left by `exit`. Besides, for the record: how many connections were
accepted, the packets that were read from the serial line and those that clients sent, and the connections that were
closed. -/
structure Forwarder where
  src : Port
  serfd : Nat
  serverSocket : Nat
  clients : List Client
  numClients : Int
  packetsRead : Nat
  packetsWritten : Nat
  exited : Bool
  accepts : Nat
  dispatched : List (List UInt8)
  forwarded : List (Nat × List UInt8)
  closed : List Client

namespace Forwarder

def addClient (s : Forwarder) (c : Client) : Forwarder :=
  { s with clients := c :: s.clients, numClients := s.numClients + 1 }

/-- `rem_client`, for a member that the walk has taken out. -/
def remClient (s : Forwarder) (dead : Client) : Forwarder :=
  { s with numClients := s.numClients - 1, closed := s.closed ++ [dead] }

def newClient (s : Forwarder) (fd : Nat) (socket : Socket) : Forwarder :=
  let (ok, socket') := socket.initSfSource
  let c : Client := ⟨fd, socket', s.accepts, socket, s.dispatched.length⟩
  let s := { s with accepts := s.accepts + 1 }
  if ok then s.addClient c else { s with closed := s.closed ++ [c] }

/-- The body of the loop in `dispatch_packet`; `clients` holds the members that the walk has passed. -/
def dispatchTo (packet : List UInt8) (s : Forwarder) (c : Client) : Forwarder :=
  let (ok, socket) := c.socket.writeSfPacket packet
  let c := { c with socket := socket }
  if ok then { s with clients := s.clients ++ [c] } else s.remClient c

def dispatchPacket (s : Forwarder) (packet : List UInt8) : Forwarder :=
  s.clients.foldl (dispatchTo packet) { s with clients := [] }

/-- `forward_packet`, for a packet of this client. -/
def forwardPacket (s : Forwarder) (id : Nat) (packet : List UInt8) : Forwarder :=
  let (ok, src) := s.src.writeSerialPacket packet
  { s with
    src := src
    packetsWritten := s.packetsWritten + 1
    exited := ok < 0
    forwarded := s.forwarded ++ [(id, packet)] }

/-- The body of the loop in `check_clients`. -/
def checkClient (fds : List Nat) (s : Forwarder) (c : Client) : Forwarder :=
  if s.exited then { s with clients := s.clients ++ [c] }
  else if c.fd ∈ fds then
    match c.socket.readSfPacket with
    | (some packet, socket) =>
      ({ s with clients := s.clients ++ [{ c with socket := socket }] }).forwardPacket c.id packet
    | (none, socket) => s.remClient { c with socket := socket }
  else { s with clients := s.clients ++ [c] }

def checkClients (s : Forwarder) (fds : List Nat) : Forwarder :=
  s.clients.foldl (checkClient fds) { s with clients := [] }

def checkSerial (s : Forwarder) : Forwarder :=
  match s.src.readSerialPacket with
  | (some packet, src) =>
    let s := { s with src := src, packetsRead := s.packetsRead + 1, dispatched := s.dispatched ++ [packet] }
    s.dispatchPacket packet
  | (none, src) => { s with src := src }

/-- The descriptors that `select` is asked about. -/
def watched (s : Forwarder) : List Nat :=
  s.serfd :: s.serverSocket :: s.clients.map (·.fd)

/-- How the calls in one turn of the loop end: the descriptors that `select` leaves in the set, if it does not fail, and
what `accept` gives. -/
structure Turn where
  rfds : Option (List Nat)
  accepted : Option (Nat × Socket)

/-- One turn of the `for (;;)` in `do_child`. A connection that is accepted has a descriptor that is not in use. -/
def turn (s : Forwarder) (l : Turn) : Option Forwarder :=
  if s.exited then none
  else
    let before := s.watched
    let s := if s.src.serialSourceEmpty then s else s.checkSerial
    match l.rfds with
    | none => some s
    | some rfds =>
      if rfds ⊆ before then
        let s := if s.serfd ∈ rfds then s.checkSerial else s
        match (if s.serverSocket ∈ rfds then l.accepted else none) with
        | none => some (s.checkClients rfds)
        | some (fd, socket) => if fd ∈ s.watched then none else some ((s.newClient fd socket).checkClients rfds)
      else none

end Forwarder

/-- The forwarder, from the moment that the serial source and the server socket are open. -/
def serialForwarder (device : Device) : Transition Forwarder Forwarder.Turn where
  init s := ∃ serfd serverSocket, serfd ≠ serverSocket ∧
    s = ⟨openSerialSource device, serfd, serverSocket, [], 0, 0, 0, false, 0, [], [], []⟩
  step := Forwarder.turn

def packetsOf (forwarded : List (Nat × List UInt8)) (id : Nat) : List (List UInt8) :=
  (forwarded.filter (·.1 = id)).map (·.2)

namespace Client

/-- What a client is to be sent: the greeting, and every packet since it came. -/
def due (dispatched : List (List UInt8)) (c : Client) : List UInt8 :=
  c.offered.sent ++ [85, 32] ++ (dispatched.drop c.since).flatMap sfFrame

/-- What a client sent begins with a greeting and the packets that were taken from it. -/
def Consumed (forwarded : List (Nat × List UInt8)) (c : Client) (tail : List UInt8) : Prop :=
  ∃ check, Greeting check ∧ c.offered.stream = check ++ (packetsOf forwarded c.id).flatMap sfFrame ++ tail

/-- The state of a member of the list. -/
structure Served (dispatched : List (List UInt8)) (forwarded : List (Nat × List UInt8)) (c : Client) : Prop where
  since : c.since ≤ dispatched.length
  sent : c.socket.sent = c.due dispatched
  stream : c.Consumed forwarded c.socket.stream
  reads : c.socket.reads <:+ c.offered.reads
  writes : c.socket.writes <:+ c.offered.writes

/-- What its own connection did to lose a client. -/
def Gone (forwarded : List (Nat × List UInt8)) (c : Client) : Prop :=
  ¬ Transfer.Sound c.offered.writes ∨ ¬ Transfer.Sound c.offered.reads ∨
    (¬ ∃ check, Greeting check ∧ check <+: c.offered.stream) ∨ ∃ tail, c.Consumed forwarded tail ∧ Ended tail

/-- The state of a connection that was closed. -/
structure Left (dispatched : List (List UInt8)) (forwarded : List (Nat × List UInt8)) (c : Client) : Prop where
  since : c.since ≤ dispatched.length
  sent : c.socket.sent <+: c.due dispatched
  stream : packetsOf forwarded c.id = [] ∨ ∃ tail, c.Consumed forwarded tail
  gone : c.Gone forwarded

end Client

namespace Forwarder

/-- What every turn keeps. -/
structure Kept (device : Device) (s : Forwarder) : Prop where
  calls : ∃ cs, s.src = ((openSerialSource device).calls cs).2 ∧ s.dispatched = ((openSerialSource device).calls cs).1 ∧
    s.forwarded.map (·.2) = Port.writesOf cs
  count : s.numClients = s.clients.length
  counters : s.packetsRead = s.dispatched.length ∧ s.packetsWritten = s.forwarded.length
  ids : ((s.clients ++ s.closed).map (·.id)).Perm (List.range s.accepts)
  known : ∀ x ∈ s.forwarded, x.1 < s.accepts
  fds : s.watched.Nodup
  clients : ∀ c ∈ s.clients, c.Served s.dispatched s.forwarded
  closed : ∀ c ∈ s.closed, c.Left s.dispatched s.forwarded
  exited : s.exited = true → ¬ Transfer.Sound device.writes

/-- A client to which the packet was written, as far as that went. -/
def written (packet : List UInt8) (c : Client) : Client :=
  { c with socket := (c.socket.writeSfPacket packet).2 }

def Takes (packet : List UInt8) (c : Client) : Prop :=
  (c.socket.writeSfPacket packet).1 = true

instance (packet : List UInt8) (c : Client) : Decidable (Takes packet c) :=
  inferInstanceAs (Decidable (_ = true))

private theorem foldl_dispatchTo (packet : List UInt8) (cs : List Client) (s : Forwarder) :
    cs.foldl (dispatchTo packet) s =
      { s with
        clients := s.clients ++ (cs.filter (Takes packet ·)).map (written packet)
        numClients := s.numClients - (cs.filter (¬ Takes packet ·)).length
        closed := s.closed ++ (cs.filter (¬ Takes packet ·)).map (written packet) } := by
  induction cs generalizing s with
  | nil => simp
  | cons c cs ih =>
    rw [List.foldl_cons, ih]
    by_cases htakes : Takes packet c
    · have hstep : dispatchTo packet s c = { s with clients := s.clients ++ [written packet c] } := if_pos htakes
      rw [hstep, List.filter_cons_of_pos (by simpa using htakes), List.filter_cons_of_neg (by simpa using htakes)]
      simp only [List.map_cons, List.append_assoc, List.singleton_append]
    · have hstep : dispatchTo packet s c = s.remClient (written packet c) := if_neg htakes
      rw [hstep, List.filter_cons_of_neg (by simpa using htakes), List.filter_cons_of_pos (by simpa using htakes)]
      simp only [remClient, List.map_cons, List.append_assoc, List.singleton_append, List.length_cons,
        Nat.cast_add, Nat.cast_one]
      congr 1
      omega

private theorem dispatchPacket_eq (s : Forwarder) (packet : List UInt8) :
    s.dispatchPacket packet =
      { s with
        clients := (s.clients.filter (Takes packet ·)).map (written packet)
        numClients := s.numClients - (s.clients.filter (¬ Takes packet ·)).length
        closed := s.closed ++ (s.clients.filter (¬ Takes packet ·)).map (written packet) } := by
  rw [dispatchPacket, foldl_dispatchTo, List.nil_append]

private theorem due_concat {dispatched : List (List UInt8)} {c : Client} (h : c.since ≤ dispatched.length)
    (packet : List UInt8) : c.due (dispatched ++ [packet]) = c.due dispatched ++ sfFrame packet := by
  rw [Client.due, List.drop_append_of_le_length h, List.flatMap_append, List.flatMap_singleton, ← List.append_assoc]
  rfl

private theorem written_served {dispatched : List (List UInt8)} {forwarded : List (Nat × List UInt8)} {c : Client}
    (h : c.Served dispatched forwarded) {packet : List UInt8} (htakes : Takes packet c) :
    (written packet c).Served (dispatched ++ [packet]) forwarded := by
  have hwrites := c.socket.writeSfPacket_writes packet
  obtain ⟨out, hsent, -, hall⟩ := hwrites.sent
  refine ⟨?_, ?_, ?_, ?_, hwrites.writes.trans h.writes⟩
  · rw [List.length_append]
    exact Nat.le_add_right_of_le h.since
  · show (c.socket.writeSfPacket packet).2.sent = c.due (dispatched ++ [packet])
    rw [due_concat h.since, hsent, hall htakes, h.sent]
  · show c.Consumed forwarded (c.socket.writeSfPacket packet).2.stream
    rw [hwrites.stream]
    exact h.stream
  · show (c.socket.writeSfPacket packet).2.reads <:+ _
    rw [hwrites.reads]
    exact h.reads

/-- A client that could not take the packet has got a part of it, and its connection had failed. -/
private theorem written_left {dispatched : List (List UInt8)} {forwarded : List (Nat × List UInt8)} {c : Client}
    (h : c.Served dispatched forwarded) {packet : List UInt8} (htakes : ¬ Takes packet c) :
    (written packet c).Left (dispatched ++ [packet]) forwarded := by
  have hwrites := c.socket.writeSfPacket_writes packet
  obtain ⟨out, hsent, hout, -⟩ := hwrites.sent
  have hfailed := hwrites.failed (Bool.eq_false_iff.mpr htakes)
  refine ⟨?_, ?_, .inr ⟨_, h.stream⟩, .inl fun hsound => hfailed (hsound.of_suffix h.writes)⟩
  · rw [List.length_append]
    exact Nat.le_add_right_of_le h.since
  · show (c.socket.writeSfPacket packet).2.sent <+: c.due (dispatched ++ [packet])
    rw [due_concat h.since, hsent, h.sent]
    exact (List.prefix_append_right_inj _).mpr hout

private theorem left_concat {dispatched : List (List UInt8)} {forwarded : List (Nat × List UInt8)} {c : Client}
    (h : c.Left dispatched forwarded) (packet : List UInt8) : c.Left (dispatched ++ [packet]) forwarded where
  since := by
    rw [List.length_append]
    exact Nat.le_add_right_of_le h.since
  sent := by
    rw [due_concat h.since]
    exact h.sent.trans (List.prefix_append _ _)
  stream := h.stream
  gone := h.gone

private theorem ids_split (packet : List UInt8) (cs closed : List Client) :
    (((cs.filter (Takes packet ·)).map (written packet) ++
      (closed ++ (cs.filter (¬ Takes packet ·)).map (written packet))).map (·.id)).Perm
        ((cs ++ closed).map (·.id)) := by
  have hwritten (cs : List Client) : (cs.map (written packet)).map (·.id) = cs.map (·.id) := by
    rw [List.map_map]
    rfl
  have hsplit := (List.filter_append_perm (fun c => decide (Takes packet c)) cs).map (·.id)
  have hneg : (fun c => decide (¬ Takes packet c)) = fun c => !decide (Takes packet c) := funext fun c => decide_not
  simp only [List.map_append, hwritten, hneg] at hsplit ⊢
  refine (List.perm_append_comm.append_left _).trans ?_
  rw [← List.append_assoc]
  exact hsplit.append_right _

private theorem checkSerial_kept {device : Device} {s : Forwarder} (h : s.Kept device) : s.checkSerial.Kept device := by
  obtain ⟨cs, hsrc, hdispatched, hforwarded⟩ := h.calls
  have hconcat := (openSerialSource device).calls_concat cs .read
  rw [← hsrc, ← hdispatched] at hconcat
  have hwrites : Port.writesOf (cs ++ [.read]) = Port.writesOf cs := by
    rw [Port.writesOf_append]
    exact List.append_nil _
  unfold checkSerial
  cases hread : s.src.readSerialPacket with
  | mk result src =>
    simp only [Port.call, hread] at hconcat
    cases result with
    | none =>
      refine { h with calls := ⟨cs ++ [.read], ?_, ?_, hforwarded.trans hwrites.symm⟩ }
      · rw [hconcat]
      · rw [hconcat]
        simp
    | some packet =>
      dsimp only
      rw [dispatchPacket_eq]
      refine ⟨⟨cs ++ [.read], by rw [hconcat], by rw [hconcat]; rfl, hforwarded.trans hwrites.symm⟩, ?_, ?_, ?_,
        h.known, ?_, ?_, ?_, h.exited⟩
      · have hsplit := List.length_eq_length_filter_add (l := s.clients) (Takes packet ·)
        have hcount := h.count
        simp only [decide_not, List.length_map]
        omega
      · rw [List.length_append, List.length_singleton]
        exact ⟨congrArg (· + 1) h.counters.1, h.counters.2⟩
      · exact (ids_split packet s.clients s.closed).trans h.ids
      · refine h.fds.sublist (.cons_cons _ (.cons_cons _ ?_))
        rw [List.map_map]
        exact List.filter_sublist.map _
      · intro c hc
        obtain ⟨c, hmem, rfl⟩ := List.mem_map.mp hc
        obtain ⟨hmem, htakes⟩ := List.mem_filter.mp hmem
        exact written_served (h.clients c hmem) (of_decide_eq_true htakes)
      · intro c hc
        obtain hc | hc := List.mem_append.mp hc
        · exact left_concat (h.closed c hc) packet
        · obtain ⟨c, hmem, rfl⟩ := List.mem_map.mp hc
          obtain ⟨hmem, htakes⟩ := List.mem_filter.mp hmem
          exact written_left (h.clients c hmem) (of_decide_eq_true htakes)

private theorem packetsOf_new {forwarded : List (Nat × List UInt8)} {id : Nat} (h : ∀ x ∈ forwarded, x.1 < id) :
    packetsOf forwarded id = [] := by
  have hnone : forwarded.filter (·.1 = id) = [] := by
    refine List.filter_eq_nil_iff.mpr fun x hx => ?_
    have := h x hx
    simp only [decide_eq_true_eq]
    omega
  rw [packetsOf, hnone, List.map_nil]

private theorem newClient_kept {device : Device} {s : Forwarder} (h : s.Kept device) {fd : Nat} (hfd : fd ∉ s.watched)
    (socket : Socket) : (s.newClient fd socket).Kept device := by
  have hgreets := socket.initSfSource_greets
  obtain ⟨out, hsent, hout, hall⟩ := hgreets.sent
  have hids (cs : List Client) (hcs : cs.Perm (⟨fd, socket.initSfSource.2, s.accepts, socket, s.dispatched.length⟩ ::
      (s.clients ++ s.closed))) : (cs.map (·.id)).Perm (List.range (s.accepts + 1)) := by
    rw [List.range_succ]
    exact (hcs.map _).trans ((h.ids.cons _).trans (List.perm_append_singleton _ _).symm)
  have hknown : ∀ x ∈ s.forwarded, x.1 < s.accepts + 1 := fun x hx => Nat.lt_succ_of_lt (h.known x hx)
  have hpackets := packetsOf_new h.known
  have hdue : Client.due s.dispatched ⟨fd, socket.initSfSource.2, s.accepts, socket, s.dispatched.length⟩ =
      socket.sent ++ [85, 32] := by
    simp only [Client.due, List.drop_length, List.flatMap_nil, List.append_nil]
  unfold newClient
  dsimp only
  cases hok : socket.initSfSource.1 with
  | true =>
    rw [if_pos rfl]
    refine ⟨h.calls, ?_, h.counters, hids _ (.refl _), hknown, ?_, ?_, h.closed, h.exited⟩
    · show s.numClients + 1 = ((s.clients.length + 1 : Nat) : Int)
      rw [h.count]
      rfl
    · have hfresh : (fd :: s.watched).Nodup := List.nodup_cons.mpr ⟨hfd, h.fds⟩
      exact hfresh.perm ((List.Perm.swap _ _ _).trans ((List.Perm.swap _ _ _).cons _))
    · intro d hd
      obtain rfl | hd := List.mem_cons.mp hd
      · obtain ⟨check, hcheck, hstream⟩ := hgreets.stream hok
        refine ⟨Nat.le_refl _, ?_, ⟨check, hcheck, ?_⟩, hgreets.reads, hgreets.writes⟩
        · exact hsent.trans ((congrArg (socket.sent ++ ·) (hall hok)).trans hdue.symm)
        · show socket.stream = check ++ (packetsOf s.forwarded s.accepts).flatMap sfFrame ++ _
          rw [hpackets, List.flatMap_nil, List.append_nil]
          exact hstream
      · exact h.clients d hd
  | false =>
    rw [if_neg Bool.false_ne_true]
    refine ⟨h.calls, h.count, h.counters, hids _ ?_, hknown, h.fds, h.clients, ?_, h.exited⟩
    · rw [← List.append_assoc]
      exact List.perm_append_singleton _ _
    · intro d hd
      obtain hd | hd := List.mem_append.mp hd
      · exact h.closed d hd
      · obtain rfl := List.mem_singleton.mp hd
        refine ⟨Nat.le_refl _, ?_, .inl hpackets, ?_⟩
        · show socket.initSfSource.2.sent <+: _
          rw [hsent, hdue]
          exact (List.prefix_append_right_inj _).mpr hout
        · obtain hunsound | hunsound | hgreeting := hgreets.failed hok
          · exact .inl hunsound
          · exact .inr (.inl hunsound)
          · exact .inr (.inr (.inl hgreeting))

private theorem packetsOf_concat (forwarded : List (Nat × List UInt8)) (x : Nat × List UInt8) (id : Nat) :
    packetsOf (forwarded ++ [x]) id = packetsOf forwarded id ++ if x.1 = id then [x.2] else [] := by
  rw [packetsOf, List.filter_append, List.map_append]
  by_cases hid : x.1 = id
  · rw [if_pos hid, List.filter_cons_of_pos (by simpa using hid)]
    rfl
  · rw [if_neg hid, List.filter_cons_of_neg (by simpa using hid)]
    rfl

private theorem packetsOf_other (forwarded : List (Nat × List UInt8)) {x : Nat × List UInt8} {id : Nat} (h : id ≠ x.1) :
    packetsOf (forwarded ++ [x]) id = packetsOf forwarded id := by
  rw [packetsOf_concat, if_neg h.symm, List.append_nil]

private theorem other_id {device : Device} {s : Forwarder} (h : s.Kept device) {front back : List Client} {c : Client}
    (hc : s.clients = front ++ c :: back) : ∀ d ∈ front ++ back ++ s.closed, d.id ≠ c.id := by
  have hnodup := h.ids.nodup_iff.mpr List.nodup_range
  rw [hc, List.append_assoc, List.cons_append] at hnodup
  have hmiddle := (@List.perm_middle _ c front (back ++ s.closed)).map (·.id)
  obtain ⟨hnot, -⟩ := List.nodup_cons.mp (hmiddle.nodup_iff.mp hnodup)
  intro d hd heq
  rw [List.append_assoc] at hd
  exact hnot (List.mem_map.mpr ⟨d, hd, heq⟩)

private theorem served_other {dispatched : List (List UInt8)} {forwarded : List (Nat × List UInt8)} {c : Client}
    (h : c.Served dispatched forwarded) {x : Nat × List UInt8} (hne : c.id ≠ x.1) :
    c.Served dispatched (forwarded ++ [x]) where
  since := h.since
  sent := h.sent
  stream := by
    rw [Client.Consumed, packetsOf_other _ hne]
    exact h.stream
  reads := h.reads
  writes := h.writes

private theorem left_other {dispatched : List (List UInt8)} {forwarded : List (Nat × List UInt8)} {c : Client}
    (h : c.Left dispatched forwarded) {x : Nat × List UInt8} (hne : c.id ≠ x.1) :
    c.Left dispatched (forwarded ++ [x]) where
  since := h.since
  sent := h.sent
  stream := by
    simp only [Client.Consumed, packetsOf_other _ hne]
    exact h.stream
  gone := by
    simp only [Client.Gone, Client.Consumed, packetsOf_other _ hne]
    exact h.gone

private theorem forwardPacket_kept {device : Device} {s : Forwarder} (h : s.Kept device) {front back : List Client}
    {c : Client}
    (hc : s.clients = front ++ c :: back) {packet : List UInt8} (hread : c.socket.readSfPacket.1 = some packet) :
    (({ s with clients := front ++ { c with socket := c.socket.readSfPacket.2 } :: back }).forwardPacket c.id
      packet).Kept device := by
  obtain ⟨cs, hsrc, hdispatched, hforwarded⟩ := h.calls
  have hconcat := (openSerialSource device).calls_concat cs (.write packet)
  rw [← hsrc, ← hdispatched] at hconcat
  have hother := other_id h hc
  have hmem : c ∈ s.clients := by simp [hc]
  have hserved := h.clients c hmem
  have hgets := c.socket.readSfPacket_gets
  refine ⟨⟨cs ++ [.write packet], ?_, ?_, ?_⟩, ?_, ?_, ?_, ?_, ?_, ?_, ?_, ?_⟩
  · rw [hconcat]
    rfl
  · rw [hconcat]
    exact (List.append_nil _).symm
  · show (s.forwarded ++ [(c.id, packet)]).map (·.2) = Port.writesOf (cs ++ [.write packet])
    rw [List.map_append, hforwarded, Port.writesOf_append]
    rfl
  · show s.numClients = ((front ++ _ :: back).length : Int)
    rw [h.count, hc]
    simp
  · show _ ∧ s.packetsWritten + 1 = (s.forwarded ++ [(c.id, packet)]).length
    rw [List.length_append, List.length_singleton, h.counters.2]
    exact ⟨h.counters.1, rfl⟩
  · have hids := h.ids
    rw [hc] at hids
    simpa [forwardPacket] using hids
  · intro x hx
    obtain hx | hx := List.mem_append.mp hx
    · exact h.known x hx
    · obtain rfl := List.mem_singleton.mp hx
      exact List.mem_range.mp (h.ids.subset (List.mem_map.mpr ⟨c, List.mem_append_left _ hmem, rfl⟩))
  · have hfds := h.fds
    rw [watched, hc] at hfds
    simpa [watched, forwardPacket] using hfds
  · intro d hd
    obtain ⟨rfl⟩ | hd : d = { c with socket := c.socket.readSfPacket.2 } ∨ d ∈ front ++ back := by
      simpa [forwardPacket, or_left_comm] using hd
    · obtain ⟨check, hcheck, hstream⟩ := hserved.stream
      refine ⟨hserved.since, hgets.sent.trans hserved.sent, ⟨check, hcheck, ?_⟩, hgets.reads.trans hserved.reads, ?_⟩
      · obtain ⟨packet', hsome, -, hframe⟩ | ⟨hnone, -⟩ := c.socket.readSfPacket_cases
        · obtain rfl := Option.some.inj (hsome.symm.trans hread)
          show c.offered.stream = check ++ (packetsOf (s.forwarded ++ [(c.id, packet')]) c.id).flatMap sfFrame ++ _
          rw [packetsOf_concat, if_pos rfl, List.flatMap_append, List.flatMap_singleton, hstream, hframe]
          simp only [List.append_assoc]
        · rw [hnone] at hread
          cases hread
      · show c.socket.readSfPacket.2.writes <:+ _
        rw [hgets.writes]
        exact hserved.writes
    · have hne := hother d (List.mem_append_left _ hd)
      have hd' : d ∈ s.clients := by
        rw [hc]
        exact List.mem_append.mpr ((List.mem_append.mp hd).imp_right (List.mem_cons_of_mem _))
      exact served_other (h.clients d hd') hne
  · intro d hd
    exact left_other (h.closed d hd) (hother d (List.mem_append_right _ hd))
  · intro hexited hsound
    obtain ⟨bs, took, hmoves, -⟩ := (openSerialSource device).calls_moves cs
    have hwrites : Transfer.Sound s.src.writes := hsrc ▸ (hmoves.sent hsound).1
    have hfailed : (s.src.writeSerialPacket packet).1 < 0 := of_decide_eq_true hexited
    have := Port.writeSerialPacket_nonneg hwrites packet
    omega

private theorem remClient_kept {device : Device} {s : Forwarder} (h : s.Kept device) {front back : List Client}
    {c : Client}
    (hc : s.clients = front ++ c :: back) (hread : c.socket.readSfPacket.1 = none) :
    (({ s with clients := front ++ back }).remClient { c with socket := c.socket.readSfPacket.2 }).Kept device := by
  have hmem : c ∈ s.clients := by simp [hc]
  have hserved := h.clients c hmem
  have hgets := c.socket.readSfPacket_gets
  have hsub : (front ++ back).Sublist s.clients := by
    rw [hc]
    exact (List.sublist_cons_self _ _).append_left _
  refine ⟨h.calls, ?_, h.counters, ?_, h.known, ?_, fun d hd => h.clients d (hsub.subset hd), ?_, h.exited⟩
  · show s.numClients - 1 = ((front ++ back).length : Int)
    rw [h.count, hc]
    simp
    omega
  · have hids := h.ids
    rw [hc] at hids
    have hmoved : (front ++ back ++ (s.closed ++ [c])).Perm (front ++ c :: back ++ s.closed) := by
      rw [← List.append_assoc, List.append_assoc front, List.append_assoc front (c :: back)]
      exact (List.perm_append_singleton _ _).trans List.perm_middle.symm
    have hsame := (hmoved.map (·.id)).trans hids
    simpa [remClient] using hsame
  · exact h.fds.sublist (.cons_cons _ (.cons_cons _ (hsub.map _)))
  · intro d hd
    obtain hd | hd := List.mem_append.mp hd
    · exact h.closed d hd
    · obtain rfl := List.mem_singleton.mp hd
      refine ⟨hserved.since, ?_, .inr ⟨_, hserved.stream⟩, ?_⟩
      · show c.socket.readSfPacket.2.sent <+: _
        rw [hgets.sent, hserved.sent]
        exact List.prefix_rfl
      · obtain ⟨packet, hsome, -⟩ | ⟨-, hunsound | hended⟩ := c.socket.readSfPacket_cases
        · rw [hsome] at hread
          cases hread
        · exact .inr (.inl fun hsound => hunsound (hsound.of_suffix hserved.reads))
        · exact .inr (.inr (.inr ⟨_, hserved.stream, hended⟩))

/-- The walk of `check_clients`: the members that it has passed, followed by those to come, are the whole list. -/
private theorem foldl_checkClient {device : Device} (fds : List Nat) (cs : List Client) {s : Forwarder}
    (h : ({ s with clients := s.clients ++ cs } : Forwarder).Kept device) :
    (cs.foldl (checkClient fds) s).Kept device := by
  induction cs generalizing s with
  | nil => simpa using h
  | cons c cs ih =>
    have hpassed : ({ s with clients := s.clients ++ [c] ++ cs } : Forwarder).Kept device := by
      rwa [List.append_assoc]
    refine ih ?_
    unfold checkClient
    split
    · exact hpassed
    · split
      · split
        · rename_i packet socket hread
          have hforward := forwardPacket_kept h rfl (congrArg Prod.fst hread)
          rw [congrArg Prod.snd hread] at hforward
          simpa [forwardPacket] using hforward
        · rename_i socket hread
          have hremove := remClient_kept h rfl (congrArg Prod.fst hread)
          rw [congrArg Prod.snd hread] at hremove
          exact hremove
      · exact hpassed

private theorem checkClients_kept {device : Device} {s : Forwarder} (h : s.Kept device) (fds : List Nat) :
    (s.checkClients fds).Kept device :=
  foldl_checkClient fds s.clients h

theorem turn_kept {device : Device} {s s' : Forwarder} {l : Turn} (h : s.Kept device) (hs : s.turn l = some s') :
    s'.Kept device := by
  unfold turn at hs
  split at hs
  · cases hs
  · have hfirst : (if s.src.serialSourceEmpty then s else s.checkSerial).Kept device := by
      split
      · exact h
      · exact checkSerial_kept h
    dsimp only at hs
    generalize (if s.src.serialSourceEmpty then s else s.checkSerial) = t at hfirst hs
    split at hs
    · obtain rfl := Option.some.inj hs
      exact hfirst
    · rename_i rfds _
      split at hs
      · have hsecond : (if t.serfd ∈ rfds then t.checkSerial else t).Kept device := by
          split
          · exact checkSerial_kept hfirst
          · exact hfirst
        generalize (if t.serfd ∈ rfds then t.checkSerial else t) = u at hsecond hs
        split at hs
        · obtain rfl := Option.some.inj hs
          exact checkClients_kept hsecond rfds
        · split at hs
          · cases hs
          · rename_i hfd
            obtain rfl := Option.some.inj hs
            exact checkClients_kept (newClient_kept hsecond hfd _) rfds
      · cases hs

theorem init_kept {device : Device} {s : Forwarder} (h : (serialForwarder device).init s) : s.Kept device := by
  obtain ⟨serfd, serverSocket, hne, rfl⟩ := h
  exact ⟨⟨[], rfl, rfl, rfl⟩, rfl, ⟨rfl, rfl⟩, .refl _, by simp, by simpa [watched] using hne, by simp, by simp,
    by simp⟩

theorem reachable_kept {device : Device} {s : Forwarder}
    (h : (serialForwarder device).Reachable (fun _ _ => True) s) : s.Kept device :=
  h.invariant (fun _ => init_kept) fun _ _ _ hs _ => turn_kept hs

/-- The packets that were dispatched, and those that wait, are those of the bytes that were looked at. -/
theorem Kept.dispatched_entries {device : Device} {s : Forwarder} (h : s.Kept device) : ∃ bs,
    device.reads.flatMap ReadAnswer.bytes = bs ++ s.src.incoming ∧
      s.dispatched ++ s.src.queue P_PACKET_NO_ACK = entries P_PACKET_NO_ACK (bodies .lost bs) := by
  obtain ⟨cs, hsrc, hdispatched, -⟩ := h.calls
  obtain ⟨bs, took, hmoves, htook, -⟩ := (openSerialSource device).calls_moves cs
  have hqueue := hmoves.queue P_PACKET_NO_ACK
  rw [htook, ← hdispatched, ← hsrc] at hqueue
  rw [← hsrc] at hmoves
  exact ⟨bs, hmoves.incoming, hqueue.symm⟩

def busyLine : Device :=
  ⟨[.data (frameOf [69, 1, 2]), .data (frameOf [67, 38])], [], [], [], []⟩

def idle : Forwarder :=
  ⟨openSerialSource busyLine, 3, 4, [], 0, 0, 0, false, 0, [], [], []⟩

/-- A client comes; a packet comes in, and a second client after it; the first client sends a packet, and leaves. -/
def visit : List Turn :=
  [⟨some [4], some (5, ⟨[.count 0], [], [85, 32, 2, 8, 9], []⟩)⟩, ⟨some [3, 4], some (6, ⟨[], [.intr], [85, 33], []⟩)⟩,
    ⟨some [5], none⟩, ⟨some [5], none⟩]

def visited : Forwarder :=
  ((serialForwarder busyLine).replay idle visit).getD idle

def visitor : Client :=
  ⟨5, ⟨[], [], [], [85, 32, 2, 1, 2]⟩, 0, ⟨[.count 0], [], [85, 32, 2, 8, 9], []⟩, 0⟩

private theorem visit_replayed : ((serialForwarder busyLine).replay idle visit).isSome ∧ visitor ∈ visited.closed := by
  refine ⟨?_, ?_⟩ <;> decide +kernel

private theorem visited_reachable : (serialForwarder busyLine).Reachable (fun _ _ => True) visited :=
  .of_replay ⟨3, 4, by decide, rfl⟩ visit (Transition.replay_getD visit_replayed.1 idle)

/-- Every connection that was ever accepted is a member of the list or was closed, once and not both; the members are as
many as `num_clients` says, and have descriptors of their own. -/
theorem connections {device : Device} {s : Forwarder} (h : (serialForwarder device).Reachable (fun _ _ => True) s) :
    ((s.clients ++ s.closed).map (·.id)).Perm (List.range s.accepts) ∧ s.numClients = s.clients.length ∧
      s.watched.Nodup :=
  ⟨(reachable_kept h).ids, (reachable_kept h).count, (reachable_kept h).fds⟩

theorem connections_visited : visited.numClients = visited.clients.length ∧ visited.watched.Nodup :=
  (connections visited_reachable).2

/-- The packets that were dispatched are the first of those that came in, and every member of the list has been sent all
of them since it came, each once, whole and in order; a connection that was closed has been sent the front of that. -/
theorem relayed {device : Device} {s : Forwarder} (h : (serialForwarder device).Reachable (fun _ _ => True) s) :
    (∃ bs, device.reads.flatMap ReadAnswer.bytes = bs ++ s.src.incoming ∧
        s.dispatched ++ s.src.queue P_PACKET_NO_ACK = entries P_PACKET_NO_ACK (bodies .lost bs)) ∧
      (∀ c ∈ s.clients, c.socket.sent = c.due s.dispatched) ∧ ∀ c ∈ s.closed, c.socket.sent <+: c.due s.dispatched := by
  have hkept := reachable_kept h
  exact ⟨hkept.dispatched_entries, fun c hc => (hkept.clients c hc).sent, fun c hc => (hkept.closed c hc).sent⟩

theorem relayed_visited : visitor.socket.sent <+: visitor.due visited.dispatched :=
  (relayed visited_reachable).2.2 visitor visit_replayed.2

/-- As long as the line takes what is written, it has been sent the packets of the clients under successive numbers; and
those of one client are the first that it sent behind its greeting, in order and each once. -/
theorem collected {device : Device} {s : Forwarder} (h : (serialForwarder device).Reachable (fun _ _ => True) s) :
    (Transfer.Sound device.writes → ∃ out : List (List UInt8), s.src.sent = device.sent ++ out.flatMap frameOf ∧
        out.filter (¬ IsAck ·) = dataBodies 37 (s.forwarded.map (·.2))) ∧
      (∀ c ∈ s.clients, c.Consumed s.forwarded c.socket.stream) ∧
      ∀ c ∈ s.closed, packetsOf s.forwarded c.id = [] ∨ ∃ tail, c.Consumed s.forwarded tail := by
  have hkept := reachable_kept h
  obtain ⟨cs, hsrc, -, hforwarded⟩ := hkept.calls
  obtain ⟨bs, took, hmoves, -⟩ := (openSerialSource device).calls_moves cs
  refine ⟨fun hw => ?_, fun c hc => (hkept.clients c hc).stream, fun c hc => (hkept.closed c hc).stream⟩
  obtain ⟨-, out, hsent, -, hdata⟩ := hmoves.sent hw
  exact ⟨out, by rw [hsrc]; exact hsent, by rw [hforwarded]; exact hdata⟩

theorem collected_visited : ∃ out : List (List UInt8), visited.src.sent = busyLine.sent ++ out.flatMap frameOf ∧
    out.filter (¬ IsAck ·) = dataBodies 37 (visited.forwarded.map (·.2)) :=
  (collected visited_reachable).1 (by decide)

/-- A connection is closed for what happened on it: a call on it failed, it did not begin with a greeting, or it ended.
Other clients and the serial line lose a client only when the forwarder exits, and that only after the line did not take
what was written. -/
theorem isolated {device : Device} {s : Forwarder} (h : (serialForwarder device).Reachable (fun _ _ => True) s) :
    (∀ c ∈ s.closed, c.Gone s.forwarded) ∧ (s.exited = true → ¬ Transfer.Sound device.writes) :=
  ⟨fun c hc => ((reachable_kept h).closed c hc).gone, (reachable_kept h).exited⟩

theorem isolated_visited : visitor.Gone visited.forwarded ∧ ¬ visited.exited = true :=
  ⟨(isolated visited_reachable).1 visitor visit_replayed.2,
    fun hexited => (isolated visited_reachable).2 hexited (by decide)⟩

end Forwarder
end TinyosGraphics.Serial
