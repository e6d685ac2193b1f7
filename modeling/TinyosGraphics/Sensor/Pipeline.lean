import TinyosGraphics.Sensor.Ingest
import TinyosGraphics.Serial.Forwarder

/-! The way of a packet: from the serial line through the forwarder to a sensor client, through the client's check, and
into the database. -/
namespace TinyosGraphics.Sensor
open Lib Serial

/-- The client's `while (running)` on its connection to the forwarder, until there is no further packet: the packets
that are written to the server. -/
def clientLoop (s : Socket) : Option (List (List UInt8)) :=
  match _h : s.readSfPacket.1 with
  | none => some []
  | some packet => do
    let ret ← checkPacket packet
    let forwarded ← clientLoop s.readSfPacket.2
    return if ret < 0 then forwarded else packet :: forwarded
termination_by s.stream.length
decreasing_by
  obtain ⟨packet', -, -, hstream⟩ | ⟨hnone, -⟩ := s.readSfPacket_cases
  · rw [hstream, sfFrame, List.length_append, List.length_cons]
    omega
  · rw [hnone] at _h
    cases _h

/-- As long as no read fails, it does not matter how the connection cuts its bytes. -/
private theorem clientLoop_eq {s : Socket} (h : Transfer.Sound s.reads) : clientLoop s = forwardLoop s.stream := by
  fun_induction clientLoop s with
  | case1 s hnone =>
    obtain ⟨packet, hsome, -⟩ | ⟨-, hunsound | hended⟩ := s.readSfPacket_cases
    · rw [hsome] at hnone
      cases hnone
    · exact absurd h hunsound
    · rw [forwardLoop]
      split
      · rfl
      · rename_i hsome
        rw [Ended, hsome] at hended
        cases hended
  | case2 s packet hsome ih =>
    obtain ⟨packet', hsome', hle, hstream⟩ | ⟨hnone, -⟩ := s.readSfPacket_cases
    · obtain rfl := Option.some.inj (hsome.symm.trans hsome')
      have hread := readSfPacket_frame packet s.readSfPacket.2.stream
      rw [take_short hle, ← hstream] at hread
      rw [ih (h.of_suffix s.readSfPacket_gets.reads)]
      conv_rhs => rw [forwardLoop]
      split
      · rename_i hnone
        rw [hread] at hnone
        cases hnone
      · rename_i hfound
        rw [hread] at hfound
        obtain ⟨rfl, rfl⟩ := Prod.mk.inj (Option.some.inj hfound)
        rfl
    · rw [hnone] at hsome
      cases hsome

/-- What a base station puts on the line for a packet. -/
def Packet.frame (p : Packet) : List UInt8 :=
  frameOf (P_PACKET_NO_ACK :: p.bytes)

private theorem checkPacket_bytes (p : Packet) : checkPacket p.bytes = some 0 := by
  have hlength : (p.bytes.length : Int) - 8 = 24 := by
    rw [p.bytes_length]
    rfl
  rw [checkPacket, hlength]
  exact p.accepted

private theorem forwardLoop_packets (ps : List Packet) :
    forwardLoop ((ps.map Packet.bytes).flatMap sfFrame) = some (ps.map Packet.bytes) := by
  have hshort : ∀ b ∈ ps.map Packet.bytes, b.length ≤ 255 := by
    intro b hb
    obtain ⟨p, -, rfl⟩ := List.mem_map.mp hb
    rw [p.bytes_length]
    decide
  rw [forwardLoop_spec, packets_short hshort, if_pos, List.filter_eq_self.mpr]
  · intro b hb
    obtain ⟨p, -, rfl⟩ := List.mem_map.mp hb
    exact decide_eq_true (checkPacket_bytes p)
  · intro b hb
    obtain ⟨p, -, rfl⟩ := List.mem_map.mp hb
    rw [p.bytes_length]
    decide

/-- The packets of a line on which a base station sends; the forwarder may have come in the middle of a frame. -/
private theorem entries_frames (noise : List UInt8) (hnoise : SYNC_BYTE ∉ noise) (ps : List Packet) :
    entries P_PACKET_NO_ACK (bodies .lost (noise ++ ps.flatMap Packet.frame)) = ps.map Packet.bytes := by
  have hlost : hdlc.feedAll MTU .lost noise = (.lost, []) := Stuffing.feedAll_lost rfl hnoise
  have hframes : ps.flatMap Packet.frame = (ps.map fun p => P_PACKET_NO_ACK :: p.bytes).flatMap frameOf := by
    rw [List.flatMap_map]
    rfl
  have hlong : ∀ body ∈ ps.map fun p => P_PACKET_NO_ACK :: p.bytes, 2 ≤ body.length ∧ Fits body := by
    intro body hbody
    obtain ⟨p, -, rfl⟩ := List.mem_map.mp hbody
    rw [Fits, List.length_cons, p.bytes_length]
    decide
  have hnone : bodies .lost noise = [] := by
    rw [bodies, hlost]
    rfl
  rw [bodies_append, hnone, hlost, List.nil_append, hframes,
    bodies_frames (.inl rfl) fun body hbody => (hlong body hbody).1,
    List.filter_eq_self.mpr fun body hbody => decide_eq_true (hlong body hbody).2]
  rw [entries, List.filterMap_map, ← List.filterMap_eq_map]
  rfl

private theorem greeted {t : Socket} (hreads : Transfer.Sound t.reads) (hwrites : Transfer.Sound t.writes)
    {rest : List UInt8}
    (hstream : t.stream = [85, 32] ++ rest) :
    t.initSfSource.1 = true ∧ t.initSfSource.2.stream = rest ∧ Transfer.Sound t.initSfSource.2.reads := by
  have hgreeting : Greeting [85, 32] := ⟨32, rfl, by decide⟩
  have hgreets := t.initSfSource_greets
  have hok : t.initSfSource.1 = true := by
    by_contra hno
    obtain hunsound | hunsound | hnone := hgreets.failed (Bool.eq_false_iff.mpr hno)
    · exact hunsound hwrites
    · exact hunsound hreads
    · exact hnone ⟨_, hgreeting, rest, hstream.symm⟩
  obtain ⟨_, ⟨theirs, rfl, -⟩, hcheck⟩ := hgreets.stream hok
  rw [hstream] at hcheck
  obtain ⟨-, hrest⟩ := List.append_inj hcheck rfl
  exact ⟨hok, hrest.symm, hreads.of_suffix hgreets.reads⟩

/-- A client passes on the packets that were dispatched since it came, and the server records each of them once. -/
theorem dispatched_recorded {device : Device} {s : Forwarder}
    (h : (serialForwarder device).Reachable (fun _ _ => True) s) {ps : List Packet} {n : Nat}
    (hdispatched : s.dispatched = (ps.take n).map Packet.bytes) {c : Client} (hc : c ∈ s.clients)
    (hfresh : c.offered.sent = []) {t : Socket} (hreads : Transfer.Sound t.reads) (hwrites : Transfer.Sound t.writes)
    (hstream : t.stream = c.socket.sent) :
    t.initSfSource.1 = true ∧ clientLoop t.initSfSource.2 = some (((ps.take n).drop c.since).map Packet.bytes) ∧
      ∀ (T : Type) (celsius : UInt16 → T) (netname : List UInt8), RecordsPackets celsius netname
        ((ps.take n).drop c.since) (List.replicate ((ps.take n).drop c.since).length 32) := by
  have hrest : c.socket.sent = [85, 32] ++ (((ps.take n).drop c.since).map Packet.bytes).flatMap sfFrame := by
    rw [((Forwarder.reachable_kept h).clients c hc).sent, Client.due, hfresh, List.nil_append, List.map_drop,
      ← hdispatched]
  obtain ⟨hok, ht, hsound⟩ := greeted hreads hwrites (hstream.trans hrest)
  refine ⟨hok, ?_, fun T celsius netname => ?_⟩
  · rw [clientLoop_eq hsound, ht]
    exact forwardLoop_packets _
  · rw [RecordsPackets, cut_packets]
    exact childLoop_packets _ _ _ _

/-- A base station sends two packets; the forwarder comes in late, and the second frame arrives in two parts. -/
def baseLine : Device :=
  ⟨[.data [1, 125], .data blank.frame, .again, .intr, .data (marked.frame.take 20), .data (marked.frame.drop 20)],
    [], [], [], []⟩

def waiting : Forwarder :=
  ⟨openSerialSource baseLine, 3, 4, [], 0, 0, 0, false, 0, [], [], []⟩

def listening : List Forwarder.Turn :=
  ⟨some [4], some (5, ⟨[], [.intr, .count 1], [85, 32], []⟩)⟩ :: List.replicate 4 ⟨some [3], none⟩

def listened : Forwarder :=
  ((serialForwarder baseLine).replay waiting listening).getD waiting

def listener : Client :=
  listened.clients.getD 0 Forwarder.visitor

def reader : Socket :=
  ⟨[.count 0, .intr, .count 4], [.count 1], listener.socket.sent, []⟩

private theorem listening_replayed :
    baseLine.reads.flatMap ReadAnswer.bytes = [1, 125] ++ [blank, marked].flatMap Packet.frame ∧
      ((serialForwarder baseLine).replay waiting listening).isSome ∧ listener ∈ listened.clients ∧
      listener.offered.sent = [] ∧ listener.since = 0 ∧ listened.src.incoming = [] ∧
      listened.src.queue P_PACKET_NO_ACK = [] ∧
      clientLoop reader.initSfSource.2 = some [blank.bytes, marked.bytes] := by
  refine ⟨?_, ?_, ?_, ?_, ?_, ?_, ?_, ?_⟩ <;> decide +kernel

private theorem listened_reachable : (serialForwarder baseLine).Reachable (fun _ _ => True) listened :=
  .of_replay ⟨3, 4, by decide, rfl⟩ listening (Transition.replay_getD listening_replayed.2.1 waiting)

/-- In every state of the forwarder: whoever connected to it, and however the line, the connections and the calls on
them behaved, a sensor client that reads from its connection passes on the packets that the base station sent since it
came, as far as they were dispatched, whole and in order, and the server records each of them once. -/
theorem recorded_throughout {device : Device} {s : Forwarder}
    (h : (serialForwarder device).Reachable (fun _ _ => True) s) {noise : List UInt8} (hnoise : SYNC_BYTE ∉ noise)
    {ps : List Packet} (hline : device.reads.flatMap ReadAnswer.bytes = noise ++ ps.flatMap Packet.frame) {c : Client}
    (hc : c ∈ s.clients) (hfresh : c.offered.sent = []) {t : Socket} (hreads : Transfer.Sound t.reads)
    (hwrites : Transfer.Sound t.writes) (hstream : t.stream = c.socket.sent) :
    ∃ n ≤ ps.length, (s.src.incoming = [] → s.src.queue P_PACKET_NO_ACK = [] → n = ps.length) ∧
      t.initSfSource.1 = true ∧
      clientLoop t.initSfSource.2 = some (((ps.take n).drop c.since).map Packet.bytes) ∧
      ∀ (T : Type) (celsius : UInt16 → T) (netname : List UInt8), RecordsPackets celsius netname
        ((ps.take n).drop c.since) (List.replicate ((ps.take n).drop c.since).length 32) := by
  have hkept := Forwarder.reachable_kept h
  obtain ⟨bs, hbs, hqueue⟩ := hkept.dispatched_entries
  have hpackets := entries_frames noise hnoise ps
  rw [← hline] at hpackets
  have hbegins : s.dispatched <+: ps.map Packet.bytes := by
    have hfront : s.dispatched <+: entries P_PACKET_NO_ACK (bodies .lost bs) := by
      rw [← hqueue]
      exact List.prefix_append _ _
    rw [← hpackets]
    exact hfront.trans ((bodies_begins _ ⟨_, hbs.symm⟩).filterMap _)
  have hdispatched : s.dispatched = (ps.take s.dispatched.length).map Packet.bytes := by
    rw [List.map_take]
    exact List.prefix_iff_eq_take.mp hbegins
  have hle : s.dispatched.length ≤ ps.length := by simpa using hbegins.length_le
  obtain ⟨hok, hloop, hrecords⟩ := dispatched_recorded h hdispatched hc hfresh hreads hwrites hstream
  refine ⟨s.dispatched.length, hle, fun hnone hempty => ?_, hok, hloop, hrecords⟩
  rw [hnone, List.append_nil] at hbs
  rw [hempty, List.append_nil, ← hbs, hpackets] at hqueue
  rw [hqueue, List.length_map]

theorem recorded_throughout_listened : clientLoop reader.initSfSource.2 = some [blank.bytes, marked.bytes] := by
  obtain ⟨hline, -, hmem, hfresh, hsince, hincoming, hqueue, -⟩ := listening_replayed
  obtain ⟨n, -, hall, -, hloop, -⟩ := recorded_throughout listened_reachable (by decide) hline hmem
    hfresh (t := reader) (by decide) (by decide) rfl
  have hn : n = 2 := hall hincoming hqueue
  rw [hn, hsince] at hloop
  exact hloop

end TinyosGraphics.Sensor
