import TinyosGraphics.Lib.Transfer
import TinyosGraphics.Sensor.ShortPackets

/-! `sfsource.c`: the protocol between a serial forwarder and its clients, on a connection whose calls may be
interrupted, move fewer bytes than they were asked for, or fail. -/
namespace TinyosGraphics.Serial
open Lib

/-- A connection: how the calls on it end, what is still to come from the other side, and what was written. -/
structure Socket where
  reads : List Transfer.Answer
  writes : List Transfer.Answer
  stream : List UInt8
  sent : List UInt8
  deriving DecidableEq

namespace Socket

/-- `saferead`; `none` stands for the result -1. -/
def saferead (s : Socket) (count : Nat) : Option (List UInt8) × Socket :=
  let (bs, stream, reads) := Transfer.readLoop s.reads count s.stream
  (bs, { s with stream := stream, reads := reads })

/-- `safewrite`: whether it returned `count`, and not -1. -/
def safewrite (s : Socket) (bs : List UInt8) : Bool × Socket :=
  let (out, all, writes) := Transfer.writeLoop s.writes bs
  (all, { s with writes := writes, sent := s.sent ++ out })

/-- The version that both sides know; a `char` is signed. -/
def sfVersion (theirs : UInt8) : Int :=
  if 32 < theirs.toInt8.toInt then 32 else theirs.toInt8.toInt

/-- `init_sf_source`: whether it returned 0. -/
def initSfSource (s : Socket) : Bool × Socket :=
  let (written, s) := s.safewrite [85, 32]
  if written then
    let (check, s) := s.saferead 2
    match check with
    | some [u, theirs] => (u = 85 ∧ sfVersion theirs = 32, s)
    | _ => (false, s)
  else (false, s)

/-- `read_sf_packet`, with enough memory for the packet. -/
def readSfPacket (s : Socket) : Option (List UInt8) × Socket :=
  match s.saferead 1 with
  | (some [l], s) =>
    match s.saferead l.toNat with
    | (some packet, s) => (if packet.length = l.toNat then some packet else none, s)
    | (none, s) => (none, s)
  | (_, s) => (none, s)

/-- `write_sf_packet`: whether it returned 0. The length is cut down to a byte, and the packet with it. -/
def writeSfPacket (s : Socket) (packet : List UInt8) : Bool × Socket :=
  let l := UInt8.ofNat packet.length
  let (written, s) := s.safewrite [l]
  if written then s.safewrite (packet.take l.toNat) else (false, s)

end Socket

def sfFrame (packet : List UInt8) : List UInt8 :=
  UInt8.ofNat packet.length :: packet.take (UInt8.ofNat packet.length).toNat

/-- The two bytes with which the other side says that it follows the protocol. -/
def Greeting (check : List UInt8) : Prop :=
  ∃ theirs, check = [85, theirs] ∧ Socket.sfVersion theirs = 32

/-- The stream ends in the middle of a packet, or before one. -/
def Ended (stream : List UInt8) : Prop :=
  Sensor.readSfPacket stream = none

instance (stream : List UInt8) : Decidable (Ended stream) :=
  inferInstanceAs (Decidable (_ = none))

theorem take_short {packet : List UInt8} (h : packet.length ≤ 255) :
    packet.take (UInt8.ofNat packet.length).toNat = packet := by
  rw [UInt8.toNat_ofNat', Nat.mod_eq_of_lt (by omega), List.take_length]

private theorem sfFrame_short {packet : List UInt8} (h : packet.length ≤ 255) :
    sfFrame packet = UInt8.ofNat packet.length :: packet := by
  rw [sfFrame, take_short h]

private theorem readSfPacket_cons (l : UInt8) (stream : List UInt8) :
    Sensor.readSfPacket (l :: stream) =
      if (stream.take l.toNat).length = l.toNat then some (stream.take l.toNat, stream.drop l.toNat) else none := rfl

/-- A frame holds as many bytes as it says. -/
theorem readSfPacket_frame (packet rest : List UInt8) :
    Sensor.readSfPacket (sfFrame packet ++ rest) = some (packet.take (UInt8.ofNat packet.length).toNat, rest) := by
  have hlength : (packet.take (UInt8.ofNat packet.length).toNat).length = (UInt8.ofNat packet.length).toNat := by
    rw [List.length_take, UInt8.toNat_ofNat', Nat.min_eq_left (Nat.mod_le _ _)]
  rw [sfFrame, List.cons_append, readSfPacket_cons, List.take_left' hlength, List.drop_left' hlength, if_pos hlength]

/-- What one end writes, whatever the lengths, the other end reads packet by packet. -/
private theorem packets_frames (ps : List (List UInt8)) (tail : List UInt8) :
    Sensor.packets (ps.flatMap sfFrame ++ tail) =
      ps.map (fun p => p.take (UInt8.ofNat p.length).toNat) ++ Sensor.packets tail := by
  induction ps with
  | nil => rfl
  | cons p ps ih =>
    have hread := readSfPacket_frame p (ps.flatMap sfFrame ++ tail)
    rw [List.flatMap_cons, List.append_assoc, Sensor.packets, List.map_cons, List.cons_append, ← ih]
    split
    · rename_i hnone
      rw [hread] at hnone
      cases hnone
    · rename_i hsome
      rw [hread] at hsome
      obtain ⟨rfl, rfl⟩ := Prod.mk.inj (Option.some.inj hsome)
      rfl

theorem packets_short {ps : List (List UInt8)} (h : ∀ p ∈ ps, p.length ≤ 255) :
    Sensor.packets (ps.flatMap sfFrame) = ps := by
  have hnil : Sensor.packets [] = [] := by
    rw [Sensor.packets]
    rfl
  have hpackets := packets_frames ps []
  rw [List.append_nil, hnil, List.append_nil] at hpackets
  rw [hpackets]
  exact (List.map_congr_left fun p hp => take_short (h p hp)).trans (List.map_id ps)

structure Writes (s s' : Socket) (bs : List UInt8) (ok : Bool) : Prop where
  reads : s'.reads = s.reads
  stream : s'.stream = s.stream
  writes : s'.writes <:+ s.writes
  sent : ∃ out, s'.sent = s.sent ++ out ∧ out <+: bs ∧ (ok = true → out = bs)
  failed : ok = false → ¬ Transfer.Sound s.writes

structure Gets (s s' : Socket) : Prop where
  reads : s'.reads <:+ s.reads
  stream : s'.stream <:+ s.stream
  writes : s'.writes = s.writes
  sent : s'.sent = s.sent

theorem Gets.trans {s t u : Socket} (h : Gets s t) (h' : Gets t u) : Gets s u :=
  ⟨h'.reads.trans h.reads, h'.stream.trans h.stream, h'.writes.trans h.writes, h'.sent.trans h.sent⟩

namespace Socket

private theorem safewrite_writes (s : Socket) (bs : List UInt8) :
    Writes s (s.safewrite bs).2 bs (s.safewrite bs).1 where
  reads := rfl
  stream := rfl
  writes := Transfer.writeLoop_answers _ _
  sent := ⟨_, rfl, Transfer.writeLoop_begins _ _, Transfer.writeLoop_all⟩
  failed hfailed hsound := Bool.false_ne_true (hfailed.symm.trans (Transfer.writeLoop_sound hsound bs))

private theorem saferead_gets (s : Socket) (count : Nat) : Gets s (s.saferead count).2 :=
  ⟨Transfer.readLoop_answers _ _ _, Transfer.readLoop_suffix _ _ _, rfl, rfl⟩

private theorem saferead_cases (s : Socket) (count : Nat) :
    ((s.saferead count).1 = none ∧ ¬ Transfer.Sound s.reads) ∨
      ((s.saferead count).1 = some (s.stream.take count) ∧ (s.saferead count).2.stream = s.stream.drop count) := by
  by_cases hnone : (s.saferead count).1 = none
  · exact .inl ⟨hnone, fun hsound => Transfer.readLoop_sound hsound count s.stream hnone⟩
  · exact .inr (Transfer.readLoop_some hnone)

theorem writeSfPacket_writes (s : Socket) (packet : List UInt8) :
    Writes s (s.writeSfPacket packet).2 (sfFrame packet) (s.writeSfPacket packet).1 := by
  have hlength := s.safewrite_writes [UInt8.ofNat packet.length]
  unfold writeSfPacket
  dsimp only
  cases hok : (s.safewrite [UInt8.ofNat packet.length]).1 with
  | false =>
    rw [hok] at hlength
    obtain ⟨out, hsent, hout, -⟩ := hlength.sent
    exact ⟨hlength.reads, hlength.stream, hlength.writes,
      ⟨out, hsent, hout.trans (List.prefix_append _ _), nofun⟩, fun _ => hlength.failed rfl⟩
  | true =>
    rw [hok] at hlength
    obtain ⟨out, hsent, -, hout⟩ := hlength.sent
    obtain rfl := hout rfl
    have hrest := (s.safewrite [UInt8.ofNat packet.length]).2.safewrite_writes
      (packet.take (UInt8.ofNat packet.length).toNat)
    obtain ⟨out, hsent', hout, hall⟩ := hrest.sent
    refine ⟨hrest.reads.trans hlength.reads, hrest.stream.trans hlength.stream, hrest.writes.trans hlength.writes,
      ⟨UInt8.ofNat packet.length :: out, ?_, ?_, fun h => congrArg _ (hall h)⟩,
      fun h hsound => hrest.failed h (hsound.of_suffix hlength.writes)⟩
    · rw [if_pos rfl, hsent', hsent, List.append_assoc]
      rfl
    · exact (List.prefix_cons_inj _).mpr hout

theorem readSfPacket_gets (s : Socket) : Gets s s.readSfPacket.2 := by
  have hfirst := s.saferead_gets 1
  unfold readSfPacket
  split
  · rename_i l t ht
    rw [ht] at hfirst
    have hsecond := t.saferead_gets l.toNat
    split
    all_goals
      rename_i hu
      rw [hu] at hsecond
      exact hfirst.trans hsecond
  · rename_i t _ ht
    rw [ht] at hfirst
    exact hfirst

/-- A read that ends well has taken one frame from the stream. -/
theorem readSfPacket_cases (s : Socket) :
    (∃ packet, s.readSfPacket.1 = some packet ∧ packet.length ≤ 255 ∧
      s.stream = sfFrame packet ++ s.readSfPacket.2.stream) ∨
      (s.readSfPacket.1 = none ∧ (¬ Transfer.Sound s.reads ∨ Ended s.stream)) := by
  have hfirst := s.saferead_cases 1
  have hreads := (s.saferead_gets 1).reads
  unfold readSfPacket
  generalize s.saferead 1 = first at hfirst hreads ⊢
  obtain ⟨bs, t⟩ := first
  obtain ⟨rfl, hunsound⟩ | ⟨rfl, hstream⟩ := hfirst
  · exact .inr ⟨rfl, .inl hunsound⟩
  · dsimp only at hstream hreads
    cases hs : s.stream with
    | nil => exact .inr ⟨rfl, .inr rfl⟩
    | cons l rest =>
      rw [hs, List.drop_succ_cons, List.drop_zero] at hstream
      have hsecond := t.saferead_cases l.toNat
      rw [hstream] at hsecond
      dsimp only [List.take_succ_cons, List.take_zero]
      generalize t.saferead l.toNat = second at hsecond ⊢
      obtain ⟨bs, u⟩ := second
      obtain ⟨rfl, hunsound⟩ | ⟨rfl, hleft⟩ := hsecond
      · exact .inr ⟨rfl, .inl fun hsound => hunsound (hsound.of_suffix hreads)⟩
      · dsimp only at hleft ⊢
        by_cases hlength : (rest.take l.toNat).length = l.toNat
        · have hle : (rest.take l.toNat).length ≤ 255 := hlength.trans_le (Nat.le_of_lt_succ l.toNat_lt)
          refine .inl ⟨_, if_pos hlength, hle, ?_⟩
          rw [sfFrame_short hle, hlength, UInt8.ofNat_toNat, hleft, List.cons_append, List.take_append_drop]
        · refine .inr ⟨if_neg hlength, .inr ?_⟩
          rw [Ended, readSfPacket_cons, if_neg hlength]

/-- What `init_sf_source` comes to. -/
structure Greets (s s' : Socket) (ok : Bool) : Prop where
  reads : s'.reads <:+ s.reads
  writes : s'.writes <:+ s.writes
  sent : ∃ out, s'.sent = s.sent ++ out ∧ out <+: [85, 32] ∧ (ok = true → out = [85, 32])
  stream : ok = true → ∃ check, Greeting check ∧ s.stream = check ++ s'.stream
  failed : ok = false → ¬ Transfer.Sound s.writes ∨ ¬ Transfer.Sound s.reads ∨
    ¬ ∃ check, Greeting check ∧ check <+: s.stream

theorem initSfSource_greets (s : Socket) : Greets s s.initSfSource.2 s.initSfSource.1 := by
  have hwrites := s.safewrite_writes [85, 32]
  unfold initSfSource
  dsimp only
  generalize s.safewrite [85, 32] = first at hwrites ⊢
  obtain ⟨written, t⟩ := first
  cases written with
  | false =>
    have hreads : t.reads <:+ s.reads := hwrites.reads ▸ List.suffix_rfl
    exact ⟨hreads, hwrites.writes, hwrites.sent, nofun, fun _ => .inl (hwrites.failed rfl)⟩
  | true =>
    dsimp only at hwrites ⊢
    have hgets := t.saferead_gets 2
    have hcases := t.saferead_cases 2
    rw [hwrites.stream, hwrites.reads] at hcases
    rw [if_pos rfl]
    generalize t.saferead 2 = second at hgets hcases ⊢
    obtain ⟨check, u⟩ := second
    dsimp only at hgets hcases ⊢
    have hreads : u.reads <:+ s.reads := hwrites.reads ▸ hgets.reads
    have hwritten : u.writes <:+ s.writes := hgets.writes ▸ hwrites.writes
    obtain ⟨out, hsent, hout, hall⟩ := hwrites.sent
    rw [← hgets.sent] at hsent
    have hrefused (hfailed : ¬ Transfer.Sound s.writes ∨ ¬ Transfer.Sound s.reads ∨
        ¬ ∃ check, Greeting check ∧ check <+: s.stream) : Greets s u false :=
      ⟨hreads, hwritten, ⟨out, hsent, hout, nofun⟩, nofun, fun _ => hfailed⟩
    obtain ⟨rfl, hunsound⟩ | ⟨rfl, hstream⟩ := hcases
    · exact hrefused (.inr (.inl hunsound))
    · cases hs : s.stream with
      | nil =>
        refine hrefused (.inr (.inr ?_))
        rintro ⟨_, ⟨theirs, rfl, -⟩, hbegins⟩
        rw [hs, List.prefix_nil] at hbegins
        cases hbegins
      | cons a rest =>
        cases rest with
        | nil =>
          refine hrefused (.inr (.inr ?_))
          rintro ⟨_, ⟨theirs, rfl, -⟩, hbegins⟩
          rw [hs] at hbegins
          exact absurd hbegins.length_le (show ¬ 2 ≤ 1 by decide)
        | cons b rest =>
          show Greets s u (decide (a = 85 ∧ sfVersion b = 32))
          by_cases hgood : a = 85 ∧ sfVersion b = 32
          · rw [decide_eq_true hgood]
            have hgreeting : Greeting [a, b] := ⟨b, by rw [hgood.1], hgood.2⟩
            refine ⟨hreads, hwritten, ⟨out, hsent, hout, hall⟩, fun _ => ⟨[a, b], hgreeting, ?_⟩, nofun⟩
            rw [hstream, hs]
            rfl
          · rw [decide_eq_false hgood]
            refine hrefused (.inr (.inr ?_))
            rintro ⟨_, ⟨theirs, rfl, hversion⟩, hbegins⟩
            rw [hs, List.cons_prefix_cons, List.cons_prefix_cons] at hbegins
            exact hgood ⟨hbegins.1.symm, hbegins.2.1 ▸ hversion⟩

end Socket

end TinyosGraphics.Serial
