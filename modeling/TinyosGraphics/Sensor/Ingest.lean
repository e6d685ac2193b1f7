import TinyosGraphics.Sensor.Wire

/-! The sensor server's child: what its read loop records of the byte stream that a sensor client
writes. A read returns some of the bytes that have arrived, and the loop takes it for one packet. -/
namespace TinyosGraphics.Sensor
open Lib Motes

variable {T : Type}

/-- `node_t`, as far as it is filled in after the `memset`. -/
structure NodeInfo where
  networkName : List UInt8
  nodeId : UInt16
  parentId : UInt16
  position : NodePosition
  deriving DecidableEq

/-- `sensor_t`; `temp` is what `Celsius` makes of the reading. -/
structure SenseRecord (T : Type) where
  networkName : List UInt8
  nodeId : UInt16
  temp : T
  photo : UInt16
  sound : UInt16
  xAcc : UInt16
  yAcc : UInt16
  xMag : UInt16
  yMag : UInt16
  deriving DecidableEq

/-- `network_t`; `quality` stays 0. -/
structure NetworkInfo where
  networkName : List UInt8
  nodeId : UInt16
  parentId : UInt16
  deriving DecidableEq

inductive DbCall (T : Type)
  | updateNodeInfo (info : NodeInfo)
  | insertSenseRecord (info : SenseRecord T)
  | updateNetwork (info : NetworkInfo)
  deriving DecidableEq

/-- `insert_mesg_to_db` on the buffer `msg`, of which `len` bytes were read: the database calls it
makes. `celsius` is the floating-point function `Celsius`. -/
def insertMesgToDb (celsius : UInt16 → T) (msg : List UInt8) (len : Nat) (networkName : List UInt8) :
    Option (List (DbCall T)) := do
  -- the data starts behind the header, but is given the length of the whole packet
  let tmsg := newTmsg (msg.drop 8) len
  let nodeId ← sensorMsgNodeIdGet tmsg
  let isRoot := nodeId = 0
  let nodeInfo : NodeInfo :=
    ⟨networkName, nodeId, ← sensorMsgParentIdGet tmsg,
      ⟨← sensorMsgPositionXGet tmsg, ← sensorMsgPositionYGet tmsg⟩⟩
  let senseRecord : SenseRecord T :=
    ⟨networkName, nodeId, celsius (← sensorMsgSensorTempGet tmsg), ← sensorMsgSensorPhotoGet tmsg,
      ← sensorMsgSensorSoundGet tmsg, ← sensorMsgSensorXAccGet tmsg, ← sensorMsgSensorYAccGet tmsg,
      ← sensorMsgSensorXMagGet tmsg, ← sensorMsgSensorYMagGet tmsg⟩
  let network : NetworkInfo := ⟨networkName, nodeId, ← sensorMsgParentIdGet tmsg⟩
  return [.updateNodeInfo nodeInfo] ++ (if isRoot then [] else [.insertSenseRecord senseRecord]) ++
    [.updateNetwork network]

def MAX_BUFF_LENGTH : Nat := 1024

/-- `read` into the buffer. -/
def readInto (msg bs : List UInt8) : List UInt8 :=
  bs ++ msg.drop bs.length

/-- The child's `while (running)`, for reads that return these bytes: one list of database calls for
each read. -/
def childLoop (celsius : UInt16 → T) (netname : List UInt8) :
    List UInt8 → List (List UInt8) → Option (List (List (DbCall T)))
  | _, [] => some []
  | msg, bs :: reads => do
    let msg := readInto msg bs
    return (← insertMesgToDb celsius msg bs.length netname) :: (← childLoop celsius netname msg reads)

/-- A packet of 32 bytes that the client's check lets through: a serial header and a message. -/
structure Packet where
  header : List UInt8
  msg : SensorMsg
  header_length : header.length = 8
  accepted : dataCorrupt ⟨header ++ msg.bytes, 8⟩ 24 = some 0

namespace Packet

def bytes (p : Packet) : List UInt8 :=
  p.header ++ p.msg.bytes

/-- The database calls that record a packet. -/
def recorded (celsius : UInt16 → T) (netname : List UInt8) (p : Packet) : List (DbCall T) :=
  let m := p.msg
  [.updateNodeInfo ⟨netname, m.nodeId, m.parentId, m.position⟩] ++
    (if m.nodeId = 0 then []
      else [.insertSenseRecord ⟨netname, m.nodeId, celsius m.sensor.temp, m.sensor.photo, m.sensor.sound,
        m.sensor.xAcc, m.sensor.yAcc, m.sensor.xMag, m.sensor.yMag⟩]) ++
    [.updateNetwork ⟨netname, m.nodeId, m.parentId⟩]

theorem bytes_length (p : Packet) : p.bytes.length = 32 := by
  rw [bytes, List.length_append, p.header_length, SensorMsg.bytes_length]

end Packet

/-- A stream cut into pieces of the given sizes. -/
def cut : List Nat → List UInt8 → List (List UInt8)
  | [], _ => []
  | c :: cs, stream => stream.take c :: cut cs (stream.drop c)

/-- A way to cut the stream of `n` packets into the results of successive reads. -/
structure Segmentation (n : Nat) (cuts : List Nat) : Prop where
  read : ∀ c ∈ cuts, 1 ≤ c ∧ c ≤ MAX_BUFF_LENGTH
  whole : cuts.sum = 32 * n

/-- The server records exactly the packets, each by one call of `insert_mesg_to_db`, in order. -/
def RecordsPackets (celsius : UInt16 → T) (netname : List UInt8) (packets : List Packet) (cuts : List Nat) :
    Prop :=
  childLoop celsius netname (List.replicate MAX_BUFF_LENGTH 0) (cut cuts (packets.flatMap Packet.bytes)) =
    some (packets.map (Packet.recorded celsius netname))

theorem insertMesgToDb_packet (celsius : UInt16 → T) (netname back : List UInt8) (p : Packet) :
    insertMesgToDb celsius (p.bytes ++ back) 32 netname = some (p.recorded celsius netname) := by
  have hdrop : (p.bytes ++ back).drop 8 = p.msg.bytes ++ back := by
    rw [Packet.bytes, List.append_assoc, ← p.header_length, List.drop_left]
  have h := newTmsg_shows p.msg back (show 24 ≤ 32 by decide)
  simp [insertMesgToDb, hdrop, h.nodeId, h.parentId, h.positionX, h.positionY, h.temp, h.photo, h.sound,
    h.xAcc, h.yAcc, h.xMag, h.yMag, Packet.recorded]

theorem childLoop_packets (celsius : UInt16 → T) (netname msg : List UInt8) (packets : List Packet) :
    childLoop celsius netname msg (packets.map Packet.bytes) =
      some (packets.map (Packet.recorded celsius netname)) := by
  induction packets generalizing msg with
  | nil => rfl
  | cons p packets ih =>
    simp [childLoop, readInto, p.bytes_length, insertMesgToDb_packet, ih]

theorem cut_packets (packets : List Packet) :
    cut (List.replicate packets.length 32) (packets.flatMap Packet.bytes) = packets.map Packet.bytes := by
  induction packets with
  | nil => rfl
  | cons p packets ih =>
    have htake : (p.bytes ++ packets.flatMap Packet.bytes).take 32 = p.bytes := by
      rw [← p.bytes_length, List.take_left]
    have hdrop : (p.bytes ++ packets.flatMap Packet.bytes).drop 32 = packets.flatMap Packet.bytes := by
      rw [← p.bytes_length, List.drop_left]
    rw [List.length_cons, List.replicate_succ, List.flatMap_cons, cut, htake, hdrop, ih, List.map_cons]

private theorem childLoop_cons {celsius : UInt16 → T} {netname msg bs : List UInt8} {reads : List (List UInt8)}
    {groups : List (List (DbCall T))} (h : childLoop celsius netname msg (bs :: reads) = some groups) :
    ∃ g rest, insertMesgToDb celsius (readInto msg bs) bs.length netname = some g ∧
      childLoop celsius netname (readInto msg bs) reads = some rest ∧ groups = g :: rest := by
  obtain ⟨g, hinsert, h⟩ := Option.bind_eq_some_iff.mp h
  obtain ⟨rest, hrest, h⟩ := Option.bind_eq_some_iff.mp h
  exact ⟨g, rest, hinsert, hrest, (Option.some.inj h).symm⟩

theorem childLoop_length {celsius : UInt16 → T} {netname msg : List UInt8} {reads : List (List UInt8)}
    {groups : List (List (DbCall T))} (h : childLoop celsius netname msg reads = some groups) :
    groups.length = reads.length := by
  induction reads generalizing msg groups with
  | nil =>
    obtain rfl := Option.some.inj h
    rfl
  | cons bs reads ih =>
    obtain ⟨g, groups', -, hrest, rfl⟩ := childLoop_cons h
    rw [List.length_cons, List.length_cons, ih hrest]

private theorem cut_length (cuts : List Nat) (stream : List UInt8) : (cut cuts stream).length = cuts.length := by
  induction cuts generalizing stream with
  | nil => rfl
  | cons c cuts ih => rw [cut, List.length_cons, List.length_cons, ih]

theorem readInto_get (msg bs : List UInt8) (i : Nat) :
    (readInto msg bs)[i]? = if i < bs.length then bs[i]? else msg[i]? := by
  rw [readInto]
  split
  · rw [List.getElem?_append_left ‹_›]
  · rw [List.getElem?_append_right (by omega), List.getElem?_drop]
    congr 1
    omega

/-- The node that a call of `insert_mesg_to_db` records is read from bytes 8 and 9 of the buffer. -/
private theorem insertMesgToDb_nodeId {celsius : UInt16 → T} {netname msg : List UInt8} {len : Nat} {p : Packet}
    (h : insertMesgToDb celsius msg len netname = some (p.recorded celsius netname)) :
    sensorMsgNodeIdGet (newTmsg (msg.drop 8) len) = some p.msg.nodeId := by
  obtain ⟨nodeId, hget, h⟩ := Option.bind_eq_some_iff.mp h
  iterate 11 obtain ⟨_, -, h⟩ := Option.bind_eq_some_iff.mp h
  have hhead := congrArg List.head? (Option.some.inj h)
  simp only [Packet.recorded, List.cons_append, List.nil_append, List.head?_cons, Option.some.injEq,
    DbCall.updateNodeInfo.injEq, NodeInfo.mk.injEq] at hhead
  rw [hget, hhead.2.1]

theorem beWord_toNat (hi lo : UInt8) : (beWord hi lo).toNat = hi.toNat * 256 + lo.toNat := by
  have := hi.toNat_lt
  have := lo.toNat_lt
  rw [← beWord_eq]
  simp [Nat.shiftLeft_eq]
  omega

private theorem nodeId_high {data : List UInt8} {len : Nat}
    (h : sensorMsgNodeIdGet (newTmsg data len) = some 256) : data[0]? = some 1 := by
  by_cases hlen : 2 ≤ len
  · cases data with
    | nil => simp [sensorMsgNodeIdGet, sensorMsgGet, tmsgReadUbe, boundsp, newTmsg, readUbeLoop] at h
    | cons hi data =>
      cases data with
      | nil => simp [sensorMsgNodeIdGet, sensorMsgGet, tmsgReadUbe, boundsp, newTmsg, readUbeLoop] at h
      | cons lo data =>
        have hread : sensorMsgGet (8 * 0) (newTmsg (hi :: lo :: data) len) = some (beWord hi lo) :=
          sensorMsgGet_spec hlen rfl rfl
        have hword := congrArg UInt16.toNat (Option.some.inj (hread.symm.trans h))
        rw [beWord_toNat] at hword
        have := lo.toNat_lt
        have hone : hi.toNat = 1 := by
          change _ = 256 at hword
          omega
        rw [List.getElem?_cons_zero, UInt8.toNat_inj.mp (show hi.toNat = (1 : UInt8).toNat from hone)]
  · have hout : boundsp (newTmsg data len) 0 16 = false := decide_eq_false (show ¬ 0 + 16 ≤ len * 8 by omega)
    simp [sensorMsgNodeIdGet, sensorMsgGet, tmsgReadUbe, hout] at h

/-- A packet with a blank header. -/
def Packet.ofMsg (m : SensorMsg) : Packet where
  header := List.replicate 8 0
  msg := calcMsgCrc m
  header_length := rfl
  accepted := by
    have h := dataCorrupt_calcMsgCrc (List.replicate 8 0) [] m
    rwa [List.append_nil] at h

def blank : Packet := .ofMsg ⟨0, 0, ⟨0, 0⟩, ⟨0, 0, 0, 0, 0, 0, 0⟩, 0⟩

def marked : Packet := .ofMsg ⟨256, 0, ⟨0, 0⟩, ⟨0, 0, 0, 0, 0, 0, 0⟩, 0⟩

private theorem blank_bytes : blank.bytes = List.replicate 32 0 := by decide +kernel

private theorem marked_bytes (q : Nat) (h : marked.bytes[q]? = some 1) : q = 8 := by
  have hlt : q < 32 := by
    rw [← marked.bytes_length]
    exact (List.getElem?_eq_some_iff.mp h).1
  have hall : ∀ q < 32, marked.bytes[q]? = some 1 → q = 8 := by decide +kernel
  exact hall q hlt h

/-- The marked packet behind `j` blank ones, with `r` blank ones behind it. -/
def markedAt (j r : Nat) : List Packet :=
  List.replicate j blank ++ marked :: List.replicate r blank

private theorem markedAt_byte {j r q : Nat} (h : ((markedAt j r).flatMap Packet.bytes)[q]? = some 1) :
    q = 32 * j + 8 := by
  have hblank : ∀ i : Nat, ((List.replicate r blank).flatMap Packet.bytes)[i]? ≠ some 1 := by
    intro i hone
    obtain ⟨p, hp, hb⟩ := List.mem_flatMap.mp (List.mem_of_getElem? hone)
    rw [List.eq_of_mem_replicate hp, blank_bytes] at hb
    exact absurd (List.eq_of_mem_replicate hb) (by decide)
  induction j generalizing q with
  | zero =>
    rw [markedAt, List.replicate_zero, List.nil_append, List.flatMap_cons] at h
    by_cases hq : q < 32
    · rw [List.getElem?_append_left (by rw [marked.bytes_length]; exact hq)] at h
      exact marked_bytes q h
    · rw [List.getElem?_append_right (by rw [marked.bytes_length]; omega), marked.bytes_length] at h
      exact absurd h (hblank _)
  | succ j ih =>
    rw [markedAt, List.replicate_succ, List.cons_append, List.flatMap_cons] at h
    by_cases hq : q < 32
    · rw [List.getElem?_append_left (by rw [blank.bytes_length]; exact hq), blank_bytes] at h
      exact absurd (List.eq_of_mem_replicate (List.mem_of_getElem? h)) (by decide)
    · rw [List.getElem?_append_right (by rw [blank.bytes_length]; omega), blank.bytes_length] at h
      have := ih h
      omega

private theorem readInto_other (msg : List UInt8) {bs : List UInt8} (hmsg : msg[8]? ≠ some 1)
    (hbs : 8 < bs.length → bs[8]? ≠ some 1) : (readInto msg bs)[8]? ≠ some 1 := by
  rw [readInto_get]
  split
  · exact hbs ‹_›
  · exact hmsg

/-- The packet behind the first read that does not return one packet is not recorded. -/
private theorem marked_missed (celsius : UInt16 → T) (netname : List UInt8) {j r m m' : Nat} {rest : List Nat}
    {msg : List UInt8} {groups : List (List (DbCall T))} (hm : m ≠ 32) (hmsg : msg[8]? ≠ some 1)
    (h : childLoop celsius netname msg
      (cut (List.replicate j 32 ++ m :: m' :: rest) ((markedAt (j + 1) r).flatMap Packet.bytes)) =
        some groups) :
    groups[j + 1]? ≠ some (marked.recorded celsius netname) := by
  induction j generalizing msg groups with
  | zero =>
    rw [List.replicate_zero, List.nil_append, cut, cut] at h
    generalize hstream : (markedAt (0 + 1) r).flatMap Packet.bytes = stream at h
    have hbyte : ∀ q, q ≠ 40 → stream[q]? ≠ some 1 := by
      intro q hq hone
      rw [← hstream] at hone
      have := markedAt_byte hone
      omega
    obtain ⟨g, groups₁, -, hsecond, rfl⟩ := childLoop_cons h
    obtain ⟨g', groups₂, hinsert, -, rfl⟩ := childLoop_cons hsecond
    intro hrecorded
    obtain rfl : g' = marked.recorded celsius netname := by simpa using hrecorded
    have hone := nodeId_high (insertMesgToDb_nodeId hinsert)
    rw [List.getElem?_drop] at hone
    -- byte 8 of the buffer comes from this read, from the one before, or was there
    refine readInto_other (readInto msg (stream.take m)) (readInto_other msg hmsg fun hlong => ?_)
      (fun hlong => ?_) hone
    · rw [List.getElem?_take_of_lt (by rw [List.length_take] at hlong; omega)]
      exact hbyte 8 (by decide)
    · rw [List.getElem?_take_of_lt (by rw [List.length_take] at hlong; omega), List.getElem?_drop]
      exact hbyte (m + 8) (by omega)
  | succ j ih =>
    rw [List.replicate_succ, List.cons_append, cut] at h
    have hstream : (markedAt (j + 1 + 1) r).flatMap Packet.bytes =
        blank.bytes ++ (markedAt (j + 1) r).flatMap Packet.bytes := by
      rw [markedAt, List.replicate_succ, List.cons_append, List.flatMap_cons]
      rfl
    rw [hstream, ← blank.bytes_length, List.take_left, List.drop_left] at h
    obtain ⟨g, groups', -, hrest, rfl⟩ := childLoop_cons h
    rw [List.getElem?_cons_succ]
    refine ih (readInto_other msg hmsg fun _ => ?_) hrest
    rw [blank_bytes]
    decide

private theorem exists_first_other {cuts : List Nat} (h : ¬ ∀ c ∈ cuts, c = 32) :
    ∃ j m rest, cuts = List.replicate j 32 ++ m :: rest ∧ m ≠ 32 := by
  induction cuts with
  | nil => exact absurd (by simp) h
  | cons c cuts ih =>
    by_cases hc : c = 32
    · subst hc
      obtain ⟨j, m, rest, rfl, hm⟩ := ih fun hall => h (by simpa using hall)
      exact ⟨j + 1, m, rest, by rw [List.replicate_succ, List.cons_append], hm⟩
    · exact ⟨0, c, cuts, rfl, hc⟩

/-- Whatever the client sends is recorded exactly, if and only if every read returns one packet. -/
theorem recordsPackets_iff (celsius : UInt16 → T) (netname : List UInt8) {n : Nat} {cuts : List Nat}
    (hcuts : Segmentation n cuts) :
    (∀ packets : List Packet, packets.length = n → RecordsPackets celsius netname packets cuts) ↔
      ∀ c ∈ cuts, c = 32 := by
  constructor
  · intro h
    by_contra hother
    obtain ⟨j, m, rest, rfl, hm⟩ := exists_first_other hother
    have hwhole := hcuts.whole
    rw [List.sum_append, List.sum_replicate, List.sum_cons, smul_eq_mul] at hwhole
    by_cases hn : (List.replicate j 32 ++ m :: rest).length = n
    · -- as many reads as packets: another read follows, and it starts inside a packet
      rw [List.length_append, List.length_replicate, List.length_cons] at hn
      cases rest with
      | nil =>
        rw [List.sum_nil] at hwhole
        rw [List.length_nil] at hn
        omega
      | cons m' rest =>
        rw [List.length_cons] at hn
        have hlen : (markedAt (j + 1) rest.length).length = n := by
          simp [markedAt]
          omega
        have hrec := h _ hlen
        refine marked_missed celsius netname (r := rest.length) hm ?_ hrec ?_
        · decide +kernel
        · rw [List.getElem?_map, markedAt, List.getElem?_append_right (by simp)]
          simp
    · have hrec := h (List.replicate n blank) List.length_replicate
      have hlen := childLoop_length hrec
      rw [cut_length, List.length_map, List.length_replicate] at hlen
      exact hn hlen.symm
  · rintro h packets rfl
    obtain hlen : cuts.length = packets.length := by
      have hsum := List.sum_eq_card_nsmul cuts 32 h
      rw [hcuts.whole, smul_eq_mul] at hsum
      omega
    rw [RecordsPackets, List.eq_replicate_of_mem h, hlen, cut_packets]
    exact childLoop_packets celsius netname _ packets

theorem recordsPackets_three : RecordsPackets id [110, 49] [marked, blank, marked] [32, 32, 32] :=
  (recordsPackets_iff id [110, 49] (n := 3) ⟨by decide, by decide⟩).mpr (by decide) [marked, blank, marked] rfl

theorem packets_merged :
    ¬ ∀ (packets : List Packet) (cuts : List Nat), Segmentation packets.length cuts →
      RecordsPackets id [] packets cuts := by
  intro h
  have hrec := h [blank, marked] [64] ⟨by decide, by decide⟩
  have hlen := childLoop_length hrec
  rw [cut_length] at hlen
  cases hlen

end TinyosGraphics.Sensor
