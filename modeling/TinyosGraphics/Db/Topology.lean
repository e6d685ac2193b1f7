import TinyosGraphics.Sensor.Ingest
import TinyosGraphics.Db.Tables

/-! The topology that `insert_mesg_to_db` leaves in `tb_network`: its three statements run into the foreign
keys, and their results are ignored. -/
namespace TinyosGraphics.Db
open Lib Motes Sensor

variable {N T : Type} [DecidableEq N]

abbrev SensorDb (N T : Type) := Database N NodePosition (SenseRecord T)

/-- What a call leaves in the database at the time `now`. The states are empty strings, power and quality are 0. -/
def exec (collate : List UInt8 → N) (strict : Bool) (now : Nat) (db : SensorDb N T) : DbCall T → SensorDb N T
  | .updateNodeInfo info =>
    db.spUpdateNodeInfo strict now (collate info.networkName) info.nodeId.toNat (collate []) (collate []) 0
      info.position
  | .insertSenseRecord record => db.spInsertSenseRecord (collate record.networkName) record.nodeId.toNat record
  | .updateNetwork info =>
    db.spUpdateNetwork (collate info.networkName) info.nodeId.toNat info.parentId.toNat 0

/-- A message that reaches the server: when, and with what behind it in the buffer. -/
structure Arrival where
  now : Nat
  packet : Packet
  back : List UInt8

namespace Database

/-- `insert_mesg_to_db` on a message, with its calls carried out. -/
def arrive (collate : List UInt8 → N) (strict : Bool) (celsius : UInt16 → T) (netname : List UInt8)
    (db : SensorDb N T) (a : Arrival) : Option (SensorDb N T) :=
  (insertMesgToDb celsius (a.packet.bytes ++ a.back) 32 netname).map fun calls =>
    calls.foldl (exec collate strict a.now) db

def process (collate : List UInt8 → N) (strict : Bool) (celsius : UInt16 → T) (netname : List UInt8)
    (db : SensorDb N T) (arrivals : List Arrival) : Option (SensorDb N T) :=
  arrivals.foldlM (arrive collate strict celsius netname) db

/-- The parents that `tb_network` has for the nodes of a network. -/
def topology (db : SensorDb N T) (name : N) (nodId : Int) : Option Int :=
  (db.networkRow name nodId).map (·.parentId)

end Database

def nodeOf (p : Packet) : Int := p.msg.nodeId.toNat
def parentOf (p : Packet) : Int := p.msg.parentId.toNat

/-- One row for each message. -/
def reported (packets : List Packet) (nodId : Int) : Option Int :=
  (packets.find? fun p => nodeOf p = nodId).map parentOf

/-- What a message needs of the database: its node is in `tb_node` or can be entered, and its parent is the
node itself or in `tb_node`. -/
def Attached (collate : List UInt8 → N) (netname : List UInt8) (db : SensorDb N T) (p : Packet) : Prop :=
  (db.HasNumbers (collate netname) (collate []) (collate []) ∨ (db.nodeRow (collate netname) (nodeOf p)).isSome) ∧
    (parentOf p = nodeOf p ∨ (db.nodeRow (collate netname) (parentOf p)).isSome)

/-- What the three calls for a message do. -/
structure Arrived (collate : List UInt8 → N) (netname : List UInt8) (db db' : SensorDb N T) (p : Packet) : Prop where
  named : db'.Named
  numbers : db'.HasNumbers (collate netname) (collate []) (collate []) ↔
    db.HasNumbers (collate netname) (collate []) (collate [])
  known : ∀ m, (db'.nodeRow (collate netname) m).isSome ↔ (db.nodeRow (collate netname) m).isSome ∨
    (m = nodeOf p ∧ db.HasNumbers (collate netname) (collate []) (collate []))
  row : ∀ m, db'.networkRow (collate netname) m =
    if m = nodeOf p ∧ (db'.nodeRow (collate netname) (nodeOf p)).isSome ∧
      (db'.nodeRow (collate netname) (parentOf p)).isSome then some ⟨parentOf p, 0⟩
    else db.networkRow (collate netname) m

section
variable {collate : List UInt8 → N} {strict : Bool} {celsius : UInt16 → T} {netname : List UInt8}
  {db : SensorDb N T}

private theorem spInsertSenseRecord_eq (db : SensorDb N T) (name : N) (nodId : Int) (record : SenseRecord T) :
    ∃ tbSense sense_key, db.spInsertSenseRecord name nodId record =
      { db with tbSense := tbSense, sense_key := sense_key } := by
  rw [Database.spInsertSenseRecord]
  split
  · exact ⟨db.tbSense, db.sense_key, rfl⟩
  · exact Database.putSense_eq db _ record

variable (collate strict celsius netname db) in
private theorem foldl_recorded (now : Nat) (p : Packet) :
    ∃ tbSense sense_key,
      (p.recorded celsius netname).foldl (exec collate strict now) db =
        Database.spUpdateNetwork (collate netname) (nodeOf p) (parentOf p) 0
          { db.spUpdateNodeInfo strict now (collate netname) (nodeOf p) (collate []) (collate []) 0 p.msg.position with
            tbSense := tbSense
            sense_key := sense_key } := by
  rw [Packet.recorded]
  by_cases hroot : p.msg.nodeId = 0
  · rw [if_pos hroot]
    exact ⟨_, Database.sense_key _, rfl⟩
  · rw [if_neg hroot]
    obtain ⟨tbSense, sense_key, hsense⟩ := spInsertSenseRecord_eq
      (db.spUpdateNodeInfo strict now (collate netname) (nodeOf p) (collate []) (collate []) 0 p.msg.position)
      (collate netname) (nodeOf p)
      (⟨netname, p.msg.nodeId, celsius p.msg.sensor.temp, p.msg.sensor.photo, p.msg.sensor.sound,
        p.msg.sensor.xAcc, p.msg.sensor.yAcc, p.msg.sensor.xMag, p.msg.sensor.yMag⟩ : SenseRecord T)
    refine ⟨tbSense, sense_key, ?_⟩
    rw [← hsense]
    rfl

variable (collate strict celsius netname) in
private theorem arrive_arrived (hname : db.Named) (a : Arrival) :
    ∃ db', db.arrive collate strict celsius netname a = some db' ∧ Arrived collate netname db db' a.packet := by
  obtain ⟨tbSense, sense_key, hfold⟩ := foldl_recorded collate strict celsius netname db a.now a.packet
  have hname' := Database.named_spUpdateNodeInfo hname strict a.now (collate netname) (nodeOf a.packet)
    (collate []) (collate []) 0 a.packet.msg.position
  refine ⟨_, by rw [Database.arrive, insertMesgToDb_packet, Option.map_some, hfold], ?_, ?_, ?_, ?_⟩
  · refine Database.named_spUpdateNetwork ?_ _ _ _ _
    exact hname'
  · rw [Database.hasNumbers_spUpdateNetwork]
    exact Database.hasNumbers_spUpdateNodeInfo ..
  · intro m
    rw [Database.nodeRow_spUpdateNetwork]
    change (Database.nodeRow (Database.spUpdateNodeInfo ..) (collate netname) m).isSome ↔ _
    by_cases hnum : db.HasNumbers (collate netname) (collate []) (collate [])
    · obtain ⟨db', netId, stateNum, statusNum, -, hrow⟩ := Database.nodeRow_spUpdateNodeInfo hname hnum strict a.now
        (nodeOf a.packet) 0 a.packet.msg.position
      rw [hrow]
      by_cases hm : m = nodeOf a.packet
      · simp [hm, hnum]
      · simp [hm]
    · obtain ⟨hnode, -, hnamement, -⟩ := Database.spUpdateNodeInfo_refused hnum strict a.now (nodeOf a.packet) 0
        a.packet.msg.position
      rw [Database.nodeRow, Database.nodeRow, hnode, hnamement]
      simp [hnum]
  · intro m
    rw [Database.networkRow_spUpdateNetwork, Database.nodeRow_spUpdateNetwork, Database.nodeRow_spUpdateNetwork]
    have hrow := Database.networkRow_spUpdateNodeInfo hname strict a.now (collate netname) (nodeOf a.packet)
      (collate []) (collate []) 0 a.packet.msg.position (collate netname) m
    simp only [true_and]
    exact if_congr Iff.rfl rfl hrow

private theorem Arrived.attached {db' : SensorDb N T} {p : Packet} (h : Arrived collate netname db db' p) {q : Packet}
    (hq : Attached collate netname db q) : Attached collate netname db' q := by
  obtain ⟨hnode, hparent⟩ := hq
  refine ⟨hnode.imp h.numbers.mpr fun hknown => (h.known _).mpr (.inl hknown), ?_⟩
  exact hparent.imp_right fun hknown => (h.known _).mpr (.inl hknown)

private theorem Arrived.topology_of_ne {db' : SensorDb N T} {p : Packet} (h : Arrived collate netname db db' p)
    {m : Int}
    (hm : m ≠ nodeOf p) : db'.topology (collate netname) m = db.topology (collate netname) m := by
  rw [Database.topology, Database.topology, h.row, if_neg fun hand => hm hand.1]

private theorem Arrived.topology_self {db' : SensorDb N T} {p : Packet} (h : Arrived collate netname db db' p)
    (hp : Attached collate netname db p) : db'.topology (collate netname) (nodeOf p) = some (parentOf p) := by
  obtain ⟨hnode, hparent⟩ := hp
  have hknown : (db'.nodeRow (collate netname) (nodeOf p)).isSome := by
    rw [h.known]
    exact hnode.elim (fun hnum => .inr ⟨rfl, hnum⟩) .inl
  have hother : (db'.nodeRow (collate netname) (parentOf p)).isSome := by
    rcases hparent with heq | hparent
    · rw [heq]
      exact hknown
    · exact (h.known _).mpr (.inl hparent)
  rw [Database.topology, h.row, if_pos ⟨rfl, hknown, hother⟩]
  rfl

private theorem Arrived.topology_of_not {db' : SensorDb N T} {p : Packet} (h : Arrived collate netname db db' p)
    (hp : ¬ Attached collate netname db p) (m : Int) :
    db'.topology (collate netname) m = db.topology (collate netname) m := by
  rw [Database.topology, Database.topology, h.row, if_neg]
  rintro ⟨-, hnode, hparent⟩
  rw [h.known] at hnode hparent
  refine hp ⟨?_, ?_⟩
  · exact hnode.elim .inr fun hnum => .inl hnum.2
  · exact hparent.elim .inr fun hself => .inl hself.1

variable (collate strict celsius netname) in
private theorem process_total (hname : db.Named) (arrivals : List Arrival) :
    ∃ db', db.process collate strict celsius netname arrivals = some db' ∧
      ∀ m, (∀ a ∈ arrivals, nodeOf a.packet ≠ m) →
        db'.topology (collate netname) m = db.topology (collate netname) m := by
  induction arrivals generalizing db with
  | nil => exact ⟨db, rfl, fun _ _ => rfl⟩
  | cons a arrivals ih =>
    obtain ⟨db₁, harrive, h⟩ := arrive_arrived collate strict celsius netname hname a
    obtain ⟨db', hprocess, hsame⟩ := ih h.named
    refine ⟨db', by rw [Database.process, List.foldlM_cons, harrive]; exact hprocess, fun m hm => ?_⟩
    rw [hsame m fun b hb => hm b (List.mem_cons_of_mem _ hb), h.topology_of_ne (hm a List.mem_cons_self).symm]

private theorem reported_cons (p : Packet) (packets : List Packet) (m : Int) :
    reported (p :: packets) m = if nodeOf p = m then some (parentOf p) else reported packets m := by
  rw [reported, List.find?_cons]
  split
  · rename_i hm
    rw [if_pos (of_decide_eq_true hm)]
    rfl
  · rename_i hm
    rw [if_neg (of_decide_eq_false hm)]
    rfl

private theorem reported_eq_none {packets : List Packet} {m : Int} (h : ∀ p ∈ packets, nodeOf p ≠ m) :
    reported packets m = none := by
  rw [reported, List.find?_eq_none.mpr fun p hp => by simpa using h p hp]
  rfl

variable (strict celsius) in
/-- Messages of distinct nodes that are all attached make their rows, in whatever order. -/
private theorem process_attached (hname : db.Named) {arrivals : List Arrival}
    (hnodes : (arrivals.map fun a => nodeOf a.packet).Nodup)
    (h : ∀ a ∈ arrivals, Attached collate netname db a.packet) :
    ∃ db', db.process collate strict celsius netname arrivals = some db' ∧
      ∀ m, db'.topology (collate netname) m =
        (reported (arrivals.map Arrival.packet) m).or (db.topology (collate netname) m) := by
  induction arrivals generalizing db with
  | nil => exact ⟨db, rfl, fun _ => rfl⟩
  | cons a arrivals ih =>
    obtain ⟨hnew, hnodes⟩ := List.nodup_cons.mp hnodes
    obtain ⟨db₁, harrive, ha⟩ := arrive_arrived collate strict celsius netname hname a
    obtain ⟨db', hprocess, hall⟩ := ih ha.named hnodes fun b hb => ha.attached (h b (List.mem_cons_of_mem _ hb))
    refine ⟨db', by rw [Database.process, List.foldlM_cons, harrive]; exact hprocess, fun m => ?_⟩
    rw [hall, List.map_cons, reported_cons]
    by_cases hm : nodeOf a.packet = m
    · subst hm
      have hrest : reported (arrivals.map Arrival.packet) (nodeOf a.packet) = none := by
        refine reported_eq_none fun p hp heq => ?_
        obtain ⟨b, hb, rfl⟩ := List.mem_map.mp hp
        exact hnew (List.mem_map.mpr ⟨b, hb, heq⟩)
      rw [hrest, if_pos rfl, ha.topology_self (h a List.mem_cons_self)]
      rfl
    · rw [if_neg hm, ha.topology_of_ne (Ne.symm hm)]

private theorem reported_eq_some_iff {packets : List Packet} (hnodes : (packets.map nodeOf).Nodup) (m q : Int) :
    reported packets m = some q ↔ ∃ p ∈ packets, nodeOf p = m ∧ parentOf p = q := by
  induction packets with
  | nil => simp [reported]
  | cons p packets ih =>
    obtain ⟨hnew, hnodes⟩ := List.nodup_cons.mp hnodes
    rw [reported_cons]
    split
    · rename_i hm
      have hrest : ∀ p' ∈ packets, nodeOf p' ≠ m := fun p' hp' heq =>
        hnew (hm ▸ heq ▸ List.mem_map_of_mem hp')
      simp only [Option.some.injEq, List.mem_cons, exists_eq_or_imp, hm, true_and]
      exact ⟨.inl, fun h => h.elim id fun ⟨p', hp', heq, _⟩ => absurd heq (hrest p' hp')⟩
    · rename_i hm
      rw [ih hnodes]
      simp [hm]

private theorem reported_perm {packets packets' : List Packet} (hnodes : (packets.map nodeOf).Nodup)
    (h : packets'.Perm packets) : reported packets' = reported packets := by
  funext m
  ext q
  rw [reported_eq_some_iff hnodes, reported_eq_some_iff ((h.map nodeOf).nodup_iff.mpr hnodes)]
  simp only [h.mem_iff]

/-- A message that is not attached when it comes first has no row at the end, or an old one. -/
private theorem attached_of_first (hname : db.Named) {p : Packet} {arrivals : List Arrival} {now : Nat}
    {back : List UInt8}
    (hnew : ∀ a ∈ arrivals, nodeOf a.packet ≠ nodeOf p) {db' : SensorDb N T}
    (hprocess : db.process collate strict celsius netname (⟨now, p, back⟩ :: arrivals) = some db')
    (hrow : db'.topology (collate netname) (nodeOf p) = some (parentOf p)) : Attached collate netname db p := by
  by_contra hnot
  obtain ⟨db₁, harrive, hp⟩ := arrive_arrived collate strict celsius netname hname ⟨now, p, back⟩
  obtain ⟨db₂, hrest, hsame⟩ := process_total collate strict celsius netname hp.named arrivals
  rw [Database.process, List.foldlM_cons, harrive] at hprocess
  obtain rfl := Option.some.inj (hrest.symm.trans hprocess)
  rw [hsame _ hnew, hp.topology_of_not hnot, Database.topology] at hrow
  obtain ⟨row, hrow, hparent⟩ := Option.map_eq_some_iff.mp hrow
  obtain ⟨netId, hnet, hrow⟩ := Option.bind_eq_some_iff.mp hrow
  -- the old row has the same parent, so both nodes are in `tb_node`
  have hkeys := db.network_key _ row hrow
  rw [hparent] at hkeys
  refine hnot ⟨.inr ?_, .inr ?_⟩
  · rw [Database.nodeRow, hnet]
    exact hkeys.1
  · rw [Database.nodeRow, hnet]
    exact hkeys.2

variable (collate strict celsius netname) in
/-- The topology has exactly the messages' rows after every order of arrival, if and only if each message finds
its node and its parent in `tb_node` as it was before all of them, or can enter the one and is its own parent. -/
theorem topology_complete_iff (hname : db.Named) {packets : List Packet} (hnodes : (packets.map nodeOf).Nodup)
    (hrows : ∀ m, db.topology (collate netname) m ≠ none → ∃ p ∈ packets, nodeOf p = m) :
    (∀ arrivals : List Arrival, (arrivals.map Arrival.packet).Perm packets →
      ∃ db', db.process collate strict celsius netname arrivals = some db' ∧
        db'.topology (collate netname) = reported packets) ↔
      ∀ p ∈ packets, Attached collate netname db p := by
  constructor
  · intro h p hp
    obtain ⟨before, after, rfl⟩ := List.append_of_mem hp
    have hperm : (⟨0, p, []⟩ :: (before ++ after).map fun q => (⟨0, q, []⟩ : Arrival)).map Arrival.packet =
        p :: (before ++ after) := by simp [Function.comp_def]
    obtain ⟨db', hprocess, htopology⟩ := h _ (hperm ▸ List.perm_middle.symm)
    have hdistinct := (List.perm_middle.map nodeOf).nodup_iff.mp hnodes
    refine attached_of_first hname (fun a ha => ?_) hprocess ?_
    · obtain ⟨q, hq, rfl⟩ := List.mem_map.mp ha
      intro heq
      exact (List.nodup_cons.mp hdistinct).1 (List.mem_map.mpr ⟨q, hq, heq⟩)
    · rw [htopology]
      exact (reported_eq_some_iff hnodes _ _).mpr ⟨p, hp, rfl, rfl⟩
  · intro h arrivals hperm
    have hdistinct : (arrivals.map fun a => nodeOf a.packet).Nodup := by
      have hmap := (hperm.map nodeOf).nodup_iff.mpr hnodes
      rwa [List.map_map] at hmap
    obtain ⟨db', hprocess, hall⟩ := process_attached strict celsius hname hdistinct fun a ha =>
      h a.packet (hperm.mem_iff.mp (List.mem_map_of_mem ha))
    refine ⟨db', hprocess, ?_⟩
    funext m
    rw [hall, reported_perm hnodes hperm]
    cases hreported : reported packets m with
    | some q => rfl
    | none =>
      rw [Option.none_or]
      by_contra hne
      obtain ⟨p, hp, rfl⟩ := hrows m hne
      have hself := (reported_eq_some_iff hnodes (nodeOf p) (parentOf p)).mpr ⟨p, hp, rfl, rfl⟩
      rw [hreported] at hself
      cases hself

end

/-- A node below node 256. -/
def leaf : Packet := .ofMsg ⟨257, 256, ⟨3, 4⟩, ⟨600, 20, 0, 0, 0, 0, 0⟩, 7⟩

/-- The root and node 256 have reported before: they and a node below them report again, the lowest first. -/
theorem topology_complete_leaf :
    ∃ db db', (Database.empty : SensorDb (List UInt8) UInt16).process id false id []
        [⟨1000, blank, []⟩, ⟨1001, marked, []⟩] = some db ∧
      db.process id false id [] [⟨2000, leaf, [7]⟩, ⟨1999, marked, []⟩, ⟨2001, blank, []⟩] = some db' ∧
      db'.topology [] = reported [blank, marked, leaf] := by
  have hempty : (Database.empty : SensorDb (List UInt8) UInt16).Named := by simp [Database.Named, Database.empty]
  obtain ⟨db₁, hfirst, harrived₁⟩ := arrive_arrived id false id [] hempty ⟨1000, blank, []⟩
  obtain ⟨db₂, hsecond, harrived₂⟩ := arrive_arrived id false id [] harrived₁.named ⟨1001, marked, []⟩
  have hnum₁ : db₁.HasNumbers [] [] [] := harrived₁.numbers.mpr ⟨.inr (by decide), .inr (by decide), .inr (by decide)⟩
  have hnum₂ : db₂.HasNumbers [] [] [] := harrived₂.numbers.mpr hnum₁
  have hmarked : (db₂.nodeRow [] 256).isSome := (harrived₂.known 256).mpr (.inr ⟨by decide, hnum₁⟩)
  have hroot : (db₂.nodeRow [] 0).isSome := by
    have hnum := harrived₁.numbers.mp hnum₁
    exact (harrived₂.known 0).mpr (.inl ((harrived₁.known 0).mpr (.inr ⟨by decide, hnum⟩)))
  have hrows : ∀ m, db₂.topology [] m ≠ none → ∃ p ∈ [blank, marked, leaf], nodeOf p = m := by
    intro m hm
    by_cases hm₂ : m = nodeOf marked
    · exact ⟨marked, by simp, hm₂.symm⟩
    by_cases hm₁ : m = nodeOf blank
    · exact ⟨blank, by simp, hm₁.symm⟩
    · have hsame := (harrived₂.topology_of_ne hm₂).trans (harrived₁.topology_of_ne hm₁)
      exact absurd hsame hm
  have hall : ∀ p ∈ [blank, marked, leaf], Attached id [] db₂ p := by
    intro p hp
    refine ⟨.inl hnum₂, ?_⟩
    simp only [List.mem_cons, List.not_mem_nil, or_false] at hp
    rcases hp with rfl | rfl | rfl
    · exact .inl rfl
    · exact .inr hroot
    · exact .inr hmarked
  obtain ⟨db', hprocess, htopology⟩ := (topology_complete_iff id false id [] harrived₂.named
    (by decide) hrows).mpr hall [⟨2000, leaf, [7]⟩, ⟨1999, marked, []⟩, ⟨2001, blank, []⟩]
    (List.reverse_perm [blank, marked, leaf])
  refine ⟨db₂, db', ?_, hprocess, htopology⟩
  simp only [Database.process, List.foldlM_cons, List.foldlM_nil, Option.bind_eq_bind, hfirst, hsecond,
    Option.bind_some]
  rfl

/-- The message of node 256 comes before the first one of its parent, and has no row in the end. -/
theorem row_missing :
    ((Database.empty : SensorDb (List UInt8) UInt16).process id false id [] [⟨0, marked, []⟩, ⟨1, blank, []⟩]).map
        (fun db => (db.topology [] 0, db.topology [] 256)) = some (some 0, none) ∧
      reported [marked, blank] 256 = some 0 := by
  decide +kernel

end TinyosGraphics.Db
