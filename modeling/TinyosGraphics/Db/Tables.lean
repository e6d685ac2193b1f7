import TinyosGraphics.Lib.NameTable
import Mathlib.Logic.Function.Basic

/-! The tables of `table_creater.sql` and the procedures that write them. A statement that the database
refuses changes nothing, and the procedure goes no further. -/
namespace TinyosGraphics.Db
open Lib

-- names as the database's collation tells them apart, points, and what `tb_sense` records
variable {N P S : Type}

/-- The primary key `(network_id, node_id)`. -/
abbrev NodeKey := Nat × Int

/-- What the statements of `sp_update_node_info` write to a row of `tb_node`. -/
@[ext] structure NodeInfoColumns (P : Type) where
  workState : Nat
  nodeStatus : Nat
  power : Int
  gps : P
  deriving DecidableEq

/-- A row of `tb_node`, with the time of the last change in seconds. -/
structure NodeRow (P : Type) extends NodeInfoColumns P where
  updateTime : Nat

/-- A row of `tb_network`. -/
structure NetworkRow where
  parentId : Int
  quality : Int
  deriving DecidableEq

/-- The tables, with the foreign keys that hold in them. A name's number is its place in the list. -/
structure Database (N P S : Type) where
  tbWorkState : List N
  tbNodeStatus : List N
  tbNetworkSegment : List N
  tbNode : NodeKey → Option (NodeRow P)
  tbNetwork : NodeKey → Option NetworkRow
  tbSense : List (NodeKey × S)
  network_key : ∀ key row, tbNetwork key = some row →
    (tbNode key).isSome ∧ (tbNode (key.1, row.parentId)).isSome
  sense_key : ∀ record ∈ tbSense, (tbNode record.1).isSome

/-- The largest `smallint` and the largest `int`. -/
def SMALLINT_MAX : Nat := 32767
def INT_MAX : Nat := 2147483647

/-- What an `int` column makes of a value: out of its range, an error in strict mode, else its end. -/
def intColumn (strict : Bool) (x : Int) : Option Int :=
  if -2147483648 ≤ x ∧ x ≤ 2147483647 then some x
  else if strict then none
  else some (max (-2147483648) (min x 2147483647))

namespace Database

/-- As `table_creater.sql` leaves them. -/
def empty : Database N P S where
  tbWorkState := []
  tbNodeStatus := []
  tbNetworkSegment := []
  tbNode _ := none
  tbNetwork _ := none
  tbSense := []
  network_key _ _ h := absurd h (by simp)
  sense_key := by simp

private theorem isSome_update {rows : NodeKey → Option (NodeRow P)} {k : NodeKey} (h : (rows k).isSome) (key : NodeKey)
    (row : NodeRow P) : (Function.update rows key (some row) k).isSome := by
  by_cases hk : k = key
  · rw [hk, Function.update_self]
    rfl
  · rw [Function.update_of_ne hk]
    exact h

/-- An insert into `tb_node` or an update of a row of it. -/
def putNode (db : Database N P S) (key : NodeKey) (row : NodeRow P) : Database N P S where
  tbWorkState := db.tbWorkState
  tbNodeStatus := db.tbNodeStatus
  tbNetworkSegment := db.tbNetworkSegment
  tbNode := Function.update db.tbNode key (some row)
  tbNetwork := db.tbNetwork
  tbSense := db.tbSense
  network_key k r h :=
    ⟨isSome_update (db.network_key k r h).1 key row, isSome_update (db.network_key k r h).2 key row⟩
  sense_key r hr := isSome_update (db.sense_key r hr) key row

/-- An insert into `tb_network` or an update of a row of it: refused where a node is missing. -/
def putNetwork (db : Database N P S) (key : NodeKey) (row : NetworkRow) : Database N P S :=
  if h : (db.tbNode key).isSome ∧ (db.tbNode (key.1, row.parentId)).isSome then
    { db with
      tbNetwork := Function.update db.tbNetwork key (some row)
      network_key := by
        intro k r hk
        by_cases heq : k = key
        · subst heq
          rw [Function.update_self] at hk
          obtain rfl := Option.some.inj hk
          exact h
        · rw [Function.update_of_ne heq] at hk
          exact db.network_key k r hk }
  else db

/-- An insert into `tb_sense`. -/
def putSense (db : Database N P S) (key : NodeKey) (record : S) : Database N P S :=
  if h : (db.tbNode key).isSome then
    { db with
      tbSense := db.tbSense ++ [(key, record)]
      sense_key := by
        intro r hr
        rcases List.mem_append.mp hr with hr | hr
        · exact db.sense_key r hr
        · rw [List.mem_singleton.mp hr]
          exact h }
  else db

section Put
variable (db : Database N P S) (key : NodeKey)

@[simp] theorem putNetwork_tbNode (row : NetworkRow) : (db.putNetwork key row).tbNode = db.tbNode := by
  unfold putNetwork
  split <;> rfl

@[simp] theorem putNetwork_tbNetworkSegment (row : NetworkRow) :
    (db.putNetwork key row).tbNetworkSegment = db.tbNetworkSegment := by
  unfold putNetwork
  split <;> rfl

@[simp] theorem putNetwork_tbWorkState (row : NetworkRow) : (db.putNetwork key row).tbWorkState = db.tbWorkState := by
  unfold putNetwork
  split <;> rfl

@[simp] theorem putNetwork_tbNodeStatus (row : NetworkRow) :
    (db.putNetwork key row).tbNodeStatus = db.tbNodeStatus := by
  unfold putNetwork
  split <;> rfl

private theorem putNetwork_tbNetwork (row : NetworkRow) :
    (db.putNetwork key row).tbNetwork =
      if (db.tbNode key).isSome ∧ (db.tbNode (key.1, row.parentId)).isSome then
        Function.update db.tbNetwork key (some row)
      else db.tbNetwork := by
  unfold putNetwork
  split <;> rfl

/-- Whatever becomes of a record of readings, it is in `tb_sense` alone. -/
theorem putSense_eq (record : S) :
    ∃ tbSense sense_key, db.putSense key record = { db with tbSense := tbSense, sense_key := sense_key } := by
  unfold putSense
  split
  · rename_i h
    refine ⟨db.tbSense ++ [(key, record)], fun r hr => ?_, rfl⟩
    rcases List.mem_append.mp hr with hr | hr
    · exact db.sense_key r hr
    · rw [List.mem_singleton.mp hr]
      exact h
  · exact ⟨db.tbSense, db.sense_key, rfl⟩

end Put

/-- The numbers in `tb_node` are numbers of names. -/
def Named (db : Database N P S) : Prop :=
  ∀ key row, db.tbNode key = some row → key.1 < db.tbNetworkSegment.length ∧
    row.workState < db.tbWorkState.length ∧ row.nodeStatus < db.tbNodeStatus.length

private theorem Named.tbNode_eq_none {db : Database N P S} (h : db.Named) (nodId : Int) :
    db.tbNode (db.tbNetworkSegment.length, nodId) = none := by
  by_contra hsome
  obtain ⟨row, hrow⟩ := Option.ne_none_iff_exists'.mp hsome
  exact Nat.lt_irrefl _ (h _ row hrow).1

private theorem Named.tbNetwork_eq_none {db : Database N P S} (h : db.Named) (nodId : Int) :
    db.tbNetwork (db.tbNetworkSegment.length, nodId) = none := by
  by_contra hsome
  obtain ⟨row, hrow⟩ := Option.ne_none_iff_exists'.mp hsome
  have hnode := (db.network_key _ row hrow).1
  rw [h.tbNode_eq_none] at hnode
  cases hnode

variable [DecidableEq N]

def nodeRow (db : Database N P S) (netName : N) (nodId : Int) : Option (NodeRow P) :=
  (db.tbNetworkSegment.idxOf? netName).bind fun netId => db.tbNode (netId, nodId)

def networkRow (db : Database N P S) (netName : N) (nodId : Int) : Option NetworkRow :=
  (db.tbNetworkSegment.idxOf? netName).bind fun netId => db.tbNetwork (netId, nodId)

private theorem nodeRow_putNode {db : Database N P S} {netName : N} {netId : Nat}
    (h : db.tbNetworkSegment.idxOf? netName = some netId) (nodId : Int) (row : NodeRow P) (other : N) (m : Int) :
    (db.putNode (netId, nodId) row).nodeRow other m =
      if other = netName ∧ m = nodId then some row else db.nodeRow other m := by
  simp only [nodeRow, putNode]
  split
  · rename_i heq
    obtain ⟨rfl, rfl⟩ := heq
    rw [h, Option.bind_some, Function.update_self]
  · rename_i hne
    cases hother : db.tbNetworkSegment.idxOf? other with
    | none => rfl
    | some otherId =>
      rw [Option.bind_some, Option.bind_some, Function.update_of_ne]
      rintro heq
      obtain ⟨rfl, rfl⟩ := Prod.mk.inj heq
      exact hne ⟨idxOf?_inj hother h, rfl⟩

/-- The three names of a report have numbers, or get them. -/
def HasNumbers (db : Database N P S) (netName state status : N) : Prop :=
  HasRoom SMALLINT_MAX db.tbWorkState state ∧ HasRoom SMALLINT_MAX db.tbNodeStatus status ∧
    HasRoom INT_MAX db.tbNetworkSegment netName

/-- A database in which the three names of a report have got their numbers. -/
structure Numbered (db db' : Database N P S) (netName state status : N) (netId stateNum statusNum : Nat) : Prop where
  state : intern SMALLINT_MAX db.tbWorkState state = some (db'.tbWorkState, stateNum)
  status : intern SMALLINT_MAX db.tbNodeStatus status = some (db'.tbNodeStatus, statusNum)
  segment : intern INT_MAX db.tbNetworkSegment netName = some (db'.tbNetworkSegment, netId)
  node : db'.tbNode = db.tbNode
  network : db'.tbNetwork = db.tbNetwork

section Numbered
variable {db db' : Database N P S} {netName state status : N} {netId stateNum statusNum : Nat}

private theorem Numbered.nodeRow_eq (h : db.Numbered db' netName state status netId stateNum statusNum)
    (hname : db.Named) (other : N) (m : Int) : db'.nodeRow other m = db.nodeRow other m := by
  rw [nodeRow, nodeRow, h.node]
  exact bind_idxOf?_intern h.segment (hname.tbNode_eq_none m) other

private theorem Numbered.networkRow_eq (h : db.Numbered db' netName state status netId stateNum statusNum)
    (hname : db.Named) (other : N) (m : Int) : db'.networkRow other m = db.networkRow other m := by
  rw [networkRow, networkRow, h.network]
  exact bind_idxOf?_intern h.segment (hname.tbNetwork_eq_none m) other

private theorem Numbered.tbNode_eq (h : db.Numbered db' netName state status netId stateNum statusNum)
    (hname : db.Named) (m : Int) : db.tbNode (netId, m) = db.nodeRow netName m := by
  rw [← h.nodeRow_eq hname, nodeRow, idxOf?_intern h.segment, Option.bind_some, h.node]

end Numbered

/-- `sp_update_network`. Whether the row is inserted or updated, it is checked by both keys. -/
def spUpdateNetwork (netName : N) (nodId parId quality : Int) (db : Database N P S) : Database N P S :=
  match db.tbNetworkSegment.idxOf? netName with
  | none => db
  | some netId => db.putNetwork (netId, nodId) ⟨parId, quality⟩

def spInsertSenseRecord (netName : N) (nodId : Int) (record : S) (db : Database N P S) : Database N P S :=
  match db.tbNetworkSegment.idxOf? netName with
  | none => db
  | some netId => db.putSense (netId, nodId) record

/-- `sp_flush_network` at the time `now`. -/
def spFlushNetwork (now : Nat) (sec : Int) (db : Database N P S) : Database N P S :=
  { db with
    tbNetwork := fun key =>
      match db.tbNode key with
      | some row => if (now : Int) - row.updateTime > sec then none else db.tbNetwork key
      | none => db.tbNetwork key
    network_key := by
      intro key row h
      split at h
      · split at h
        · cases h
        · exact db.network_key key row h
      · exact db.network_key key row h }

section Others
variable {db : Database N P S}

theorem nodeRow_spUpdateNetwork (netName : N) (nodId parId quality : Int) (other : N) (m : Int) :
    (db.spUpdateNetwork netName nodId parId quality).nodeRow other m = db.nodeRow other m := by
  rw [spUpdateNetwork]
  split
  · rfl
  · simp [nodeRow]

/-- The row is written where both nodes have one in `tb_node`. -/
theorem networkRow_spUpdateNetwork (netName : N) (nodId parId quality : Int) (other : N) (m : Int) :
    (db.spUpdateNetwork netName nodId parId quality).networkRow other m =
      if (other = netName ∧ m = nodId) ∧ (db.nodeRow netName nodId).isSome ∧ (db.nodeRow netName parId).isSome then
        some ⟨parId, quality⟩
      else db.networkRow other m := by
  rw [spUpdateNetwork]
  cases hnet : db.tbNetworkSegment.idxOf? netName with
  | none => simp [nodeRow, hnet]
  | some netId =>
    have hnode : ∀ n, db.nodeRow netName n = db.tbNode (netId, n) := fun n => by rw [nodeRow, hnet, Option.bind_some]
    rw [hnode, hnode, networkRow, networkRow]
    dsimp only
    rw [putNetwork_tbNetworkSegment, putNetwork_tbNetwork]
    by_cases hkeys : (db.tbNode (netId, nodId)).isSome ∧ (db.tbNode (netId, parId)).isSome
    · rw [if_pos hkeys]
      by_cases heq : other = netName ∧ m = nodId
      · obtain ⟨rfl, rfl⟩ := heq
        rw [if_pos ⟨⟨rfl, rfl⟩, hkeys⟩, hnet, Option.bind_some, Function.update_self]
      · rw [if_neg fun h => heq h.1]
        cases hother : db.tbNetworkSegment.idxOf? other with
        | none => rfl
        | some otherId =>
          rw [Option.bind_some, Option.bind_some, Function.update_of_ne]
          intro h
          obtain ⟨rfl, rfl⟩ := Prod.mk.inj h
          exact heq ⟨idxOf?_inj hother hnet, rfl⟩
    · rw [if_neg hkeys, if_neg fun h => hkeys h.2]

theorem named_spUpdateNetwork (h : db.Named) (netName : N) (nodId parId quality : Int) :
    (db.spUpdateNetwork netName nodId parId quality).Named := by
  rw [spUpdateNetwork]
  split
  · exact h
  · simpa [Named] using h

theorem hasNumbers_spUpdateNetwork (netName : N) (nodId parId quality : Int) (name state status : N) :
    (db.spUpdateNetwork netName nodId parId quality).HasNumbers name state status ↔
      db.HasNumbers name state status := by
  rw [spUpdateNetwork]
  split
  · rfl
  · simp [HasNumbers]

/-- A flush takes the rows of the nodes whose time is over. -/
theorem networkRow_spFlushNetwork (now : Nat) (sec : Int) (name : N) (m : Int) :
    (db.spFlushNetwork now sec).networkRow name m =
      match db.nodeRow name m with
      | some row => if (now : Int) - row.updateTime > sec then none else db.networkRow name m
      | none => db.networkRow name m := by
  rw [networkRow, networkRow, nodeRow]
  cases hname : db.tbNetworkSegment.idxOf? name with
  | none => simp [spFlushNetwork, hname]
  | some netId => simp [spFlushNetwork, hname]

end Others

end Database

variable [DecidableEq P]

/-- The row of a node behind the last statement of `sp_update_node_info`: inserted, or updated at the time `now`.
An update that changes no column leaves the time as it was. -/
def NodeRow.write (strict : Bool) (now : Nat) (columns : NodeInfoColumns P) : Option (NodeRow P) → NodeRow P
  | none => ⟨columns, now⟩
  | some row =>
    -- in the procedure `power` is the parameter, not the column
    match intColumn strict (columns.power + now % 100) with
    | none => row
    | some power =>
      if row.toNodeInfoColumns = { columns with power := power } then row
      else ⟨{ columns with power := power }, now⟩

private theorem NodeRow.write_cases (strict : Bool) (now : Nat) (columns : NodeInfoColumns P)
    (old : Option (NodeRow P)) :
    ((write strict now columns old).workState = columns.workState ∧
      (write strict now columns old).nodeStatus = columns.nodeStatus) ∨ old = some (write strict now columns old) := by
  cases old with
  | none => exact .inl ⟨rfl, rfl⟩
  | some row =>
    rw [write]
    split
    · exact .inr rfl
    · split
      · exact .inr rfl
      · exact .inl ⟨rfl, rfl⟩

namespace Database
variable [DecidableEq N]

/-- `sp_update_node_info` at the time `now`. -/
def spUpdateNodeInfo (strict : Bool) (now : Nat) (netName : N) (nodId : Int) (state status : N) (power : Int)
    (gps : P) (db : Database N P S) : Database N P S :=
  match intern SMALLINT_MAX db.tbWorkState state with
  | none => db
  | some (tbWorkState, stateNum) =>
    let db := { db with tbWorkState := tbWorkState }
    match intern SMALLINT_MAX db.tbNodeStatus status with
    | none => db
    | some (tbNodeStatus, statusNum) =>
      let db := { db with tbNodeStatus := tbNodeStatus }
      match intern INT_MAX db.tbNetworkSegment netName with
      | none => db
      | some (tbNetworkSegment, netId) =>
        let db := { db with tbNetworkSegment := tbNetworkSegment }
        db.putNode (netId, nodId)
          (.write strict now ⟨stateNum, statusNum, power, gps⟩ (db.tbNode (netId, nodId)))

private theorem spUpdateNodeInfo_taken {db : Database N P S} {netName state status : N}
    (h : db.HasNumbers netName state status) (strict : Bool) (now : Nat) (nodId power : Int) (gps : P) :
    ∃ db' netId stateNum statusNum, db.Numbered db' netName state status netId stateNum statusNum ∧
      db.spUpdateNodeInfo strict now netName nodId state status power gps =
        db'.putNode (netId, nodId)
          (.write strict now ⟨stateNum, statusNum, power, gps⟩ (db.tbNode (netId, nodId))) := by
  obtain ⟨hstate, hstatus, hnamement⟩ := h
  obtain ⟨⟨states, stateNum⟩, hstate⟩ := Option.isSome_iff_exists.mp (intern_isSome_iff.mpr hstate)
  obtain ⟨⟨statuses, statusNum⟩, hstatus⟩ := Option.isSome_iff_exists.mp (intern_isSome_iff.mpr hstatus)
  obtain ⟨⟨segments, netId⟩, hnamement⟩ := Option.isSome_iff_exists.mp (intern_isSome_iff.mpr hnamement)
  refine ⟨{ db with tbWorkState := states, tbNodeStatus := statuses, tbNetworkSegment := segments },
    netId, stateNum, statusNum, ⟨hstate, hstatus, hnamement, rfl, rfl⟩, ?_⟩
  simp only [spUpdateNodeInfo, hstate, hstatus, hnamement]

/-- A report without numbers for its names: at most another of them gets one. -/
structure Refused (db db' : Database N P S) (netName state status : N) : Prop where
  node : db'.tbNode = db.tbNode
  network : db'.tbNetwork = db.tbNetwork
  segment : db'.tbNetworkSegment = db.tbNetworkSegment
  states : db.tbWorkState.length ≤ db'.tbWorkState.length
  statuses : db.tbNodeStatus.length ≤ db'.tbNodeStatus.length
  numbers : ¬ db'.HasNumbers netName state status

theorem spUpdateNodeInfo_refused {db : Database N P S} {netName state status : N}
    (h : ¬ db.HasNumbers netName state status) (strict : Bool) (now : Nat) (nodId power : Int) (gps : P) :
    db.Refused (db.spUpdateNodeInfo strict now netName nodId state status power gps) netName state status := by
  rw [spUpdateNodeInfo]
  split
  · exact ⟨rfl, rfl, rfl, Nat.le_refl _, Nat.le_refl _, h⟩
  rename_i hstate
  dsimp only
  split
  · rename_i hstatus
    exact ⟨rfl, rfl, rfl, length_le_intern hstate, Nat.le_refl _, fun hnum => intern_eq_none_iff.mp hstatus hnum.2.1⟩
  rename_i hstatus
  split
  · rename_i hsegment
    exact ⟨rfl, rfl, rfl, length_le_intern hstate, length_le_intern hstatus,
      fun hnum => intern_eq_none_iff.mp hsegment hnum.2.2⟩
  rename_i hsegment
  refine absurd ⟨?_, ?_, ?_⟩ h <;> refine intern_isSome_iff.mp ?_
  · rw [hstate]
    rfl
  · rw [hstatus]
    rfl
  · rw [hsegment]
    rfl

/-- A report whose names have numbers writes its node's row. -/
theorem nodeRow_spUpdateNodeInfo {db : Database N P S} (hname : db.Named) {netName state status : N}
    (h : db.HasNumbers netName state status) (strict : Bool) (now : Nat) (nodId power : Int) (gps : P) :
    ∃ db' netId stateNum statusNum, db.Numbered db' netName state status netId stateNum statusNum ∧
      ∀ other m, (db.spUpdateNodeInfo strict now netName nodId state status power gps).nodeRow other m =
        if other = netName ∧ m = nodId then
          some (.write strict now ⟨stateNum, statusNum, power, gps⟩ (db.nodeRow netName nodId))
        else db.nodeRow other m := by
  obtain ⟨db', netId, stateNum, statusNum, hnum, heq⟩ := spUpdateNodeInfo_taken h strict now nodId power gps
  refine ⟨db', netId, stateNum, statusNum, hnum, fun other m => ?_⟩
  rw [heq, nodeRow_putNode (idxOf?_intern hnum.segment), hnum.nodeRow_eq hname, hnum.tbNode_eq hname]

theorem networkRow_spUpdateNodeInfo {db : Database N P S} (hname : db.Named) (strict : Bool) (now : Nat)
    (netName : N) (nodId : Int) (state status : N) (power : Int) (gps : P) (other : N) (m : Int) :
    (db.spUpdateNodeInfo strict now netName nodId state status power gps).networkRow other m =
      db.networkRow other m := by
  by_cases h : db.HasNumbers netName state status
  · obtain ⟨db', netId, stateNum, statusNum, hnum, heq⟩ := spUpdateNodeInfo_taken h strict now nodId power gps
    rw [heq]
    exact hnum.networkRow_eq hname other m
  · obtain ⟨-, hnetwork, hnamement, -⟩ := spUpdateNodeInfo_refused h strict now nodId power gps
    rw [networkRow, networkRow, hnetwork, hnamement]

theorem named_spUpdateNodeInfo {db : Database N P S} (hname : db.Named) (strict : Bool) (now : Nat)
    (netName : N) (nodId : Int) (state status : N) (power : Int) (gps : P) :
    (db.spUpdateNodeInfo strict now netName nodId state status power gps).Named := by
  by_cases h : db.HasNumbers netName state status
  · obtain ⟨db', netId, stateNum, statusNum, hnum, heq⟩ := spUpdateNodeInfo_taken h strict now nodId power gps
    have hold : ∀ key row, db.tbNode key = some row → key.1 < db'.tbNetworkSegment.length ∧
        row.workState < db'.tbWorkState.length ∧ row.nodeStatus < db'.tbNodeStatus.length := by
      intro key row hrow
      obtain ⟨hnet, hstate, hstatus⟩ := hname key row hrow
      exact ⟨Nat.lt_of_lt_of_le hnet (length_le_intern hnum.segment),
        Nat.lt_of_lt_of_le hstate (length_le_intern hnum.state),
        Nat.lt_of_lt_of_le hstatus (length_le_intern hnum.status)⟩
    have hnew : stateNum < db'.tbWorkState.length ∧ statusNum < db'.tbNodeStatus.length :=
      ⟨lt_length_of_idxOf? (idxOf?_intern hnum.state), lt_length_of_idxOf? (idxOf?_intern hnum.status)⟩
    rw [heq]
    intro key row hrow
    by_cases hkey : key = (netId, nodId)
    · subst hkey
      refine ⟨lt_length_of_idxOf? (idxOf?_intern hnum.segment), ?_⟩
      simp only [putNode, Function.update_self, Option.some.injEq] at hrow
      rcases NodeRow.write_cases strict now ⟨stateNum, statusNum, power, gps⟩ (db.tbNode (netId, nodId)) with
        ⟨hstate, hstatus⟩ | hsame
      · rw [← hrow, hstate, hstatus]
        exact hnew
      · rw [hrow] at hsame
        exact (hold _ row hsame).2
    · simp only [putNode, Function.update_of_ne hkey, hnum.node] at hrow
      exact hold key row hrow
  · have href := spUpdateNodeInfo_refused h strict now nodId power gps
    intro key row hrow
    rw [href.node] at hrow
    obtain ⟨hnet, hstate, hstatus⟩ := hname key row hrow
    exact ⟨href.segment ▸ hnet, Nat.lt_of_lt_of_le hstate href.states, Nat.lt_of_lt_of_le hstatus href.statuses⟩

/-- Whether a report's names have numbers does not change by the report. -/
theorem hasNumbers_spUpdateNodeInfo {db : Database N P S} (strict : Bool) (now : Nat) (netName : N) (nodId : Int)
    (state status : N) (power : Int) (gps : P) :
    (db.spUpdateNodeInfo strict now netName nodId state status power gps).HasNumbers netName state status ↔
      db.HasNumbers netName state status := by
  by_cases h : db.HasNumbers netName state status
  · obtain ⟨db', netId, stateNum, statusNum, hnum, heq⟩ := spUpdateNodeInfo_taken h strict now nodId power gps
    rw [heq]
    exact iff_of_true ⟨.inl (mem_intern hnum.state), .inl (mem_intern hnum.status), .inl (mem_intern hnum.segment)⟩ h
  · exact iff_of_false (spUpdateNodeInfo_refused h strict now nodId power gps).numbers h

end Database

end TinyosGraphics.Db
