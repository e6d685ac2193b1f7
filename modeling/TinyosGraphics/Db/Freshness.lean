import TinyosGraphics.Db.Tables

/-! How fresh `tb_network` is: `sp_flush_network` judges a node by the time of the last change of its row in
`tb_node`, which a report is meant to bring about. -/
namespace TinyosGraphics.Db
open Lib

variable {N P : Type} [DecidableEq N] [DecidableEq P]

/-- The arguments of `sp_update_node_info`. -/
structure Report (N P : Type) where
  netName : N
  nodId : Int
  state : N
  status : N
  power : Int
  gps : P

/-- The calls of procedures; `sp_get_all_node_info` and `sp_get_network_info` flush as well. -/
inductive Call (N P : Type)
  | updateNodeInfo (r : Report N P)
  | updateNetwork (netName : N) (nodId parId quality : Int)
  | flushNetwork (sec : Int)

/-- The calls so far with their times in seconds, the last one first. -/
abbrev History (N P : Type) := List (Nat × Call N P)

namespace Database

def step (strict : Bool) (now : Nat) (db : Database N P Unit) : Call N P → Database N P Unit
  | .updateNodeInfo r => db.spUpdateNodeInfo strict now r.netName r.nodId r.state r.status r.power r.gps
  | .updateNetwork netName nodId parId quality => db.spUpdateNetwork netName nodId parId quality
  | .flushNetwork sec => db.spFlushNetwork now sec

def after (strict : Bool) : History N P → Database N P Unit
  | [] => .empty
  | (now, call) :: earlier => (after strict earlier).step strict now call

instance (db : Database N P Unit) (netName state status : N) : Decidable (db.HasNumbers netName state status) :=
  inferInstanceAs (Decidable ((_ ∨ _) ∧ (_ ∨ _) ∧ (_ ∨ _)))

/-- The report is taken, and it is the node's first or differs from the row: in its state, its status, its
position, or its power with the last two digits of the time added. -/
def changes (strict : Bool) (now : Nat) (db : Database N P Unit) (r : Report N P) : Bool :=
  decide (db.HasNumbers r.netName r.state r.status) &&
    match db.nodeRow r.netName r.nodId with
    | none => true
    | some row =>
      match intColumn strict (r.power + now % 100) with
      | none => false
      | some power =>
        !decide (db.tbWorkState.idxOf? r.state = some row.workState ∧
          db.tbNodeStatus.idxOf? r.status = some row.nodeStatus ∧ row.power = power ∧ row.gps = r.gps)

end Database

def lastReport (netName : N) (nodId : Int) : History N P → Option Nat
  | [] => none
  | (now, .updateNodeInfo r) :: earlier =>
    if r.netName = netName ∧ r.nodId = nodId then some now else lastReport netName nodId earlier
  | _ :: earlier => lastReport netName nodId earlier

def lastChange (strict : Bool) (netName : N) (nodId : Int) : History N P → Option Nat
  | [] => none
  | (now, .updateNodeInfo r) :: earlier =>
    if (r.netName = netName ∧ r.nodId = nodId) ∧ (Database.after strict earlier).changes strict now r then some now
    else lastChange strict netName nodId earlier
  | _ :: earlier => lastChange strict netName nodId earlier

/-- No more than `sec` seconds old. -/
def Recent (now : Nat) (sec : Int) (time : Option Nat) : Prop :=
  ∃ t ∈ time, (now : Int) - t ≤ sec

namespace Database

private theorem updateTime_spUpdateNodeInfo {db : Database N P Unit} (hname : db.Named) (strict : Bool) (now : Nat)
    (r : Report N P) :
    ((db.step strict now (.updateNodeInfo r)).nodeRow r.netName r.nodId).map (·.updateTime) =
      if db.changes strict now r then some now else (db.nodeRow r.netName r.nodId).map (·.updateTime) := by
  rw [step, changes]
  by_cases h : db.HasNumbers r.netName r.state r.status
  · obtain ⟨db', netId, stateNum, statusNum, hnum, hrow⟩ :=
      nodeRow_spUpdateNodeInfo hname h strict now r.nodId r.power r.gps
    rw [hrow, if_pos ⟨rfl, rfl⟩, decide_eq_true h, Bool.true_and]
    cases hold : db.nodeRow r.netName r.nodId with
    | none => rfl
    | some row =>
      dsimp only
      rw [NodeRow.write]
      dsimp only
      cases hpower : intColumn strict (r.power + now % 100) with
      | none => rfl
      | some power =>
        dsimp only
        obtain ⟨netId', hnet, hkey⟩ := Option.bind_eq_some_iff.mp hold
        obtain ⟨-, hstate, hstatus⟩ := hname _ row hkey
        have hsame : (row.toNodeInfoColumns = ⟨stateNum, statusNum, power, r.gps⟩) ↔
            db.tbWorkState.idxOf? r.state = some row.workState ∧
              db.tbNodeStatus.idxOf? r.status = some row.nodeStatus ∧ row.power = power ∧ row.gps = r.gps := by
          rw [idxOf?_eq_some_iff_intern hnum.state hstate, idxOf?_eq_some_iff_intern hnum.status hstatus]
          exact NodeInfoColumns.ext_iff
        by_cases heq : db.tbWorkState.idxOf? r.state = some row.workState ∧
            db.tbNodeStatus.idxOf? r.status = some row.nodeStatus ∧ row.power = power ∧ row.gps = r.gps
        · rw [if_pos (hsame.mpr heq)]
          simp [heq]
        · rw [if_neg fun h => heq (hsame.mp h)]
          simp [heq]
  · have href := spUpdateNodeInfo_refused h strict now r.nodId r.power r.gps
    rw [nodeRow, nodeRow, href.node, href.segment, decide_eq_false h, Bool.false_and]
    rfl

private theorem nodeRow_step_of_ne {db : Database N P Unit} (hname : db.Named) (strict : Bool) (now : Nat)
    (r : Report N P)
    {netName : N} {nodId : Int} (hne : ¬ (r.netName = netName ∧ r.nodId = nodId)) :
    (db.step strict now (.updateNodeInfo r)).nodeRow netName nodId = db.nodeRow netName nodId := by
  rw [step]
  by_cases h : db.HasNumbers r.netName r.state r.status
  · obtain ⟨db', netId, stateNum, statusNum, -, hrow⟩ :=
      nodeRow_spUpdateNodeInfo hname h strict now r.nodId r.power r.gps
    rw [hrow, if_neg fun heq => hne ⟨heq.1.symm, heq.2.symm⟩]
  · have href := spUpdateNodeInfo_refused h strict now r.nodId r.power r.gps
    rw [nodeRow, nodeRow, href.node, href.segment]

private theorem named_after (strict : Bool) (h : History N P) : (after strict h).Named := by
  induction h with
  | nil => intro key row hrow; cases hrow
  | cons event earlier ih =>
    obtain ⟨now, call⟩ := event
    cases call with
    | updateNodeInfo r => exact named_spUpdateNodeInfo ih _ _ _ _ _ _ _ _
    | updateNetwork netName nodId parId quality => exact named_spUpdateNetwork ih _ _ _ _
    | flushNetwork sec => exact ih

/-- The time of a node's row is the time of its last report that changed something. -/
private theorem updateTime_after (strict : Bool) (netName : N) (nodId : Int) (h : History N P) :
    ((after strict h).nodeRow netName nodId).map (·.updateTime) = lastChange strict netName nodId h := by
  induction h with
  | nil => rfl
  | cons event earlier ih =>
    obtain ⟨now, call⟩ := event
    have hname := named_after strict earlier
    cases call with
    | updateNodeInfo r =>
      rw [after, lastChange]
      by_cases hnode : r.netName = netName ∧ r.nodId = nodId
      · obtain ⟨rfl, rfl⟩ := hnode
        rw [updateTime_spUpdateNodeInfo hname, ih]
        simp only [and_self, true_and]
      · rw [nodeRow_step_of_ne hname strict now r hnode, ih, if_neg fun hand => hnode hand.1]
    | updateNetwork name node parent quality =>
      rw [after, step, nodeRow_spUpdateNetwork, ih]
      rfl
    | flushNetwork sec => exact ih

/-- A row of `tb_network` stays through a flush exactly if its node's last change is recent. -/
private theorem networkRow_flush_eq_iff {strict : Bool} {h : History N P} {netName : N} {nodId : Int}
    (hrow : (after strict h).networkRow netName nodId ≠ none) (now : Nat) (sec : Int) :
    ((after strict h).spFlushNetwork now sec).networkRow netName nodId = (after strict h).networkRow netName nodId ↔
      Recent now sec (lastChange strict netName nodId h) := by
  obtain ⟨link, hlink⟩ := Option.ne_none_iff_exists'.mp hrow
  obtain ⟨netId, hnet, hkey⟩ := Option.bind_eq_some_iff.mp hlink
  obtain ⟨row, hnode⟩ := Option.isSome_iff_exists.mp ((after strict h).network_key _ link hkey).1
  have hnode : (after strict h).nodeRow netName nodId = some row := by
    rw [nodeRow, hnet, Option.bind_some, hnode]
  have htime := updateTime_after strict netName nodId h
  rw [hnode, Option.map_some] at htime
  rw [networkRow_spFlushNetwork, hnode, hlink, ← htime]
  simp only [Recent, Option.mem_some_iff, exists_eq_left']
  split
  · rename_i hold
    exact iff_of_false (by simp) (by omega)
  · rename_i hnew
    exact iff_of_true rfl (by omega)

end Database

/-- A flush keeps the rows of all nodes with a recent report, after any history, if and only if of each such node
a recent report changed something. -/
theorem fresh_kept_iff (strict : Bool) (h : History N P) (now : Nat) (sec : Int) :
    (∀ netName nodId, Recent now sec (lastReport netName nodId h) →
      ((Database.after strict h).spFlushNetwork now sec).networkRow netName nodId =
        (Database.after strict h).networkRow netName nodId) ↔
      ∀ netName nodId, Recent now sec (lastReport netName nodId h) →
        (Database.after strict h).networkRow netName nodId ≠ none →
          Recent now sec (lastChange strict netName nodId h) := by
  refine forall₃_congr fun netName nodId _ => ?_
  constructor
  · intro hkept hrow
    exact (Database.networkRow_flush_eq_iff hrow now sec).mp hkept
  · intro hrecent
    by_cases hrow : (Database.after strict h).networkRow netName nodId = none
    · rw [Database.networkRow_spFlushNetwork, hrow]
      split
      · split <;> rfl
      · rfl
    · exact (Database.networkRow_flush_eq_iff hrow now sec).mpr (hrecent hrow)

/-- A node reports twice, 100 seconds apart, with nothing changed, and is flushed at once. -/
theorem fresh_deleted :
    let r : Report Nat (Int × Int) := ⟨0, 1, 0, 0, 5, (3, 4)⟩
    let h : History Nat (Int × Int) :=
      [(1100, .updateNodeInfo r), (1000, .updateNetwork 0 1 1 0), (1000, .updateNodeInfo r)]
    lastReport 0 1 h = some 1100 ∧ (Database.after false h).networkRow 0 1 = some ⟨1, 0⟩ ∧
      ((Database.after false h).spFlushNetwork 1100 50).networkRow 0 1 = none := by
  decide

end TinyosGraphics.Db
