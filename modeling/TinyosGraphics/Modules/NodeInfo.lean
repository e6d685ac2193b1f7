import TinyosGraphics.Lib.CString
import TinyosGraphics.Lib.Json
import TinyosGraphics.Lib.NameTable

/-! The `nodeInfo` module: the rows that the database has of all nodes are put together by network. -/
namespace TinyosGraphics.NodeInfo
open Lib

-- the type of the coordinates
variable {D : Type}

/-- `node_t`, as far as the handler reads it. -/
structure NodeT (D : Type) where
  networkId : Int
  networkName : List UInt8
  nodeId : Int
  parentId : Int
  positionX : D
  positionY : D

/-- The `for` of `get_index`, from `array[k]` on: where it stops, and whether the value is there. `none` is a
read behind the end of the array, which is looked at before `k` is. -/
def getIndexLoop (len : Nat) (value : Int) : Nat → List Int → Option (Nat × Bool)
  | _, [] => none
  | k, a :: rest =>
    if a ≠ 0 ∧ k < len then if a = value then some (k, true) else getIndexLoop len value (k + 1) rest
    else some (k, false)

/-- `get_index`: its result, and what `array` and `*isNew` hold behind it. -/
def getIndex (array : List Int) (len : Nat) (value : Int) (isNew : Option Bool) :
    Option (Int × List Int × Option Bool) := do
  let (k, found) ← getIndexLoop len value 0 array
  if found then return (k, array, some false)
  else if len ≤ k then return (-1, array, isNew)
  else return (k, array.set k value, some true)

/-- How the handler can stop early. -/
inductive Stop
  /-- an access outside an array, through `NULL`, or to what was never set -/
  | fault
  /-- `return -1` -/
  | err
  deriving DecidableEq

def access {α : Type} : Option α → Except Stop α
  | some a => .ok a
  | none => .error .fault

structure Locals (D : Type) where
  flag : List Int
  networkObject : List (Option (Json D))
  nodeArray : List (Option (Json D))
  isNew : Option Bool
  networkNum : Nat

/-- What a row's `node` becomes. -/
def nodeJson (row : NodeT D) : Json D :=
  .object [(ascii "node_id", .int row.nodeId), (ascii "parent_id", .int row.parentId), (ascii "power", .int 100),
    (ascii "position_x", .double row.positionX), (ascii "position_y", .double row.positionY)]

/-- What is put into a new `network_object`. -/
def networkJson (row : NodeT D) : Json D :=
  .object [(ascii "network_id", .int row.networkId), (ascii "network_name", .string row.networkName)]

/-- `if (isNew)`. -/
def openNetwork (row : NodeT D) (index : Nat) (s : Locals D) : Locals D :=
  { s with
    networkNum := s.networkNum + 1
    networkObject := s.networkObject.set index (some (networkJson row))
    nodeArray := s.nodeArray.set index (some (.array [])) }

def addRow (nNode : Nat) (s : Locals D) (row : NodeT D) : Except Stop (Locals D) := do
  let (index, flag, isNew) ← access (getIndex s.flag nNode row.networkId s.isNew)
  if index < 0 then .error .err
  else
    let fresh ← access isNew
    let s := { s with flag := flag, isNew := isNew }
    let s := if fresh then openNetwork row index.toNat s else s
    let nodes ← access ((s.nodeArray[index.toNat]?).join.bind (Json.arrayAdd (nodeJson row)))
    return { s with nodeArray := s.nodeArray.set index.toNat (some nodes) }

/-- One turn of the second loop: the network that it adds to the answer. -/
def closeNetwork (s : Locals D) (i : Nat) : Except Stop (Json D) := do
  let nodes ← access s.nodeArray[i]?
  access ((s.networkObject[i]?).join.bind (Json.objectAdd (ascii "nodes") (nodes.getD .null)))

/-- The handler behind `get_all_node_info`, which has returned these rows. -/
def nodeInfo (rows : List (NodeT D)) : Except Stop (Json D) := do
  let nNode := rows.length
  let s ← rows.foldlM (addRow nNode)
    ⟨List.replicate nNode 0, List.replicate nNode none, List.replicate nNode none, none, 0⟩
  let network ← (List.range s.networkNum).mapM (closeNetwork s)
  return .array network

/-- The networks that have been seen, and 0 from there on. -/
def marked (len : Nat) (ids : List Int) : List Int :=
  ids ++ List.replicate (len - ids.length) 0

private theorem getIndexLoop_marked {len : Nat} {value : Int} {ids : List Int} (hids : 0 ∉ ids) {k : Nat}
    (hlen : k + ids.length < len) (free : List Int) :
    getIndexLoop len value k (ids ++ 0 :: free) =
      some (match ids.idxOf? value with
        | some i => (k + i, true)
        | none => (k + ids.length, false)) := by
  induction ids generalizing k with
  | nil => simp [getIndexLoop]
  | cons a ids ih =>
    obtain ⟨ha, hids⟩ := not_or.mp (List.mem_cons.not.mp hids)
    rw [List.length_cons] at hlen
    rw [List.cons_append, getIndexLoop, if_pos ⟨Ne.symm ha, by omega⟩, List.idxOf?_cons]
    by_cases hvalue : a = value
    · simp [hvalue]
    · rw [if_neg hvalue, ih hids (by omega), if_neg (by simpa using hvalue)]
      cases ids.idxOf? value with
      | none => simp only [Option.map_none, List.length_cons, Nat.add_assoc, Nat.add_comm 1]
      | some i => simp only [Option.map_some, Nat.add_assoc, Nat.add_comm 1]

/-- As long as there is a free place, `get_index` gives numbers as an automatic key does. -/
private theorem getIndex_marked {len : Nat} {ids : List Int} (hids : 0 ∉ ids) (hroom : ids.length < len) (value : Int)
    (isNew : Option Bool) :
    ∃ ids' i, intern len ids value = some (ids', i) ∧
      getIndex (marked len ids) len value isNew = some ((i : Int), marked len ids', some (decide (value ∉ ids))) := by
  obtain ⟨m, hm⟩ : ∃ m, len - ids.length = m + 1 := ⟨len - ids.length - 1, by omega⟩
  have hloop := @getIndexLoop_marked len value ids hids 0 (by omega) (List.replicate m 0)
  rw [marked, hm, List.replicate_succ, getIndex, hloop]
  cases hfound : ids.idxOf? value with
  | some i =>
    have hmem : value ∈ ids := List.isSome_idxOf?.mp (by rw [hfound]; rfl)
    refine ⟨ids, i, intern_of_idxOf? hfound, ?_⟩
    simp [marked, hm, hmem, List.replicate_succ]
  | none =>
    have hnew : value ∉ ids := List.idxOf?_eq_none_iff.mp hfound
    have hrest : len - (ids.length + 1) = m := by omega
    refine ⟨ids ++ [value], ids.length, ?_, ?_⟩
    · rw [intern, hfound]
      exact if_pos hroom
    · simp [marked, hrest, hnew, Nat.not_le.mpr hroom]

/-- What a reader of the answer finds in the entry of a row. -/
structure EntryOf (row : NodeT D) (entry : Json D) : Prop where
  nodeId : entry.objectGet (ascii "node_id") = some (.int row.nodeId)
  parentId : entry.objectGet (ascii "parent_id") = some (.int row.parentId)
  power : entry.objectGet (ascii "power") = some (.int 100)
  positionX : entry.objectGet (ascii "position_x") = some (.double row.positionX)
  positionY : entry.objectGet (ascii "position_y") = some (.double row.positionY)

/-- And in the object of a network: its number, the name in its first row, and the entries of its rows in their order.
-/
structure NetworkOf (rows : List (NodeT D)) (id : Int) (network : Json D) : Prop where
  networkId : network.objectGet (ascii "network_id") = some (.int id)
  networkName : ∃ row, rows.find? (·.networkId == id) = some row ∧
    network.objectGet (ascii "network_name") = some (.string row.networkName)
  nodes : ∃ entries, network.objectGet (ascii "nodes") = some (.array entries) ∧
    List.Forall₂ EntryOf (rows.filter (·.networkId == id)) entries

/-- The networks of the rows, in the order in which they appear. -/
def idsOf (rows : List (NodeT D)) : List Int :=
  (rows.map NodeT.networkId).eraseDups

def firstName (rows : List (NodeT D)) (id : Int) : List UInt8 :=
  ((rows.find? fun row => row.networkId == id).map NodeT.networkName).getD []

def nodesOf (rows : List (NodeT D)) (id : Int) : List (Json D) :=
  (rows.filter fun row => row.networkId == id).map nodeJson

def networkOf (rows : List (NodeT D)) (id : Int) : Json D :=
  .object [(ascii "network_id", .int id), (ascii "network_name", .string (firstName rows id)),
    (ascii "nodes", .array (nodesOf rows id))]

private theorem mem_idsOf {rows : List (NodeT D)} {id : Int} : id ∈ idsOf rows ↔ ∃ row ∈ rows, row.networkId = id := by
  simp [idsOf]

private theorem idsOf_snoc (rows : List (NodeT D)) (row : NodeT D) :
    idsOf (rows ++ [row]) = if row.networkId ∈ idsOf rows then idsOf rows else idsOf rows ++ [row.networkId] := by
  have hmem : row.networkId ∈ idsOf rows ↔ row.networkId ∈ rows.map NodeT.networkId := List.mem_eraseDups
  simp only [hmem]
  rw [idsOf, List.map_append, List.eraseDups_append, List.removeAll, List.map_singleton, List.filter_singleton,
    ← idsOf]
  by_cases h : row.networkId ∈ rows.map NodeT.networkId
  · rw [if_pos h, List.elem_eq_true_of_mem h]
    simp
  · have helem : (rows.map NodeT.networkId).elem row.networkId = false := by
      rw [← Bool.not_eq_true, List.elem_iff]
      exact h
    rw [if_neg h, helem]
    rfl

private theorem idsOf_length_le (rows : List (NodeT D)) : (idsOf rows).length ≤ rows.length := by
  induction rows using List.reverseRecOn with
  | nil => exact le_rfl
  | append_singleton rows row ih =>
    rw [idsOf_snoc, List.length_append, List.length_singleton]
    split
    · exact Nat.le_succ_of_le ih
    · rw [List.length_append, List.length_singleton]
      exact Nat.succ_le_succ ih

private theorem idsOf_pairwise (rows : List (NodeT D)) :
    (idsOf rows).Pairwise fun a b =>
      (rows.map NodeT.networkId).idxOf a < (rows.map NodeT.networkId).idxOf b := by
  induction rows using List.reverseRecOn with
  | nil => exact .nil
  | append_singleton rows row ih =>
    have hold : ∀ a ∈ idsOf rows, ((rows ++ [row]).map NodeT.networkId).idxOf a =
        (rows.map NodeT.networkId).idxOf a := by
      intro a ha
      rw [List.map_append, List.idxOf_append_of_mem (List.mem_eraseDups.mp ha)]
    have hpairwise : (idsOf rows).Pairwise fun a b =>
        ((rows ++ [row]).map NodeT.networkId).idxOf a < ((rows ++ [row]).map NodeT.networkId).idxOf b :=
      ih.imp_of_mem fun ha hb hlt => by rwa [hold _ ha, hold _ hb]
    rw [idsOf_snoc]
    split
    · exact hpairwise
    · rename_i hnew
      refine List.pairwise_append.mpr ⟨hpairwise, List.pairwise_singleton _ _, fun a ha b hb => ?_⟩
      obtain rfl := List.mem_singleton.mp hb
      have hnot : row.networkId ∉ rows.map NodeT.networkId := fun h => hnew (List.mem_eraseDups.mpr h)
      rw [hold a ha, List.map_append, List.idxOf_append_of_notMem hnot]
      exact Nat.lt_of_lt_of_le (List.idxOf_lt_length_iff.mpr (List.mem_eraseDups.mp ha)) (Nat.le_add_right _ _)

private theorem idsOf_nodup (rows : List (NodeT D)) : (idsOf rows).Nodup :=
  (idsOf_pairwise rows).imp fun h heq => absurd (heq ▸ h) (Nat.lt_irrefl _)

private theorem intern_idsOf {len : Nat} {rows : List (NodeT D)} {row : NodeT D} {ids' : List Int} {i : Nat}
    (h : intern len (idsOf rows) row.networkId = some (ids', i)) :
    ids' = idsOf (rows ++ [row]) ∧ (idsOf (rows ++ [row]))[i]? = some row.networkId := by
  have hfound := idxOf?_intern h
  obtain ⟨hi, hget, -⟩ := List.idxOf?_eq_some_iff.mp hfound
  have hids : ids' = idsOf (rows ++ [row]) := by
    rw [idsOf_snoc]
    by_cases hmem : row.networkId ∈ idsOf rows
    · obtain ⟨j, hj⟩ := Option.isSome_iff_exists.mp (List.isSome_idxOf?.mpr hmem)
      rw [intern_of_idxOf? hj] at h
      rw [if_pos hmem, (Prod.mk.inj (Option.some.inj h)).1]
    · rw [if_neg hmem, (intern_of_new hmem h).1]
  subst hids
  exact ⟨rfl, List.getElem?_eq_some_iff.mpr ⟨hi, hget⟩⟩

/-- The entries that are set, and `NULL` from there on. -/
def padded (len : Nat) (items : List (Json D)) : List (Option (Json D)) :=
  items.map some ++ List.replicate (len - items.length) none

/-- What the first loop has made of the rows it has seen. -/
structure Sorted (nNode : Nat) (seen : List (NodeT D)) (s : Locals D) : Prop where
  flag : s.flag = marked nNode (idsOf seen)
  networkObject : s.networkObject = padded nNode ((idsOf seen).map fun id =>
    .object [(ascii "network_id", .int id), (ascii "network_name", .string (firstName seen id))])
  nodeArray : s.nodeArray = padded nNode ((idsOf seen).map fun id => .array (nodesOf seen id))
  networkNum : s.networkNum = (idsOf seen).length

private theorem padded_get (len : Nat) {items : List (Json D)} {i : Nat} {x : Json D} (h : items[i]? = some x) :
    (padded len items)[i]? = some (some x) := by
  have hi : i < (items.map some).length := by
    rw [List.length_map]
    exact (List.getElem?_eq_some_iff.mp h).1
  rw [padded, List.getElem?_append_left hi, List.getElem?_map, h]
  rfl

private theorem padded_set (len : Nat) {items : List (Json D)} {i : Nat} (hi : i < items.length) (x : Json D) :
    (padded len items).set i (some x) = padded len (items.set i x) := by
  have hmap : i < (items.map some).length := by rwa [List.length_map]
  rw [padded, padded, List.set_append_left i _ hmap, List.map_set, List.length_set]

private theorem padded_set_new {len : Nat} {items : List (Json D)} (h : items.length < len) (x : Json D) :
    (padded len items).set items.length (some x) = padded len (items ++ [x]) := by
  obtain ⟨m, hm⟩ : ∃ m, len - items.length = m + 1 := ⟨len - items.length - 1, by omega⟩
  have hrest : len - (items.length + 1) = m := by omega
  rw [padded, padded, List.length_append, List.length_singleton, hm, hrest, List.replicate_succ,
    List.set_append_right _ _ (by rw [List.length_map]), List.length_map, Nat.sub_self]
  simp

private theorem firstName_snoc {rows : List (NodeT D)} (row : NodeT D) {id : Int} (h : id ∈ idsOf rows) :
    firstName (rows ++ [row]) id = firstName rows id := by
  obtain ⟨r, hr, hid⟩ := mem_idsOf.mp h
  have hsome : (rows.find? fun row => row.networkId == id).isSome :=
    List.find?_isSome.mpr ⟨r, hr, beq_iff_eq.mpr hid⟩
  rw [firstName, firstName, List.find?_append, Option.or_of_isSome hsome]

private theorem firstName_new {rows : List (NodeT D)} {row : NodeT D} (h : row.networkId ∉ idsOf rows) :
    firstName (rows ++ [row]) row.networkId = row.networkName := by
  have hnone : (rows.find? fun r => r.networkId == row.networkId) = none := by
    rw [List.find?_eq_none]
    intro r hr heq
    exact h (mem_idsOf.mpr ⟨r, hr, beq_iff_eq.mp heq⟩)
  simp [firstName, List.find?_append, hnone]

private theorem nodesOf_snoc (rows : List (NodeT D)) (row : NodeT D) (id : Int) :
    nodesOf (rows ++ [row]) id = nodesOf rows id ++ if row.networkId = id then [nodeJson row] else [] := by
  rw [nodesOf, List.filter_append, List.map_append, ← nodesOf, List.filter_singleton]
  by_cases h : row.networkId = id
  · rw [if_pos h, beq_iff_eq.mpr h]
    rfl
  · rw [if_neg h, beq_eq_false_iff_ne.mpr h]
    rfl

private theorem nodesOf_new {rows : List (NodeT D)} {id : Int} (h : id ∉ idsOf rows) : nodesOf rows id = [] := by
  rw [nodesOf, List.map_eq_nil_iff, List.filter_eq_nil_iff]
  intro row hrow heq
  exact h (mem_idsOf.mpr ⟨row, hrow, beq_iff_eq.mp heq⟩)

private theorem map_nodesOf_set {ids : List Int} (hids : ids.Nodup) {i : Nat} (rows : List (NodeT D)) {row : NodeT D}
    (hi : ids[i]? = some row.networkId) :
    (ids.map fun id => Json.array (nodesOf rows id)).set i
        (.array (nodesOf rows row.networkId ++ [nodeJson row])) =
      ids.map fun id => .array (nodesOf (rows ++ [row]) id) := by
  apply List.ext_getElem?
  intro j
  rw [List.getElem?_set, List.length_map, List.getElem?_map, List.getElem?_map]
  split
  · rename_i hij
    subst hij
    obtain ⟨hlt, hget⟩ := List.getElem?_eq_some_iff.mp hi
    rw [if_pos hlt, hi, Option.map_some, nodesOf_snoc, if_pos rfl]
  · rename_i hij
    cases hj : ids[j]? with
    | none => rfl
    | some id =>
      have hne : row.networkId ≠ id := by
        rintro rfl
        exact hij ((List.getElem?_inj (List.getElem?_eq_some_iff.mp hi).1 hids).mp (hi.trans hj.symm))
      rw [Option.map_some, Option.map_some, nodesOf_snoc, if_neg hne, List.append_nil]

private theorem map_firstName_snoc (rows : List (NodeT D)) (row : NodeT D) :
    ((idsOf rows).map fun id => Json.object (D := D)
        [(ascii "network_id", .int id), (ascii "network_name", .string (firstName (rows ++ [row]) id))]) =
      (idsOf rows).map fun id =>
        .object [(ascii "network_id", .int id), (ascii "network_name", .string (firstName rows id))] :=
  List.map_congr_left fun id hid => by rw [firstName_snoc row hid]

private theorem zero_not_mem_idsOf {rows : List (NodeT D)} (h : ∀ r ∈ rows, r.networkId ≠ 0) : 0 ∉ idsOf rows := by
  intro hmem
  obtain ⟨r, hr, hid⟩ := mem_idsOf.mp hmem
  exact h r hr hid

section Step
variable {nNode : Nat} {seen : List (NodeT D)} {s : Locals D} {row : NodeT D}

private theorem addRow_seen {i : Nat} (h : Sorted nNode seen s) (hmem : row.networkId ∈ idsOf seen)
    (hi : (idsOf seen)[i]? = some row.networkId)
    (hget : getIndex s.flag nNode row.networkId s.isNew = some ((i : Int), marked nNode (idsOf seen), some false)) :
    ∃ s', addRow nNode s row = .ok s' ∧ Sorted nNode (seen ++ [row]) s' := by
  have hsnoc : idsOf (seen ++ [row]) = idsOf seen := by rw [idsOf_snoc, if_pos hmem]
  have hin : i < ((idsOf seen).map fun id => Json.array (nodesOf seen id)).length := by
    rw [List.length_map]
    exact (List.getElem?_eq_some_iff.mp hi).1
  have hnodes : s.nodeArray[i]? = some (some (.array (nodesOf seen row.networkId))) := by
    rw [h.nodeArray]
    exact padded_get nNode (by rw [List.getElem?_map, hi, Option.map_some])
  rw [addRow, hget]
  simp only [access, bind, Except.bind, Int.natCast_nonneg, not_lt.mpr, if_false, Int.toNat_natCast,
    Bool.false_eq_true, hnodes, Option.join_some, Option.bind_some, Json.arrayAdd]
  refine ⟨_, rfl, ⟨?_, ?_, ?_, ?_⟩⟩
  · rw [hsnoc]
  · rw [hsnoc, map_firstName_snoc]
    exact h.networkObject
  · rw [hsnoc, ← map_nodesOf_set (idsOf_nodup seen) seen hi, ← padded_set nNode hin, ← h.nodeArray]
  · rw [hsnoc]
    exact h.networkNum

private theorem addRow_new (h : Sorted nNode seen s) (hmem : row.networkId ∉ idsOf seen)
    (hroom : (idsOf seen).length < nNode)
    (hget : getIndex s.flag nNode row.networkId s.isNew =
      some (((idsOf seen).length : Int), marked nNode (idsOf (seen ++ [row])), some true)) :
    ∃ s', addRow nNode s row = .ok s' ∧ Sorted nNode (seen ++ [row]) s' := by
  have hsnoc : idsOf (seen ++ [row]) = idsOf seen ++ [row.networkId] := by rw [idsOf_snoc, if_neg hmem]
  have hplace : ∀ x, (s.nodeArray.set (idsOf seen).length (some x)) =
      padded nNode ((idsOf seen).map (fun id => Json.array (nodesOf seen id)) ++ [x]) := by
    intro x
    rw [h.nodeArray, ← padded_set_new (by rwa [List.length_map]), List.length_map]
  have hhead : s.networkObject.set (idsOf seen).length (some (networkJson row)) =
      padded nNode ((idsOf (seen ++ [row])).map fun id => .object [(ascii "network_id", .int id),
        (ascii "network_name", .string (firstName (seen ++ [row]) id))]) := by
    rw [h.networkObject, hsnoc, List.map_append, map_firstName_snoc, List.map_singleton, firstName_new hmem,
      ← padded_set_new (by rwa [List.length_map]), List.length_map]
    rfl
  have hold : ((idsOf seen).map fun id => Json.array (nodesOf (seen ++ [row]) id)) =
      (idsOf seen).map fun id => .array (nodesOf seen id) := by
    refine List.map_congr_left fun id hid => ?_
    have hne : row.networkId ≠ id := fun heq => hmem (heq ▸ hid)
    rw [nodesOf_snoc, if_neg hne, List.append_nil]
  have hnodes : (s.nodeArray.set (idsOf seen).length (some (.array [])))[(idsOf seen).length]? =
      some (some (.array [])) := by
    rw [hplace]
    exact padded_get nNode (by rw [List.getElem?_append_right (by rw [List.length_map]), List.length_map,
      Nat.sub_self, List.getElem?_cons_zero])
  rw [addRow, hget]
  simp only [access, bind, Except.bind, Int.natCast_nonneg, not_lt.mpr, if_false, Int.toNat_natCast, if_true,
    openNetwork, hnodes, Option.join_some, Option.bind_some, Json.arrayAdd]
  refine ⟨_, rfl, ⟨rfl, hhead, ?_, ?_⟩⟩
  · rw [hsnoc, List.map_append, hold, List.map_singleton, nodesOf_snoc, if_pos rfl, nodesOf_new hmem, ← hplace]
    exact List.set_set ..
  · rw [hsnoc, List.length_append, List.length_singleton]
    exact congrArg (· + 1) h.networkNum

/-- As long as there is a free place, `get_index` neither leaves `flag` nor returns -1. -/
private theorem addRow_sorted (h : Sorted nNode seen s) (hids : ∀ r ∈ seen, r.networkId ≠ 0)
    (hroom : seen.length < nNode) :
    ∃ s', addRow nNode s row = .ok s' ∧ Sorted nNode (seen ++ [row]) s' := by
  have hlen : (idsOf seen).length < nNode := Nat.lt_of_le_of_lt (idsOf_length_le seen) hroom
  obtain ⟨ids', i, hintern, hget⟩ := getIndex_marked (zero_not_mem_idsOf hids) hlen row.networkId s.isNew
  obtain ⟨rfl, hi⟩ := intern_idsOf hintern
  rw [← h.flag] at hget
  by_cases hmem : row.networkId ∈ idsOf seen
  · have hsnoc : idsOf (seen ++ [row]) = idsOf seen := by rw [idsOf_snoc, if_pos hmem]
    rw [hsnoc, decide_eq_false (not_not.mpr hmem)] at hget
    exact addRow_seen h hmem (hsnoc ▸ hi) hget
  · obtain ⟨-, rfl⟩ := intern_of_new hmem hintern
    rw [decide_eq_true hmem] at hget
    exact addRow_new h hmem hlen hget

private theorem foldlM_addRow (h : Sorted nNode seen s) {rest : List (NodeT D)}
    (hids : ∀ r ∈ seen ++ rest, r.networkId ≠ 0) (hroom : (seen ++ rest).length ≤ nNode) :
    ∃ s', rest.foldlM (addRow nNode) s = .ok s' ∧ Sorted nNode (seen ++ rest) s' := by
  induction rest generalizing seen s with
  | nil => exact ⟨s, rfl, by rwa [List.append_nil]⟩
  | cons row rest ih =>
    have hseen : ∀ r ∈ seen, r.networkId ≠ 0 := fun r hr => hids r (List.mem_append_left _ hr)
    have hfree : seen.length < nNode := by
      rw [List.length_append, List.length_cons] at hroom
      omega
    have hadd : ∃ s', addRow nNode s row = .ok s' ∧ Sorted nNode (seen ++ [row]) s' := addRow_sorted h hseen hfree
    obtain ⟨s', hs', hsorted⟩ := hadd
    rw [List.append_cons] at hids hroom ⊢
    obtain ⟨s'', hs'', hall⟩ := ih hsorted hids hroom
    refine ⟨s'', ?_, hall⟩
    rw [List.foldlM_cons, hs']
    exact hs''

private theorem closeNetwork_sorted (h : Sorted nNode seen s) {i : Nat} {id : Int} (hi : (idsOf seen)[i]? = some id) :
    closeNetwork s i = .ok (networkOf seen id) := by
  have hnodes : s.nodeArray[i]? = some (some (.array (nodesOf seen id))) := by
    rw [h.nodeArray]
    exact padded_get nNode (by rw [List.getElem?_map, hi, Option.map_some])
  have hobject : s.networkObject[i]? = some (some (.object [(ascii "network_id", .int id),
      (ascii "network_name", .string (firstName seen id))])) := by
    rw [h.networkObject]
    exact padded_get nNode (by rw [List.getElem?_map, hi, Option.map_some])
  rw [closeNetwork, hnodes, hobject]
  rfl

private theorem mapM_closeNetwork (h : Sorted nNode seen s) :
    (List.range s.networkNum).mapM (closeNetwork s) = .ok ((idsOf seen).map (networkOf seen)) := by
  have hloop : (List.range ((idsOf seen).map (networkOf seen)).length).mapM (closeNetwork s) =
      .ok ((idsOf seen).map (networkOf seen)) := by
    refine mapM_range fun i network hnetwork => ?_
    rw [List.getElem?_map] at hnetwork
    obtain ⟨id, hid, rfl⟩ := Option.map_eq_some_iff.mp hnetwork
    exact closeNetwork_sorted h hid
  rwa [List.length_map, ← h.networkNum] at hloop

end Step

private theorem nodeJson_entryOf (row : NodeT D) : EntryOf row (nodeJson row) :=
  ⟨rfl, rfl, rfl, rfl, rfl⟩

private theorem networkOf_shows {rows : List (NodeT D)} {id : Int} (h : id ∈ idsOf rows) :
    NetworkOf rows id (networkOf rows id) := by
  obtain ⟨r, hr, hid⟩ := mem_idsOf.mp h
  obtain ⟨row, hrow⟩ := Option.isSome_iff_exists.mp
    (List.find?_isSome (p := fun row => row.networkId == id).mpr ⟨r, hr, beq_iff_eq.mpr hid⟩)
  have hname : firstName rows id = row.networkName := by rw [firstName, hrow]; rfl
  refine ⟨rfl, ⟨row, hrow, ?_⟩, _, rfl, ?_⟩
  · rw [← hname]
    rfl
  · exact List.forall₂_map_right_iff.mpr (List.forall₂_same.mpr fun row _ => nodeJson_entryOf row)

/-- Neither loop stops early, whatever the order of the rows: the answer has one network for each number, in
the order in which the numbers appear, with the name in its first row and an entry with the data of each of its rows, in
their order. -/
theorem nodeInfo_spec (rows : List (NodeT D)) (h : ∀ row ∈ rows, row.networkId ≠ 0) :
    ∃ ids : List Int, (∀ id, id ∈ ids ↔ ∃ row ∈ rows, row.networkId = id) ∧
      (ids.Pairwise fun a b => (rows.map NodeT.networkId).idxOf a < (rows.map NodeT.networkId).idxOf b) ∧
      nodeInfo rows = .ok (.array (ids.map (networkOf rows))) ∧
      ∀ id ∈ ids, NetworkOf rows id (networkOf rows id) := by
  have hinit : Sorted rows.length [] (D := D) ⟨List.replicate rows.length 0, List.replicate rows.length none,
      List.replicate rows.length none, none, 0⟩ := ⟨rfl, rfl, rfl, rfl⟩
  have hids : ∀ row ∈ [] ++ rows, row.networkId ≠ 0 := h
  obtain ⟨s, hs, hsorted⟩ := foldlM_addRow hinit hids le_rfl
  refine ⟨idsOf rows, fun id => mem_idsOf, idsOf_pairwise rows, ?_, fun id => networkOf_shows⟩
  rw [nodeInfo]
  show ((rows.foldlM (addRow rows.length) _).bind fun s => _) = _
  rw [hs]
  show (((List.range s.networkNum).mapM (closeNetwork s)).bind fun network => _) = _
  rw [mapM_closeNetwork hsorted]
  rfl

def threeRows : List (NodeT Nat) :=
  [⟨7, ascii "b", 1, 0, 0, 0⟩, ⟨3, ascii "a", 1, 0, 0, 0⟩, ⟨7, ascii "b", 2, 1, 5, 5⟩]

theorem nodeInfo_spec_two :
    ∃ ids : List Int, nodeInfo threeRows = .ok (.array (ids.map (networkOf threeRows))) ∧
      NetworkOf threeRows 7 (networkOf threeRows 7) ∧ NetworkOf threeRows 3 (networkOf threeRows 3) := by
  obtain ⟨ids, hmem, -, hanswer, hshows⟩ := nodeInfo_spec threeRows (by decide)
  exact ⟨ids, hanswer, hshows 7 ((hmem 7).mpr ⟨_, .head _, rfl⟩),
    hshows 3 ((hmem 3).mpr ⟨_, .tail _ (.head _), rfl⟩)⟩

end TinyosGraphics.NodeInfo
