import TinyosGraphics.Db.Records
import TinyosGraphics.Db.Tables
import TinyosGraphics.Lib.Json

/-! The `realTime` module: the latest records of a node, as `sp_get_relative_record` selects them. The request goes to
the database as a statement, and the connection stands. A result of `none` is an access outside an array or through
`NULL`. -/
namespace TinyosGraphics.RealTime
open Lib Db Sql

-- names as the database's collation tells them apart, points, and `double`s
variable {N P V : Type} [DecidableEq N]

/-- A `timestamp`, in seconds. -/
abbrev Seconds := Fin (2 ^ 31)

/-- The columns of `tb_sense` that can be asked for; they can be `NULL`. -/
structure SenseColumns (V : Type) where
  temp : Option V
  photo : Option V
  sound : Option V
  xAcc : Option V
  yAcc : Option V
  xMag : Option V
  yMag : Option V
  insertTime : Seconds

/-- The `case sense` of `sp_get_relative_record`. -/
def senseColumn (collate : List UInt8 → N) (sense : List UInt8) : Option (SenseColumns V → Option V) :=
  if collate sense = collate (ascii "temp") then some SenseColumns.temp
  else if collate sense = collate (ascii "photo") then some SenseColumns.photo
  else if collate sense = collate (ascii "sound") then some SenseColumns.sound
  else if collate sense = collate (ascii "x_acc") then some SenseColumns.xAcc
  else if collate sense = collate (ascii "y_acc") then some SenseColumns.yAcc
  else if collate sense = collate (ascii "x_mag") then some SenseColumns.xMag
  else if collate sense = collate (ascii "y_mag") then some SenseColumns.yMag
  else none

/-- The records of a node, in the order of their `order_num`. -/
def recordsOf (db : Database N P (SenseColumns V)) (key : NodeKey) : List (SenseColumns V) :=
  (db.tbSense.filter fun record => record.1 = key).map Prod.snd

/-- `sp_get_relative_record`: the rows that it selects, or `none` where it leaves in front of a `select`. -/
def spGetRelativeRecord (collate : List UInt8 → N) (db : Database N P (SenseColumns V)) (netName : List UInt8)
    (nodId : Int) (sense : List UInt8) (startTime : Seconds) (numbers : Int) : Option (List (Option V × Seconds)) := do
  let netId ← db.tbNetworkSegment.idxOf? (collate netName)
  let column ← senseColumn collate sense
  let records := recordsOf db (netId, nodId)
  let rows :=
    if 0 ≤ numbers then (records.filter fun r => startTime ≤ r.insertTime).take numbers.toNat
    else (records.filter fun r => r.insertTime ≤ startTime).reverse.take (-numbers).toNat
  return rows.map fun r => (column r, r.insertTime)

/-- `sensor_t`, as far as it is filled in. -/
structure SensorT (V : Type) where
  temp : V
  time : List UInt8

/-- One turn of the `while` in `get_relative_record`. -/
def fetchRow : Nat × List (SensorT V) → Option V × Seconds → Option (Nat × List (SensorT V))
  | (i, info), (value, insertTime) => do
    let temp ← value
    let time ← strcpy 50 (decimal insertTime)
    if i < info.length then some (i + 1, info.set i ⟨temp, time⟩) else none

/-- What the database server makes of a statement: the rows of its result set, or none where there is no such set. -/
abbrev Server (V : Type) := List UInt8 → Option (List (Option V × Seconds))

/-- `get_relative_record`: its result, and `info` behind it. -/
def getRelativeRecord (server : Server V) (info : List (SensorT V)) (netName : List UInt8) (nodId : Int)
    (sensor startTime : List UInt8) (recordNum : Int) : Option (Int × List (SensorT V)) := do
  let command ← Db.getRelativeRecord netName nodId sensor startTime recordNum
  match server command with
  | none => return (-1, info)
  | some rows => (rows.foldlM fetchRow (0, info)).map fun (i, info) => ((i : Int), info)

/-- The members of the request. -/
structure Request where
  netName : List UInt8
  nodeId : Int
  sense : List UInt8
  requestNum : List UInt8

def respons (info : SensorT V) : Json V :=
  .object [(ascii "time", .string info.time), (ascii "value", .double info.temp)]

/-- The handler at the time that `strftime` gives as `startTime`: the array that it answers with, or `none` where it
returns -1. The memory from `calloc` holds the number `zero` and empty texts. -/
def realTime (server : Server V) (zero : V) (startTime : Timestamp) (request : Request) : Option (Option (Json V)) := do
  let requestNum := atoi request.requestNum
  let info := List.replicate 65536 ⟨zero, []⟩
  let requestNum := -requestNum
  let (ret, info) ← getRelativeRecord server info request.netName request.nodeId request.sense startTime.text requestNum
  if ret < 0 then return none
  else
    let requestNum := -requestNum
    let entries ← (List.range requestNum.toNat).mapM fun i => info[i]?.map respons
    return some (.array entries)

def Request.query (request : Request) (startTime : Timestamp) : Query :=
  .relative request.netName request.nodeId request.sense startTime (-atoi request.requestNum)

/-- A server that reads the statement of a request as it was meant runs the procedure, with `startTime` as the time
`now`. What it does with a statement that reads otherwise is left open. -/
def Answers (collate : List UInt8 → N) (db : Database N P (SenseColumns V)) (startTime : Timestamp) (now : Seconds)
    (request : Request) (server : Server V) : Prop :=
  ∀ text, (request.query startTime).command = some text →
    readCall text = some (ascii "sp_get_relative_record", [.text request.netName, .int request.nodeId,
      .text request.sense, .int (digitsValue startTime.text), .int (-atoi request.requestNum)]) →
    server text =
      spGetRelativeRecord collate db request.netName request.nodeId request.sense now (-atoi request.requestNum)

/-- The records of a node up to now, the newest, which has the highest `order_num`, first. -/
def available (db : Database N P (SenseColumns V)) (key : NodeKey) (now : Seconds) : List (SenseColumns V) :=
  ((recordsOf db key).filter fun r => r.insertTime ≤ now).reverse

/-- A record as an entry of the answer. -/
def recordJson (column : SenseColumns V → Option V) (r : SenseColumns V) : Option (Json V) :=
  (column r).map fun value =>
    .object [(ascii "time", .string (decimal r.insertTime)), (ascii "value", .double value)]

/-- Where the handler answers, the answer has one entry for each of the latest records, as many as were asked
for or there are, and no other. -/
def Faithful (collate : List UInt8 → N) (zero : V) (db : Database N P (SenseColumns V)) (server : Server V)
    (startTime : Timestamp) (now : Seconds) (request : Request) : Prop :=
  ∃ answer, realTime server zero startTime request = some answer ∧
    ∀ array, answer = some array →
      ∃ netId column entries, db.tbNetworkSegment.idxOf? (collate request.netName) = some netId ∧
        senseColumn collate request.sense = some column ∧
        ((available db (netId, request.nodeId) now).take (atoi request.requestNum).toNat).mapM (recordJson column) =
          some entries ∧
        array = .array entries

private theorem strcpy_decimal (t : Seconds) : strcpy 50 (decimal t) = some (decimal t) := by
  have hfits : (t : Nat) < 10 ^ 10 := Nat.lt_trans t.isLt (by decide)
  have hlen := length_decimal_le hfits (by decide)
  rw [strcpy, if_pos (by omega)]

/-- What a row puts into `info`. -/
def fetched : Option V × Seconds → Option (SensorT V)
  | (value, insertTime) => value.map fun temp => ⟨temp, decimal insertTime⟩

private theorem fetchRow_eq {done rest : List (SensorT V)} (hrest : rest ≠ []) (row : Option V × Seconds) :
    fetchRow (done.length, done ++ rest) row =
      (fetched row).map fun entry => ((done ++ [entry]).length, done ++ [entry] ++ rest.tail) := by
  obtain ⟨value, insertTime⟩ := row
  obtain ⟨old, rest, rfl⟩ := List.exists_cons_of_ne_nil hrest
  cases value with
  | none => rfl
  | some temp => simp [fetchRow, fetched, strcpy_decimal]

/-- The rows are written one behind the other, as long as there is room; a `NULL` among them is followed. -/
private theorem foldlM_fetchRow {done rest : List (SensorT V)} {rows : List (Option V × Seconds)}
    (hroom : rows.length ≤ rest.length) :
    rows.foldlM fetchRow (done.length, done ++ rest) =
      (rows.mapM fetched).map fun entries =>
        ((done ++ entries).length, done ++ entries ++ rest.drop rows.length) := by
  induction rows generalizing done rest with
  | nil => simp
  | cons row rows ih =>
    rw [List.length_cons] at hroom
    have hrest : rest ≠ [] := List.ne_nil_of_length_pos (by omega)
    rw [List.foldlM_cons, fetchRow_eq hrest, List.mapM_cons]
    cases fetched row with
    | none => rfl
    | some entry =>
      have htail : rows.length ≤ rest.tail.length := by
        rw [List.length_tail]
        omega
      have hnext := @ih (done ++ [entry]) rest.tail htail
      simp only [Option.map_some, Option.bind_eq_bind, Option.bind_some]
      rw [hnext]
      cases rows.mapM fetched with
      | none => rfl
      | some entries => simp [List.append_assoc, ← List.drop_one, Nat.add_comm]

private theorem mapM_recordJson (column : SenseColumns V → Option V) (records : List (SenseColumns V)) :
    records.mapM (recordJson column) =
      ((records.map fun r => (column r, r.insertTime)).mapM fetched).map (List.map respons) := by
  rw [List.mapM_map, ← mapM_optionMap]
  congr 1
  funext r
  simp [recordJson, fetched, respons, Function.comp_def]

private theorem mapM_respons {info : List (SensorT V)} {n : Nat} (h : n ≤ info.length) :
    ((List.range n).mapM fun i => info[i]?.map respons) = some ((info.take n).map respons) := by
  have hlen : ((info.take n).map respons).length = n := by rw [List.length_map, List.length_take, Nat.min_eq_left h]
  have hloop : ((List.range ((info.take n).map respons).length).mapM fun i => info[i]?.map respons) =
      some ((info.take n).map respons) := by
    refine mapM_range fun i y hy => ?_
    rw [List.getElem?_map, List.getElem?_take] at hy
    split at hy
    · exact hy
    · cases hy
  rwa [hlen] at hloop

private theorem take_filled {α : Type} {xs : List α} {n m : Nat} (hlen : xs.length ≤ n) (hn : n ≤ xs.length + m)
    (a : α) :
    (xs ++ List.replicate m a).take n = xs ++ List.replicate (n - xs.length) a := by
  rw [List.take_append, List.take_of_length_le hlen, List.take_replicate, Nat.min_eq_left (by omega)]

/-- A known network and column has as many records as are asked for, and they have values. -/
def Enough (collate : List UInt8 → N) (db : Database N P (SenseColumns V)) (now : Seconds) (request : Request) : Prop :=
  ∀ netId column, db.tbNetworkSegment.idxOf? (collate request.netName) = some netId →
    senseColumn collate request.sense = some column →
    (atoi request.requestNum).toNat ≤ (available db (netId, request.nodeId) now).length ∧
      ∀ r ∈ (available db (netId, request.nodeId) now).take (atoi request.requestNum).toNat, (column r).isSome

section Answer
variable {collate : List UInt8 → N} {zero : V} {db : Database N P (SenseColumns V)} {server : Server V}
  {startTime : Timestamp} {now : Seconds} {request : Request} {text : List UInt8}

private theorem realTime_overrun (h : (request.query startTime).command = none) :
    realTime server zero startTime request = none := by
  have hcommand : Db.getRelativeRecord request.netName request.nodeId request.sense startTime.text
      (-atoi request.requestNum) = none := h
  rw [realTime, getRelativeRecord, hcommand]
  rfl

private theorem realTime_refused (htext : (request.query startTime).command = some text)
    (hserver : server text = none) :
    realTime server zero startTime request = some none := by
  have hcommand : Db.getRelativeRecord request.netName request.nodeId request.sense startTime.text
      (-atoi request.requestNum) = some text := htext
  simp only [realTime, getRelativeRecord, hcommand, Option.bind_eq_bind, Option.bind_some, hserver]
  rfl

/-- The rows of the result set come first, and empty entries make up the number. -/
private theorem realTime_rows (htext : (request.query startTime).command = some text) {rows : List (Option V × Seconds)}
    (hserver : server text = some rows) (hlen : rows.length ≤ (atoi request.requestNum).toNat)
    (hle : atoi request.requestNum ≤ 65536) :
    realTime server zero startTime request = (rows.mapM fetched).map fun entries =>
      some (.array (entries.map respons ++
        List.replicate ((atoi request.requestNum).toNat - entries.length) (respons ⟨zero, []⟩))) := by
  have hcommand : Db.getRelativeRecord request.netName request.nodeId request.sense startTime.text
      (-atoi request.requestNum) = some text := htext
  have hn : (atoi request.requestNum).toNat ≤ 65536 := by omega
  have hfetch := @foldlM_fetchRow V [] (List.replicate 65536 ⟨zero, []⟩) rows
    (by rw [List.length_replicate]; exact hlen.trans hn)
  rw [List.drop_replicate] at hfetch
  simp only [List.nil_append, List.length_nil] at hfetch
  simp only [realTime, getRelativeRecord, hcommand, Option.bind_eq_bind, Option.bind_some, hserver, hfetch]
  cases hes : rows.mapM fetched with
  | none => rfl
  | some es =>
    have heslen := length_of_mapM hes
    have hroom : (atoi request.requestNum).toNat ≤ es.length + (65536 - rows.length) := by omega
    have hplaces : (atoi request.requestNum).toNat ≤
        (es ++ List.replicate (65536 - rows.length) (⟨zero, []⟩ : SensorT V)).length := by
      rwa [List.length_append, List.length_replicate]
    have hret : ¬ (es.length : Int) < 0 := by omega
    simp only [Option.map_some, Option.bind_some, if_neg hret, neg_neg, mapM_respons hplaces,
      take_filled (heslen ▸ hlen) hroom, List.map_append, List.map_replicate]
    rfl

private theorem spGetRelativeRecord_unknown {netName sense : List UInt8} {nodId numbers : Int}
    (h : db.tbNetworkSegment.idxOf? (collate netName) = none ∨ senseColumn (V := V) collate sense = none) :
    spGetRelativeRecord collate db netName nodId sense now numbers = none := by
  rw [spGetRelativeRecord]
  obtain hnone | hnone := h
  · rw [hnone]
    rfl
  · rw [hnone]
    cases db.tbNetworkSegment.idxOf? (collate netName) <;> rfl

variable {netId : Nat} {column : SenseColumns V → Option V}

private theorem spGetRelativeRecord_latest (hnet : db.tbNetworkSegment.idxOf? (collate request.netName) = some netId)
    (hcolumn : senseColumn collate request.sense = some column) {n : Int} (hpos : 0 < n) :
    spGetRelativeRecord collate db request.netName request.nodeId request.sense now (-n) =
      some (((available db (netId, request.nodeId) now).take n.toNat).map fun r => (column r, r.insertTime)) := by
  have hneg : ¬ 0 ≤ -n := by omega
  rw [spGetRelativeRecord, hnet, hcolumn]
  simp only [Option.bind_eq_bind, Option.bind_some, if_neg hneg, neg_neg, available]
  rfl

/-- The records that were fetched come first, and empty entries make up the number. -/
private theorem realTime_known (htext : (request.query startTime).command = some text)
    (hserver : server text =
      spGetRelativeRecord collate db request.netName request.nodeId request.sense now (-atoi request.requestNum))
    (hnet : db.tbNetworkSegment.idxOf? (collate request.netName) = some netId)
    (hcolumn : senseColumn collate request.sense = some column) (hpos : 0 < atoi request.requestNum)
    (hle : atoi request.requestNum ≤ 65536) :
    realTime server zero startTime request =
      (((available db (netId, request.nodeId) now).take (atoi request.requestNum).toNat).mapM
        (recordJson column)).map fun entries =>
          some (.array (entries ++
            List.replicate ((atoi request.requestNum).toNat - entries.length) (respons ⟨zero, []⟩))) := by
  rw [spGetRelativeRecord_latest hnet hcolumn hpos] at hserver
  have hlen : ((available db (netId, request.nodeId) now).take (atoi request.requestNum).toNat).length ≤
      (atoi request.requestNum).toNat := List.length_take_le _ _
  rw [realTime_rows htext hserver (by rwa [List.length_map]) hle, mapM_recordJson, Option.map_map]
  refine congrArg (Option.map · _) (funext fun entries => ?_)
  rw [Function.comp_apply, List.length_map]

/-- A faithful answer of a known network and column needs as many records as were asked for. -/
private theorem enough_of_faithful (htext : (request.query startTime).command = some text)
    (hserver : server text =
      spGetRelativeRecord collate db request.netName request.nodeId request.sense now (-atoi request.requestNum))
    (h : Faithful collate zero db server startTime now request) (hpos : 0 < atoi request.requestNum)
    (hle : atoi request.requestNum ≤ 65536) : Enough collate db now request := by
  intro netId column hnet hcolumn
  obtain ⟨answer, hanswer, harray⟩ := h
  rw [realTime_known htext hserver hnet hcolumn hpos hle] at hanswer
  obtain ⟨entries, hentries, rfl⟩ := Option.map_eq_some_iff.mp hanswer
  obtain ⟨netId', column', entries', hnet', hcolumn', hentries', heq⟩ := harray _ rfl
  obtain rfl := Option.some.inj (hnet.symm.trans hnet')
  obtain rfl := Option.some.inj (hcolumn.symm.trans hcolumn')
  obtain rfl := Option.some.inj (hentries.symm.trans hentries')
  have hlen := length_of_mapM hentries
  have hsame := congrArg List.length (Json.array.inj heq)
  rw [List.length_append, List.length_replicate] at hsame
  rw [List.length_take] at hlen
  refine ⟨by omega, fun r hr => ?_⟩
  have hsome := mapM_isSome_iff.mp (Option.isSome_iff_exists.mpr ⟨entries, hentries⟩) r hr
  rwa [recordJson, Option.isSome_map] at hsome

private theorem faithful_of_enough (htext : (request.query startTime).command = some text)
    (hserver : server text =
      spGetRelativeRecord collate db request.netName request.nodeId request.sense now (-atoi request.requestNum))
    (h : Enough collate db now request) (hpos : 0 < atoi request.requestNum) (hle : atoi request.requestNum ≤ 65536) :
    Faithful collate zero db server startTime now request := by
  cases hnet : db.tbNetworkSegment.idxOf? (collate request.netName) with
  | none =>
    rw [spGetRelativeRecord_unknown (.inl hnet)] at hserver
    exact ⟨none, realTime_refused htext hserver, by simp⟩
  | some netId =>
    cases hcolumn : senseColumn (V := V) collate request.sense with
    | none =>
      rw [spGetRelativeRecord_unknown (.inr hcolumn)] at hserver
      exact ⟨none, realTime_refused htext hserver, by simp⟩
    | some column =>
      obtain ⟨henough, hvalues⟩ := h netId column hnet hcolumn
      obtain ⟨entries, hentries⟩ := Option.isSome_iff_exists.mp
        ((mapM_isSome_iff (f := recordJson column)).mpr fun r hr => by
          rw [recordJson, Option.isSome_map]
          exact hvalues r hr)
      have hlen := length_of_mapM hentries
      rw [List.length_take, Nat.min_eq_left henough] at hlen
      refine ⟨some (.array entries), ?_, fun array harray => ?_⟩
      · rw [realTime_known htext hserver hnet hcolumn hpos hle, hentries, Option.map_some, hlen]
        simp
      · exact ⟨netId, column, entries, hnet, hcolumn, hentries, (Option.some.inj harray).symm⟩

end Answer

/-- An answer without rows is made of empty entries only, and none of them is a record. -/
private theorem empty_unfaithful {collate : List UInt8 → N} {zero : V} {db : Database N P (SenseColumns V)}
    {startTime : Timestamp} {now : Seconds} {request : Request} (hpos : 0 < atoi request.requestNum)
    (hle : atoi request.requestNum ≤ 65536) :
    ¬ Faithful collate zero db (fun _ => some []) startTime now request := by
  rintro ⟨answer, hanswer, harray⟩
  cases htext : (request.query startTime).command with
  | none =>
    rw [realTime_overrun htext] at hanswer
    cases hanswer
  | some text =>
    obtain ⟨m, hm⟩ : ∃ m, (atoi request.requestNum).toNat = m + 1 := ⟨(atoi request.requestNum).toNat - 1, by omega⟩
    rw [realTime_rows htext rfl (Nat.zero_le _) hle] at hanswer
    obtain rfl := Option.some.inj hanswer
    obtain ⟨netId, column, entries, -, -, hentries, heq⟩ := harray _ rfl
    have hmem : respons (⟨zero, []⟩ : SensorT V) ∈ entries := by
      rw [← Json.array.inj heq, hm]
      simp
    obtain ⟨r, -, hr⟩ := mem_of_mapM hentries hmem
    obtain ⟨value, -, hvalue⟩ := Option.map_eq_some_iff.mp hr
    have htime : decimal r.insertTime = [] ∧ value = zero := by simpa [respons] using hvalue
    exact decimal_ne_nil _ htime.1

/-- The answer is made of as many entries as were asked for, and the statement of what the request says. So it is what
it should be, whatever the server makes of statements that were not meant, only where the statement fits, the names
stand for themselves in it, and there are enough records. -/
theorem faithful_iff (collate : List UInt8 → N) (zero : V) (db : Database N P (SenseColumns V)) (startTime : Timestamp)
    (now : Seconds) (request : Request) (hpos : 0 < atoi request.requestNum) (hle : atoi request.requestNum ≤ 65536) :
    (∀ server, Answers collate db startTime now request server →
        Faithful collate zero db server startTime now request) ↔
      (request.query startTime).length < DB_COMMAND_LENGTH ∧ Plain 39 request.netName ∧ Plain 39 request.sense ∧
        Enough collate db now request := by
  have hstrings : (∀ s ∈ (request.query startTime).strings, Plain 39 s) ↔
      Plain 39 request.netName ∧ Plain 39 request.sense := by
    simp [Request.query, Query.strings]
  rw [← and_assoc (a := Plain 39 request.netName), ← hstrings, ← Query.command_isSome_iff, Option.isSome_iff_exists]
  constructor
  · intro h
    by_cases hread : ∃ text, (request.query startTime).command = some text ∧
        ∀ s ∈ (request.query startTime).strings, Plain 39 s
    · obtain ⟨text, htext, hplain⟩ := hread
      have hfaithful := h (fun _ => spGetRelativeRecord collate db request.netName request.nodeId request.sense now
        (-atoi request.requestNum)) fun _ _ _ => rfl
      exact ⟨⟨text, htext⟩, hplain, enough_of_faithful htext rfl hfaithful hpos hle⟩
    · refine absurd (h (fun _ => some []) fun text htext hcall => ?_) (empty_unfaithful hpos hle)
      exact absurd ⟨text, htext, (Query.readCall_command_iff htext).mp hcall⟩ hread
  · rintro ⟨⟨text, htext⟩, hplain, henough⟩ server hserver
    exact faithful_of_enough htext (hserver text htext ((Query.readCall_command_iff htext).mpr hplain)) henough hpos hle

/-- A server that knows this procedure only, and one moment in the notation of `strftime`. -/
def mysqld (collate : List UInt8 → N) (db : Database N P (SenseColumns V)) (moment : Int × Seconds) : Server V :=
  fun text =>
    match readCall text with
    | some (name, [.text netName, .int nodId, .text sense, .int startTime, .int numbers]) =>
      if name = ascii "sp_get_relative_record" ∧ startTime = moment.1 then
        spGetRelativeRecord collate db netName nodId sense moment.2 numbers
      else none
    | _ => none

private theorem mysqld_answers (collate : List UInt8 → N) (db : Database N P (SenseColumns V)) (startTime : Timestamp)
    (now : Seconds) (request : Request) :
    Answers collate db startTime now request (mysqld collate db (digitsValue startTime.text, now)) := by
  intro text _ hread
  simp only [mysqld, hread, and_self, if_true]

/-- A database with one network, and nothing recorded. -/
def silent : Database (List UInt8) Unit (SenseColumns Nat) :=
  { Database.empty with tbNetworkSegment := [ascii "n"] }

def warm : SenseColumns Nat :=
  ⟨some 21, none, none, none, none, none, none, 5⟩

def heard : Database (List UInt8) Unit (SenseColumns Nat) :=
  (silent.putNode (0, 1) ⟨⟨0, 0, 100, ()⟩, 5⟩).putSense (0, 1) warm

/-- Five seconds after the beginning of time. -/
def early : Timestamp :=
  ⟨ascii "19700101000005", by decide, by decide, by decide⟩

def oneAsked : Request :=
  ⟨ascii "n", 1, ascii "temp", ascii "1"⟩

private theorem oneAsked_num : atoi oneAsked.requestNum = 1 := by
  decide +kernel

theorem faithful_heard :
    Faithful id 0 heard (mysqld id heard (digitsValue early.text, 5)) early 5 oneAsked := by
  have hplain (s : List UInt8) (hquote : 39 ∉ s) (hescape : 92 ∉ s) : Plain 39 s :=
    ⟨hquote, fun i hi => absurd (List.mem_of_getElem? hi) hescape⟩
  refine (faithful_iff id 0 heard early 5 oneAsked (by decide +kernel) (by decide +kernel)).mpr
    ⟨by decide +kernel, hplain _ (by decide) (by decide), hplain _ (by decide) (by decide),
      fun netId column hnet hcolumn => ?_⟩ _ (mysqld_answers id heard early 5 oneAsked)
  have hzero : heard.tbNetworkSegment.idxOf? (id (ascii "n")) = some 0 := rfl
  have htemp : senseColumn (V := Nat) id (ascii "temp") = some SenseColumns.temp := rfl
  obtain rfl := Option.some.inj (hzero.symm.trans hnet)
  obtain rfl := Option.some.inj (htemp.symm.trans hcolumn)
  have hone : available heard (0, oneAsked.nodeId) 5 = [warm] := rfl
  rw [hone, oneAsked_num]
  exact ⟨by decide, by decide⟩

/-- Of a node without records, one is asked for and one is answered. -/
theorem silent_answered :
    ¬ ∀ (db : Database (List UInt8) Unit (SenseColumns Nat)) (startTime : Timestamp) (now : Seconds)
      (request : Request), 0 < atoi request.requestNum → atoi request.requestNum ≤ 65536 →
      ∀ server, Answers id db startTime now request server → Faithful id 0 db server startTime now request := by
  intro h
  have hfaithful := h silent early 5 oneAsked (by decide +kernel) (by decide +kernel) _
    (mysqld_answers id silent early 5 oneAsked)
  have htext : (oneAsked.query early).command =
      some (ascii "call sp_get_relative_record('n',1,'temp',19700101000005,-1)") := by decide +kernel
  have hread : readCall (ascii "call sp_get_relative_record('n',1,'temp',19700101000005,-1)") =
      some (ascii "sp_get_relative_record", [.text (ascii "n"), .int 1, .text (ascii "temp"),
        .int (digitsValue early.text), .int (-1)]) := by decide +kernel
  have hserver := mysqld_answers id silent early 5 oneAsked _ htext (by rw [hread, oneAsked_num]; rfl)
  have henough := enough_of_faithful htext hserver hfaithful (by decide +kernel) (by decide +kernel)
  have hnet : silent.tbNetworkSegment.idxOf? (id (ascii "n")) = some 0 := by decide
  have hcolumn : senseColumn (V := Nat) id (ascii "temp") = some SenseColumns.temp := rfl
  exact absurd (henough 0 _ hnet hcolumn).1 (by rw [oneAsked_num]; decide)

end TinyosGraphics.RealTime
