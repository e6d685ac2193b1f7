import TinyosGraphics.Lib.SqlCall

/-! The statements with which `get_latest_record`, `get_relative_record` and `get_absolute_record` ask for
records, and when the database reads in them what was asked. -/
namespace TinyosGraphics.Db
open Lib Sql

def DB_COMMAND_LENGTH : Nat := 200

/-- `sprintf` to `command[DB_COMMAND_LENGTH]`. -/
def command (text : List UInt8) : Option (List UInt8) :=
  strcpy DB_COMMAND_LENGTH text

/-- The query of `get_latest_record`; `none` where `command` is overrun. -/
def getLatestRecord (netName : List UInt8) (nodId : Int) (sense : List UInt8) : Option (List UInt8) :=
  command (ascii "call sp_get_latest_record('" ++ netName ++ ascii "'," ++ decimalInt nodId ++ ascii ",'" ++
    sense ++ ascii "')")

/-- The query of `get_relative_record`. -/
def getRelativeRecord (netName : List UInt8) (nodId : Int) (sensor startTime : List UInt8) (recordNum : Int) :
    Option (List UInt8) :=
  command (ascii "call sp_get_relative_record('" ++ netName ++ ascii "'," ++ decimalInt nodId ++ ascii ",'" ++
    sensor ++ ascii "'," ++ startTime ++ ascii "," ++ decimalInt recordNum ++ ascii ")")

/-- The query of `get_absolute_record`. -/
def getAbsoluteRecord (netName : List UInt8) (nodId : Int) (sense startTime endTime : List UInt8) :
    Option (List UInt8) :=
  command (ascii "call sp_get_absolute_record('" ++ netName ++ ascii "'," ++ decimalInt nodId ++ ascii ",'" ++
    sense ++ ascii "','" ++ startTime ++ ascii "','" ++ endTime ++ ascii "')")

/-- What the callers of `get_relative_record` get from `strftime` with `%Y%m%d%H%M%S`: digits, the year first. -/
structure Timestamp where
  text : List UInt8
  digits : ∀ b ∈ text, isDigit b = true
  nonempty : text ≠ []
  year : text.head? ≠ some 48

theorem Timestamp.render (t : Timestamp) : decimalInt (digitsValue t.text) = t.text := by
  rw [decimalInt, if_neg (by omega), Int.toNat_natCast, decimal_digitsValue t.digits t.nonempty t.year]

inductive Query
  | latest (netName : List UInt8) (nodId : Int) (sense : List UInt8)
  | relative (netName : List UInt8) (nodId : Int) (sensor : List UInt8) (startTime : Timestamp) (recordNum : Int)
  | absolute (netName : List UInt8) (nodId : Int) (sense startTime endTime : List UInt8)

namespace Query

def command : Query → Option (List UInt8)
  | latest netName nodId sense => getLatestRecord netName nodId sense
  | relative netName nodId sensor startTime recordNum =>
    getRelativeRecord netName nodId sensor startTime.text recordNum
  | absolute netName nodId sense startTime endTime => getAbsoluteRecord netName nodId sense startTime endTime

def procedure : Query → List UInt8
  | latest .. => ascii "sp_get_latest_record"
  | relative .. => ascii "sp_get_relative_record"
  | absolute .. => ascii "sp_get_absolute_record"

def arguments : Query → List Literal
  | latest _ nodId sense => [.int nodId, .text sense]
  | relative _ nodId sensor startTime recordNum =>
    [.int nodId, .text sensor, .int (digitsValue startTime.text), .int recordNum]
  | absolute _ nodId sense startTime endTime => [.int nodId, .text sense, .text startTime, .text endTime]

def netName : Query → List UInt8
  | latest netName .. | relative netName .. | absolute netName .. => netName

def strings : Query → List (List UInt8)
  | latest netName _ sense => [netName, sense]
  | relative netName _ sensor _ _ => [netName, sensor]
  | absolute netName _ sense startTime endTime => [netName, sense, startTime, endTime]

def length : Query → Nat
  | latest netName nodId sense => netName.length + (decimalInt nodId).length + sense.length + 33
  | relative netName nodId sensor startTime recordNum =>
    netName.length + (decimalInt nodId).length + sensor.length + startTime.text.length +
      (decimalInt recordNum).length + 37
  | absolute netName nodId sense startTime endTime =>
    netName.length + (decimalInt nodId).length + sense.length + startTime.length + endTime.length + 41

/-- The statement fits, and the database reads in it a call with the arguments that were given. -/
def ReadsBack (q : Query) : Prop :=
  ∃ text, q.command = some text ∧ readCall text = some (q.procedure, .text q.netName :: q.arguments)

private theorem isWord_procedure (q : Query) : IsWord q.procedure := by
  cases q <;>
  · simp only [procedure]
    exact ⟨by decide, by decide, by decide⟩

private theorem command_eq (q : Query) :
    q.command = strcpy DB_COMMAND_LENGTH (renderCall q.procedure (.text q.netName) q.arguments) := by
  cases q with
  | latest netName nodId sense =>
    simp [command, getLatestRecord, Db.command, renderCall, renderClosing, procedure, arguments, Query.netName,
      Literal.render, ascii]
  | relative netName nodId sensor startTime recordNum =>
    simp [command, getRelativeRecord, Db.command, renderCall, renderClosing, procedure, arguments, Query.netName,
      Literal.render, ascii, Timestamp.render]
  | absolute netName nodId sense startTime endTime =>
    simp [command, getAbsoluteRecord, Db.command, renderCall, renderClosing, procedure, arguments, Query.netName,
      Literal.render, ascii]

private theorem length_eq (q : Query) : (renderCall q.procedure (.text q.netName) q.arguments).length = q.length := by
  cases q <;>
  · simp [renderCall, renderClosing, procedure, arguments, Query.netName, Literal.render, ascii, length,
      Timestamp.render]
    omega

private theorem text_mem_arguments (q : Query) (s : List UInt8) :
    .text s ∈ Literal.text q.netName :: q.arguments ↔ s ∈ q.strings := by
  cases q <;> simp [arguments, strings, Query.netName]

/-- The statement is written exactly if it fits. -/
theorem command_isSome_iff (q : Query) : q.command.isSome ↔ q.length < DB_COMMAND_LENGTH := by
  rw [command_eq, ← length_eq, strcpy]
  split
  · rename_i hlen
    exact iff_of_true rfl hlen
  · rename_i hlen
    exact iff_of_false Bool.false_ne_true hlen

/-- What is written is read as it was asked exactly if the strings stand for themselves. -/
theorem readCall_command_iff {q : Query} {text : List UInt8} (h : q.command = some text) :
    readCall text = some (q.procedure, .text q.netName :: q.arguments) ↔ ∀ s ∈ q.strings, Plain 39 s := by
  have hplain := readCall_renderCall_iff (isWord_procedure q) (.text q.netName) q.arguments
  simp only [text_mem_arguments] at hplain
  rw [command_eq, strcpy] at h
  split at h
  · obtain rfl := Option.some.inj h
    exact hplain
  · cases h

/-- A query is read as it was asked exactly if it fits and its strings stand for themselves. -/
theorem reads_back_iff (q : Query) :
    q.ReadsBack ↔ q.length < DB_COMMAND_LENGTH ∧ ∀ s ∈ q.strings, Plain 39 s := by
  rw [ReadsBack, ← command_isSome_iff, Option.isSome_iff_exists]
  constructor
  · rintro ⟨text, htext, hread⟩
    exact ⟨⟨text, htext⟩, (readCall_command_iff htext).mp hread⟩
  · rintro ⟨⟨text, htext⟩, hplain⟩
    exact ⟨text, htext, (readCall_command_iff htext).mpr hplain⟩

end Query

/-- Of two quotes next to each other in the name the database reads one. -/
theorem quote_lost :
    (getLatestRecord (ascii "it''s") 1 (ascii "temp")).bind readCall =
        some (ascii "sp_get_latest_record", [.text (ascii "it's"), .int 1, .text (ascii "temp")]) ∧
      ¬ (Query.latest (ascii "it''s") 1 (ascii "temp")).ReadsBack := by
  have hread : (getLatestRecord (ascii "it''s") 1 (ascii "temp")).bind readCall =
      some (ascii "sp_get_latest_record", [.text (ascii "it's"), .int 1, .text (ascii "temp")]) := by decide
  refine ⟨hread, fun h => ?_⟩
  obtain ⟨text, htext, hback⟩ := h
  have htwo : (getLatestRecord (ascii "it''s") 1 (ascii "temp")).bind readCall =
      some (ascii "sp_get_latest_record", [.text (ascii "it''s"), .int 1, .text (ascii "temp")]) := by
    rw [show getLatestRecord (ascii "it''s") 1 (ascii "temp") = some text from htext]
    exact hback
  rw [hread] at htwo
  exact absurd htwo (by decide)

end TinyosGraphics.Db
