import TinyosGraphics.Lib.CString

/-! The configuration file: `tgx_scan_config_file` reads it byte by byte, and hands each line's key and
value to `tgx_analyze_configfile`. `none` stands where a buffer is overrun. The file opens and can be
read, and so does the file that `tmpnam` names. -/
namespace TinyosGraphics.ScanConfig
open Lib

/-- The settings in `tgx_cycle_t`. -/
structure TgxCycle where
  port : Int
  srvRoot : List UInt8
  lockFile : List UInt8
  logFile : List UInt8
  /-- `err_page.e_404` -/
  e404 : List UInt8
  deriving DecidableEq

/-- The settings, and the number of calls of `tmpnam` so far. -/
structure State where
  tcycle : TgxCycle
  tmps : Nat
  deriving DecidableEq

def TGX_SCAN_CONFIG_FILE_MAX_LENGTH : Nat := 1024
def TGX_SCAN_CONFIG_FILE_MAX_WLENGTH : Nat := 512

/-- The first `if` of `tgx_analyze_configfile`. -/
def analyzePort (tcycle : TgxCycle) (key value : List UInt8) : Int × TgxCycle :=
  if startsWith key (ascii "port") then
    if value.all isDigit then
      let tcycle := { tcycle with port := atoi value }
      if tcycle.port > 65535 then (-1, tcycle) else (0, tcycle)
    else (-1, tcycle)
  else (0, tcycle)

/-- An `if` of its own: the value is copied where the key starts so. -/
def copyIf (key start : List UInt8) (size : Nat) (value old : List UInt8) : Option (List UInt8) :=
  if startsWith key start then strcpy size value else some old

/-- `tgx_analyze_configfile`. Only the last `if` has an `else`. -/
def tgxAnalyzeConfigfile (tmpnam : Nat → List UInt8) (s : State) (key value : List UInt8) : Option (Int × State) :=
  let (ret, tcycle) := analyzePort s.tcycle key value
  if ret < 0 then some (-1, { s with tcycle := tcycle })
  else do
    let srvRoot ← copyIf key (ascii "root") 1024 value tcycle.srvRoot
    let lockFile ← copyIf key (ascii "lock") 1024 value tcycle.lockFile
    let logFile ← copyIf key (ascii "log") 1024 value tcycle.logFile
    if startsWith key (ascii "err_page 404") then
      let e404 ← strcpy 256 value
      return (0, ⟨⟨tcycle.port, srvRoot, lockFile, logFile, e404⟩, s.tmps⟩)
    else
      let e404 ← strcpy 256 (tmpnam s.tmps)
      return (0, ⟨⟨tcycle.port, srvRoot, lockFile, logFile, e404⟩, s.tmps + 1⟩)

/-- `tgx_trim` on `len` bytes from position `start` on: its result, and the answer. -/
def tgxTrim (mem : List UInt8) (start : Nat) (len : Int) : Option (Int × List UInt8) :=
  if len ≤ 1 then some (-1, [])
  else do
    let pStart ← scan isBlank (mem.drop start) start
    let pEnd ← scanBack isBlank mem (start + len.toNat - 1)
    return (0, (mem.drop pStart).take (pEnd + 1 - pStart))

/-- What becomes of a line: what `key` and `value` hold behind the next one. -/
inductive LineResult
  | blank (stale : List UInt8)
  | next (s : State)
  | err (s : State)
  deriving DecidableEq

def zeros : List UInt8 :=
  List.replicate TGX_SCAN_CONFIG_FILE_MAX_WLENGTH 0

/-- The body of the `if` that has found a line feed: `line` is copied to `key` and to `value`. -/
def scanLine (tmpnam : Nat → List UInt8) (stale line : List UInt8) (s : State) : Option LineResult :=
  if line.length > TGX_SCAN_CONFIG_FILE_MAX_WLENGTH then none
  else
    let mem := line ++ stale.drop line.length
    -- without a NUL strstr does not end
    if !mem.contains 0 then none
    else
      let str := mem.takeWhile (· != 0)
      match strstr str (ascii "="), strstr str (ascii "\n") with
      | none, _ => if (line.takeWhile (· != 10)).all isBlank then some (.blank mem) else some (.err s)
      | some _, none => none
      | some eq, some lf => do
        let (ret, key) ← tgxTrim mem 0 eq
        if ret < 0 then return .err s
        let (ret, value) ← tgxTrim mem (eq + 1) (lf - (eq + 1 : Nat))
        if ret < 0 then return .err s
        let (ret, s) ← tgxAnalyzeConfigfile tmpnam s key value
        if ret < 0 then return .err s
        return .next s

/-- The loop of `tgx_scan_config_file` over the bytes of the file. `buf` holds what has been read of the
line. -/
def scanLoop (tmpnam : Nat → List UInt8) : List UInt8 → List UInt8 → List UInt8 → State → Option (Int × State)
  | [], _, _, s => some (0, s)
  | b :: file, stale, buf, s =>
    if buf.length < TGX_SCAN_CONFIG_FILE_MAX_LENGTH then
      let buf := buf ++ [b]
      if buf.length = TGX_SCAN_CONFIG_FILE_MAX_LENGTH ∧ !buf.contains 0 then none
      else
        let line := buf.takeWhile (· != 0)
        if line.contains 10 then
          match scanLine tmpnam stale line s with
          | none => none
          | some (.blank stale) => scanLoop tmpnam file stale [] s
          | some (.next s) => scanLoop tmpnam file zeros [] s
          | some (.err s) => some (-1, s)
        else scanLoop tmpnam file stale buf s
    else none

def tgxScanConfigFile (tmpnam : Nat → List UInt8) (tcycle : TgxCycle) (file : List UInt8) : Option (Int × State) :=
  scanLoop tmpnam file zeros [] ⟨tcycle, 0⟩

end TinyosGraphics.ScanConfig
