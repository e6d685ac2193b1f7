import TinyosGraphics.Core.Connection

/-! `tgx_connection.c` and `tgx_acception_handler`: the handlers, the tasks and their helpers, call by
call. Logging is left out. A loop takes the number of its turns as an argument and is stuck beyond. -/
namespace TinyosGraphics.Core
open Lib Event

def load (c : ConnId) : M Conn := call (.load c)
def store (c : ConnId) (d : Conn) : M Unit := call (.store c d)
def callocConnection (fd : Int) : M (Option ConnId) := call (.callocConnection fd)
def freeConnection (c : ConnId) : M Unit := call (.freeConnection c)
def calloc (what : Alloc) : M Bool := call (.calloc what)
def realloc : M Bool := call .realloc
def tgxEventSetHandler (fd : Int) (h : Handler) : M Int := call (.setHandler fd h)
def tgxEventCtl (op : CtlOp) (fd : Int) (event : UInt32) : M Int := call (.eventCtl op fd event)
def tgxEventScheduleRegister (fd : Int) (h : Handler) (c : ConnId) : M Int :=
  call (.scheduleRegister fd h c)
def tgxEventScheduleUnregister (fd : Int) (c : ConnId) : M Unit := call (.scheduleUnregister fd c)
def accept : M (Option Int) := call .accept
def tgxSetNonblocking (fd : Int) : M Int := call (.setNonblocking fd)
def read (fd count : Int) : M ReadResult := call (.read fd count)
def write (fd : Int) (text : List UInt8) (start count : Int) : M WriteResult :=
  call (.write fd text start count)
def sendfile (outFd : Int) (file : Nat) (offset count : Int) : M WriteResult :=
  call (.sendfile outFd file offset count)
def stat (path : List UInt8) : M (Option Stat) := call (.stat path)
def openFile (path : List UInt8) : M (Option Nat) := call (.openFile path)
def closeFile (file : Nat) : M Unit := call (.closeFile file)
def close (fd : Int) : M Unit := call (.close fd)
def formatDate (mtime : Option Int) : M (List UInt8) := call (.formatDate mtime)
def callocWrapper (c : ConnId) : M (Option Nat) := call (.callocWrapper c)
def freeWrapper (id : Nat) : M Unit := call (.freeWrapper id)
def setContext (id : Nat) : M Unit := call (.setContext id)
def getContext (id : Nat) : M Bool := call (.getContext id)
def tgxTaskInit : M (Option Nat) := call .taskInit
def pushTask (t : TgxTask) : M Unit := call (.pushTask t)
def dlopen (path : List UInt8) : M Bool := call (.dlopen path)
def dlsym : M Bool := call .dlsym
def dlclose : M Unit := call .dlclose
def callModule (req : Option TgxString) (resp : TgxString) : M (Int × Option TgxString × TgxString) :=
  call (.callModule req resp)
def httpParserExecute (text : List UInt8) : M ParserResult := call (.httpParserExecute text)

def MAX_BUFFER_SIZE : Nat := 65535
def INCR_FACTOR : Int := 2
def INCR_LENGTH : Int := 500
def BUFFER_NEARLY_BOUNDRY : Int := 10

def setString (c : ConnId) (f : StringField) (s : TgxString) : M Unit := do
  let d ← load c
  store c (d.setString f s)

/-- The second half of `_string_check_boundry`. The size is stored before `realloc` is called. -/
def stringGrow (c : ConnId) (f : StringField) (boundry : Int) : M Int := do
  let str := (← load c).string f
  if boundry > str.size - BUFFER_NEARLY_BOUNDRY ∧ str.size < MAX_BUFFER_SIZE then
    let size := str.size + INCR_FACTOR * INCR_LENGTH
    setString c f { str with size := size }
    if ← realloc then
      setString c f ⟨size, some ⟨size.toNat, (str.data.map Block.bytes).getD []⟩⟩
      return 0
    else return -1
  else return 0

/-- `_string_check_boundry`. The size is stored before `calloc` is known to have succeeded. -/
def stringCheckBoundry (c : ConnId) (f : StringField) (boundry : Int) : M Int := do
  if boundry < 0 then return -1
  let str := (← load c).string f
  if str.size = 0 then
    if ← calloc (.string f) then
      setString c f ⟨MAX_BUFFER_SIZE, some (.calloc MAX_BUFFER_SIZE)⟩
      stringGrow c f boundry
    else
      setString c f ⟨MAX_BUFFER_SIZE, none⟩
      return -1
  else stringGrow c f boundry

/-- A string that is not allocated yet, or holds `text` and at most one byte behind it. -/
def TgxString.Holds (s : TgxString) (text : List UInt8) : Prop :=
  s = ⟨0, none⟩ ∧ text = [] ∨
    ∃ b rest, s = ⟨MAX_BUFFER_SIZE, some b⟩ ∧ b.bytes = text ++ rest ∧ rest.length ≤ 1

/-- `tgx_new_connection`. That `httpReqBody` is null is not checked. -/
def tgxNewConnection (fd : Int) : M (Option ConnId) := do
  match ← callocConnection fd with
  | none => return none
  | some c =>
    let httpReqBuf ← calloc (.connectionField .httpReqBuf)
    let httpReqBody ← calloc (.connectionField .httpReqBody)
    let httpRespHeader ← calloc (.connectionField .httpRespHeader)
    let httpRespBody ← calloc (.connectionField .httpRespBody)
    let lock ← calloc (.connectionField .lock)
    let httpParser ← calloc (.connectionField .httpParser)
    store c { newConn fd with httpReqBody := if httpReqBody then some ⟨0, none⟩ else none }
    if httpReqBuf && httpRespHeader && httpRespBody && lock && httpParser then return some c
    else return none

/-- `tgx_free_connection`; what it frees besides the connection itself is not modelled. -/
def tgxFreeConnection (c : ConnId) : M Unit := do
  let d ← load c
  if d.fd > 0 then close d.fd
  if d.dlopenHandle then dlclose
  freeConnection c

def tgxCloseConnection (c : ConnId) : M Unit := do
  let d ← load c
  tgxEventScheduleUnregister d.fd c
  if !d.travelling then
    let _ ← tgxEventCtl .DEL d.fd 0
  tgxFreeConnection c

def taskStartTravelling (w : WrapperContext) : M Int := do
  let d ← load w.tconn
  store w.tconn { d with rwPos := 0 }
  let ret1 ← tgxEventSetHandler d.fd .tgxConnectionHandlerNoOperation
  let ret2 ← tgxEventCtl .DEL d.fd 0
  if ret1 < 0 ∨ ret2 < 0 then return -1
  let d ← load w.tconn
  store w.tconn { d with travelling := true }
  return 0

def taskGetPrepareWriteOnPost (_ : WrapperContext) : M Int :=
  return 0

/-- `_task_post_prepare_module_on_post`; the loop that waits for the clock is left out. -/
def taskPostPrepareModuleOnPost (w : WrapperContext) : M Int := do
  let d ← load w.tconn
  let handle ← dlopen d.httpParser.path
  store w.tconn { d with dlopenHandle := handle }
  if !handle then return -1
  if !(← dlsym) then return -1
  setContext w.id
  return 0

def taskPostPrepareWriteOnPost (_ : WrapperContext) : M Int :=
  return 0

def runOnPost : OnPost → WrapperContext → M Int
  | .taskStartTravelling => taskStartTravelling
  | .taskGetPrepareWriteOnPost => taskGetPrepareWriteOnPost
  | .taskPostPrepareModuleOnPost => taskPostPrepareModuleOnPost
  | .taskPostPrepareWriteOnPost => taskPostPrepareWriteOnPost

/-- `tgx_post_task` for a task without a lock. -/
def tgxPostTask (t : TgxTask) : M Int := do
  let ret ← runOnPost t.onPost t.context
  if ret < 0 then return -1
  if !(← calloc .taskInternal) then return -1
  pushTask t
  return 0

def postTask (c : ConnId) (onPost : OnPost) (taskHandler : TaskHandler) (onComplete : OnComplete) :
    M Int := do
  match ← callocWrapper c with
  | none => return -1
  | some id =>
    match ← tgxTaskInit with
    | none => return -1
    | some task =>
      if (← tgxPostTask ⟨task, onPost, taskHandler, onComplete, ⟨id, c⟩⟩) < 0 then return -1
      return 0

/-- The `do … while (1)` of `tgx_connection_handler_read`; `false` when the connection was closed. -/
def readLoop (c : ConnId) : Nat → M Bool
  | 0 => .stuck
  | fuel + 1 => do
    if (← stringCheckBoundry c .httpReqBuf (← load c).rwPos) < 0 then
      tgxCloseConnection c
      return false
    let d ← load c
    match ← read d.fd (d.httpReqBuf.size - d.rwPos) with
    | .again => return true
    | .error =>
      tgxCloseConnection c
      return false
    | .data [] =>
      tgxCloseConnection c
      return false
    | .data bs =>
      store c { d with
        httpReqBuf := { d.httpReqBuf with data := d.httpReqBuf.data.map (·.write d.rwPos.toNat bs) }
        rwPos := d.rwPos + bs.length }
      readLoop c fuel

/-- What `tgx_connection_handler_read` makes of the buffer after the loop. -/
inductive Request
  | incomplete
  | complete
  | refused
  /-- a scan runs out of the block, or `num[128]` is overrun -/
  | undefined
  deriving DecidableEq

/-- The number in the first `Content-Length:` of a block, and where the header ends. -/
def inspectPost (bytes text : List UInt8) (rwPos : Int) : Request :=
  match strstr text (ascii "Content-Length:") with
  | none => .refused
  | some start =>
    let rest := (bytes.drop (start + 15)).dropWhile (· == 32)
    -- the search for the carriage return does not stop at the terminating NUL
    if rest.contains 13 then
      let num := rest.takeWhile (· != 13)
      if num.length > 127 then .undefined
      else
        match strstr text (ascii "\r\n\r\n") with
        | none => .refused
        | some p =>
          let headerLen := p + 4
          if rwPos > toInt32 (atoi (num.takeWhile (· != 0)) + headerLen) then .incomplete else .complete
    else .undefined

def inspectRequest (b : Block) (rwPos : Int) : Request :=
  let text := b.cString
  if (strstr text (ascii "\r\n\r\n")).isSome then
    if startsWith text (ascii "GET") then .complete
    else if startsWith text (ascii "POST") then inspectPost b.bytes text rwPos
    else .refused
  else .incomplete

def tgxConnectionHandlerRead (fuel : Nat) (c : ConnId) (event : UInt32) : M Int := do
  if !hasFlag event TGX_EVENT_IN then
    tgxCloseConnection c
    return -1
  if !(← readLoop c fuel) then return -1
  let d ← load c
  match d.httpReqBuf.data with
  | none => .stuck
  | some b =>
    let b := b.write d.rwPos.toNat [0]
    store c { d with httpReqBuf := { d.httpReqBuf with data := some b } }
    match inspectRequest b d.rwPos with
    | .incomplete => return 0
    | .complete =>
      let ret ← postTask c .taskStartTravelling .taskHttpParserDo .taskHttpParserOnComplete
      if ret < 0 then
        tgxCloseConnection c
        return -1
      return 0
    | .refused =>
      tgxCloseConnection c
      return -1
    | .undefined => .stuck

/-- The `while (1)` of `tgx_connection_handler_write_header`. `rw_pos` is moved by the result of
`write` before that result is tested. -/
def writeHeaderLoop (c : ConnId) (header : List UInt8) (headerLength : Int) : Nat → M Int
  | 0 => .stuck
  | fuel + 1 => do
    let d ← load c
    let nWrite ← write d.fd header d.rwPos (headerLength - d.rwPos)
    let d := { d with rwPos := d.rwPos + nWrite.toInt }
    store c d
    match nWrite with
    | .again => return 0
    | .error =>
      tgxCloseConnection c
      return -1
    | .accepted _ =>
      if d.rwPos = headerLength then
        store c { d with rwPos := 0 }
        if startsWith d.httpParser.httpMethod (ascii "GET") then
          let _ ← tgxEventSetHandler d.fd .tgxConnectionHandlerGetMethodWriteFile
          return 0
        else if startsWith d.httpParser.httpMethod (ascii "POST") then
          let _ ← tgxEventSetHandler d.fd .tgxConnectionHandlerPostMethodWriteBuffer
          return 0
        else
          tgxCloseConnection c
          return -1
      else writeHeaderLoop c header headerLength fuel

def tgxConnectionHandlerWriteHeader (fuel : Nat) (c : ConnId) (event : UInt32) : M Int := do
  if !hasFlag event TGX_EVENT_OUT then
    tgxCloseConnection c
    return -1
  let d ← load c
  match d.httpRespHeader.text with
  | none =>
    tgxCloseConnection c
    return -1
  | some header =>
    if d.httpRespHeader.size = 0 then
      tgxCloseConnection c
      return -1
    writeHeaderLoop c header (toInt32 header.length) fuel

/-- The `while (1)` of `tgx_connection_handler_get_method_write_file`. -/
def sendfileLoop (c : ConnId) (file : Nat) (contentLength : Int) : Nat → M Int
  | 0 => .stuck
  | fuel + 1 => do
    let d ← load c
    let nWrite ← sendfile d.fd file d.rwPos (toInt32 (contentLength - d.rwPos))
    -- the offset that sendfile has moved is cut down to an int
    let d := { d with rwPos := toInt32 (d.rwPos + nWrite.moved) }
    store c d
    match nWrite with
    | .again =>
      closeFile file
      return 0
    | .error =>
      closeFile file
      tgxCloseConnection c
      return -1
    | .accepted _ =>
      if d.rwPos = contentLength then
        closeFile file
        tgxCloseConnection c
        return 0
      sendfileLoop c file contentLength fuel

def tgxConnectionHandlerGetMethodWriteFile (fuel : Nat) (c : ConnId) (event : UInt32) : M Int := do
  if !hasFlag event TGX_EVENT_OUT then
    tgxCloseConnection c
    return -1
  let d ← load c
  match ← stat d.httpParser.path with
  | none =>
    tgxCloseConnection c
    return -1
  | some statbuf =>
    if !statbuf.isReg then
      tgxCloseConnection c
      return -1
    match ← openFile d.httpParser.path with
    | none =>
      tgxCloseConnection c
      return -1
    | some file => sendfileLoop c file (toInt32 statbuf.size) fuel

/-- The `while (1)` of `tgx_connection_handler_post_method_write_buffer`, with the same early
movement of `rw_pos`. -/
def writeBufferLoop (c : ConnId) (body : List UInt8) (contentLength : Int) : Nat → M Int
  | 0 => .stuck
  | fuel + 1 => do
    let d ← load c
    let nWrite ← write d.fd body d.rwPos (contentLength - d.rwPos)
    let d := { d with rwPos := d.rwPos + nWrite.toInt }
    store c d
    match nWrite with
    | .again => return 0
    | .error =>
      tgxCloseConnection c
      return -1
    | .accepted _ =>
      if d.rwPos = contentLength then
        tgxCloseConnection c
        return 0
      writeBufferLoop c body contentLength fuel

def tgxConnectionHandlerPostMethodWriteBuffer (fuel : Nat) (c : ConnId) (event : UInt32) : M Int := do
  if !hasFlag event TGX_EVENT_OUT then
    tgxCloseConnection c
    return -1
  let d ← load c
  match d.httpRespBody.text with
  | none => .stuck
  | some body => writeBufferLoop c body (toInt32 body.length) fuel

/-- `_tgx_connnection_handler_no_operation`. -/
def tgxConnectionHandlerNoOperation (_ : ConnId) (_ : UInt32) : M Int :=
  return 0

/-- The `while (1)` of `tgx_acception_handler`. -/
def tgxAcceptionHandler : Nat → M Int
  | 0 => .stuck
  | fuel + 1 => do
    match ← accept with
    | none => return 0
    | some infd =>
      if (← tgxSetNonblocking infd) < 0 then
        close infd
        return -1
      if (← tgxEventCtl .ADD infd TGX_EVENT_IN) < 0 then return -1
      match ← tgxNewConnection infd with
      | none => return -1
      | some c =>
        if (← tgxEventScheduleRegister infd .tgxConnectionHandlerRead c) < 0 then return -1
        tgxAcceptionHandler fuel

/-- The call of a handler by the event loop. All but the acception handler refuse a null context. -/
def runHandler (fuel : Nat) (h : Handler) (context : Option ConnId) (event : UInt32) : M Int :=
  match h, context with
  | .tgxAcceptionHandler, _ => tgxAcceptionHandler fuel
  | .tgxConnectionHandlerRead, some c => tgxConnectionHandlerRead fuel c event
  | .tgxConnectionHandlerWriteHeader, some c => tgxConnectionHandlerWriteHeader fuel c event
  | .tgxConnectionHandlerGetMethodWriteFile, some c => tgxConnectionHandlerGetMethodWriteFile fuel c event
  | .tgxConnectionHandlerPostMethodWriteBuffer, some c =>
    tgxConnectionHandlerPostMethodWriteBuffer fuel c event
  | .tgxConnectionHandlerNoOperation, _ => return 0
  | _, none => return -1

end TinyosGraphics.Core
