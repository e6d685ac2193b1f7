import TinyosGraphics.Lib.CString
import TinyosGraphics.Lib.Process
import TinyosGraphics.Event.LinuxEpoll

/-! Connections, the calls their handlers and tasks make, and what each call does to the process and
the kernel. The only freedom is in the answers: `respond` is a function of the answer. -/
namespace TinyosGraphics.Core
open Lib Event

/-- The address of a `tgx_connection_t`. Freed addresses are not handed out again. -/
abbrev ConnId := Nat

/-- The functions of type `tgx_handler_t`. -/
inductive Handler
  | tgxAcceptionHandler
  | tgxConnectionHandlerRead
  | tgxConnectionHandlerWriteHeader
  | tgxConnectionHandlerGetMethodWriteFile
  | tgxConnectionHandlerPostMethodWriteBuffer
  | tgxConnectionHandlerNoOperation
  deriving DecidableEq

structure TgxString where
  size : Int
  data : Option Block
  deriving DecidableEq

/-- The text in `data`; `none` is a null pointer. -/
def TgxString.text (s : TgxString) : Option (List UInt8) :=
  s.data.map Block.cString

inductive HttpStatus
  | s200 | s304 | s400 | s403 | s404 | s500 | s505
  deriving DecidableEq

def tgxHttpStatusString : HttpStatus → List UInt8
  | .s200 => ascii "HTTP/1.1 200 OK"
  | .s304 => ascii "HTTP/1.1 304 Not Modified"
  | .s400 => ascii "HTTP/1.1 400 Bad Request"
  | .s403 => ascii "HTTP/1.1 403 Forbidden"
  | .s404 => ascii "HTTP/1.1 404 Not Found"
  | .s500 => ascii "HTTP/1.1 500 Internal Server Error"
  | .s505 => ascii "HTTP/1.1 505 HTTP Version not supported"

inductive MimeType
  | html | css | javascript | jpeg | jpg | png | gif | ico | plain
  deriving DecidableEq

def tgxMimeTypeString : MimeType → List UInt8
  | .html => ascii "text/html"
  | .css => ascii "text/css"
  | .javascript => ascii "text/javascript"
  | .jpeg => ascii "image/jpeg"
  | .jpg => ascii "image/jpg"
  | .png => ascii "image/png"
  | .gif => ascii "image/gif"
  | .ico => ascii "image/ico"
  | .plain => ascii "text/plain"

/-- The fields of `tgx_http_parser_s` that handlers and tasks read; `calloc` gives the first values. -/
structure HttpParser where
  httpStatus : HttpStatus := .s200
  mimeType : MimeType := .html
  path : List UInt8 := []
  httpMethod : List UInt8 := []
  deriving DecidableEq

/-- `tgx_connection_t`. Only `httpReqBody` may be null in a connection that is handed out. -/
structure Conn where
  fd : Int
  httpReqBuf : TgxString
  httpReqBody : Option TgxString
  httpRespHeader : TgxString
  httpRespBody : TgxString
  travelling : Bool
  rwPos : Int
  httpParser : HttpParser
  dlopenHandle : Bool
  deriving DecidableEq

/-- The buffers that `_string_check_boundry` is called on. -/
inductive StringField
  | httpReqBuf
  | httpRespHeader
  deriving DecidableEq

namespace Conn

def string (d : Conn) : StringField → TgxString
  | .httpReqBuf => d.httpReqBuf
  | .httpRespHeader => d.httpRespHeader

def setString (d : Conn) (f : StringField) (s : TgxString) : Conn :=
  match f with
  | .httpReqBuf => { d with httpReqBuf := s }
  | .httpRespHeader => { d with httpRespHeader := s }

end Conn

/-- The functions used as `on_post`. -/
inductive OnPost
  | taskStartTravelling
  | taskGetPrepareWriteOnPost
  | taskPostPrepareModuleOnPost
  | taskPostPrepareWriteOnPost
  deriving DecidableEq

/-- The functions used as `task_handler`. -/
inductive TaskHandler
  | taskHttpParserDo
  | taskGetPrepareWriteDo
  | taskPostPrepareModuleDo
  | taskPostPrepareWriteDo
  deriving DecidableEq

/-- The functions used as `on_task_complete`. -/
inductive OnComplete
  | taskHttpParserOnComplete
  | taskPostPrepareModuleOnComplete
  | taskEndTravelling
  deriving DecidableEq

/-- `_task_context_wrapper_t`, by its address and the connection it never changes. Its `context`,
the handler of a user module, is in the world. -/
structure WrapperContext where
  id : Nat
  tconn : ConnId
  deriving DecidableEq

/-- `tgx_task_t` as `_post_task` fills it in; `task_lock` is always null. -/
structure TgxTask where
  id : Nat
  onPost : OnPost
  taskHandler : TaskHandler
  onTaskComplete : OnComplete
  context : WrapperContext
  deriving DecidableEq

/-- What `tgx_new_connection` allocates for a connection. -/
inductive ConnField
  | httpReqBuf
  | httpReqBody
  | httpRespHeader
  | httpRespBody
  | lock
  | httpParser
  deriving DecidableEq

inductive Alloc
  | string (f : StringField)
  | connectionField (f : ConnField)
  | taskInternal
  | httpParser
  | moduleHttp
  deriving DecidableEq

inductive Op
  -- memory
  | load (c : ConnId)
  | store (c : ConnId) (d : Conn)
  | callocConnection (fd : Int)
  | freeConnection (c : ConnId)
  | calloc (what : Alloc)
  | realloc
  -- the event system
  | setHandler (fd : Int) (h : Handler)
  | eventCtl (op : CtlOp) (fd : Int) (event : UInt32)
  | scheduleRegister (fd : Int) (h : Handler) (c : ConnId)
  /-- `tgx_event_schedule_unregister` under `tcycle_lock`, for the connection being closed -/
  | scheduleUnregister (fd : Int) (c : ConnId)
  -- system calls
  | accept
  | setNonblocking (fd : Int)
  | read (fd : Int) (count : Int)
  | write (fd : Int) (text : List UInt8) (start count : Int)
  | sendfile (outFd : Int) (file : Nat) (offset count : Int)
  | stat (path : List UInt8)
  | openFile (path : List UInt8)
  | closeFile (file : Nat)
  | close (fd : Int)
  /-- `strftime` of the current time, or of a file's modification time -/
  | formatDate (mtime : Option Int)
  -- tasks
  | callocWrapper (c : ConnId)
  | freeWrapper (id : Nat)
  | setContext (id : Nat)
  | getContext (id : Nat)
  | taskInit
  /-- the section of `tgx_post_task` under `sched_lock` -/
  | pushTask (t : TgxTask)
  -- user modules and the HTTP parser
  | dlopen (path : List UInt8)
  | dlsym
  | dlclose
  | callModule (req : Option TgxString) (resp : TgxString)
  | httpParserExecute (text : List UInt8)
  deriving DecidableEq

inductive ReadResult
  /-- no bytes is the end of the stream -/
  | data (bs : List UInt8)
  | again
  | error
  deriving DecidableEq

/-- The result of `write` and of `sendfile`. -/
inductive WriteResult
  | accepted (n : Nat)
  | again
  | error
  deriving DecidableEq

def WriteResult.toInt : WriteResult → Int
  | .accepted n => n
  | .again | .error => -1

/-- How far `sendfile` moves its offset. -/
def WriteResult.moved : WriteResult → Int
  | .accepted n => n
  | .again | .error => 0

structure Stat where
  isReg : Bool
  size : Int
  mtime : Int
  deriving DecidableEq

/-- What `http_parser_execute` returns, and what its callbacks leave in the connection. -/
structure ParserResult where
  nParsed : Nat
  httpParser : HttpParser
  httpReqBody : Option TgxString
  deriving DecidableEq

@[reducible] def Ret : Op → Type
  | .load _ => Conn
  | .callocConnection _ | .callocWrapper _ | .taskInit | .openFile _ => Option Nat
  | .calloc _ | .realloc | .getContext _ | .dlopen _ | .dlsym => Bool
  | .setHandler _ _ | .eventCtl _ _ _ | .scheduleRegister _ _ _ | .setNonblocking _ => Int
  | .accept => Option Int
  | .read _ _ => ReadResult
  | .write _ _ _ _ | .sendfile _ _ _ _ => WriteResult
  | .stat _ => Option Stat
  | .formatDate _ => List UInt8
  | .callModule _ _ => Int × Option TgxString × TgxString
  | .httpParserExecute _ => ParserResult
  | .store _ _ | .freeConnection _ | .scheduleUnregister _ _ | .closeFile _ | .close _ | .freeWrapper _
  | .setContext _ | .pushTask _ | .dlclose => Unit

/-- The connection a call reads or writes. -/
def Op.conn : Op → Option ConnId
  | .load c | .store c _ | .freeConnection c => some c
  | _ => none

abbrev M := Prog Op Ret

def call (o : Op) : M (Ret o) := Prog.op o

/-- A descriptor number in the kernel: not open, or a socket, and the connection made for it. -/
inductive Socket
  | closed
  | «open» (owner : Option ConnId)
  deriving DecidableEq

inductive Sent
  | text (text : List UInt8) (start : Int) (n : Nat)
  | file (file : Nat) (offset : Int) (n : Nat)
  deriving DecidableEq

structure World where
  te : TgxEvent Handler ConnId
  /-- the interest set of epoll -/
  interest : Int → Option UInt32
  sockets : Int → Socket
  conns : ConnId → Option Conn
  nextConn : ConnId
  wrappers : Nat → Option Bool
  nextWrapper : Nat
  nextTask : Nat
  queue : List TgxTask
  /-- history: how often `tgx_close_connection` was called on a connection -/
  closes : ConnId → Nat
  /-- history: what each descriptor has accepted -/
  sent : Int → List Sent

namespace World

@[simps -fullyApplied]
def setConn (w : World) (c : ConnId) (d : Option Conn) : World :=
  { w with conns := Function.update w.conns c d }

@[simps -fullyApplied]
def setInterest (w : World) (fd : Int) (m : Option UInt32) : World :=
  { w with interest := Function.update w.interest fd m }

@[simps -fullyApplied]
def setSocket (w : World) (fd : Int) (s : Socket) : World :=
  { w with sockets := Function.update w.sockets fd s }

@[simps -fullyApplied]
def addSent (w : World) (fd : Int) (x : Sent) : World :=
  { w with sent := Function.update w.sent fd (w.sent fd ++ [x]) }

/-- `epoll_ctl` where it succeeds. -/
def epollCtl (w : World) (op : CtlOp) (fd : Int) (m : UInt32) : Option World :=
  match op, w.interest fd with
  | .ADD, none => if w.sockets fd = .closed then none else some (w.setInterest fd (some m))
  | .MOD, some _ => some (w.setInterest fd (some m))
  | .DEL, some _ => some (w.setInterest fd none)
  | _, _ => none

end World

def newConn (fd : Int) : Conn where
  fd := fd
  httpReqBuf := ⟨0, none⟩
  httpReqBody := none
  httpRespHeader := ⟨0, none⟩
  httpRespBody := ⟨0, none⟩
  travelling := false
  rwPos := 0
  httpParser := {}
  dlopenHandle := false

/-- The world after a call that was answered so; `none` where it cannot be. -/
def respond (w : World) : (o : Op) → Ret o → Option World
  | .load c, d => if w.conns c = some d then some w else none
  | .store c d, _ => if (w.conns c).isSome then some (w.setConn c (some d)) else none
  | .callocConnection fd, r =>
    match r with
    | some c =>
      if c = w.nextConn then
        some { (w.setConn c (some (newConn fd))).setSocket fd (.open (some c)) with nextConn := c + 1 }
      else none
    | none => some w
  | .freeConnection c, _ => if (w.conns c).isSome then some (w.setConn c none) else none
  | .calloc _, _ | .realloc, _ => some w
  | .setHandler fd h, r =>
    match tgxEventSetHandler w.te fd (some h) none with
    | some (r', te) => if r = r' then some { w with te := te } else none
    | none => none
  | .eventCtl op fd event, r =>
    if r = tgxEventCtl w.te op fd event (fun _ _ _ => r) then
      if r = 0 then w.epollCtl op fd (toEpoll event) else some w
    else none
  | .scheduleRegister fd h c, r =>
    -- an allocation that fails and a full table leave the same state
    match tgxEventScheduleRegister w.te fd (some h) (some c) (r = 0) with
    | some (r', te) => if r = r' then some { w with te := te } else none
    | none => none
  | .scheduleUnregister fd c, _ =>
    (tgxEventScheduleUnregister w.te fd).map fun (_, te) =>
      { w with te := te, closes := Function.update w.closes c (w.closes c + 1) }
  | .accept, r =>
    match r with
    | some fd => if 0 ≤ fd ∧ w.sockets fd = .closed then some (w.setSocket fd (.open none)) else none
    | none => some w
  | .setNonblocking _, _ => some w
  | .read _ count, r =>
    match r with
    | .data bs => if bs.length ≤ toSizeT count then some w else none
    | .again | .error => some w
  | .write fd text start count, r =>
    match r with
    | .accepted n => if n ≤ toSizeT count then some (w.addSent fd (.text text start n)) else none
    | .again | .error => some w
  | .sendfile outFd file offset count, r =>
    match r with
    | .accepted n => if n ≤ toSizeT count then some (w.addSent outFd (.file file offset n)) else none
    | .again | .error => some w
  | .stat _, _ | .openFile _, _ | .closeFile _, _ | .formatDate _, _ => some w
  | .close fd, _ => some ((w.setSocket fd .closed).setInterest fd none)
  | .callocWrapper _, r =>
    match r with
    | some id =>
      if id = w.nextWrapper then
        some { w with wrappers := Function.update w.wrappers id (some false), nextWrapper := id + 1 }
      else none
    | none => some w
  | .freeWrapper id, _ => some { w with wrappers := Function.update w.wrappers id none }
  | .setContext id, _ => some { w with wrappers := Function.update w.wrappers id (some true) }
  | .getContext id, r => if w.wrappers id = some r then some w else none
  | .taskInit, r =>
    match r with
    | some id => if id = w.nextTask then some { w with nextTask := id + 1 } else none
    | none => some w
  | .pushTask t, _ => some { w with queue := w.queue ++ [t] }
  | .dlopen _, _ | .dlsym, _ | .dlclose, _ | .callModule _ _, _ | .httpParserExecute _, _ => some w

end TinyosGraphics.Core
