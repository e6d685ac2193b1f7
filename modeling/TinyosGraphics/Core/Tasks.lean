import TinyosGraphics.Core.Handlers

/-! The bodies and completions of the four tasks that a request goes through, call by call. -/
namespace TinyosGraphics.Core
open Lib Event

/-- `_task_http_parser_do`. The connection takes what the parser's callbacks leave. -/
def taskHttpParserDo (w : WrapperContext) : M Int := do
  if !(← calloc .httpParser) then return -1
  let d ← load w.tconn
  match d.httpReqBuf.text with
  | none => .stuck
  | some text =>
    let r ← httpParserExecute text
    store w.tconn { d with httpParser := r.httpParser, httpReqBody := r.httpReqBody }
    if r.nParsed ≠ text.length then return -1
    return 0

def closeAndFree (w : WrapperContext) : M Int := do
  tgxCloseConnection w.tconn
  freeWrapper w.id
  return -1

/-- `_task_http_parser_on_complete`. The wrapper is not freed when the next task is posted. -/
def taskHttpParserOnComplete (w : WrapperContext) (err : Int) : M Int := do
  if err < 0 then closeAndFree w
  else
    let d ← load w.tconn
    if startsWith d.httpParser.httpMethod (ascii "GET") then
      let ret ← postTask w.tconn .taskGetPrepareWriteOnPost .taskGetPrepareWriteDo .taskEndTravelling
      if ret < 0 then closeAndFree w else return 0
    else if startsWith d.httpParser.httpMethod (ascii "POST") then
      let ret ← postTask w.tconn .taskPostPrepareModuleOnPost .taskPostPrepareModuleDo
        .taskPostPrepareModuleOnComplete
      if ret < 0 then closeAndFree w else return 0
    else closeAndFree w

/-- The macro `COPY` in front of the rest of its function, which gets the new `buff_pos`. When the
buffer cannot be had the macro closes the connection and returns -1 from the function. -/
def copy (c : ConnId) (buffPos : Nat) (text : List UInt8) (rest : Nat → M Int) : M Int := do
  if (← stringCheckBoundry c .httpRespHeader buffPos) < 0 then
    tgxCloseConnection c
    return -1
  else
    let d ← load c
    let header := d.httpRespHeader
    store c (d.setString .httpRespHeader
      { header with data := header.data.map (·.write buffPos (text ++ [0])) })
    rest (buffPos + text.length)

/-- `memset(data, 0, sizeof(data))`, which clears as many bytes as a pointer has. -/
def clearHeader (c : ConnId) : M Unit := do
  let d ← load c
  if d.httpRespHeader.size ≠ 0 then
    store c (d.setString .httpRespHeader
      { d.httpRespHeader with data := d.httpRespHeader.data.map (·.write 0 (List.replicate 8 0)) })

/-- `data[buff_pos] = '\0'`. -/
def endHeader (c : ConnId) (buffPos : Nat) : M Int := do
  let d ← load c
  store c (d.setString .httpRespHeader
    { d.httpRespHeader with data := d.httpRespHeader.data.map (·.write buffPos [0]) })
  return 0

def crlf : List UInt8 := ascii "\r\n"

/-- `_task_get_prepare_write_do`; `e404` is `tcycle->err_page.e_404`. -/
def taskGetPrepareWriteDo (e404 : List UInt8) (w : WrapperContext) : M Int := do
  let c := w.tconn
  clearHeader c
  let d ← load c
  copy c 0 (tgxHttpStatusString d.httpParser.httpStatus ++ crlf) fun buffPos =>
  copy c buffPos (ascii "Server: tinyos-graphics/0.0.1" ++ crlf) fun buffPos =>
  copy c buffPos (ascii "Connection: Close" ++ crlf) fun buffPos => do
  let d ← load c
  if d.httpParser.httpStatus = .s404 then
    store c { d with httpParser := { d.httpParser with path := e404 } }
  let d ← load c
  match ← stat d.httpParser.path with
  | none => return -1
  | some statbuf =>
    let date ← formatDate none
    copy c buffPos (ascii "Date: ") fun buffPos =>
    copy c buffPos (date ++ crlf) fun buffPos => do
    let modified ← formatDate (some statbuf.mtime)
    copy c buffPos (ascii "Last-modified: ") fun buffPos =>
    copy c buffPos (modified ++ crlf) fun buffPos =>
    copy c buffPos (ascii "Content-Type: " ++ tgxMimeTypeString d.httpParser.mimeType ++ crlf) fun buffPos =>
    copy c buffPos (ascii "Content-Length: " ++ decimalInt statbuf.size ++ crlf) fun buffPos =>
    copy c buffPos crlf fun buffPos =>
    endHeader c buffPos

/-- `_task_post_prepare_module_do`. Without a user handler `ret` is not initialised. -/
def taskPostPrepareModuleDo (w : WrapperContext) : M Int := do
  if !(← calloc .moduleHttp) then return -1
  let d ← load w.tconn
  if !(← getContext w.id) then .stuck
  else
    let (ret, req, resp) ← callModule d.httpReqBody d.httpRespBody
    store w.tconn { d with httpReqBody := req, httpRespBody := resp }
    return ret

def taskPostPrepareModuleOnComplete (w : WrapperContext) (err : Int) : M Int := do
  if err < 0 then closeAndFree w
  else
    let ret ← postTask w.tconn .taskPostPrepareWriteOnPost .taskPostPrepareWriteDo .taskEndTravelling
    if ret < 0 then closeAndFree w else return 0

def taskPostPrepareWriteDo (w : WrapperContext) : M Int := do
  let c := w.tconn
  clearHeader c
  let d ← load c
  copy c 0 (tgxHttpStatusString d.httpParser.httpStatus ++ crlf) fun buffPos =>
  copy c buffPos (ascii "Server: tinyos-graphics/0.0.1" ++ crlf) fun buffPos =>
  copy c buffPos (ascii "Connection: Close" ++ crlf) fun buffPos => do
  let d ← load c
  if d.httpParser.httpStatus ≠ .s200 then return -1
  else
    copy c buffPos (ascii "Content-Type: application/json" ++ crlf) fun buffPos => do
    let d ← load c
    match d.httpRespBody.text with
    | none => return -1
    | some body =>
      if d.httpRespBody.size = 0 then return -1
      else
        copy c buffPos (ascii "Content-Length: " ++ decimalInt (toInt32 body.length) ++ crlf) fun buffPos =>
        copy c buffPos crlf fun buffPos =>
        endHeader c buffPos

/-- `_task_end_travelling`. A wrapper is freed only where the connection goes back to the loop. -/
def taskEndTravelling (w : WrapperContext) (err : Int) : M Int := do
  if err < 0 then
    tgxCloseConnection w.tconn
    return -1
  else
    let d ← load w.tconn
    store w.tconn { d with rwPos := 0 }
    let ret1 ← tgxEventSetHandler d.fd .tgxConnectionHandlerWriteHeader
    let ret2 ← tgxEventCtl .ADD d.fd TGX_EVENT_OUT
    if ret1 < 0 ∨ ret2 < 0 then
      tgxCloseConnection w.tconn
      return -1
    else
      freeWrapper w.id
      return 0

def runTaskHandler (e404 : List UInt8) : TaskHandler → WrapperContext → M Int
  | .taskHttpParserDo => taskHttpParserDo
  | .taskGetPrepareWriteDo => taskGetPrepareWriteDo e404
  | .taskPostPrepareModuleDo => taskPostPrepareModuleDo
  | .taskPostPrepareWriteDo => taskPostPrepareWriteDo

def runOnComplete : OnComplete → WrapperContext → Int → M Int
  | .taskHttpParserOnComplete => taskHttpParserOnComplete
  | .taskPostPrepareModuleOnComplete => taskPostPrepareModuleOnComplete
  | .taskEndTravelling => taskEndTravelling

end TinyosGraphics.Core
