import TinyosGraphics.Core.ContentLength
import TinyosGraphics.Core.Serving

/-! A request that arrives in pieces: when `tgx_connection_handler_read` posts the parser task. -/
namespace TinyosGraphics.Core
open Lib Event

def contentLengthLine (n : Nat) : List UInt8 :=
  crlf ++ ascii "Content-Length: " ++ decimal n ++ crlf

/-- A whole request whose header section, with the empty line, has `headerLen` bytes: a GET that ends
there, or a POST with one `Content-Length:` line and that many bytes of body. -/
structure CompleteRequest (R : List UInt8) (headerLen : Nat) : Prop where
  short : R.length < 65535
  noNul : ∀ b ∈ R, b ≠ 0
  header : strstr R (crlf ++ crlf) = some (headerLen - 4)
  four : 4 ≤ headerLen
  kind : startsWith R (ascii "GET") = true ∧ R.length = headerLen ∨
    startsWith R (ascii "POST") = true ∧ ∃ n before after,
      R.take headerLen = before ++ contentLengthLine n ++ after ∧
      (∀ i, ascii "Content-Length:" <+: (R.take headerLen).drop i → i = before.length + 2) ∧
      R.length = headerLen + n

private theorem CompleteRequest.headerLen_le {R : List UInt8} {headerLen : Nat}
    (h : CompleteRequest R headerLen) : headerLen ≤ R.length := by
  obtain ⟨hp, -, -⟩ := strstr_eq_some.mp h.header
  have hlen := hp.length_le
  have := h.four
  simp only [List.length_drop] at hlen
  have h4 : (crlf ++ crlf).length = 4 := rfl
  omega

private theorem CompleteRequest.header_take {R : List UInt8} {headerLen : Nat} (h : CompleteRequest R headerLen)
    (k : Nat) :
    strstr (R.take k) (crlf ++ crlf) = if headerLen ≤ k then some (headerLen - 4) else none := by
  have hfour := h.four
  have h4 : (crlf ++ crlf).length = 4 := rfl
  rw [strstr_take h.header (by decide) k, h4]
  congr 1
  exact propext (by omega)

private theorem isDigit_ne {b : UInt8} (h : isDigit b = true) : b ≠ 0 ∧ b ≠ 13 ∧ b ≠ 32 := by
  refine ⟨?_, ?_, ?_⟩ <;> rintro rfl <;> revert h <;> decide

private theorem contentLength_scan {n : Nat} {before rest : List UInt8} :
    ((before ++ contentLengthLine n ++ rest).drop (before.length + 2 + 15)).dropWhile (· == 32) =
      decimal n ++ crlf ++ rest := by
  have hsplit : before ++ contentLengthLine n ++ rest =
      (before ++ (crlf ++ ascii "Content-Length:")) ++ (32 :: (decimal n ++ crlf ++ rest)) := by
    simp [contentLengthLine, show ascii "Content-Length: " = ascii "Content-Length:" ++ [32] from rfl]
  have hlen : (before ++ (crlf ++ ascii "Content-Length:")).length = before.length + 2 + 15 := by
    simp only [List.length_append, show crlf.length = 2 from rfl,
      show (ascii "Content-Length:").length = 15 from rfl]
  rw [hsplit, ← hlen, List.drop_left, List.dropWhile_cons_of_pos (by decide)]
  obtain ⟨b, ds, hb⟩ := List.exists_cons_of_ne_nil (decimal_ne_nil n)
  have hdigit : isDigit b = true := isDigit_decimal (hb ▸ List.mem_cons_self)
  rw [hb, List.cons_append, List.cons_append, List.dropWhile_cons_of_neg (by simp [(isDigit_ne hdigit).2.2])]

private theorem takeWhile_decimal {n : Nat} {p : UInt8 → Bool} {rest : List UInt8}
    (hp : ∀ b, isDigit b = true → p b = true) (hrest : ∀ b ∈ rest.head?, p b = false) :
    (decimal n ++ rest).takeWhile p = decimal n := by
  rw [List.takeWhile_append_of_pos fun b hb => hp b (isDigit_decimal hb)]
  cases rest with
  | nil => simp
  | cons b rest => simp [hrest b (by simp)]

private theorem CompleteRequest.strstr_line {R : List UInt8} {headerLen n : Nat} {before after : List UInt8}
    (h : CompleteRequest R headerLen) (hline : R.take headerLen = before ++ contentLengthLine n ++ after)
    (honly : ∀ i, ascii "Content-Length:" <+: (R.take headerLen).drop i → i = before.length + 2) :
    before.length + 2 + 15 ≤ headerLen ∧ strstr R (ascii "Content-Length:") = some (before.length + 2) := by
  have hheader : (R.take headerLen).length = headerLen := by
    have := h.headerLen_le
    simp only [List.length_take]
    omega
  have hline_le : before.length + 2 + 15 ≤ headerLen := by
    rw [← hheader, hline]
    simp only [List.length_append, contentLengthLine, show crlf.length = 2 from rfl,
      show (ascii "Content-Length: ").length = 16 from rfl]
    omega
  have hRfull : R = before ++ contentLengthLine n ++ (after ++ R.drop headerLen) := by
    conv_lhs => rw [← List.take_append_drop headerLen R, hline]
    simp
  refine ⟨hline_le, strstr_eq_some.mpr ⟨?_, ?_, fun j hj hp => ?_⟩⟩
  · have hsplit : R = (before ++ crlf) ++ (ascii "Content-Length:" ++
        (32 :: (decimal n ++ crlf ++ (after ++ R.drop headerLen)))) := by
      conv_lhs => rw [hRfull]
      simp [contentLengthLine, show ascii "Content-Length: " = ascii "Content-Length:" ++ [32] from rfl]
    have hlen : (before ++ crlf).length = before.length + 2 := by
      simp [show crlf.length = 2 from rfl]
    rw [hsplit, ← hlen, List.drop_left]
    exact List.prefix_append _ _
  · rw [hRfull]
    simp only [List.length_append, contentLengthLine, show crlf.length = 2 from rfl]
    omega
  · -- an earlier occurrence would be one in the header section
    have hin : ascii "Content-Length:" <+: (R.take headerLen).drop j := by
      refine prefix_drop_take.mpr ⟨hp, ?_⟩
      rw [hheader, show (ascii "Content-Length:").length = 15 from rfl]
      omega
    have := honly j hin
    omega

/-- Once a POST's header is there the handler takes the request for complete, whatever is still
missing of the body. -/
private theorem inspectPost_complete {R : List UInt8} {headerLen k n : Nat} {before after : List UInt8}
    (h : CompleteRequest R headerLen) (hk : headerLen ≤ k) (hkR : k ≤ R.length)
    (hline : R.take headerLen = before ++ contentLengthLine n ++ after)
    (honly : ∀ i, ascii "Content-Length:" <+: (R.take headerLen).drop i → i = before.length + 2)
    (hbody : R.length = headerLen + n) :
    inspectPost (R.take k ++ [0]) (R.take k) k = .complete := by
  have hshort := h.short
  obtain ⟨hline_le, hfound⟩ := h.strstr_line hline honly
  -- the bytes received so far, split at the line
  have hR : R.take k = before ++ contentLengthLine n ++ (after ++ (R.take k).drop headerLen) := by
    have : R.take k = R.take headerLen ++ (R.take k).drop headerLen := by
      conv_lhs => rw [← List.take_append_drop headerLen (R.take k)]
      rw [List.take_take, min_eq_left hk]
    exact this.trans (by rw [hline]; simp)
  have hstart : strstr (R.take k) (ascii "Content-Length:") = some (before.length + 2) := by
    rw [strstr_take hfound (by decide) k, if_pos]
    simp only [show (ascii "Content-Length:").length = 15 from rfl]
    omega
  have hrest : ((R.take k ++ [0]).drop (before.length + 2 + 15)).dropWhile (· == 32) =
      decimal n ++ (crlf ++ (after ++ (R.take k).drop headerLen ++ [0])) := by
    conv_lhs => rw [hR]
    rw [List.append_assoc, contentLength_scan]
    simp
  have hnum : (decimal n ++ (crlf ++ (after ++ (R.take k).drop headerLen ++ [0]))).takeWhile (· != 13) =
      decimal n :=
    takeWhile_decimal (fun b hb => by simp [(isDigit_ne hb).2.1])
      (by simp [show crlf = [13, 10] from rfl])
  have hnul : (decimal n).takeWhile (· != 0) = decimal n := by
    have : (decimal n ++ []).takeWhile (· != 0) = decimal n :=
      takeWhile_decimal (fun b hb => by simp [(isDigit_ne hb).1]) (by simp)
    simpa using this
  have hdigits : (decimal n).length ≤ 127 := by
    have : (decimal n).length ≤ 5 := length_decimal_le (by omega) (by omega)
    omega
  have hatoi : atoi (decimal n) = n := by
    have : atoi (decimal n ++ []) = n := atoi_decimal (by omega) (by simp)
    simpa using this
  have hint : toInt32 ((n : Int) + (headerLen - 4 + 4 : Nat)) = n + headerLen := by
    rw [toInt32, Int.bmod_eq_of_le] <;> omega
  have hcr : 13 ∈ decimal n ++ (crlf ++ (after ++ (R.take k).drop headerLen ++ [0])) := by
    simp [show crlf = [13, 10] from rfl]
  rw [inspectPost_eq, contentLength_eq hstart hrest, if_pos hcr]
  simp only [hnum, hnul, hatoi]
  rw [if_neg (by omega), show ascii "\r\n\r\n" = crlf ++ crlf from rfl, h.header_take k, if_pos hk]
  simp only [Int.natCast_add] at hint ⊢
  rw [if_neg]
  push_cast at hint ⊢
  omega

/-- After `k` bytes the handler goes on exactly when the header section is there. -/
private theorem inspectRequest_take {R : List UInt8} {headerLen k : Nat} (h : CompleteRequest R headerLen)
    (hkR : k ≤ R.length) {b : Block} (hb : b.bytes = R.take k ++ [0]) :
    inspectRequest b k = if headerLen ≤ k then .complete else .incomplete := by
  have htext : b.cString = R.take k :=
    Block.cString_of_bytes hb fun x hx => h.noNul x (List.mem_of_mem_take hx)
  have hfour := h.four
  rw [inspectRequest, htext, show ascii "\r\n\r\n" = crlf ++ crlf from rfl, h.header_take k]
  split
  · rename_i hk
    have hstart : ∀ t, t.length ≤ 4 → (startsWith (R.take k) t = startsWith R t) := fun t ht => by
      rw [startsWith, startsWith, Bool.eq_iff_iff, List.isPrefixOf_iff_prefix,
        List.isPrefixOf_iff_prefix, List.prefix_take_iff]
      exact and_iff_left (by omega)
    rw [hstart _ (by decide), hstart _ (by decide)]
    rcases h.kind with ⟨hget, -⟩ | ⟨hpost, n, before, after, hline, honly, hbody⟩
    · simp [hget]
    · have hnot : startsWith R (ascii "GET") = false := by
        obtain ⟨rest, rfl⟩ := List.isPrefixOf_iff_prefix.mp hpost
        rfl
      simp only [Option.isSome_some, if_true, hnot, Bool.false_eq_true, if_false, hpost]
      rw [hb]
      exact inspectPost_complete h hk hkR hline honly hbody
  · simp

/-- The answer a call gets when nothing fails: allocations succeed, epoll refuses only what is wrong,
and reads take the pieces that are there one by one. -/
def reply (w : World) (pieces : List (List UInt8)) : (o : Op) → Option (Ret o)
  | .load c => w.conns c
  | .store _ _ => some ()
  | .calloc _ => some true
  | .realloc => some true
  | .setHandler fd h => (Event.tgxEventSetHandler w.te fd (some h) none).map Prod.fst
  | .eventCtl op fd event =>
    some (Event.tgxEventCtl w.te op fd event fun op fd m => if (w.epollCtl op fd m).isSome then 0 else -1)
  | .read _ _ => some (match pieces with | [] => .again | bs :: _ => .data bs)
  | .callocWrapper _ => some (some w.nextWrapper)
  | .taskInit => some (some w.nextTask)
  | .pushTask _ => some ()
  | _ => none

def leftover (pieces : List (List UInt8)) : Op → List (List UInt8)
  | .read _ _ => pieces.tail
  | _ => pieces

def answer (s : World × List (List UInt8)) (o : Op) : Option (Ret o × (World × List (List UInt8))) :=
  (reply s.1 s.2 o).bind fun r => (respond s.1 o r).map fun w => (r, (w, leftover s.2 o))

/-- The event loop's turn for a descriptor at which `pieces` have arrived. While the descriptor is not
in the interest set they stay in the socket. -/
def readEvent (w : World) (fd : Int) (pieces : List (List UInt8)) : Option World :=
  match w.interest fd with
  | none => some w
  | some _ =>
    match Event.tgxEventGetHandler w.te fd, tgxEventGetContext w.te fd with
    | some (some h), some context =>
      ((runHandler (pieces.length + 1) h context TGX_EVENT_IN).exec answer (w, pieces)).map fun x => x.2.1
    | _, _ => none

def deliver (w : World) (fd : Int) (events : List (List (List UInt8))) : Option World :=
  events.foldlM (fun w pieces => readEvent w fd pieces) w

/-- A connection that has read `received`: at most the NUL stands behind the bytes in the buffer. -/
def Conn.Holds (d : Conn) (received : List UInt8) : Prop :=
  d.rwPos = received.length ∧ d.httpReqBuf.Holds received

/-- A connection in the hands of the event loop that has read `received` and posted nothing. -/
structure Reading (w : World) (c : ConnId) (fd : Int) (received : List UInt8) : Prop where
  started : w.te.Started
  wellFormed : w.te.WellFormed
  inRange : w.te.InRange fd
  registered : w.te.lookup fd = some ⟨fd, some .tgxConnectionHandlerRead, some c⟩
  armed : (w.interest fd).isSome
  conn : ∃ d, w.conns c = some d ∧ d.fd = fd ∧ d.Holds received

section
variable {w : World} {c : ConnId} {d : Conn} {pieces : List (List UInt8)} {received : List UInt8}

private theorem answer_load (h : w.conns c = some d) : answer (w, pieces) (.load c) = some (d, (w, pieces)) := by
  simp [answer, reply, respond, leftover, h]

private theorem answer_store (h : w.conns c = some d) (d' : Conn) :
    answer (w, pieces) (.store c d') = some ((), (w.setConn c (some d'), pieces)) := by
  simp [answer, reply, respond, leftover, h]

/-- The boundary check allocates the buffer at first and finds it large enough from then on. -/
private theorem exec_stringCheckBoundry (pieces : List (List UInt8)) (hc : w.conns c = some d) (hd : d.Holds received) :
    ∃ b rest, b.bytes = received ++ rest ∧ rest.length ≤ 1 ∧
      (stringCheckBoundry c .httpReqBuf d.rwPos).exec answer (w, pieces) =
        some (0, (w.setConn c (some { d with httpReqBuf := ⟨MAX_BUFFER_SIZE, some b⟩ }), pieces)) := by
  obtain ⟨hpos, ⟨hbuf, hnil⟩ | ⟨b, rest, hbuf, hbytes, hrest⟩⟩ := hd
  all_goals have hneg : ¬ d.rwPos < 0 := by omega
  · refine ⟨.calloc MAX_BUFFER_SIZE, [], by simp [hnil, Block.calloc], by simp, ?_⟩
    have hcalloc : answer (w, pieces) (.calloc (.string .httpReqBuf)) = some (true, (w, pieces)) := rfl
    simp [stringCheckBoundry, stringGrow, Core.setString, load, store, Core.calloc, call, hneg, bind_assoc,
      answer_load hc, answer_load (setConn_conns_self _ _ _), answer_store hc, Conn.string, Conn.setString,
      hbuf, hcalloc]
  · refine ⟨b, rest, hbytes, hrest, ?_⟩
    have hsize : MAX_BUFFER_SIZE ≠ 0 := by decide
    rw [← hbuf, setConn_self hc]
    simp [stringCheckBoundry, stringGrow, load, call, hneg, answer_load hc, Conn.string, hbuf, hsize]

private theorem answer_read_nil (fd count : Int) :
    answer (w, []) (.read fd count) = some (.again, (w, [])) := rfl

private theorem answer_read_cons {bs : List UInt8} {fd count : Int} (hroom : bs.length ≤ toSizeT count) :
    answer (w, bs :: pieces) (.read fd count) = some (.data bs, (w, pieces)) := by
  simp [answer, reply, respond, leftover, hroom]

/-- The read loop takes every piece into the buffer and ends at the would-block. -/
private theorem exec_readLoop (hpieces : ∀ bs ∈ pieces, bs ≠ []) (hc : w.conns c = some d) (hd : d.Holds received)
    (hroom : received.length + pieces.flatten.length < MAX_BUFFER_SIZE) :
    ∃ b rest, b.bytes = received ++ pieces.flatten ++ rest ∧ rest.length ≤ 1 ∧
      (readLoop c (pieces.length + 1)).exec answer (w, pieces) =
        some (true, (w.setConn c (some { d with
          httpReqBuf := ⟨MAX_BUFFER_SIZE, some b⟩
          rwPos := (received ++ pieces.flatten).length }), [])) := by
  have hpos := hd.1
  induction pieces generalizing w d received with
  | nil =>
    obtain ⟨b, rest, hbytes, hrest, hexec⟩ := exec_stringCheckBoundry [] hc hd
    refine ⟨b, rest, by simpa using hbytes, hrest, ?_⟩
    simp only [List.length_nil, readLoop, load, call, Prog.exec_op_bind, answer_load hc,
      Option.bind_some, Prog.exec_bind_of_eq _ hexec]
    simp [answer_load (setConn_conns_self _ _ _), Core.read, call, answer_read_nil, ← hpos]
  | cons bs pieces ih =>
    obtain ⟨b, rest, hbytes, hrest, hexec⟩ := exec_stringCheckBoundry (bs :: pieces) hc hd
    have hlen : 1 ≤ bs.length := List.length_pos_iff.mpr (hpieces bs (by simp))
    simp only [List.flatten_cons, List.length_append] at hroom
    -- the piece fits behind what is there, and overwrites the NUL
    have hfits : bs.length ≤ toSizeT ((MAX_BUFFER_SIZE : Int) - d.rwPos) := by
      simp only [toSizeT, MAX_BUFFER_SIZE] at hroom ⊢
      omega
    have hwrite : (b.write d.rwPos.toNat bs).bytes = received ++ bs := by
      rw [hpos, Int.toNat_natCast]
      exact Block.write_over hbytes (by omega)
    let d' : Conn := { d with
      httpReqBuf := ⟨MAX_BUFFER_SIZE, some (b.write d.rwPos.toNat bs)⟩
      rwPos := d.rwPos + bs.length }
    have hd' : d'.Holds (received ++ bs) :=
      ⟨by simp [d', hpos], .inr ⟨_, [], rfl, by simp [hwrite], by simp⟩⟩
    obtain ⟨b', rest', hbytes', hrest', hexec'⟩ := ih (w := w.setConn c (some d'))
      (fun q hq => hpieces q (by simp [hq])) (setConn_conns_self _ _ _) hd'
      (by simp only [List.length_append]; omega) hd'.1
    refine ⟨b', rest', by simpa using hbytes', hrest', ?_⟩
    rw [readLoop]
    simp only [load, call, Prog.exec_op_bind, answer_load hc, Option.bind_some,
      Prog.exec_bind_of_eq _ hexec]
    simp only [Prog.exec_op_bind, answer_load (setConn_conns_self _ _ _), Core.read, store, call,
      answer_read_cons hfits, Option.bind_some, lt_self_iff_false, if_false]
    split
    · contradiction
    · contradiction
    · rename_i heq
      cases heq
      simp at hlen
    · rename_i bs' _ heq
      obtain rfl : bs = bs' := ReadResult.data.inj heq
      simpa [answer_store (setConn_conns_self _ _ _), d', add_assoc] using hexec'

end

/-- What posting the parser task has added to the world, with `text` as the request. -/
structure Posted (w u : World) (c : ConnId) (text : List UInt8) : Prop where
  queue : ∃ t, u.queue = w.queue ++ [t] ∧ t.taskHandler = .taskHttpParserDo ∧ t.context.tconn = c
  buffer : ∃ d, u.conns c = some d ∧ d.httpReqBuf.data.map Block.bytes = some (text ++ [0])

section
variable {w : World} {c : ConnId} {fd : Int} {d : Conn} {pieces : List (List UInt8)}
  {R received : List UInt8} {headerLen : Nat}

private theorem answer_setHandler {handler : Handler} {r : Int} {te : TgxEvent Handler ConnId}
    (h : Event.tgxEventSetHandler w.te fd (some handler) none = some (r, te)) :
    answer (w, pieces) (.setHandler fd handler) = some (r, ({ w with te := te }, pieces)) := by
  simp [answer, reply, respond, leftover, h]

private theorem answer_del (hs : w.te.Started) (hfd : 0 ≤ fd) (h : (w.interest fd).isSome) :
    answer (w, pieces) (.eventCtl .DEL fd 0) = some (0, (w.setInterest fd none, pieces)) := by
  obtain ⟨m, hm⟩ := Option.isSome_iff_exists.mp h
  simp [answer, reply, respond, leftover, Event.tgxEventCtl, not_lt.mpr hfd, hs.engine, tgxLinuxEpollCtl,
    not_lt.mpr hs.epollFd, World.epollCtl, hm]

/-- The hand-over: the connection is off the event loop, and counts as travelling. -/
private theorem exec_taskStartTravelling (h : Reading w c fd received) (hc : w.conns c = some d) (hfd : d.fd = fd)
    (id : Nat) (pieces : List (List UInt8)) :
    ∃ te, (taskStartTravelling ⟨id, c⟩).exec answer (w, pieces) = some (0,
      (({ w with te := te }.setInterest fd none).setConn c (some { d with rwPos := 0, travelling := true }),
        pieces)) := by
  subst hfd
  obtain ⟨te, hset⟩ : ∃ te, Event.tgxEventSetHandler w.te d.fd
      (some Handler.tgxConnectionHandlerNoOperation) none = some (0, te) :=
    TgxEvent.setHandler_registered h.wellFormed h.inRange h.registered rfl
  let w' := w.setConn c (some { d with rwPos := 0 })
  have hset' : answer (w', pieces) (.setHandler d.fd .tgxConnectionHandlerNoOperation) =
      some (0, ({ w' with te := te }, pieces)) :=
    answer_setHandler hset
  have hdel : answer ({ w' with te := te }, pieces) (.eventCtl .DEL d.fd 0) =
      some (0, (({ w' with te := te } : World).setInterest d.fd none, pieces)) :=
    answer_del (h.started.setHandler hset) h.inRange.1 h.armed
  have hc' : (({ w' with te := te } : World).setInterest d.fd none).conns c = some { d with rwPos := 0 } :=
    setConn_conns_self _ _ _
  refine ⟨te, ?_⟩
  simp only [taskStartTravelling, load, store, Core.tgxEventSetHandler, Core.tgxEventCtl, call,
    Prog.exec_op_bind, answer_load hc, answer_store hc, Option.bind_some]
  rw [hset', Option.bind_some, hdel]
  simp only [Option.bind_some, lt_self_iff_false, or_self, if_false, Prog.exec_op_bind, answer_load hc',
    answer_store hc', Prog.pure_def, Prog.exec_ret]
  simp [w', World.setConn, World.setInterest]

private theorem exec_postTask (h : Reading w c fd received) (hc : w.conns c = some d) (hfd : d.fd = fd)
    {text : List UInt8} (hbuf : d.httpReqBuf.data.map Block.bytes = some (text ++ [0]))
    (pieces : List (List UInt8)) :
    ∃ u, (postTask c .taskStartTravelling .taskHttpParserDo .taskHttpParserOnComplete).exec answer
        (w, pieces) = some (0, (u, pieces)) ∧ Posted w u c text ∧ u.interest fd = none := by
  let w' : World := { w with
    wrappers := Function.update w.wrappers w.nextWrapper (some false)
    nextWrapper := w.nextWrapper + 1
    nextTask := w.nextTask + 1 }
  have hw' : Reading w' c fd received :=
    ⟨h.started, h.wellFormed, h.inRange, h.registered, h.armed, h.conn⟩
  obtain ⟨te, hexec⟩ := exec_taskStartTravelling hw' hc hfd w.nextWrapper pieces
  let u := (({ w' with te := te }.setInterest fd none).setConn c (some { d with rwPos := 0, travelling := true }))
  let t : TgxTask :=
    ⟨w.nextTask, .taskStartTravelling, .taskHttpParserDo, .taskHttpParserOnComplete, ⟨w.nextWrapper, c⟩⟩
  refine ⟨{ u with queue := u.queue ++ [t] }, ?_, ⟨⟨t, rfl, rfl, rfl⟩, ⟨_, setConn_conns_self _ _ _, hbuf⟩⟩, ?_⟩
  · have hwrapper : answer (w, pieces) (.callocWrapper c) = some (some w.nextWrapper,
        ({ w with wrappers := Function.update w.wrappers w.nextWrapper (some false)
                  nextWrapper := w.nextWrapper + 1 }, pieces)) := by
      simp [answer, reply, respond, leftover]
    have htask : answer ({ w with wrappers := Function.update w.wrappers w.nextWrapper (some false)
                                  nextWrapper := w.nextWrapper + 1 }, pieces) .taskInit =
        some (some w.nextTask, (w', pieces)) := by
      simp [answer, reply, respond, leftover, w']
    simp only [postTask, Core.callocWrapper, tgxTaskInit, tgxPostTask, runOnPost, Core.calloc, pushTask, call,
      Prog.exec_op_bind, hwrapper, htask, Option.bind_some, bind_assoc, Prog.exec_bind_of_eq _ hexec,
      lt_self_iff_false, if_false]
    rfl
  · simp [u, World.setInterest]

/-- One event: the handler keeps reading, or posts the request that it takes for complete. -/
private theorem readEvent_spec (hR : CompleteRequest R headerLen) (h : Reading w c fd received)
    (hpieces : ∀ bs ∈ pieces, bs ≠ []) (hpre : received ++ pieces.flatten <+: R) :
    ∃ u, readEvent w fd pieces = some u ∧
      if headerLen ≤ (received ++ pieces.flatten).length then
        Posted w u c (received ++ pieces.flatten) ∧ u.interest fd = none
      else Reading u c fd (received ++ pieces.flatten) ∧ u.queue = w.queue := by
  obtain ⟨d, hc, hfd, hd⟩ := h.conn
  have hle := hpre.length_le
  have hshort := hR.short
  have htake : R.take (received ++ pieces.flatten).length = received ++ pieces.flatten :=
    (List.prefix_iff_eq_take.mp hpre).symm
  generalize htext : received ++ pieces.flatten = text at *
  obtain ⟨b, rest, hbytes, hrest, hloop⟩ := exec_readLoop hpieces hc hd
    (by rw [← List.length_append, htext]; simp only [MAX_BUFFER_SIZE]; omega)
  rw [htext] at hbytes hloop
  -- the buffer with the NUL that ends the text
  have hnul : (b.write text.length [0]).bytes = text ++ [0] := Block.write_over hbytes (by simpa using hrest)
  let d₁ : Conn := { d with
    httpReqBuf := ⟨MAX_BUFFER_SIZE, some (b.write text.length [0])⟩
    rwPos := text.length }
  have hd₁ : d₁.Holds text := ⟨rfl, .inr ⟨_, [0], rfl, hnul, by simp⟩⟩
  have hw₁ : Reading (w.setConn c (some d₁)) c fd text :=
    ⟨h.started, h.wellFormed, h.inRange, h.registered, h.armed, ⟨d₁, setConn_conns_self _ _ _, hfd, hd₁⟩⟩
  obtain ⟨u, hpost, hposted, hoff⟩ := exec_postTask hw₁ (setConn_conns_self _ _ _) hfd
    (show d₁.httpReqBuf.data.map Block.bytes = some (text ++ [0]) by simp [d₁, hnul]) []
  obtain ⟨m, hm⟩ := Option.isSome_iff_exists.mp h.armed
  have hin : hasFlag TGX_EVENT_IN TGX_EVENT_IN = true := by decide
  have hinspect := inspectRequest_take (k := text.length) hR hle (b := b.write text.length [0])
    (by rw [htake, hnul])
  simp only [readEvent, hm, TgxEvent.getHandler_spec h.wellFormed h.inRange,
    TgxEvent.getContext_spec h.wellFormed h.inRange, h.registered, Option.bind_some, runHandler,
    tgxConnectionHandlerRead, hin, Bool.not_true, Bool.false_eq_true, if_false,
    Prog.exec_bind_of_eq _ hloop]
  simp only [load, store, call, Prog.exec_op_bind, answer_load (setConn_conns_self _ _ _), Option.bind_some,
    answer_store (setConn_conns_self _ _ _), setConn_setConn, Int.toNat_natCast, hinspect]
  by_cases hk : headerLen ≤ text.length
  · refine ⟨u, ?_, by simpa [hk] using ⟨⟨hposted.queue, hposted.buffer⟩, hoff⟩⟩
    simp only [hk, if_true]
    show Option.map _ (Prog.exec answer _ (w.setConn c (some d₁), [])) = some u
    rw [Prog.exec_bind_of_eq _ hpost]
    rfl
  · refine ⟨w.setConn c (some d₁), ?_, by simpa [hk] using hw₁⟩
    simp only [hk, if_false]
    rfl

private theorem deliver_cons (w : World) (fd : Int) (pieces : List (List UInt8)) (events : List (List (List UInt8))) :
    deliver w fd (pieces :: events) = (readEvent w fd pieces).bind fun u => deliver u fd events := by
  simp [deliver]

private theorem deliver_disarmed (h : w.interest fd = none) (events : List (List (List UInt8))) :
    deliver w fd events = some w := by
  induction events with
  | nil => rfl
  | cons pieces events ih => rw [deliver_cons, readEvent, h, Option.bind_some, ih]

private theorem deliver_incomplete (hR : CompleteRequest R headerLen) (events : List (List (List UInt8)))
    (h : Reading w c fd received) (hevents : ∀ e ∈ events, ∀ bs ∈ e, bs ≠ [])
    (hpre : received ++ events.flatten.flatten <+: R)
    (hshort : (received ++ events.flatten.flatten).length < headerLen) :
    ∃ u, deliver w fd events = some u ∧ Reading u c fd (received ++ events.flatten.flatten) ∧
      u.queue = w.queue := by
  induction events generalizing w received with
  | nil => exact ⟨w, rfl, by simpa using h, rfl⟩
  | cons pieces events ih =>
    rw [List.flatten_cons, List.flatten_append, ← List.append_assoc] at hpre hshort ⊢
    have hlt : ¬ headerLen ≤ (received ++ pieces.flatten).length := by
      simp only [List.length_append] at hshort ⊢
      omega
    obtain ⟨u, hu, hcase⟩ := readEvent_spec hR h (hevents pieces (by simp))
      ((List.prefix_append _ _).trans hpre)
    rw [if_neg hlt] at hcase
    obtain ⟨v, hv, hreading, hqueue⟩ := ih hcase.1 (fun e he => hevents e (by simp [he])) hpre hshort
    exact ⟨v, by rw [deliver_cons, hu, Option.bind_some, hv], hreading, hqueue.trans hcase.2⟩

private theorem deliver_complete (hR : CompleteRequest R headerLen) (events : List (List (List UInt8)))
    (h : Reading w c fd received) (hevents : ∀ e ∈ events, ∀ bs ∈ e, bs ≠ [])
    (hpre : received ++ events.flatten.flatten <+: R) (hshort : received.length < headerLen)
    (hlong : headerLen ≤ (received ++ events.flatten.flatten).length) :
    ∃ u t, deliver w fd events = some u ∧ u.queue = w.queue ++ [t] := by
  induction events generalizing w received with
  | nil => simp only [List.flatten_nil, List.append_nil] at hlong; omega
  | cons pieces events ih =>
    rw [List.flatten_cons, List.flatten_append, ← List.append_assoc] at hpre hlong
    obtain ⟨u, hu, hcase⟩ := readEvent_spec hR h (hevents pieces (by simp))
      ((List.prefix_append _ _).trans hpre)
    split at hcase
    · obtain ⟨hposted, hoff⟩ := hcase
      obtain ⟨t, ht, -⟩ := hposted.queue
      exact ⟨u, t, by rw [deliver_cons, hu, Option.bind_some, deliver_disarmed hoff], ht⟩
    · rename_i hlt
      obtain ⟨v, t, hv, ht⟩ := ih hcase.1 (fun e he => hevents e (by simp [he])) hpre (by omega) hlong
      exact ⟨v, t, by rw [deliver_cons, hu, Option.bind_some, hv], by rw [ht, hcase.2]⟩

/-- The parser task is posted by the event that brings the last byte and by no other, with the whole
request and a NUL in the buffer. -/
def PostsWhenComplete (w : World) (c : ConnId) (fd : Int) (R : List UInt8)
    (events : List (List (List UInt8))) : Prop :=
  (∀ k < events.length, ∃ u, deliver w fd (events.take k) = some u ∧ u.queue = w.queue) ∧
  ∃ u, deliver w fd events = some u ∧ Posted w u c R

/-- A request is posted when it is complete, and not before, exactly when the bytes that come before the
last event do not yet make up the header section. -/
theorem posts_when_complete_iff (hR : CompleteRequest R headerLen) (h : Reading w c fd [])
    {events : List (List (List UInt8))} (hsplit : events.flatten.flatten = R)
    (hevents : ∀ e ∈ events, ∀ bs ∈ e, bs ≠ []) :
    PostsWhenComplete w c fd R events ↔ events.dropLast.flatten.flatten.length < headerLen := by
  have hRlen := hR.headerLen_le
  have hfour := hR.four
  obtain rfl | ⟨front, last, rfl⟩ := events.eq_nil_or_concat
  · subst hsplit
    simp only [List.flatten_nil, List.length_nil] at hRlen
    omega
  rw [List.concat_eq_append] at *
  have hfront : front.flatten.flatten ++ last.flatten = R := by simpa using hsplit
  rw [List.dropLast_concat]
  constructor
  · rintro ⟨hbefore, -⟩
    by_contra hlong
    obtain ⟨u, hu, hqueue⟩ := hbefore front.length (by simp)
    obtain ⟨u', t, hu', ht⟩ := deliver_complete hR front h (fun e he => hevents e (by simp [he]))
      (by rw [← hfront]; exact List.prefix_append _ _) (by simp only [List.length_nil]; omega)
      (by simpa using hlong)
    rw [List.take_left, hu'] at hu
    obtain rfl := Option.some.inj hu
    simp [ht] at hqueue
  · intro hshort
    have hpart : ∀ k ≤ front.length, ∃ u, deliver w fd ((front ++ [last]).take k) = some u ∧
        Reading u c fd (front.take k).flatten.flatten ∧ u.queue = w.queue := by
      intro k hk
      have hsub : (front.take k).flatten.flatten <+: front.flatten.flatten := by
        refine ⟨(front.drop k).flatten.flatten, ?_⟩
        rw [← List.flatten_append, ← List.flatten_append, List.take_append_drop]
      have := deliver_incomplete hR (front.take k) h
        (fun e he => hevents e (List.mem_append_left _ (List.mem_of_mem_take he)))
        (hsub.trans (by rw [← hfront]; exact List.prefix_append _ _))
        (lt_of_le_of_lt hsub.length_le hshort)
      rwa [List.take_append_of_le_length hk]
    refine ⟨fun k hk => ?_, ?_⟩
    · obtain ⟨u, hu, -, hqueue⟩ := hpart k (by simp at hk; omega)
      exact ⟨u, hu, hqueue⟩
    · obtain ⟨u, hu, hreading, hqueue⟩ := hpart front.length le_rfl
      rw [List.take_left] at hu
      rw [List.take_length] at hreading
      obtain ⟨v, hv, hcase⟩ := readEvent_spec hR hreading (hevents last (by simp)) (by rw [hfront])
      rw [hfront, if_pos hRlen] at hcase
      obtain ⟨⟨⟨t, ht, hrest⟩, hbuffer⟩, -⟩ := hcase
      refine ⟨v, ?_, ⟨t, by rw [ht, hqueue], hrest⟩, hbuffer⟩
      simp only [deliver] at hu ⊢
      rw [List.foldlM_append, hu]
      simpa using hv

end

def acceptedConn : Conn :=
  { newConn 5 with httpReqBody := some ⟨0, none⟩ }

def accepted : World :=
  oneConnection .tgxConnectionHandlerRead acceptedConn (some EPOLLIN)

private theorem accepted_reading : Reading accepted 0 5 [] :=
  have hreg : Registered accepted 5 0 .tgxConnectionHandlerRead acceptedConn := oneConnection_registered _ _ rfl
  ⟨hreg.started, hreg.wellFormed, hreg.inRange, hreg.entry, rfl, ⟨_, hreg.conn, rfl, rfl, .inl ⟨rfl, rfl⟩⟩⟩

def getRequest : List UInt8 := ascii "GET / HTTP/1.1\r\nHost: h\r\n\r\n"

def postHeader : List UInt8 := ascii "POST /m HTTP/1.1\r\nContent-Length: 2\r\n\r\n"

def postRequest : List UInt8 := postHeader ++ ascii "hi"

private theorem postRequest_complete : CompleteRequest postRequest 39 where
  short := by decide
  noNul := by decide +kernel
  header := by decide +kernel
  four := by decide
  kind := by
    have hdigits : decimal 2 = [50] := by decide
    refine .inr ⟨rfl, 2, ascii "POST /m HTTP/1.1", crlf, ?_, fun i hp => ?_, rfl⟩
    · rw [contentLengthLine, hdigits]
      rfl
    · have hlt : i < 40 := by
        have hlen := hp.length_le
        simp only [List.length_drop] at hlen
        have h15 : (ascii "Content-Length:").length = 15 := rfl
        have h39 : (postRequest.take 39).length = 39 := rfl
        omega
      revert hp
      have hall : ∀ i < 40, ascii "Content-Length:" <+: (postRequest.take 39).drop i →
          i = (ascii "POST /m HTTP/1.1").length + 2 := by decide +kernel
      exact hall i hlt

theorem posts_when_complete_get :
    PostsWhenComplete accepted 0 5 getRequest [[getRequest.take 9], [getRequest.drop 9]] :=
  (posts_when_complete_iff
    ⟨by decide, by decide +kernel, by decide +kernel, by decide, .inl ⟨rfl, rfl⟩⟩ accepted_reading rfl
    (by decide +kernel)).mpr
    (show _ < getRequest.length by decide)

/-- A POST whose body comes after its header is posted without the body. -/
theorem body_left_behind :
    ¬ ∀ {R : List UInt8} {headerLen : Nat} {w : World} {c : ConnId} {fd : Int}
      {events : List (List (List UInt8))}, CompleteRequest R headerLen → Reading w c fd [] →
      events.flatten.flatten = R → (∀ e ∈ events, e ≠ [] ∧ ∀ bs ∈ e, bs ≠ []) →
      PostsWhenComplete w c fd R events := by
  intro hall
  obtain ⟨hbefore, -⟩ := hall postRequest_complete accepted_reading
    (show [[postHeader], [ascii "hi"]].flatten.flatten = postRequest from rfl) (by decide +kernel)
  obtain ⟨u, hu, hqueue⟩ := hbefore 1 (by decide)
  obtain ⟨u', t, hu', ht⟩ := deliver_complete postRequest_complete [[postHeader]] accepted_reading
    (by decide +kernel) ⟨ascii "hi", rfl⟩ (by decide) (by decide)
  obtain rfl := Option.some.inj (hu'.symm.trans hu)
  rw [ht] at hqueue
  cases hqueue

end TinyosGraphics.Core
