import TinyosGraphics.Core.Serving

/-! The cursor and the buffer of `tgx_connection_handler_read`, over all events of a connection. The
buffer never grows: a full one forces a read of no bytes, which is taken for the end of the stream. -/
namespace TinyosGraphics.Core
open Lib Event

/-- What an EPOLLIN event for `fd` starts. The read loop may take one turn more than the buffer has bytes. -/
def dispatchIn (fd : Int) (w : World) (event : UInt32) : Option (M Int) :=
  if hasFlag event TGX_EVENT_IN then
    match Event.tgxEventGetHandler w.te fd, Event.tgxEventGetContext w.te fd with
    | some (some h), some context => some (runHandler (MAX_BUFFER_SIZE + 1) h context event)
    | _, _ => none
  else none

structure Tally where
  events : Nat
  reads : Nat
  /-- reads that have brought bytes -/
  data : Nat
  /-- the bytes they have brought -/
  received : Nat
  deriving DecidableEq

namespace Tally

def zero : Tally := ⟨0, 0, 0, 0⟩

def answer (t : Tally) : (o : Op) → Ret o → Tally
  | .read _ _, r =>
    match r with
    | .data [] | .again | .error => { t with reads := t.reads + 1 }
    | .data (b :: bs) =>
      { t with reads := t.reads + 1, data := t.data + 1, received := t.received + (b :: bs).length }
  | _, _ => t

def after (t : Tally) (_ : Serving) : Process.Label Op Ret UInt32 → Tally
  | .start _ => { t with events := t.events + 1 }
  | .answer r => t.answer r.1 r.2
  | .finish => t

end Tally

/-- A read of no bytes does not block. -/
def ReadAnswers : (o : Op) → Ret o → Prop
  | .read _ count, r => toSizeT count = 0 → r ≠ .again
  | _, _ => True

/-- A connection just accepted, on descriptor `fd`. -/
structure Fresh (fd : Int) (c : ConnId) (x : Serving) : Prop where
  idle : x.running = none
  conn : ∃ d, Registered x.state fd c .tgxConnectionHandlerRead d ∧ d.rwPos = 0 ∧ d.httpReqBuf = ⟨0, none⟩

def reading (fd : Int) (c : ConnId) : Transition (Serving × Tally) (Process.Label Op Ret UInt32) :=
  (Process.system respond (dispatchIn fd) (Fresh fd c)).instrument .zero .after

/-- What a store may do to the buffer: nothing, allocate it, or write bytes inside it. -/
inductive BufferStep (s s' : TgxString) : Prop
  | same : s' = s → BufferStep s s'
  | allocated (data) : s.size = 0 → data = none ∨ data = some (.calloc MAX_BUFFER_SIZE) →
      s' = ⟨MAX_BUFFER_SIZE, data⟩ → BufferStep s s'
  | wrote (b : Block) (pos bs) : s = ⟨b.size, some b⟩ → s' = ⟨b.size, some (b.write pos bs)⟩ →
      pos + bs.length ≤ b.size → BufferStep s s'

/-- The buffer holds a NUL inside. -/
def Conn.Terminated (d : Conn) : Prop :=
  ∃ (b : Block) (i : Nat), d.httpReqBuf = ⟨b.size, some b⟩ ∧ i < b.size ∧ b.bytes[i]? = some 0

structure ReadsWithin (fd : Int) (c : ConnId) (x : Serving) (t : Tally) : Prop where
  cursor : ∀ d, x.state.conns c = some d → 0 ≤ d.rwPos ∧ d.rwPos ≤ d.httpReqBuf.size
  requests : ∀ f count k, x.running = some (.call (.read f count) k) →
    ∃ d b, x.state.conns c = some d ∧ d.httpReqBuf = ⟨b.size, some b⟩ ∧ f = fd ∧ 0 ≤ count ∧
      d.rwPos + count ≤ b.size
  stores : ∀ c' d' k, x.running = some (.call (.store c' d') k) →
    c' = c ∧ ∃ d, x.state.conns c = some d ∧ BufferStep d.httpReqBuf d'.httpReqBuf
  /-- the loop ends: what may be undefined is the scan for the length of a body -/
  ends : x.running = some .stuck → ∃ d b, x.state.conns c = some d ∧ d.httpReqBuf.data = some b ∧
    inspectRequest b d.rwPos = .undefined
  data : t.data ≤ MAX_BUFFER_SIZE
  reads : t.reads ≤ t.data + t.events
  /-- between events: the connection is closed, or has read less than a full buffer and ends in a NUL -/
  between : x.running = none →
    Unregistered x.state fd ∧ 0 < x.state.closes c ∨
      t.received < MAX_BUFFER_SIZE ∧ ∃ d, x.state.conns c = some d ∧ (t.events = 0 ∨ d.Terminated)

structure InBounds (c : ConnId) (x : World × Tally) : Prop where
  cursor : ∀ d, x.1.conns c = some d → 0 ≤ d.rwPos ∧ d.rwPos ≤ d.httpReqBuf.size
  data : x.2.data ≤ x.2.received
  received : x.2.received ≤ MAX_BUFFER_SIZE
  reads : x.2.reads ≤ x.2.data + x.2.events

def readRules (fd : Int) (c : ConnId) : Rules Op Ret (World × Tally) where
  may
    | (w, t), .read f count => ∃ d b, w.conns c = some d ∧ d.httpReqBuf = ⟨b.size, some b⟩ ∧ f = fd ∧
        0 ≤ count ∧ d.rwPos + count ≤ b.size ∧ t.received + count ≤ MAX_BUFFER_SIZE ∧ t.reads < t.data + t.events
    | (w, _), .store c' d' => c' = c ∧ (∃ d, w.conns c = some d ∧ BufferStep d.httpReqBuf d'.httpReqBuf) ∧
        0 ≤ d'.rwPos ∧ d'.rwPos ≤ d'.httpReqBuf.size
    | _, .callocConnection _ => False
    | _, _ => True
  after x o r x' := respond x.1 o r = some x'.1 ∧ x'.2 = x.2.answer o r ∧ ReadAnswers o r
  stuck x := ∃ d b, x.1.conns c = some d ∧ d.httpReqBuf.data = some b ∧ inspectRequest b d.rwPos = .undefined

/-- Between two events: the connection is still read, or with a task, or closed. -/
def BetweenReads (fd : Int) (c : ConnId) (x : World × Tally) : Prop :=
  (∃ d, Registered x.1 fd c .tgxConnectionHandlerRead d ∧ d.rwPos = x.2.received ∧
    x.2.received < MAX_BUFFER_SIZE ∧
    (d.httpReqBuf = ⟨0, none⟩ ∧ x.2.events = 0 ∧ x.2.received = 0 ∨
      ∃ b, d.httpReqBuf = ⟨MAX_BUFFER_SIZE, some b⟩ ∧ b.size = MAX_BUFFER_SIZE ∧ d.Terminated)) ∨
  (∃ d, Registered x.1 fd c .tgxConnectionHandlerNoOperation d ∧ x.2.received < MAX_BUFFER_SIZE ∧ d.Terminated) ∨
  Unregistered x.1 fd ∧ 0 < x.1.closes c

private theorem Block.write_head (b : Block) (pos : Nat) (x : UInt8) (bs : List UInt8) :
    (b.write pos (x :: bs)).bytes[pos]? = some x := by
  have hlen : ((b.bytes ++ List.replicate (pos - b.bytes.length) 0).take pos).length = pos := by
    rw [List.length_take, List.length_append, List.length_replicate]
    omega
  simp only [Block.write, List.append_assoc]
  rw [List.getElem?_append_right hlen.le, hlen, Nat.sub_self]
  rfl

private theorem respond_conns {w w' : World} {o : Op} {r : Ret o} (h : respond w o r = some w')
    (hstore : ∀ c d, o ≠ .store c d) (hfree : ∀ c, o ≠ .freeConnection c) (halloc : ∀ fd, o ≠ .callocConnection fd) :
    w'.conns = w.conns := by
  by_cases ho : o.quiet = true
  · exact (respond_quiet ho h).conns
  · cases o
    case store c d => exact absurd rfl (hstore c d)
    case freeConnection c => exact absurd rfl (hfree c)
    case callocConnection fd => exact absurd rfl (halloc fd)
    all_goals try exact absurd rfl ho
    all_goals simp only [respond, Option.map_eq_some_iff] at h
    case scheduleUnregister fd c =>
      obtain ⟨a, -, rfl⟩ := h
      rfl
    all_goals repeat' split at h
    all_goals first
      | exact Option.some.inj h ▸ rfl
      | cases h

section
variable {fd : Int} {c : ConnId} {x x' : World × Tally} {o : Op} {r : Ret o}

theorem InBounds.conns (h : InBounds c x) (hconns : x'.1.conns c = x.1.conns c ∨ x'.1.conns c = none)
    (ht : x'.2 = x.2) : InBounds c x' := by
  refine ⟨fun d hd => ?_, ht ▸ h.data, ht ▸ h.received, ht ▸ h.reads⟩
  obtain hsame | hnone := hconns
  · exact h.cursor d (hsame ▸ hd)
  · rw [hnone] at hd
    cases hd

theorem InBounds.read (h : InBounds c x) {f count : Int} {r : ReadResult}
    (hmay : (readRules fd c).may x (.read f count)) (hafter : (readRules fd c).after x (.read f count) r x') :
    InBounds c x' := by
  obtain ⟨w, t⟩ := x
  obtain ⟨w', t'⟩ := x'
  obtain ⟨d, b, -, -, -, h0, -, hroom, hturn⟩ := hmay
  obtain ⟨hr, rfl, -⟩ := hafter
  have hdata := h.data
  have hle := h.received
  have hreads := h.reads
  simp only at hr hdata hle hreads
  match r with
  | .again | .error | .data [] =>
    obtain rfl : w = w' := by simpa [respond] using hr
    exact ⟨h.cursor, hdata, hle, show t.reads + 1 ≤ t.data + t.events by omega⟩
  | .data (a :: bs) =>
    obtain ⟨hlen, rfl⟩ : (a :: bs).length ≤ toSizeT count ∧ w = w' := by
      simpa only [respond, Option.ite_none_right_eq_some, Option.some.injEq] using hr
    have hcount : toSizeT count ≤ count.toNat := by
      simp only [toSizeT]
      omega
    refine ⟨h.cursor, ?_, ?_, ?_⟩
    · show t.data + 1 ≤ t.received + (bs.length + 1)
      omega
    · show t.received + (a :: bs).length ≤ MAX_BUFFER_SIZE
      omega
    · show t.reads + 1 ≤ t.data + 1 + t.events
      omega

private theorem inBounds_step (h : InBounds c x) (hmay : (readRules fd c).may x o)
    (hafter : (readRules fd c).after x o r x') : InBounds c x' := by
  have hr := hafter.1
  cases o
  case read f count => exact h.read hmay hafter
  case callocConnection f => exact hmay.elim
  case store c' d' =>
    obtain ⟨rfl, ⟨d, hd, -⟩, h0, hle⟩ := hmay
    have hset : x.1.setConn c' (some d') = x'.1 := by simpa [respond, hd] using hr
    have ht : x'.2 = x.2 := hafter.2.1
    refine ⟨fun e he => ?_, ht ▸ h.data, ht ▸ h.received, ht ▸ h.reads⟩
    rw [← hset, setConn_conns_self] at he
    obtain rfl := Option.some.inj he
    exact ⟨h0, hle⟩
  case freeConnection c' =>
    simp only [respond, Option.ite_none_right_eq_some, Option.some.injEq] at hr
    refine h.conns ?_ hafter.2.1
    by_cases hc : c = c'
    · exact .inr (by rw [← hr.2, hc, setConn_conns_self])
    · exact .inl (by simp [← hr.2, World.setConn, hc])
  all_goals
    have hsame := respond_conns hr (by simp) (by simp) (by simp)
    exact h.conns (.inl (congrFun hsame c)) hafter.2.1

end

section
variable {fd : Int} {c : ConnId} {w : World} {t : Tally} {d : Conn} {h : Handler} {α : Type}
  {post : World × Tally → α → Prop}

private theorem read_op {o : Op} {f : Ret o → M α} (hmay : (readRules fd c).may (w, t) o)
    (hf : ∀ r w', respond w o r = some w' → ReadAnswers o r →
      (readRules fd c).Always post (f r) (w', t.answer o r)) :
    (readRules fd c).Always post (call o >>= f) (w, t) := by
  refine Rules.Always.op hmay ?_
  rintro r ⟨w', t'⟩ ⟨hr, rfl, hout⟩
  exact hf r w' hr hout

private theorem read_load {f : Conn → M α} (hc : w.conns c = some d) (hf : (readRules fd c).Always post (f d) (w, t)) :
    (readRules fd c).Always post (load c >>= f) (w, t) := by
  refine read_op trivial fun d' w' hr _ => ?_
  obtain ⟨hd, rfl⟩ : w.conns c = some d' ∧ w = w' := by simpa [respond] using hr
  obtain rfl := Option.some.inj (hc.symm.trans hd)
  exact hf

private theorem read_store {f : Unit → M α} {d' : Conn} (hc : w.conns c = some d)
    (hbuf : BufferStep d.httpReqBuf d'.httpReqBuf) (h0 : 0 ≤ d'.rwPos) (hle : d'.rwPos ≤ d'.httpReqBuf.size)
    (hf : (readRules fd c).Always post (f ()) (w.setConn c (some d'), t)) :
    (readRules fd c).Always post (store c d' >>= f) (w, t) := by
  refine read_op ⟨rfl, ⟨d, hc, hbuf⟩, h0, hle⟩ fun _ w' hr _ => ?_
  obtain rfl : w.setConn c (some d') = w' := by simpa [respond, hc] using hr
  exact hf

/-- The rule for a call that is not a read and keeps what the connection's service depends on. -/
private theorem read_quiet {o : Op} {f : Ret o → M α} (ho : o.quiet = true) (hmay : (readRules fd c).may (w, t) o)
    (ht : ∀ r, t.answer o r = t) (hf : ∀ r w', w.Same w' → (readRules fd c).Always post (f r) (w', t)) :
    (readRules fd c).Always post (call o >>= f) (w, t) := by
  refine read_op hmay fun r w' hr _ => ?_
  rw [ht]
  exact hf r w' (respond_quiet ho hr)

private theorem closes_readRules (fd : Int) (c : ConnId) (t : Tally) : Closes (readRules fd c) (·, t) where
  may w o ho := by cases o <;> first | exact trivial | cases ho
  after w o r s' ho hafter := by
    obtain ⟨w', t'⟩ := s'
    obtain ⟨hr, ht, -⟩ := hafter
    refine ⟨w', Prod.ext rfl (ht.trans ?_), hr⟩
    cases o <;> first | rfl | simp [Op.freeing] at ho

private theorem read_tgxCloseConnection {f : Unit → M α} (hreg : Registered w fd c h d)
    (hf : ∀ w', Unregistered w' fd → 0 < w'.closes c → (readRules fd c).Always post (f ()) (w', t)) :
    (readRules fd c).Always post (tgxCloseConnection c >>= f) (w, t) :=
  (closes_readRules fd c t).tgxCloseConnection hreg trivial fun w' hu _ hcloses => hf w' hu (by omega)

/-- A buffer that is not allocated yet, or has its one size. -/
def OneSize (s : TgxString) : Prop :=
  s = ⟨0, none⟩ ∨ ∃ b : Block, s = ⟨MAX_BUFFER_SIZE, some b⟩ ∧ b.size = MAX_BUFFER_SIZE

private theorem read_stringCheckBoundry {f : Int → M α} (hreg : Registered w fd c h d) (h0 : 0 ≤ d.rwPos)
    (hle : d.rwPos ≤ MAX_BUFFER_SIZE) (hbuf : OneSize d.httpReqBuf)
    (hok : ∀ b : Block, b.size = MAX_BUFFER_SIZE → (readRules fd c).Always post (f 0)
      (w.setConn c (some { d with httpReqBuf := ⟨MAX_BUFFER_SIZE, some b⟩ }), t))
    (hfail : ∀ d', d'.fd = fd → (readRules fd c).Always post (f (-1)) (w.setConn c (some d'), t)) :
    (readRules fd c).Always post (stringCheckBoundry c .httpReqBuf d.rwPos >>= f) (w, t) := by
  have hneg : ¬ d.rwPos < 0 := by omega
  -- a buffer of that size is large enough
  have hgrow : ∀ b : Block, b.size = MAX_BUFFER_SIZE → (readRules fd c).Always post
      (stringGrow c .httpReqBuf d.rwPos >>= f)
      (w.setConn c (some { d with httpReqBuf := ⟨MAX_BUFFER_SIZE, some b⟩ }), t) := by
    intro b hb
    simp only [stringGrow, bind_assoc]
    refine read_load (setConn_conns_self _ _ _) ?_
    simp only [Conn.string, lt_self_iff_false, and_false, if_false, Prog.pure_def, Prog.ret_bind]
    exact hok b hb
  simp only [stringCheckBoundry, hneg, if_false, bind_assoc]
  refine read_load hreg.conn ?_
  obtain hnone | ⟨b, hb, hsize⟩ := hbuf
  · simp only [Conn.string, hnone, if_true, bind_assoc]
    refine read_op trivial fun r w' hr _ => ?_
    obtain rfl := respond_idle rfl hr
    cases r with
    | true =>
      simp only [if_true, setString, bind_assoc]
      refine read_load hreg.conn (read_store hreg.conn (.allocated _ ?_ (.inr rfl) rfl) h0 hle (hgrow _ rfl))
      rw [hnone]
    | false =>
      simp only [Bool.false_eq_true, if_false, setString, bind_assoc]
      refine read_load hreg.conn (read_store hreg.conn (.allocated _ ?_ (.inl rfl) rfl) h0 hle (hfail _ hreg.fd))
      rw [hnone]
  · have hne : ¬ (MAX_BUFFER_SIZE : Int) = 0 := by decide
    have hgrown := hgrow b hsize
    rw [← hb, setConn_self hreg.conn] at hgrown
    simpa only [Conn.string, hb, if_neg hne] using hgrown

private theorem read_readLoop (fuel : Nat) (hfuel : MAX_BUFFER_SIZE < t.received + fuel)
    (hreg : Registered w fd c .tgxConnectionHandlerRead d) (hpos : d.rwPos = t.received)
    (hle : t.received ≤ MAX_BUFFER_SIZE) (hturn : t.reads < t.data + t.events) (hbuf : OneSize d.httpReqBuf) :
    (readRules fd c).Always
      (fun x more =>
        if more then ∃ d b, Registered x.1 fd c .tgxConnectionHandlerRead d ∧ d.rwPos = x.2.received ∧
          x.2.received < MAX_BUFFER_SIZE ∧ d.httpReqBuf = ⟨MAX_BUFFER_SIZE, some b⟩ ∧ b.size = MAX_BUFFER_SIZE
        else Unregistered x.1 fd ∧ 0 < x.1.closes c)
      (readLoop c fuel) (w, t) := by
  induction fuel generalizing w t d with
  | zero => omega
  | succ fuel ih =>
    rw [readLoop]
    refine read_load hreg.conn ?_
    refine read_stringCheckBoundry hreg (by omega) (by omega) hbuf (fun b hsize => ?_) fun d' hd' => ?_
    · simp only [lt_self_iff_false, if_false]
      have hreg' := hreg.setConn (show { d with httpReqBuf := ⟨MAX_BUFFER_SIZE, some b⟩ }.fd = fd from hreg.fd)
      have hpos' : ({ d with httpReqBuf := ⟨MAX_BUFFER_SIZE, some b⟩ } : Conn).rwPos = (t.received : Int) := hpos
      have hbuf' : ({ d with httpReqBuf := ⟨MAX_BUFFER_SIZE, some b⟩ } : Conn).httpReqBuf =
        ⟨MAX_BUFFER_SIZE, some b⟩ := rfl
      generalize ({ d with httpReqBuf := ⟨MAX_BUFFER_SIZE, some b⟩ } : Conn) = d' at hreg' hpos' hbuf' ⊢
      generalize w.setConn c (some d') = w at hreg' ⊢
      refine read_load hreg'.conn ?_
      have hinside : (readRules fd c).may (w, t) (.read d'.fd (d'.httpReqBuf.size - d'.rwPos)) := by
        refine ⟨d', b, hreg'.conn, by rw [hbuf', hsize], hreg'.fd, ?_, ?_, ?_, hturn⟩ <;> rw [hbuf'] <;>
          simp only <;> omega
      refine read_op hinside fun r w' hr hout => ?_
      rw [hbuf'] at hr hout
      match r with
      | .again =>
        obtain rfl := Option.some.inj hr
        have hroom : t.received < MAX_BUFFER_SIZE := by
          -- a full buffer is one of which no bytes are requested
          rcases hle.lt_or_eq with hlt | heq
          · exact hlt
          · exact absurd rfl (hout (by simp [toSizeT, hpos', heq]))
        exact ⟨d', b, hreg', hpos', hroom, hbuf', hsize⟩
      | .error =>
        obtain rfl := Option.some.inj hr
        exact read_tgxCloseConnection hreg' fun w' hu hcloses => ⟨hu, hcloses⟩
      | .data [] =>
        obtain rfl : w = w' := by simpa [respond] using hr
        exact read_tgxCloseConnection hreg' fun w' hu hcloses => ⟨hu, hcloses⟩
      | .data (a :: bs) =>
        obtain ⟨hlen, rfl⟩ : (a :: bs).length ≤ toSizeT (MAX_BUFFER_SIZE - d'.rwPos) ∧ w = w' := by
          simpa only [respond, Option.ite_none_right_eq_some, Option.some.injEq] using hr
        have hfits : t.received + (a :: bs).length ≤ MAX_BUFFER_SIZE := by
          simp only [toSizeT] at hlen
          omega
        refine read_store hreg'.conn (.wrote b d'.rwPos.toNat (a :: bs) ?_ ?_ ?_) ?_ ?_ ?_
        · rw [hbuf', hsize]
        · rw [hbuf', hsize]
          rfl
        · omega
        · simp only
          omega
        · simp only [hbuf']
          omega
        · refine ih ?_ (hreg'.setConn hreg'.fd) ?_ hfits ?_ (.inr ⟨b.write d'.rwPos.toNat (a :: bs), ?_, hsize⟩)
          · show MAX_BUFFER_SIZE < t.received + (bs.length + 1) + fuel
            omega
          · show d'.rwPos + (a :: bs).length = ((t.received + (a :: bs).length : Nat) : Int)
            omega
          · show t.reads + 1 < t.data + 1 + t.events
            omega
          · simp only [hbuf']
            rfl
    · simp only [show (-1 : Int) < 0 by decide, if_true]
      exact read_tgxCloseConnection (hreg.setConn hd') fun w' hu hcloses => ⟨hu, hcloses⟩

/-- Posting a task leaves the descriptor without reads, or with a connection that can be closed. -/
private theorem read_postTask {f : Int → M α} (hreg : Registered w fd c h d) (h0 : 0 ≤ d.httpReqBuf.size)
    (hposted : ∀ w' d', Registered w' fd c .tgxConnectionHandlerNoOperation d' → d'.httpReqBuf = d.httpReqBuf →
      (readRules fd c).Always post (f 0) (w', t))
    (hfailed : ∀ w' h' d', Registered w' fd c h' d' → (readRules fd c).Always post (f (-1)) (w', t)) :
    (readRules fd c).Always post
      (postTask c .taskStartTravelling .taskHttpParserDo .taskHttpParserOnComplete >>= f) (w, t) := by
  obtain rfl := hreg.fd
  have hneg : (-1 : Int) < 0 := by decide
  have hpos : ¬ (0 : Int) < 0 := by decide
  simp only [postTask, bind_assoc]
  refine read_quiet rfl trivial (fun _ => rfl) fun id w₁ hs₁ => ?_
  have hreg₁ := hreg.same hs₁
  cases id with
  | none => exact hfailed w₁ h d hreg₁
  | some id =>
    simp only [bind_assoc]
    refine read_quiet rfl trivial (fun _ => rfl) fun task w₂ hs₂ => ?_
    have hreg₂ := hreg₁.same hs₂
    cases task with
    | none => exact hfailed w₂ h d hreg₂
    | some task =>
      simp only [tgxPostTask, runOnPost, taskStartTravelling, bind_assoc]
      refine read_load hreg₂.conn (read_store hreg₂.conn (.same rfl) le_rfl h0 ?_)
      have hreg₃ := hreg₂.setConn (show ({ d with rwPos := 0 } : Conn).fd = d.fd from rfl)
      refine read_op trivial fun r w₄ hr _ => ?_
      obtain ⟨rfl, te, -, hreg₄⟩ := hreg₃.setHandler hr
      refine read_quiet rfl trivial (fun _ => rfl) fun r w₅ hs₅ => ?_
      have hreg₅ := hreg₄.same hs₅
      simp only [hpos, false_or]
      split
      · simp only [Prog.pure_def, Prog.ret_bind, hneg, if_true]
        exact hfailed w₅ _ _ hreg₅
      · simp only [bind_assoc]
        refine read_load hreg₅.conn (read_store hreg₅.conn (.same rfl) le_rfl h0 ?_)
        have hreg₆ := hreg₅.setConn
          (show ({ ({ d with rwPos := 0 } : Conn) with travelling := true } : Conn).fd = d.fd from rfl)
        simp only [Prog.pure_def, Prog.ret_bind, hpos, if_false, bind_assoc]
        refine read_quiet rfl trivial (fun _ => rfl) fun r w₇ hs₇ => ?_
        have hreg₇ := hreg₆.same hs₇
        cases r with
        | false =>
          simp only [Bool.not_false, if_true, Prog.ret_bind, hneg]
          exact hfailed w₇ _ _ hreg₇
        | true =>
          simp only [Bool.not_true, Bool.false_eq_true, if_false, bind_assoc]
          refine read_quiet rfl trivial (fun _ => rfl) fun _ w₈ hs₈ => ?_
          simp only [Prog.ret_bind, hpos, if_false]
          exact hposted w₈ _ (hreg₇.same hs₈) rfl

private theorem read_inspect (b : Block) (pos : Int) (hreg : Registered w fd c .tgxConnectionHandlerRead d)
    (hpos : d.rwPos = t.received) (hroom : t.received < MAX_BUFFER_SIZE) (hrwPos : pos = d.rwPos)
    (hbuf : d.httpReqBuf = ⟨MAX_BUFFER_SIZE, some b⟩) (hsize : b.size = MAX_BUFFER_SIZE)
    (hnul : b.bytes[t.received]? = some 0) :
    (readRules fd c).Always (fun x _ => BetweenReads fd c x)
      (match inspectRequest b pos with
      | .incomplete => return 0
      | .complete => do
        let ret ← postTask c .taskStartTravelling .taskHttpParserDo .taskHttpParserOnComplete
        if ret < 0 then
          tgxCloseConnection c
          return -1
        return 0
      | .refused => do
        tgxCloseConnection c
        return -1
      | .undefined => .stuck : M Int) (w, t) := by
  have hnul' : d.Terminated := ⟨b, t.received, by rw [hbuf, hsize], hsize ▸ hroom, hnul⟩
  have hclose : ∀ {w' : World} {h : Handler} {d : Conn}, Registered w' fd c h d →
      (readRules fd c).Always (fun x _ => BetweenReads fd c x)
        (do tgxCloseConnection c; return -1 : M Int) (w', t) :=
    fun hreg => read_tgxCloseConnection hreg fun w' hu hcloses => .inr (.inr ⟨hu, hcloses⟩)
  split
  · exact .inl ⟨d, hreg, hpos, hroom, .inr ⟨b, hbuf, hsize, hnul'⟩⟩
  · refine read_postTask hreg (by simp [hbuf]) (fun w' d' hreg' hsame => ?_) fun w' h' d' hreg' => ?_
    · refine .inr (.inl ⟨d', hreg', hroom, ?_⟩)
      rwa [Conn.Terminated, hsame]
    · exact hclose hreg'
  · exact hclose hreg
  · rename_i hundef
    exact ⟨d, b, hreg.conn, by rw [hbuf], hrwPos ▸ hundef⟩

private theorem read_tgxConnectionHandlerRead (hreg : Registered w fd c .tgxConnectionHandlerRead d)
    (hpos : d.rwPos = t.received) (hroom : t.received < MAX_BUFFER_SIZE) (hturn : t.reads < t.data + t.events)
    (hbuf : OneSize d.httpReqBuf) {event : UInt32} (hevent : hasFlag event TGX_EVENT_IN = true) :
    (readRules fd c).Always (fun x _ => BetweenReads fd c x)
      (tgxConnectionHandlerRead (MAX_BUFFER_SIZE + 1) c event) (w, t) := by
  simp only [tgxConnectionHandlerRead, hevent, Bool.not_true, Bool.false_eq_true, if_false]
  refine (read_readLoop _ (by omega) hreg hpos hroom.le hturn hbuf).bind ?_
  rintro ⟨w, t⟩ more hloop
  cases more with
  | false => exact .inr (.inr hloop)
  | true =>
    obtain ⟨d, b, hreg, hpos, hroom, hbuf, hsize⟩ := hloop
    simp only at hreg hpos hroom
    simp only [Bool.not_true, Bool.false_eq_true, if_false]
    refine read_load hreg.conn ?_
    simp only [hbuf]
    have hend : d.rwPos.toNat = t.received := by omega
    refine read_store hreg.conn (.wrote b d.rwPos.toNat [0] (by rw [hbuf, hsize]) (by rw [hsize]) ?_) ?_ ?_ ?_
    · simp only [List.length_singleton]
      omega
    · simp only
      omega
    · simp only
      omega
    · refine read_inspect _ _ (hreg.setConn hreg.fd) hpos hroom rfl rfl hsize ?_
      rw [hend]
      exact Block.write_head b t.received 0 []

private theorem dispatchIn_registered (hreg : Registered w fd c h d) {event : UInt32} {p : M Int}
    (hp : dispatchIn fd w event = some p) :
    hasFlag event TGX_EVENT_IN = true ∧ p = runHandler (MAX_BUFFER_SIZE + 1) h (some c) event := by
  simp only [dispatchIn] at hp
  split at hp
  · rename_i hevent
    simp only [TgxEvent.getHandler_spec hreg.wellFormed hreg.inRange,
      TgxEvent.getContext_spec hreg.wellFormed hreg.inRange, hreg.entry, Option.bind_some] at hp
    exact ⟨hevent, (Option.some.inj hp).symm⟩
  · cases hp

private theorem dispatchIn_unregistered (hu : Unregistered w fd) (event : UInt32) : dispatchIn fd w event = none := by
  simp only [dispatchIn]
  split
  · simp [TgxEvent.getHandler_spec hu.wellFormed hu.inRange, hu.entry]
  · rfl

private theorem read_dispatch (hb : InBounds c (w, t)) (hbetween : BetweenReads fd c (w, t)) {event : UInt32}
    {p : M Int}
    (hp : dispatchIn fd w event = some p) :
    (readRules fd c).Always (fun x _ => BetweenReads fd c x) p (w, { t with events := t.events + 1 }) := by
  obtain ⟨d, hreg, hpos, hroom, hbuf⟩ | ⟨d, hreg, hroom, hnul⟩ | ⟨hu, -⟩ := hbetween
  · obtain ⟨hevent, rfl⟩ := dispatchIn_registered hreg hp
    have hturn : t.reads < t.data + (t.events + 1) := Nat.lt_succ_of_le hb.reads
    have hsize : OneSize d.httpReqBuf := by
      obtain ⟨hfresh, -, -⟩ | ⟨b, hb, hsize, -⟩ := hbuf
      · exact .inl hfresh
      · exact .inr ⟨b, hb, hsize⟩
    exact read_tgxConnectionHandlerRead (t := { t with events := t.events + 1 }) hreg hpos hroom hturn hsize hevent
  · obtain ⟨-, rfl⟩ := dispatchIn_registered hreg hp
    exact .inr (.inl ⟨d, hreg, hroom, hnul⟩)
  · rw [dispatchIn_unregistered hu] at hp
    cases hp

end

/-- A step whose answer, where it is one, is one that `read` can give. -/
def ReadsAnswer (_ : Serving) : Process.Label Op Ret UInt32 → Prop
  | .answer r => ReadAnswers r.1 r.2
  | _ => True

private theorem follows_reading {fd : Int} {c : ConnId} {x : Serving × Tally}
    (h : (reading fd c).Reachable (fun x l => ReadsAnswer x.1 l) x) :
    InBounds c (x.1.state, x.2) ∧
      (⟨(x.1.state, x.2), x.1.running⟩ : Process Op Ret Int (World × Tally)).Follows (readRules fd c)
        (BetweenReads fd c) := by
  refine Process.follows_of_instrumented ?_ ?_ ?_ ?_ ?_ h
  · exact fun x t r s' hok hr => ⟨hr, rfl, hok⟩
  · intro x t e p hb hbetween _ hp
    refine ⟨⟨hb.cursor, hb.data, hb.received, ?_⟩, read_dispatch hb hbetween hp⟩
    exact hb.reads.trans (by simp only [Tally.after]; omega)
  · exact fun x t => rfl
  · exact fun x o r x' hb hmay hafter => inBounds_step hb hmay hafter
  · rintro x ⟨hrun, d, hreg, hpos, hbuf⟩
    have hroom : 0 < MAX_BUFFER_SIZE := by decide
    refine ⟨hrun, ⟨fun e he => ?_, le_rfl, Nat.zero_le _, le_rfl⟩,
      .inl ⟨d, hreg, hpos, hroom, .inl ⟨hbuf, rfl, rfl⟩⟩⟩
    obtain rfl := Option.some.inj (hreg.conn.symm.trans he)
    rw [hpos, hbuf]
    exact ⟨le_rfl, le_rfl⟩

/-- Over every sequence of events and answers the handler stays within its buffer, makes at most 65535 reads
that bring bytes and one more for each event, and keeps no connection that has sent a full buffer. -/
theorem reads_within {fd : Int} {c : ConnId} {x : Serving} {t : Tally}
    (h : (reading fd c).Reachable (fun x l => ReadsAnswer x.1 l) (x, t)) : ReadsWithin fd c x t := by
  obtain ⟨hb, hf⟩ := follows_reading h
  refine ⟨hb.cursor, fun f count k hx => ?_, fun c' d' k hx => ?_, hf.stuck, hb.data.trans hb.received, hb.reads,
    fun hx => ?_⟩
  · obtain ⟨d, b, hd, hbuf, hfd, h0, hle, -⟩ := hf.may hx
    exact ⟨d, b, hd, hbuf, hfd, h0, hle⟩
  · obtain ⟨hc, hd, -⟩ := hf.may hx
    exact ⟨hc, hd⟩
  · have hbetween : BetweenReads fd c (x.state, t) := by simpa only [Process.Follows, hx] using hf
    obtain ⟨d, hreg, -, hroom, ⟨-, hfirst, -⟩ | ⟨b, -, -, hnul⟩⟩ | ⟨d, hreg, hroom, hnul⟩ | hclosed := hbetween
    · exact .inr ⟨hroom, d, hreg.conn, .inl hfirst⟩
    · exact .inr ⟨hroom, d, hreg.conn, .inr hnul⟩
    · exact .inr ⟨hroom, d, hreg.conn, .inr hnul⟩
    · exact .inl hclosed

section
variable {fd : Int} {c : ConnId} {w : World} {t : Tally} {d : Conn} {α : Type} {post : World × Tally → α → Prop}

/-- Answers that can bring a program and its tally to `post`. -/
def CanRead (post : World × Tally → α → Prop) (p : M α) (x : World × Tally) : Prop :=
  p.Can (fun x o r => (respond x.1 o r).map fun w => (w, x.2.answer o r)) ReadAnswers post x

theorem CanRead.run {p : M Int} {post : World × Tally → Int → Prop} (h : CanRead post p (w, t)) :
    ∃ tr w' t' a, (reading fd c).Run (⟨w, some p⟩, t) tr (⟨w', some (.ret a)⟩, t') ∧ post (w', t') a ∧
      ∀ s ∈ tr, ∃ r, s.2 = .answer r ∧ ReadAnswers r.1 r.2 := by
  unfold CanRead at h
  exact Process.instrumented_run_of_can (dispatchIn fd) (Fresh fd c) Tally.zero Tally.after Tally.answer
    (fun _ _ _ => rfl) h

theorem CanRead.op {o : Op} {f : Ret o → M α} (r : Ret o) {w' : World} (hout : ReadAnswers o r)
    (hr : respond w o r = some w') (hf : CanRead post (f r) (w', t.answer o r)) :
    CanRead post (call o >>= f) (w, t) :=
  Prog.Can.op r hout (by simp [hr]) hf

theorem CanRead.load {f : Conn → M α} (hc : w.conns c = some d) (hf : CanRead post (f d) (w, t)) :
    CanRead post (load c >>= f) (w, t) :=
  .op d trivial (respond_load hc) hf

theorem CanRead.store {f : Unit → M α} {d' : Conn} (hc : w.conns c = some d)
    (hf : CanRead post (f ()) (w.setConn c (some d'), t)) : CanRead post (store c d' >>= f) (w, t) :=
  .op () trivial (respond_store hc d') hf

theorem CanRead.stringCheckBoundry {f : Int → M α} (hc : w.conns c = some d) (hpos : d.rwPos = 0)
    (hbuf : d.httpReqBuf.Holds [])
    (hf : ∀ b : Block, b.bytes.length ≤ 1 →
      CanRead post (f 0) (w.setConn c (some { d with httpReqBuf := ⟨MAX_BUFFER_SIZE, some b⟩ }), t)) :
    CanRead post (stringCheckBoundry c .httpReqBuf d.rwPos >>= f) (w, t) := by
  simp only [Core.stringCheckBoundry, hpos, lt_self_iff_false, if_false, bind_assoc]
  refine .load hc ?_
  have hgrow : ∀ b : Block, b.bytes.length ≤ 1 → CanRead post (stringGrow c .httpReqBuf 0 >>= f)
      (w.setConn c (some { d with httpReqBuf := ⟨MAX_BUFFER_SIZE, some b⟩ }), t) := by
    intro b hb
    simp only [stringGrow, bind_assoc]
    refine .load (setConn_conns_self _ _ _) ?_
    simp only [Conn.string, lt_self_iff_false, and_false, if_false, Prog.pure_def, Prog.ret_bind]
    exact hf b hb
  obtain ⟨hnone, -⟩ | ⟨b, rest, hb, hbytes, hrest⟩ := hbuf
  · simp only [Conn.string, hnone, if_true, bind_assoc]
    refine .op true trivial rfl ?_
    simp only [if_true, setString, bind_assoc]
    exact .load hc (.store hc (hgrow _ (by simp [Block.calloc])))
  · have hne : ¬ (MAX_BUFFER_SIZE : Int) = 0 := by decide
    have hgrown := hgrow b (by simpa [hbytes] using hrest)
    rw [← hb, setConn_self hc] at hgrown
    simpa only [Conn.string, hb, if_neg hne] using hgrown

/-- An event for a connection that has received nothing, and a read that would block. -/
theorem CanRead.nothing (hc : w.conns c = some d) (hpos : d.rwPos = 0) (hbuf : d.httpReqBuf.Holds []) (fuel : Nat) :
    CanRead (fun x _ => ∃ d', x = (w.setConn c (some d'), { t with reads := t.reads + 1 }) ∧ d'.fd = d.fd ∧
        d'.rwPos = 0 ∧ d'.httpReqBuf.Holds [])
      (tgxConnectionHandlerRead (fuel + 1) c TGX_EVENT_IN) (w, t) := by
  have hin : hasFlag TGX_EVENT_IN TGX_EVENT_IN = true := by decide
  simp only [tgxConnectionHandlerRead, hin, Bool.not_true, Bool.false_eq_true, if_false, readLoop, bind_assoc]
  refine .load hc (.stringCheckBoundry hc hpos hbuf fun b hb => ?_)
  simp only [lt_self_iff_false, if_false, bind_assoc]
  refine .load (setConn_conns_self _ _ _) ?_
  refine .op .again ?_ rfl ?_
  · simp [ReadAnswers, hpos, toSizeT, MAX_BUFFER_SIZE]
  simp only [Prog.pure_def, Prog.ret_bind, Bool.not_true, Bool.false_eq_true, if_false]
  refine .load (setConn_conns_self _ _ _) ?_
  simp only [hpos, Int.toNat_zero]
  refine .store (setConn_conns_self _ _ _) ?_
  have hnul : (b.write 0 [0]).bytes = [0] := Block.write_over (show b.bytes = [] ++ b.bytes from rfl) hb
  have hinspect : inspectRequest (b.write 0 [0]) 0 = .incomplete := by
    have htext : (b.write 0 [0]).cString = [] := by simp [Block.cString, hnul]
    have hnone : strstr [] (ascii "\r\n\r\n") = none := by decide
    simp [inspectRequest, htext, hnone]
  simp only [hinspect, setConn_setConn]
  exact ⟨_, rfl, rfl, rfl, .inr ⟨_, [0], rfl, hnul, le_rfl⟩⟩

end

private theorem reachable_spurious {fd : Int} {c : ConnId} {x : Serving} (hx : Fresh fd c x) (n : Nat) :
    ∃ w d, (reading fd c).Reachable (fun x l => ReadsAnswer x.1 l) (⟨w, none⟩, ⟨n, n, 0, 0⟩) ∧
      Registered w fd c .tgxConnectionHandlerRead d ∧ d.rwPos = 0 ∧ d.httpReqBuf.Holds [] := by
  induction n with
  | zero =>
    obtain ⟨hrun, d, hreg, hpos, hbuf⟩ := hx
    obtain ⟨w, _⟩ := x
    obtain rfl := hrun
    exact ⟨w, d, .init ⟨⟨rfl, d, hreg, hpos, hbuf⟩, rfl⟩, hreg, hpos, .inl ⟨hbuf, rfl⟩⟩
  | succ n ih =>
    obtain ⟨w, d, hreach, hreg, hpos, hbuf⟩ := ih
    have hdispatch : dispatchIn fd w TGX_EVENT_IN =
        some (tgxConnectionHandlerRead (MAX_BUFFER_SIZE + 1) c TGX_EVENT_IN) := by
      have hin : hasFlag TGX_EVENT_IN TGX_EVENT_IN = true := by decide
      simp only [dispatchIn, hin, if_true, TgxEvent.getHandler_spec hreg.wellFormed hreg.inRange,
        TgxEvent.getContext_spec hreg.wellFormed hreg.inRange, hreg.entry, Option.bind_some]
      rfl
    have hstart : (reading fd c).Reachable (fun x l => ReadsAnswer x.1 l)
        (⟨w, some (tgxConnectionHandlerRead (MAX_BUFFER_SIZE + 1) c TGX_EVENT_IN)⟩, ⟨n + 1, n, 0, 0⟩) :=
      hreach.next (l := .start TGX_EVENT_IN) (show ReadsAnswer _ (.start TGX_EVENT_IN) from trivial)
        (by simp [reading, Transition.instrument, Process.system, Process.step, hdispatch, Tally.after])
    obtain ⟨tr, w', t', a, hrun, ⟨d', hpost, hfd, hpos', hbuf'⟩, hall⟩ :=
      (CanRead.nothing hreg.conn hpos hbuf MAX_BUFFER_SIZE).run
    obtain ⟨rfl, rfl⟩ := Prod.mk.inj hpost
    refine ⟨_, d', ((hstart.run hrun fun p hp => ?_).next (l := .finish) (show ReadsAnswer _ .finish from trivial) rfl),
      hreg.setConn (hfd.trans hreg.fd), hpos', hbuf'⟩
    obtain ⟨r, hr, hout⟩ := hall p hp
    rw [hr]
    exact hout

def justAccepted : Serving :=
  ⟨oneConnection .tgxConnectionHandlerRead { newConn 5 with httpReqBody := some ⟨0, none⟩ } (some EPOLLIN), none⟩

private theorem justAccepted_fresh : Fresh 5 0 justAccepted :=
  ⟨rfl, _, oneConnection_registered _ _ rfl, rfl, rfl⟩

instance : (o : Op) → (r : Ret o) → Decidable (ReadAnswers o r)
  | .read _ count, r => inferInstanceAs (Decidable (toSizeT count = 0 → r ≠ .again))
  | .load _, _ | .store _ _, _ | .callocConnection _, _ | .freeConnection _, _ | .calloc _, _ | .realloc, _
  | .setHandler _ _, _ | .eventCtl _ _ _, _ | .scheduleRegister _ _ _, _ | .scheduleUnregister _ _, _ | .accept, _
  | .setNonblocking _, _ | .write _ _ _ _, _ | .sendfile _ _ _ _, _ | .stat _, _ | .openFile _, _ | .closeFile _, _
  | .close _, _ | .formatDate _, _ | .callocWrapper _, _ | .freeWrapper _, _ | .setContext _, _ | .getContext _, _
  | .taskInit, _ | .pushTask _, _ | .dlopen _, _ | .dlsym, _ | .dlclose, _ | .callModule _ _, _
  | .httpParserExecute _, _ => isTrue trivial

instance (x : Serving) : (l : Process.Label Op Ret UInt32) → Decidable (ReadsAnswer x l)
  | .answer r => inferInstanceAs (Decidable (ReadAnswers r.1 r.2))
  | .start _ | .finish => isTrue trivial

/-- A step of a connection: an event, the answer of a read, or a call of another kind, which succeeds. -/
inductive Told
  | event
  | read (r : ReadResult)
  | next
  | finish

def told (x : Serving × Tally) : Told → Option (Process.Label Op Ret UInt32)
  | .event => some (.start TGX_EVENT_IN)
  | .read r =>
    match x.1.running with
    | some (.call (.read f count) _) => some (.answer ⟨.read f count, r⟩)
    | _ => none
  | .next =>
    match x.1.running with
    | some (.call (.load c) _) => (x.1.state.conns c).map fun d => .answer ⟨.load c, d⟩
    | some (.call (.store c d) _) => some (.answer ⟨.store c d, ()⟩)
    | some (.call (.calloc what) _) => some (.answer ⟨.calloc what, true⟩)
    | _ => none
  | .finish => some .finish

def brought (calls : Nat) (text : List UInt8) : List Told :=
  List.replicate calls .next ++ [.read (.data text)]

def nothingMore : List Told :=
  List.replicate 5 .next ++ [.read .again, .next, .next, .finish]

/-- The first lines of a request come with two events, the first of them in two reads. -/
def twoEvents : List Told :=
  .event :: brought 7 (ascii "GET /rows HTTP") ++ brought 5 (ascii "/1.1\r\n") ++ nothingMore ++
    .event :: brought 4 (ascii "Host: a\r\n") ++ nothingMore

theorem reads_within_two :
    ∃ x, (reading 5 0).guided told (fun x l => ReadsAnswer x.1 l) (justAccepted, .zero) twoEvents = some x ∧
      x.2 = ⟨2, 5, 3, 29⟩ ∧ ReadsWithin 5 0 x.1 x.2 := by
  have hrun : ((reading 5 0).guided told (fun x l => ReadsAnswer x.1 l) (justAccepted, .zero) twoEvents).map
      Prod.snd = some ⟨2, 5, 3, 29⟩ := by
    decide +kernel
  obtain ⟨x, hx, htally⟩ := Option.map_eq_some_iff.mp hrun
  have hinit : (reading 5 0).init (justAccepted, .zero) := ⟨justAccepted_fresh, rfl⟩
  exact ⟨x, hx, htally, reads_within (.of_guided twoEvents (.init hinit) hx)⟩

/-- Events that find nothing to read cost a read each, so that the reads have no bound of their own. -/
theorem reads_unbounded :
    ¬ ∀ (fd : Int) (c : ConnId) (x : Serving) (t : Tally),
      (reading fd c).Reachable (fun x l => ReadsAnswer x.1 l) (x, t) → t.reads ≤ 65536 := by
  intro hall
  obtain ⟨w, d, hreach, -⟩ := reachable_spurious justAccepted_fresh 65537
  have hle := hall 5 0 _ _ hreach
  simp at hle

end TinyosGraphics.Core
