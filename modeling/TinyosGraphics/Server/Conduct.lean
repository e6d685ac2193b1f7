import TinyosGraphics.Server.Hold

/-! Every handler and task keeps to the rules, whatever its calls are answered. -/
namespace TinyosGraphics.Server
open Lib Event Core

/-- The same connection, with what the rules look at unchanged. -/
structure Steady (d d' : Conn) : Prop where
  fd : d'.fd = d.fd
  travelling : d'.travelling = d.travelling
  sized : Sized d'

theorem Steady.trans {d d' d'' : Conn} (h : Steady d d') (h' : Steady d' d'') : Steady d d'' :=
  ⟨h'.fd.trans h.fd, h'.travelling.trans h.travelling, h'.sized⟩

/-- Calls that nothing is asked for, and that change nothing in anybody's hands. -/
def plain : Op → Bool
  | .realloc | .setNonblocking _ | .read _ _ | .write _ _ _ _ | .sendfile _ _ _ _ | .stat _ | .openFile _
  | .closeFile _ | .formatDate _ | .callocWrapper _ | .freeWrapper _ | .setContext _ | .getContext _
  | .taskInit | .dlopen _ | .dlsym | .dlclose | .callModule _ _ | .httpParserExecute _ | .calloc _ => true
  | _ => false

section
variable {luck : Luck} {onLoop : Bool} {α : Type} {post : Hold → α → Prop} {h : Hold} {c : ConnId}
  {d : Conn} {a : Bool}

private theorem always_op {o : Op} {f : Ret o → M α} (hmay : h.may luck onLoop o)
    (hf : ∀ r, h.allows luck o r → (Hold.rules luck onLoop).Always post (f r) (h.next o r)) :
    (Hold.rules luck onLoop).Always post (Core.call o >>= f) h := by
  apply Rules.Always.op hmay
  rintro r h' ⟨hr, rfl⟩
  exact hf r hr

private theorem always_plain {o : Op} {f : Ret o → M α} (ho : plain o = true)
    (hf : ∀ r, h.allows luck o r → (Hold.rules luck onLoop).Always post (f r) h) :
    (Hold.rules luck onLoop).Always post (Core.call o >>= f) h := by
  have hmay : h.may luck onLoop o := by
    cases o
    all_goals trivial
  have hnext : ∀ r, h.next o r = h := by
    intro r
    cases o
    all_goals first | rfl | cases ho
  apply always_op hmay
  intro r hr
  rw [hnext r]
  exact hf r hr

theorem always_load {f : Conn → M α}
    (hf : 0 < d.fd → (Hold.rules luck onLoop).Always post (f d) (.held c d a)) :
    (Hold.rules luck onLoop).Always post (load c >>= f) (.held c d a) := by
  apply always_op
  · exact ⟨rfl, fun _ => nofun⟩
  · rintro d' ⟨rfl, hpos⟩
    exact hf hpos

theorem always_store {f : Unit → M α} {e : Conn} (hd : Steady d e)
    (hf : (Hold.rules luck onLoop).Always post (f ()) (.held c e a)) :
    (Hold.rules luck onLoop).Always post (store c e >>= f) (.held c d a) := by
  apply always_op
  · refine .inr ⟨d, a, rfl, hd.fd, hd.sized, ?_, ?_⟩
    · intro ht
      rw [hd.travelling, ht]
    · intro ht
      exact .inl (hd.travelling ▸ ht)
  · intro _ _
    exact hf

theorem always_setHandler {f : Int → M α} {fd : Int} {h' : Handler} (hfd : d.fd = fd)
    (hh : h' ≠ .tgxAcceptionHandler ∧ h' ≠ .tgxConnectionHandlerNoOperation) (ha : a = true ∨ onLoop = false)
    (hf : (Hold.rules luck onLoop).Always post (f 0) (.held c d a)) :
    (Hold.rules luck onLoop).Always post (tgxEventSetHandler fd h' >>= f) (.held c d a) := by
  apply always_op
  · exact ⟨c, d, a, rfl, hfd, hh.1, ha.imp_right fun hworker => ⟨hworker, hh.2⟩⟩
  · rintro r rfl
    simpa only [Hold.next, if_neg hh.2] using hf

private theorem always_tgxFreeConnection {f : Unit → M α}
    (hf : (Hold.rules luck onLoop).Always post (f ()) (.freed c)) :
    (Hold.rules luck onLoop).Always post (tgxFreeConnection c >>= f) (.closing c d true a) := by
  have hend : (Hold.rules luck onLoop).Always post (freeConnection c >>= f) (.closing c d false false) := by
    apply always_op
    · exact ⟨d, false, rfl⟩
    · intro _ _
      exact hf
  simp only [tgxFreeConnection, bind_assoc]
  refine always_op ⟨rfl, fun _ => nofun⟩ ?_
  rintro d' ⟨rfl, hpos⟩
  rw [if_pos hpos]
  simp only [bind_assoc]
  refine always_op (.inr ⟨c, d', a, rfl, rfl⟩) ?_
  intro _ _
  split
  · simp only [bind_assoc]
    apply always_plain rfl
    intro _ _
    exact hend
  · exact hend

/-- A connection that may be closed: its descriptor is in the interest set or its flag says that it
is not. A second closing is bound to touch what is freed. -/
def Closable (luck : Luck) (c : ConnId) (h : Hold) : Prop :=
  (∃ d a, h = .held c d a ∧ (a = true ∨ d.travelling = true)) ∨ h = .freed c ∧ ¬ luck.header

theorem always_tgxCloseConnection {f : Unit → M α} (hc : Closable luck c h)
    (hf : (Hold.rules luck onLoop).Always post (f ()) (.freed c)) :
    (Hold.rules luck onLoop).Always post (tgxCloseConnection c >>= f) h := by
  simp only [tgxCloseConnection, bind_assoc]
  obtain ⟨d, a, rfl, hc⟩ | ⟨rfl, hluck⟩ := hc
  · apply always_load
    intro _
    refine always_op ⟨d, a, rfl, rfl, hc⟩ ?_
    intro _ _
    split
    · rename_i ht
      simp only [bind_assoc]
      refine always_op ⟨c, d, .inr ⟨a, rfl, by simpa using ht⟩, rfl⟩ ?_
      intro r _
      simp only [Hold.next]
      split
      · exact always_tgxFreeConnection hf
      · exact always_tgxFreeConnection hf
    · exact always_tgxFreeConnection hf
  · refine always_op ⟨rfl, fun hheader => absurd hheader hluck⟩ ?_
    intro _ hd
    exact hd.elim

private theorem steady_setString {field : StringField} (hd : Sized d) {str : TgxString}
    (hstr : field = .httpRespHeader → str.size = 0 ∨ str.size = MAX_BUFFER_SIZE) :
    Steady d (d.setString field str) := by
  cases field with
  | httpReqBuf => exact ⟨rfl, rfl, hd⟩
  | httpRespHeader => exact ⟨rfl, rfl, hstr rfl⟩

private theorem always_setString {f : Unit → M α} {field : StringField} (hd : Sized d) {str : TgxString}
    (hstr : field = .httpRespHeader → str.size = 0 ∨ str.size = MAX_BUFFER_SIZE)
    (hf : (Hold.rules luck onLoop).Always post (f ()) (.held c (d.setString field str) a)) :
    (Hold.rules luck onLoop).Always post (setString c field str >>= f) (.held c d a) := by
  simp only [setString, bind_assoc]
  apply always_load
  intro _
  exact always_store (steady_setString hd hstr) hf

private theorem always_setReqBuf {f : Unit → M α} (hd : Sized d) {str : TgxString}
    (hf : (Hold.rules luck onLoop).Always post (f ()) (.held c (d.setString .httpReqBuf str) a)) :
    (Hold.rules luck onLoop).Always post (setString c .httpReqBuf str >>= f) (.held c d a) :=
  always_setString hd nofun hf

private theorem always_stringGrow {f : Int → M α} {field : StringField} {boundry : Int} (hd : Sized d)
    (hfull : field = .httpRespHeader → d.httpRespHeader.size = MAX_BUFFER_SIZE)
    (hf : ∀ r d', Steady d d' → (field = .httpRespHeader → r = 0) →
      (Hold.rules luck onLoop).Always post (f r) (.held c d' a)) :
    (Hold.rules luck onLoop).Always post (stringGrow c field boundry >>= f) (.held c d a) := by
  have hsame : Steady d d := ⟨rfl, rfl, hd⟩
  simp only [stringGrow, bind_assoc]
  apply always_load
  intro _
  cases field with
  | httpRespHeader =>
    have hgrown : ¬ (boundry > (d.string .httpRespHeader).size - BUFFER_NEARLY_BOUNDRY ∧
        (d.string .httpRespHeader).size < MAX_BUFFER_SIZE) := by
      simp [Conn.string, hfull rfl]
    rw [if_neg hgrown]
    exact hf 0 d hsame fun _ => rfl
  | httpReqBuf =>
    split
    · simp only [bind_assoc]
      apply always_setReqBuf hd
      apply always_plain rfl
      intro r _
      split
      · simp only [bind_assoc]
        apply always_setReqBuf
        · exact hd
        · exact hf 0 _ ⟨rfl, rfl, hd⟩ nofun
      · exact hf (-1) _ ⟨rfl, rfl, hd⟩ nofun
    · exact hf 0 d hsame nofun

/-- Only a request buffer, or a header buffer that cannot be had, makes the check fail. -/
theorem always_stringCheckBoundry {f : Int → M α} {field : StringField} {boundry : Int} (hd : Sized d)
    (hf : ∀ r d', Steady d d' → (field = .httpRespHeader → luck.header → 0 ≤ boundry → 0 ≤ r) →
      (Hold.rules luck onLoop).Always post (f r) (.held c d' a)) :
    (Hold.rules luck onLoop).Always post (stringCheckBoundry c field boundry >>= f) (.held c d a) := by
  have hgrow : ∀ d', Steady d d' → (field = .httpRespHeader → d'.httpRespHeader.size = MAX_BUFFER_SIZE) →
      (Hold.rules luck onLoop).Always post (stringGrow c field boundry >>= f) (.held c d' a) := by
    intro d' hd' hfull
    apply always_stringGrow hd'.sized hfull
    intro r d'' hd'' hr
    exact hf r d'' (hd'.trans hd'') fun hfield _ _ => (hr hfield).ge
  have hsame : Steady d d := ⟨rfl, rfl, hd⟩
  simp only [stringCheckBoundry]
  split
  · rename_i hneg
    exact hf (-1) d hsame fun _ _ h0 => absurd hneg (not_lt.mpr h0)
  · simp only [bind_assoc]
    apply always_load
    intro _
    split
    · simp only [bind_assoc]
      apply always_plain rfl
      intro r hr
      split
      · simp only [bind_assoc]
        refine always_setString hd (fun _ => .inr rfl) ?_
        apply hgrow _ (steady_setString hd fun _ => .inr rfl)
        rintro rfl
        rfl
      · rename_i hrefused
        simp only [bind_assoc]
        refine always_setString hd (fun _ => .inr rfl) ?_
        apply hf (-1) _ (steady_setString hd fun _ => .inr rfl)
        rintro rfl hluck
        exact absurd (hr hluck) hrefused
    · rename_i hsize
      apply hgrow d hsame
      rintro rfl
      exact hd.resolve_left hsize

/-- What a failed attempt to go on leaves: the connection, which may be closed. -/
def Failed (c : ConnId) (h : Hold) (r : Int) : Prop :=
  r < 0 ∧ ∃ d a, h = .held c d a ∧ Sized d ∧ (a = true ∨ d.travelling = true)

private theorem Failed.closable {r : Int} (hf : Failed c h r) : Closable luck c h := by
  obtain ⟨-, d, a, rfl, -, ha⟩ := hf
  exact .inl ⟨d, a, rfl, ha⟩

def Ready (c : ConnId) (h : Hold) : Prop :=
  ∃ d, h = .held c d false ∧ Sized d ∧ d.travelling = true

/-- `_task_start_travelling` takes the descriptor out of the interest set, then sets the flag. -/
theorem always_taskStartTravelling {id : Nat} (hd : Sized d) (ha : a = true) :
    (Hold.rules luck onLoop).Always (fun h r => Failed c h r ∨ 0 ≤ r ∧ Ready c h)
      (taskStartTravelling ⟨id, c⟩) (.held c d a) := by
  subst ha
  simp only [taskStartTravelling]
  apply always_load
  intro _
  refine always_store (e := { d with rwPos := 0 }) ⟨rfl, rfl, hd⟩ ?_
  refine always_op ⟨c, _, true, rfl, rfl, nofun, .inl rfl⟩ ?_
  rintro ret rfl
  refine always_op ⟨c, _, .inl rfl, rfl⟩ ?_
  rintro r ⟨rfl | rfl, -⟩
  · rw [if_neg (by simp)]
    apply always_load
    intro _
    apply always_op
    · exact .inr ⟨_, _, rfl, rfl, hd, fun _ => rfl, fun _ => .inr rfl⟩
    · intro _ _
      exact .inr ⟨le_rfl, _, rfl, hd, rfl⟩
  · rw [if_pos (by simp)]
    exact .inl ⟨by decide, _, _, rfl, hd, .inl rfl⟩

private theorem always_taskPostPrepareModuleOnPost {id : Nat} (hd : Sized d) (ht : d.travelling = true) :
    (Hold.rules luck onLoop).Always (fun h r => Failed c h r ∨ 0 ≤ r ∧ Ready c h)
      (taskPostPrepareModuleOnPost ⟨id, c⟩) (.held c d false) := by
  have hfailed : ∀ d', Steady d d' → Failed c (.held c d' false) (-1) :=
    fun d' hd' => ⟨by decide, d', false, rfl, hd'.sized, .inr (hd'.travelling ▸ ht)⟩
  simp only [taskPostPrepareModuleOnPost]
  apply always_load
  intro _
  apply always_plain rfl
  intro handle _
  refine always_store (e := { d with dlopenHandle := handle }) ⟨rfl, rfl, hd⟩ ?_
  split
  · exact .inl (hfailed _ ⟨rfl, rfl, hd⟩)
  · apply always_plain rfl
    intro _ _
    split
    · exact .inl (hfailed _ ⟨rfl, rfl, hd⟩)
    · apply always_plain rfl
      intro _ _
      exact .inr ⟨le_rfl, _, rfl, hd, ht⟩

/-- A connection may be posted with a task: the first takes it out of the interest set, the others
find it out of it. -/
def Postable (d : Conn) (a : Bool) : OnPost → Prop
  | .taskStartTravelling => a = true
  | _ => a = false ∧ d.travelling = true

private theorem always_runOnPost {id : Nat} {onPost : OnPost} (hd : Sized d) (hp : Postable d a onPost) :
    (Hold.rules luck onLoop).Always (fun h r => Failed c h r ∨ 0 ≤ r ∧ Ready c h)
      (runOnPost onPost ⟨id, c⟩) (.held c d a) := by
  cases onPost with
  | taskStartTravelling => exact always_taskStartTravelling hd hp
  | taskGetPrepareWriteOnPost =>
    obtain ⟨rfl, ht⟩ := hp
    exact .inr ⟨le_rfl, d, rfl, hd, ht⟩
  | taskPostPrepareModuleOnPost =>
    obtain ⟨rfl, ht⟩ := hp
    exact always_taskPostPrepareModuleOnPost hd ht
  | taskPostPrepareWriteOnPost =>
    obtain ⟨rfl, ht⟩ := hp
    exact .inr ⟨le_rfl, d, rfl, hd, ht⟩

theorem always_postTask {onPost : OnPost} {taskHandler : TaskHandler} {onComplete : OnComplete}
    {f : Int → M α} (hd : Sized d) (hp : Postable d a onPost) (hc : a = true ∨ d.travelling = true)
    (hfailed : ∀ h, Failed c h (-1) → (Hold.rules luck onLoop).Always post (f (-1)) h)
    (hposted : (Hold.rules luck onLoop).Always post (f 0) .nothing) :
    (Hold.rules luck onLoop).Always post (postTask c onPost taskHandler onComplete >>= f) (.held c d a) := by
  have hrefused := hfailed (.held c d a) ⟨by decide, d, a, rfl, hd, hc⟩
  simp only [postTask, bind_assoc]
  apply always_plain rfl
  intro id _
  cases id with
  | none => exact hrefused
  | some id =>
    simp only [bind_assoc]
    apply always_plain rfl
    intro task _
    cases task with
    | none => exact hrefused
    | some task =>
      simp only [tgxPostTask, bind_assoc]
      refine (always_runOnPost hd hp).bind ?_
      rintro h r (hr | ⟨hr, hready⟩)
      · rw [if_pos hr.1]
        exact hfailed h ⟨by decide, hr.2⟩
      · rw [if_neg (not_lt.mpr hr)]
        obtain ⟨d', rfl, hd', ht⟩ := hready
        simp only [bind_assoc]
        apply always_plain rfl
        intro allocated _
        cases allocated with
        | false => exact hfailed _ ⟨by decide, d', false, rfl, hd', .inr ht⟩
        | true =>
          refine always_op ⟨d', rfl, ht⟩ ?_
          intro _ _
          exact hposted

def Done (luck : Luck) : Hold → Prop
  | .nothing | .freed _ => True
  | .held _ d a => a = true ∧ Sized d
  | .fd _ _ | .fresh _ _ => ¬ luck.accepting
  | .lulled _ _ | .closing _ _ _ _ => False

private theorem always_close {r : α} {post : Hold → α → Prop} (hpost : post (.freed c) r) :
    (Hold.rules luck onLoop).Always post (tgxCloseConnection c >>= fun _ => pure r) (.held c d true) :=
  always_tgxCloseConnection (.inl ⟨d, true, rfl, .inl rfl⟩) hpost

private theorem always_readLoop {fuel : Nat} (hd : Sized d) :
    (Hold.rules luck onLoop).Always
      (fun h r => r = false ∧ h = .freed c ∨ r = true ∧ ∃ d', h = .held c d' true ∧ Sized d')
      (readLoop c fuel) (.held c d true) := by
  induction fuel generalizing d with
  | zero => trivial
  | succ fuel ih =>
    have hclosed : ∀ d', (Hold.rules luck onLoop).Always
        (fun h r => r = false ∧ h = .freed c ∨ r = true ∧ ∃ d', h = .held c d' true ∧ Sized d')
        (tgxCloseConnection c >>= fun _ => pure false) (.held c d' true) :=
      fun d' => always_close (.inl ⟨rfl, rfl⟩)
    simp only [readLoop]
    apply always_load
    intro _
    apply always_stringCheckBoundry hd
    intro r d' hd' _
    split
    · exact hclosed d'
    · apply always_load
      intro _
      apply always_plain rfl
      intro got _
      split
      · exact .inr ⟨rfl, d', rfl, hd'.sized⟩
      · exact hclosed d'
      · exact hclosed d'
      · rename_i bs _
        refine always_store (e := _) ⟨rfl, rfl, hd'.sized⟩ ?_
        exact ih hd'.sized

theorem always_tgxConnectionHandlerRead {fuel : Nat} {event : UInt32} (hd : Sized d) :
    (Hold.rules luck onLoop).Always (fun h _ => Done luck h) (tgxConnectionHandlerRead fuel c event)
      (.held c d true) := by
  have hclosed : ∀ d', (Hold.rules luck onLoop).Always (fun h _ => Done luck h)
      (tgxCloseConnection c >>= fun _ => pure (-1)) (.held c d' true) :=
    fun d' => always_close trivial
  simp only [tgxConnectionHandlerRead]
  split
  · exact hclosed d
  · refine (always_readLoop hd).bind ?_
    rintro h r (⟨rfl, rfl⟩ | ⟨rfl, d', rfl, hd'⟩)
    · trivial
    · rw [if_neg (by simp)]
      apply always_load
      intro _
      split
      · trivial
      · rename_i b _
        refine always_store (e := _) ⟨rfl, rfl, hd'⟩ ?_
        split
        · exact ⟨rfl, hd'⟩
        · apply always_postTask
          · exact hd'
          · rfl
          · exact .inl rfl
          · intro h hf
            rw [if_pos (by simp)]
            exact always_tgxCloseConnection hf.closable trivial
          · rw [if_neg (by simp)]
            trivial
        · exact hclosed _
        · trivial

theorem always_writeHeaderLoop {fuel : Nat} {header : List UInt8} {headerLength : Int} (hd : Sized d) :
    (Hold.rules luck onLoop).Always (fun h _ => Done luck h) (writeHeaderLoop c header headerLength fuel)
      (.held c d true) := by
  induction fuel generalizing d with
  | zero => trivial
  | succ fuel ih =>
    simp only [writeHeaderLoop]
    apply always_load
    intro _
    apply always_plain rfl
    intro nWrite _
    refine always_store (e := _) ⟨rfl, rfl, hd⟩ ?_
    split
    · exact ⟨rfl, hd⟩
    · exact always_close trivial
    · split
      · refine always_store (e := _) ⟨rfl, rfl, hd⟩ ?_
        split
        · refine always_setHandler rfl ⟨nofun, nofun⟩ (.inl rfl) ?_
          exact ⟨rfl, hd⟩
        · split
          · refine always_setHandler rfl ⟨nofun, nofun⟩ (.inl rfl) ?_
            exact ⟨rfl, hd⟩
          · exact always_close trivial
      · exact ih hd

private theorem always_tgxConnectionHandlerWriteHeader {fuel : Nat} {event : UInt32} (hd : Sized d) :
    (Hold.rules luck onLoop).Always (fun h _ => Done luck h) (tgxConnectionHandlerWriteHeader fuel c event)
      (.held c d true) := by
  simp only [tgxConnectionHandlerWriteHeader]
  split
  · exact always_close trivial
  · apply always_load
    intro _
    split
    · exact always_close trivial
    · split
      · exact always_close trivial
      · exact always_writeHeaderLoop hd

theorem always_sendfileLoop {fuel file : Nat} {contentLength : Int} (hd : Sized d) :
    (Hold.rules luck onLoop).Always (fun h _ => Done luck h) (sendfileLoop c file contentLength fuel)
      (.held c d true) := by
  induction fuel generalizing d with
  | zero => trivial
  | succ fuel ih =>
    simp only [sendfileLoop]
    apply always_load
    intro _
    apply always_plain rfl
    intro nWrite _
    refine always_store (e := _) ⟨rfl, rfl, hd⟩ ?_
    split
    · apply always_plain rfl
      intro _ _
      exact ⟨rfl, hd⟩
    · apply always_plain rfl
      intro _ _
      exact always_close trivial
    · split
      · apply always_plain rfl
        intro _ _
        exact always_close trivial
      · exact ih hd

private theorem always_tgxConnectionHandlerGetMethodWriteFile {fuel : Nat} {event : UInt32} (hd : Sized d) :
    (Hold.rules luck onLoop).Always (fun h _ => Done luck h)
      (tgxConnectionHandlerGetMethodWriteFile fuel c event) (.held c d true) := by
  simp only [tgxConnectionHandlerGetMethodWriteFile]
  split
  · exact always_close trivial
  · apply always_load
    intro _
    apply always_plain rfl
    intro statbuf _
    split
    · exact always_close trivial
    · split
      · exact always_close trivial
      · apply always_plain rfl
        intro file _
        split
        · exact always_close trivial
        · exact always_sendfileLoop hd

theorem always_writeBufferLoop {fuel : Nat} {body : List UInt8} {contentLength : Int} (hd : Sized d) :
    (Hold.rules luck onLoop).Always (fun h _ => Done luck h) (writeBufferLoop c body contentLength fuel)
      (.held c d true) := by
  induction fuel generalizing d with
  | zero => trivial
  | succ fuel ih =>
    simp only [writeBufferLoop]
    apply always_load
    intro _
    apply always_plain rfl
    intro nWrite _
    refine always_store (e := _) ⟨rfl, rfl, hd⟩ ?_
    split
    · exact ⟨rfl, hd⟩
    · exact always_close trivial
    · split
      · exact always_close trivial
      · exact ih hd

private theorem always_tgxConnectionHandlerPostMethodWriteBuffer {fuel : Nat} {event : UInt32} (hd : Sized d) :
    (Hold.rules luck onLoop).Always (fun h _ => Done luck h)
      (tgxConnectionHandlerPostMethodWriteBuffer fuel c event) (.held c d true) := by
  simp only [tgxConnectionHandlerPostMethodWriteBuffer]
  split
  · exact always_close trivial
  · apply always_load
    intro _
    split
    · trivial
    · exact always_writeBufferLoop hd

/-- A handler other than the acception handler starts with the connection it is registered for. -/
theorem always_runHandler {fuel : Nat} {handler : Handler} {event : UInt32} (hd : Sized d)
    (hh : handler ≠ .tgxAcceptionHandler) :
    (Hold.rules luck onLoop).Always (fun h _ => Done luck h) (runHandler fuel handler (some c) event)
      (.held c d true) := by
  cases handler with
  | tgxAcceptionHandler => exact absurd rfl hh
  | tgxConnectionHandlerRead => exact always_tgxConnectionHandlerRead hd
  | tgxConnectionHandlerWriteHeader => exact always_tgxConnectionHandlerWriteHeader hd
  | tgxConnectionHandlerGetMethodWriteFile => exact always_tgxConnectionHandlerGetMethodWriteFile hd
  | tgxConnectionHandlerPostMethodWriteBuffer =>
    exact always_tgxConnectionHandlerPostMethodWriteBuffer hd
  | tgxConnectionHandlerNoOperation => exact ⟨rfl, hd⟩

/-- The acception handler loses a descriptor only where a new connection is refused something. -/
theorem always_tgxAcceptionHandler {fuel : Nat} :
    (Hold.rules luck true).Always (fun h _ => Done luck h) (tgxAcceptionHandler fuel) .nothing := by
  induction fuel with
  | zero => trivial
  | succ fuel ih =>
    simp only [tgxAcceptionHandler]
    refine always_op ⟨rfl, rfl⟩ ?_
    intro infd _
    cases infd with
    | none => trivial
    | some infd =>
      apply always_plain rfl
      intro ret _
      split
      · refine always_op (.inl ⟨false, rfl⟩) ?_
        intro _ _
        trivial
      · refine always_op (.inl rfl) ?_
        rintro ret ⟨rfl | rfl, hluck⟩
        swap
        · rw [if_pos (by simp)]
          intro haccepting
          exact absurd (hluck haccepting infd false rfl) (by simp)
        rw [if_neg (by simp)]
        simp only [tgxNewConnection, bind_assoc]
        refine always_op rfl ?_
        intro made hmade
        cases made with
        | none => trivial
        | some c =>
          simp only [bind_assoc]
          refine always_plain rfl fun httpReqBuf h₁ => ?_
          refine always_plain rfl fun httpReqBody _ => ?_
          refine always_plain rfl fun httpRespHeader h₂ => ?_
          refine always_plain rfl fun httpRespBody h₃ => ?_
          refine always_plain rfl fun lock h₄ => ?_
          refine always_plain rfl fun httpParser h₅ => ?_
          refine always_op (.inl ⟨_, rfl, rfl, rfl, .inl rfl⟩) fun _ _ => ?_
          split
          · refine always_op ⟨_, rfl, rfl, nofun⟩ fun ret _ => ?_
            split
            · trivial
            · exact ih
          · rename_i hrefused
            intro haccepting
            apply hrefused
            rw [h₁ haccepting nofun, h₂ haccepting nofun, h₃ haccepting nofun, h₄ haccepting nofun, h₅ haccepting nofun]
            rfl

/-- What the body of a task ends with. -/
def Worked (luck : Luck) (c : ConnId) (h : Hold) (r : Int) : Prop :=
  Ready c h ∨ r < 0 ∧ h = .freed c ∧ ¬ luck.header

private theorem Worked.closable {r : Int} (hw : Worked luck c h r) : Closable luck c h := by
  obtain ⟨d, rfl, -, ht⟩ | ⟨-, rfl, hluck⟩ := hw
  · exact .inl ⟨d, false, rfl, .inr ht⟩
  · exact .inr ⟨rfl, hluck⟩

theorem Worked.ready {r : Int} (hw : Worked luck c h r) (hr : ¬ r < 0) : Ready c h :=
  hw.resolve_right fun hfreed => hr hfreed.1

private theorem always_taskHttpParserDo {id : Nat} (hd : Sized d) (ht : d.travelling = true) :
    (Hold.rules luck onLoop).Always (Worked luck c) (taskHttpParserDo ⟨id, c⟩) (.held c d false) := by
  simp only [taskHttpParserDo]
  apply always_plain rfl
  intro _ _
  split
  · exact .inl ⟨d, rfl, hd, ht⟩
  · apply always_load
    intro _
    split
    · trivial
    · apply always_plain rfl
      intro r _
      refine always_store (e := _) ⟨rfl, rfl, hd⟩ ?_
      split
      · exact .inl ⟨_, rfl, hd, ht⟩
      · exact .inl ⟨_, rfl, hd, ht⟩

private theorem always_taskPostPrepareModuleDo {id : Nat} (hd : Sized d) (ht : d.travelling = true) :
    (Hold.rules luck onLoop).Always (Worked luck c) (taskPostPrepareModuleDo ⟨id, c⟩)
      (.held c d false) := by
  simp only [taskPostPrepareModuleDo]
  apply always_plain rfl
  intro _ _
  split
  · exact .inl ⟨d, rfl, hd, ht⟩
  · apply always_load
    intro _
    apply always_plain rfl
    intro _ _
    split
    · trivial
    · apply always_plain rfl
      rintro ⟨ret, req, resp⟩ _
      refine always_store (e := _) ⟨rfl, rfl, hd⟩ ?_
      exact .inl ⟨_, rfl, hd, ht⟩

private theorem steady_header (hd : Sized d) (data : Option Block) :
    Steady d (d.setString .httpRespHeader { d.httpRespHeader with data := data }) :=
  steady_setString hd fun _ => hd

/-- The macro closes the connection itself where the header buffer cannot be had. -/
theorem always_copy {buffPos : Nat} {text : List UInt8} {rest : Nat → M Int} (hd : Sized d)
    (ht : d.travelling = true)
    (hrest : ∀ d', Sized d' → d'.travelling = true →
      (Hold.rules luck onLoop).Always (Worked luck c) (rest (buffPos + text.length)) (.held c d' false)) :
    (Hold.rules luck onLoop).Always (Worked luck c) (copy c buffPos text rest) (.held c d false) := by
  simp only [copy]
  apply always_stringCheckBoundry hd
  intro r d' hd' hr
  have ht' : d'.travelling = true := hd'.travelling.trans ht
  split
  · rename_i hneg
    apply always_tgxCloseConnection
    · exact .inl ⟨d', false, rfl, .inr ht'⟩
    · exact .inr ⟨by decide, rfl, fun hluck => absurd (hr rfl hluck (Int.natCast_nonneg _)) (not_le.mpr hneg)⟩
  · apply always_load
    intro _
    refine always_store (steady_header hd'.sized _) ?_
    apply hrest
    · exact hd'.sized
    · exact ht'

private theorem always_clearHeader {f : Unit → M Int} (hd : Sized d)
    (hf : ∀ d', Steady d d' → (Hold.rules luck onLoop).Always (Worked luck c) (f ()) (.held c d' false)) :
    (Hold.rules luck onLoop).Always (Worked luck c) (clearHeader c >>= f) (.held c d false) := by
  simp only [clearHeader, bind_assoc]
  apply always_load
  intro _
  split
  · exact always_store (steady_header hd _) (hf _ (steady_header hd _))
  · exact hf d ⟨rfl, rfl, hd⟩

private theorem always_endHeader {buffPos : Nat} (hd : Sized d) (ht : d.travelling = true) :
    (Hold.rules luck onLoop).Always (Worked luck c) (endHeader c buffPos) (.held c d false) := by
  simp only [endHeader]
  apply always_load
  intro _
  refine always_store (steady_header hd _) ?_
  exact .inl ⟨_, rfl, hd, ht⟩

private theorem always_taskGetPrepareWriteDo {id : Nat} {e404 : List UInt8} (hd : Sized d)
    (ht : d.travelling = true) :
    (Hold.rules luck onLoop).Always (Worked luck c) (taskGetPrepareWriteDo e404 ⟨id, c⟩)
      (.held c d false) := by
  have hfailed : ∀ d', Sized d' → d'.travelling = true → Worked luck c (.held c d' false) (-1) :=
    fun d' hd' ht' => .inl ⟨d', rfl, hd', ht'⟩
  simp only [taskGetPrepareWriteDo]
  apply always_clearHeader hd
  intro d₁ hd₁
  apply always_load
  intro _
  apply always_copy hd₁.sized (hd₁.travelling.trans ht)
  intro d₂ hd₂ ht₂
  apply always_copy hd₂ ht₂
  intro d₃ hd₃ ht₃
  apply always_copy hd₃ ht₃
  intro d₄ hd₄ ht₄
  apply always_load
  intro _
  split
  on_goal 1 => refine always_store ⟨rfl, rfl, hd₄⟩ ?_
  -- with the path replaced and without
  all_goals
    apply always_load
    intro _
    apply always_plain rfl
    intro statbuf _
    split
    · exact hfailed _ hd₄ ht₄
    · apply always_plain rfl
      intro date _
      apply always_copy
      · exact hd₄
      · exact ht₄
      intro d₅ hd₅ ht₅
      apply always_copy hd₅ ht₅
      intro d₆ hd₆ ht₆
      apply always_plain rfl
      intro modified _
      apply always_copy hd₆ ht₆
      intro d₇ hd₇ ht₇
      apply always_copy hd₇ ht₇
      intro d₈ hd₈ ht₈
      apply always_copy hd₈ ht₈
      intro d₉ hd₉ ht₉
      apply always_copy hd₉ ht₉
      intro d₁₀ hd₁₀ ht₁₀
      apply always_copy hd₁₀ ht₁₀
      intro d₁₁ hd₁₁ ht₁₁
      exact always_endHeader hd₁₁ ht₁₁

private theorem always_taskPostPrepareWriteDo {id : Nat} (hd : Sized d) (ht : d.travelling = true) :
    (Hold.rules luck onLoop).Always (Worked luck c) (taskPostPrepareWriteDo ⟨id, c⟩) (.held c d false) := by
  have hfailed : ∀ d', Sized d' → d'.travelling = true → Worked luck c (.held c d' false) (-1) :=
    fun d' hd' ht' => .inl ⟨d', rfl, hd', ht'⟩
  simp only [taskPostPrepareWriteDo]
  apply always_clearHeader hd
  intro d₁ hd₁
  apply always_load
  intro _
  apply always_copy hd₁.sized (hd₁.travelling.trans ht)
  intro d₂ hd₂ ht₂
  apply always_copy hd₂ ht₂
  intro d₃ hd₃ ht₃
  apply always_copy hd₃ ht₃
  intro d₄ hd₄ ht₄
  apply always_load
  intro _
  split
  · exact hfailed d₄ hd₄ ht₄
  · apply always_copy hd₄ ht₄
    intro d₅ hd₅ ht₅
    apply always_load
    intro _
    split
    · exact hfailed d₅ hd₅ ht₅
    · split
      · exact hfailed d₅ hd₅ ht₅
      · apply always_copy hd₅ ht₅
        intro d₆ hd₆ ht₆
        apply always_copy hd₆ ht₆
        intro d₇ hd₇ ht₇
        exact always_endHeader hd₇ ht₇

private theorem always_runTaskHandler {id : Nat} {e404 : List UInt8} (hd : Sized d) (ht : d.travelling = true)
    (taskHandler : TaskHandler) :
    (Hold.rules luck onLoop).Always (Worked luck c) (runTaskHandler e404 taskHandler ⟨id, c⟩)
      (.held c d false) := by
  cases taskHandler with
  | taskHttpParserDo => exact always_taskHttpParserDo hd ht
  | taskGetPrepareWriteDo => exact always_taskGetPrepareWriteDo hd ht
  | taskPostPrepareModuleDo => exact always_taskPostPrepareModuleDo hd ht
  | taskPostPrepareWriteDo => exact always_taskPostPrepareWriteDo hd ht

/-- A worker ends with empty hands: the connection is queued, back with the loop, or freed. -/
def Over (c : ConnId) (h : Hold) (_ : Int) : Prop :=
  h = .nothing ∨ h = .freed c

theorem always_closeAndFree {id : Nat} (hc : Closable luck c h) :
    (Hold.rules luck onLoop).Always (Over c) (closeAndFree ⟨id, c⟩) h := by
  simp only [closeAndFree]
  apply always_tgxCloseConnection hc
  apply always_plain rfl
  intro _ _
  exact .inr rfl

theorem always_postNext {id : Nat} {onPost : OnPost} {taskHandler : TaskHandler} {onComplete : OnComplete}
    (hd : Sized d) (ht : d.travelling = true) (hp : onPost ≠ .taskStartTravelling) :
    (Hold.rules luck onLoop).Always (Over c)
      (postTask c onPost taskHandler onComplete >>= fun ret =>
        if ret < 0 then closeAndFree ⟨id, c⟩ else pure 0) (.held c d false) := by
  apply always_postTask hd
  · cases onPost with
    | taskStartTravelling => exact absurd rfl hp
    | _ => exact ⟨rfl, ht⟩
  · exact .inr ht
  · intro h hf
    rw [if_pos (by decide)]
    exact always_closeAndFree hf.closable
  · rw [if_neg (by decide)]
    exact .inl rfl

private theorem always_taskHttpParserOnComplete {id : Nat} {err : Int} (hw : Worked luck c h err) :
    (Hold.rules luck onLoop).Always (Over c) (taskHttpParserOnComplete ⟨id, c⟩ err) h := by
  simp only [taskHttpParserOnComplete]
  split
  · exact always_closeAndFree hw.closable
  · rename_i hpos
    obtain ⟨d, rfl, hd, ht⟩ := hw.ready hpos
    apply always_load
    intro _
    split
    · exact always_postNext hd ht nofun
    · split
      · exact always_postNext hd ht nofun
      · exact always_closeAndFree hw.closable

private theorem always_taskPostPrepareModuleOnComplete {id : Nat} {err : Int} (hw : Worked luck c h err) :
    (Hold.rules luck onLoop).Always (Over c) (taskPostPrepareModuleOnComplete ⟨id, c⟩ err) h := by
  simp only [taskPostPrepareModuleOnComplete]
  split
  · exact always_closeAndFree hw.closable
  · rename_i hpos
    obtain ⟨d, rfl, hd, ht⟩ := hw.ready hpos
    exact always_postNext hd ht nofun

/-- `_task_end_travelling` gives the connection back with its ADD, and does not touch it any more. -/
theorem always_taskEndTravelling {id : Nat} {err : Int} (hw : Worked luck c h err) :
    (Hold.rules luck false).Always (Over c) (taskEndTravelling ⟨id, c⟩ err) h := by
  simp only [taskEndTravelling]
  split
  · exact always_tgxCloseConnection hw.closable (.inr rfl)
  · rename_i hpos
    obtain ⟨d, rfl, hd, ht⟩ := hw.ready hpos
    apply always_load
    intro _
    refine always_store (e := { d with rwPos := 0 }) ⟨rfl, rfl, hd⟩ ?_
    refine always_setHandler rfl ⟨nofun, nofun⟩ (.inr rfl) ?_
    refine always_op (.inr ⟨c, _, rfl, rfl, ht, rfl⟩) ?_
    rintro ret ⟨rfl | rfl, -⟩
    · rw [if_neg (by simp)]
      apply always_plain rfl
      intro _ _
      exact .inl rfl
    · rw [if_pos (by simp)]
      exact always_tgxCloseConnection (.inl ⟨_, false, rfl, .inr ht⟩) (.inr rfl)

theorem always_runTask {e404 : List UInt8} {task : TgxTask} (hd : Sized d) (ht : d.travelling = true)
    (hc : task.context.tconn = c) :
    (Hold.rules luck false).Always (Over c) (State.runTask e404 task) (.held c d false) := by
  obtain ⟨id, onPost, taskHandler, onTaskComplete, wid, tconn⟩ := task
  obtain rfl : tconn = c := hc
  refine (always_runTaskHandler hd ht taskHandler).bind ?_
  intro h r hw
  cases onTaskComplete with
  | taskHttpParserOnComplete => exact always_taskHttpParserOnComplete hw
  | taskPostPrepareModuleOnComplete => exact always_taskPostPrepareModuleOnComplete hw
  | taskEndTravelling => exact always_taskEndTravelling hw

end
end TinyosGraphics.Server
