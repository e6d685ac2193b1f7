import TinyosGraphics.Core.Tasks

/-! A connection that the event loop serves with EPOLLOUT events, one call after another, and the rules
for the calls that its handlers make. -/
namespace TinyosGraphics.Core
open Lib Event

/-- A byte of a text, when the position is inside it. -/
def byteAt (text : List UInt8) (i : Int) : Option UInt8 :=
  if 0 ≤ i then text[i.toNat]? else none

def Sent.bytes : Sent → List (Option UInt8)
  | .text t start n => (List.range n).map fun i : Nat => byteAt t (start + i)
  | .file _ _ _ => []

/-- The bytes of texts that a descriptor has accepted, in order. -/
def acceptedText (w : World) (fd : Int) : List (Option UInt8) :=
  (w.sent fd).flatMap Sent.bytes

theorem Sent.bytes_inside {text : List UInt8} {start : Int} {n : Nat} (h0 : 0 ≤ start)
    (h : start + n ≤ text.length) :
    (Sent.text text start n).bytes = ((text.drop start.toNat).take n).map some := by
  apply List.ext_getElem
  · simp only [Sent.bytes, List.length_map, List.length_range, List.length_take, List.length_drop]
    omega
  · intro i h₁ h₂
    simp only [Sent.bytes, List.length_map, List.length_range] at h₁
    have hpos : (start + i).toNat = start.toNat + i := by omega
    have hi : start.toNat + i < text.length := by omega
    simp [Sent.bytes, byteAt, hpos, hi, show 0 ≤ start + i by omega]

section
variable {w : World} {c : ConnId} {d : Conn} {fd : Int}

theorem setConn_conns_self (w : World) (c : ConnId) (d : Option Conn) : (w.setConn c d).conns c = d := by
  simp [World.setConn]

@[simp] theorem setConn_setConn (w : World) (c : ConnId) (d d' : Option Conn) :
    (w.setConn c d).setConn c d' = w.setConn c d' := by
  simp [World.setConn]

theorem setConn_self (h : w.conns c = some d) : w.setConn c (some d) = w := by
  rw [World.setConn, ← h, Function.update_eq_self]

theorem respond_load (hc : w.conns c = some d) : respond w (.load c) d = some w := by
  simp [respond, hc]

theorem respond_store (hc : w.conns c = some d) (d' : Conn) :
    respond w (.store c d') () = some (w.setConn c (some d')) := by
  simp [respond, hc]

theorem respond_freeConnection (hc : w.conns c = some d) :
    respond w (.freeConnection c) () = some (w.setConn c none) := by
  simp [respond, hc]

theorem respond_scheduleUnregister {r : Int} {te : TgxEvent Handler ConnId}
    (h : Event.tgxEventScheduleUnregister w.te fd = some (r, te)) :
    respond w (.scheduleUnregister fd c) () =
      some { w with te := te, closes := Function.update w.closes c (w.closes c + 1) } := by
  simp [respond, h]

end

/-- What an EPOLLOUT event for `fd` starts, with `fuel` turns for the handler's loop. -/
def dispatchOut (fd : Int) (w : World) (fuel : Nat) : Option (M Int) :=
  match w.interest fd with
  | some m =>
    if hasFlag m EPOLLOUT then
      match Event.tgxEventGetHandler w.te fd, Event.tgxEventGetContext w.te fd with
      | some (some h), some context => some (runHandler fuel h context TGX_EVENT_OUT)
      | _, _ => none
    else none
  | none => none

abbrev Serving := Process Op Ret Int World
abbrev ServingLabel := Process.Label Op Ret Nat

def serving (fd : Int) (init : Serving → Prop) : Transition Serving ServingLabel :=
  Process.system respond (dispatchOut fd) init

/-- Conditions on the calls that matter for what a descriptor is sent. -/
structure Guards where
  write : World → Int → List UInt8 → Int → Int → Prop
  sendfile : World → Int → Nat → Int → Int → Prop
  unregister : World → Prop

def Guards.may (g : Guards) (w : World) : Op → Prop
  | .write fd text start count => g.write w fd text start count
  | .sendfile outFd file offset count => g.sendfile w outFd file offset count
  | .scheduleUnregister _ _ => g.unregister w
  | _ => True

/-- Every call is answered as the world answers it, and as `outcome` says; `stuck` tells whether a
program may run out of turns. -/
def Guards.rules (g : Guards) (outcome : (o : Op) → Ret o → Prop) (stuck : Prop) : Rules Op Ret World where
  may := g.may
  after w o r w' := respond w o r = some w' ∧ outcome o r
  stuck _ := stuck

/-- Calls that leave the schedule table, the connections, what was sent and what was closed alone. -/
def Op.quiet : Op → Bool
  | .load _ | .store _ _ | .callocConnection _ | .freeConnection _ | .setHandler _ _
  | .scheduleRegister _ _ _ | .scheduleUnregister _ _ | .write _ _ _ _ | .sendfile _ _ _ _ => false
  | _ => true

def Op.idle : Op → Bool
  | .calloc _ | .realloc | .setNonblocking _ | .stat _ | .openFile _ | .closeFile _ | .formatDate _
  | .dlopen _ | .dlsym | .dlclose | .callModule _ _ | .httpParserExecute _ => true
  | _ => false

/-- Two worlds that a descriptor's service cannot tell apart. -/
structure World.Same (w w' : World) : Prop where
  te : w'.te = w.te
  conns : w'.conns = w.conns
  sent : w'.sent = w.sent
  closes : w'.closes = w.closes

theorem World.Same.refl (w : World) : w.Same w := ⟨rfl, rfl, rfl, rfl⟩

private theorem epollCtl_same {w w' : World} {op : CtlOp} {fd : Int} {m : UInt32} (h : w.epollCtl op fd m = some w') :
    w.Same w' := by
  simp only [World.epollCtl] at h
  split at h
  · split at h
    · cases h
    · exact Option.some.inj h ▸ ⟨rfl, rfl, rfl, rfl⟩
  · exact Option.some.inj h ▸ ⟨rfl, rfl, rfl, rfl⟩
  · exact Option.some.inj h ▸ ⟨rfl, rfl, rfl, rfl⟩
  · cases h

theorem respond_quiet {w w' : World} {o : Op} {r : Ret o} (ho : o.quiet = true)
    (h : respond w o r = some w') : w.Same w' := by
  cases o
  case eventCtl op fd event =>
    simp only [respond] at h
    split at h
    · split at h
      · exact epollCtl_same h
      · exact Option.some.inj h ▸ .refl w
    · cases h
  all_goals try cases ho
  all_goals simp only [respond] at h
  all_goals repeat' split at h
  all_goals first
    | exact Option.some.inj h ▸ ⟨rfl, rfl, rfl, rfl⟩
    | cases h

theorem respond_idle {w w' : World} {o : Op} {r : Ret o} (ho : o.idle = true)
    (h : respond w o r = some w') : w' = w := by
  cases o
  all_goals try cases ho
  all_goals exact (Option.some.inj h).symm

/-- Only three calls add to the histories. -/
theorem respond_history {w w' : World} {o : Op} {r : Ret o} (h : respond w o r = some w')
    (hwrite : ∀ fd t start count, o ≠ .write fd t start count)
    (hsendfile : ∀ fd file offset count, o ≠ .sendfile fd file offset count)
    (hunregister : ∀ fd c, o ≠ .scheduleUnregister fd c) : w'.sent = w.sent ∧ w'.closes = w.closes := by
  by_cases ho : o.quiet = true
  · have hsame := respond_quiet ho h
    exact ⟨hsame.sent, hsame.closes⟩
  · cases o
    case write fd t start count => exact absurd rfl (hwrite fd t start count)
    case sendfile fd file offset count => exact absurd rfl (hsendfile fd file offset count)
    case scheduleUnregister fd c => exact absurd rfl (hunregister fd c)
    all_goals try exact absurd rfl ho
    all_goals simp only [respond] at h
    all_goals repeat' split at h
    all_goals first
      | exact Option.some.inj h ▸ ⟨rfl, rfl⟩
      | cases h

private theorem may_quiet {g : Guards} {w : World} {o : Op} (ho : o.quiet = true) : g.may w o := by
  cases o <;> first | exact trivial | cases ho

private theorem quiet_of_idle {o : Op} (ho : o.idle = true) : o.quiet = true := by
  cases o <;> first | rfl | cases ho

/-- A descriptor's entry in the schedule table, and the connection behind it. -/
structure Registered (w : World) (fd : Int) (c : ConnId) (h : Handler) (d : Conn) : Prop where
  started : w.te.Started
  wellFormed : w.te.WellFormed
  inRange : w.te.InRange fd
  entry : w.te.lookup fd = some ⟨fd, some h, some c⟩
  conn : w.conns c = some d
  fd : d.fd = fd

/-- A descriptor whose connection has been closed. -/
structure Unregistered (w : World) (fd : Int) : Prop where
  started : w.te.Started
  wellFormed : w.te.WellFormed
  inRange : w.te.InRange fd
  entry : w.te.lookup fd = none

section
variable {w : World} {fd : Int} {c : ConnId} {h : Handler} {d : Conn}

theorem Registered.setConn (hr : Registered w fd c h d) {d' : Conn} (hfd : d'.fd = fd) :
    Registered (w.setConn c (some d')) fd c h d' :=
  ⟨hr.started, hr.wellFormed, hr.inRange, hr.entry, by simp [World.setConn], hfd⟩

theorem Unregistered.same (hu : Unregistered w fd) {w' : World} (hs : w.Same w') : Unregistered w' fd :=
  ⟨hs.te ▸ hu.started, hs.te ▸ hu.wellFormed, hs.te ▸ hu.inRange, hs.te ▸ hu.entry⟩

theorem Registered.same (hr : Registered w fd c h d) {w' : World} (hs : w.Same w') :
    Registered w' fd c h d :=
  ⟨hs.te ▸ hr.started, hs.te ▸ hr.wellFormed, hs.te ▸ hr.inRange, hs.te ▸ hr.entry, hs.conns ▸ hr.conn, hr.fd⟩

theorem Registered.addSent (hr : Registered w fd c h d) (f : Int) (x : Sent) :
    Registered (w.addSent f x) fd c h d :=
  ⟨hr.started, hr.wellFormed, hr.inRange, hr.entry, hr.conn, hr.fd⟩

theorem acceptedText_addSent (w : World) (fd : Int) (x : Sent) :
    acceptedText (w.addSent fd x) fd = acceptedText w fd ++ x.bytes := by
  simp [acceptedText, World.addSent]

/-- `w₁` comes from `w` by taking the descriptor of `c` out of the table. -/
structure Closing (w w₁ : World) (fd : Int) (c : ConnId) (d : Conn) : Prop where
  unregistered : Unregistered w₁ fd
  conn : w₁.conns c = some d
  sent : w₁.sent = w.sent
  closes : w₁.closes c = w.closes c + 1

theorem Registered.setHandler (hr : Registered w fd c h d) {h' : Handler} {r : Int} {w' : World}
    (hs : respond w (.setHandler fd h') r = some w') :
    r = 0 ∧ ∃ te, w' = { w with te := te } ∧ Registered w' fd c h' d := by
  obtain ⟨te, hset⟩ : ∃ te, Event.tgxEventSetHandler w.te fd (some h') none = some (0, te) :=
    TgxEvent.setHandler_registered hr.wellFormed hr.inRange hr.entry rfl
  obtain ⟨rfl, rfl⟩ : r = 0 ∧ { w with te := te } = w' := by simpa [respond, hset] using hs
  obtain ⟨hw, hm, ⟨-, hneg⟩ | ⟨s, hs, -, -, hlook⟩⟩ := TgxEvent.setHandler_spec hr.wellFormed hset
  · cases hneg
  refine ⟨rfl, te, rfl, hr.started.setHandler hset, hw, ?_, ?_, hr.conn, hr.fd⟩
  · simpa [TgxEvent.InRange, hm] using hr.inRange
  · rw [hlook, if_pos rfl, ← Option.some.inj (hr.entry.symm.trans hs)]

theorem Registered.unregister (hr : Registered w fd c h d) {w' : World}
    (hs : respond w (.scheduleUnregister fd c) () = some w') : Closing w w' fd c d := by
  obtain ⟨⟨r, te⟩, hun, rfl⟩ := Option.map_eq_some_iff.mp hs
  obtain ⟨hwf, hmax, hlook⟩ := TgxEvent.unregister_spec hr.wellFormed hr.inRange hun
  exact ⟨⟨hr.started.unregister hun, hwf, by simpa [TgxEvent.InRange, hmax] using hr.inRange, by simp [hlook]⟩,
    hr.conn, rfl, by simp⟩

theorem Closing.free {w₁ w' : World} (hw : Closing w w₁ fd c d)
    (hs : respond w₁ (.freeConnection c) () = some w') :
    Unregistered w' fd ∧ w'.sent = w.sent ∧ w'.closes c = w.closes c + 1 := by
  obtain rfl : w₁.setConn c none = w' := by simpa [respond, hw.conn] using hs
  have hu := hw.unregistered
  exact ⟨⟨hu.started, hu.wellFormed, hu.inRange, hu.entry⟩, hw.sent, hw.closes⟩

theorem Closing.same {w₁ w₂ : World} (hw : Closing w w₁ fd c d) (hs : w₁.Same w₂) : Closing w w₂ fd c d :=
  ⟨hw.unregistered.same hs, hs.conns ▸ hw.conn, hs.sent ▸ hw.sent, hs.closes ▸ hw.closes⟩

theorem dispatchOut_registered (hr : Registered w fd c h d) {fuel : Nat} {p : M Int}
    (hp : dispatchOut fd w fuel = some p) : p = runHandler fuel h (some c) TGX_EVENT_OUT := by
  simp only [dispatchOut] at hp
  split at hp
  · split at hp
    · simp only [TgxEvent.getHandler_spec hr.wellFormed hr.inRange,
        TgxEvent.getContext_spec hr.wellFormed hr.inRange, hr.entry, Option.bind_some] at hp
      exact (Option.some.inj hp).symm
    · cases hp
  · cases hp

theorem dispatchOut_unregistered (hu : Unregistered w fd) (fuel : Nat) : dispatchOut fd w fuel = none := by
  simp only [dispatchOut]
  split
  · split
    · simp [TgxEvent.getHandler_spec hu.wellFormed hu.inRange, hu.entry]
    · rfl
  · rfl

end

section
variable {g : Guards} {outcome : (o : Op) → Ret o → Prop} {stuck : Prop} {α : Type} {post : World → α → Prop}
  {w : World} {fd : Int} {c : ConnId} {h : Handler} {d : Conn}

theorem always_load {f : Conn → M α} (hc : w.conns c = some d)
    (hf : (g.rules outcome stuck).Always post (f d) w) :
    (g.rules outcome stuck).Always post (load c >>= f) w := by
  refine Rules.Always.op trivial ?_
  rintro d' w' ⟨hr, -⟩
  obtain ⟨hd, rfl⟩ : w.conns c = some d' ∧ w = w' := by simpa [respond] using hr
  obtain rfl := Option.some.inj (hc.symm.trans hd)
  exact hf

theorem always_store {f : Unit → M α} {d' : Conn} (hc : w.conns c = some d)
    (hf : (g.rules outcome stuck).Always post (f ()) (w.setConn c (some d'))) :
    (g.rules outcome stuck).Always post (store c d' >>= f) w := by
  refine Rules.Always.op trivial ?_
  rintro ⟨⟩ w' ⟨hr, -⟩
  obtain rfl : w.setConn c (some d') = w' := by simpa [respond, hc] using hr
  exact hf

theorem always_setHandler {f : Int → M α} {h' : Handler} (hreg : Registered w fd c h d)
    (hf : ∀ te, Registered { w with te := te } fd c h' d →
      (g.rules outcome stuck).Always post (f 0) { w with te := te }) :
    (g.rules outcome stuck).Always post (tgxEventSetHandler fd h' >>= f) w := by
  refine Rules.Always.op trivial ?_
  rintro r w' ⟨hr, -⟩
  obtain ⟨rfl, te, rfl, hreg'⟩ := hreg.setHandler hr
  exact hf te hreg'

/-- The rule for a call that keeps what a descriptor's service depends on. -/
theorem always_quiet {o : Op} {f : Ret o → M α} (ho : o.quiet = true)
    (hf : ∀ r w', w.Same w' → outcome o r → (g.rules outcome stuck).Always post (f r) w') :
    (g.rules outcome stuck).Always post (call o >>= f) w := by
  refine Rules.Always.op (may_quiet ho) ?_
  rintro r w' ⟨hr, hout⟩
  exact hf r w' (respond_quiet ho hr) hout

theorem always_idle {o : Op} {f : Ret o → M α} (ho : o.idle = true)
    (hf : ∀ r, outcome o r → (g.rules outcome stuck).Always post (f r) w) :
    (g.rules outcome stuck).Always post (call o >>= f) w := by
  refine Rules.Always.op (may_quiet (quiet_of_idle ho)) ?_
  rintro r w' ⟨hr, hout⟩
  exact respond_idle ho hr ▸ hf r hout

/-- The rule for `write`: what is accepted is recorded. -/
theorem always_write {f : WriteResult → M α} {text : List UInt8} {start count : Int}
    (hm : g.write w fd text start count)
    (haccepted : ∀ n : Nat, n ≤ toSizeT count → outcome (.write fd text start count) (.accepted n) →
      (g.rules outcome stuck).Always post (f (.accepted n)) (w.addSent fd (.text text start n)))
    (hagain : outcome (.write fd text start count) .again → (g.rules outcome stuck).Always post (f .again) w)
    (herror : outcome (.write fd text start count) .error → (g.rules outcome stuck).Always post (f .error) w) :
    (g.rules outcome stuck).Always post (write fd text start count >>= f) w := by
  refine Rules.Always.op hm ?_
  rintro (n | - | -) w' ⟨hr, hout⟩
  · obtain ⟨hn, rfl⟩ : n ≤ toSizeT count ∧ w.addSent fd (.text text start n) = w' := by
      simpa [respond] using hr
    exact haccepted n hn hout
  · obtain rfl := Option.some.inj hr
    exact hagain hout
  · obtain rfl := Option.some.inj hr
    exact herror hout

/-- The rule for `sendfile`. -/
theorem always_sendfile {f : WriteResult → M α} {file : Nat} {offset count : Int}
    (hm : g.sendfile w fd file offset count)
    (haccepted : ∀ n : Nat, n ≤ toSizeT count → outcome (.sendfile fd file offset count) (.accepted n) →
      (g.rules outcome stuck).Always post (f (.accepted n)) (w.addSent fd (.file file offset n)))
    (hagain : outcome (.sendfile fd file offset count) .again →
      (g.rules outcome stuck).Always post (f .again) w)
    (herror : outcome (.sendfile fd file offset count) .error →
      (g.rules outcome stuck).Always post (f .error) w) :
    (g.rules outcome stuck).Always post (sendfile fd file offset count >>= f) w := by
  refine Rules.Always.op hm ?_
  rintro (n | - | -) w' ⟨hr, hout⟩
  · obtain ⟨hn, rfl⟩ : n ≤ toSizeT count ∧ w.addSent fd (.file file offset n) = w' := by
      simpa [respond] using hr
    exact haccepted n hn hout
  · obtain rfl := Option.some.inj hr
    exact hagain hout
  · obtain rfl := Option.some.inj hr
    exact herror hout

end

/-- The calls of a closing, apart from the one that takes the descriptor out of the table. -/
def Op.freeing : Op → Bool
  | .load _ | .close _ | .dlclose | .eventCtl _ _ _ | .freeConnection _ => true
  | _ => false

/-- In the states `lift w` the rules answer the calls of a closing as `w` does. -/
structure Closes {S : Type} (R : Rules Op Ret S) (lift : World → S) : Prop where
  may : ∀ w o, o.freeing = true → R.may (lift w) o
  after : ∀ w o r s', o.freeing = true ∨ (∃ fd c, o = .scheduleUnregister fd c) → R.after (lift w) o r s' →
    ∃ w', s' = lift w' ∧ respond w o r = some w'

section
variable {S : Type} {R : Rules Op Ret S} {lift : World → S} {α : Type} {post : S → α → Prop} {w w₁ : World} {fd : Int}
  {c : ConnId} {h : Handler} {d : Conn}

theorem Closes.op (hR : Closes R lift) {o : Op} {f : Ret o → M α} (ho : o.freeing = true)
    (hf : ∀ r w', respond w o r = some w' → R.Always post (f r) (lift w')) :
    R.Always post (call o >>= f) (lift w) := by
  refine Rules.Always.op (hR.may w o ho) ?_
  intro r s' hafter
  obtain ⟨w', rfl, hr⟩ := hR.after w o r s' (.inl ho) hafter
  exact hf r w' hr

theorem Closes.load (hR : Closes R lift) {f : Conn → M α} (hc : w.conns c = some d)
    (hf : R.Always post (f d) (lift w)) : R.Always post (load c >>= f) (lift w) := by
  refine hR.op rfl fun d' w' hr => ?_
  obtain ⟨hd, rfl⟩ : w.conns c = some d' ∧ w = w' := by simpa [respond] using hr
  obtain rfl := Option.some.inj (hc.symm.trans hd)
  exact hf

/-- `tgx_free_connection`, once the descriptor is out of the table. -/
theorem Closes.tgxFreeConnection (hR : Closes R lift) {f : Unit → M α} (hw : Closing w w₁ fd c d)
    (hf : ∀ w', Unregistered w' fd → w'.sent = w.sent → w'.closes c = w.closes c + 1 →
      R.Always post (f ()) (lift w')) :
    R.Always post (tgxFreeConnection c >>= f) (lift w₁) := by
  have hend : ∀ w₁, Closing w w₁ fd c d → R.Always post (freeConnection c >>= f) (lift w₁) := by
    intro w₁ hw
    refine hR.op rfl fun _ w' hr => ?_
    obtain ⟨hu, hsent, hcloses⟩ := hw.free hr
    exact hf w' hu hsent hcloses
  have hdlclose : ∀ w₁, Closing w w₁ fd c d → R.Always post
      ((if d.dlopenHandle = true then do dlclose; freeConnection c else freeConnection c) >>= f) (lift w₁) := by
    intro w₁ hw
    split
    · simp only [bind_assoc]
      exact hR.op rfl fun _ w₂ hr => hend w₂ (hw.same (respond_quiet rfl hr))
    · exact hend w₁ hw
  simp only [Core.tgxFreeConnection, bind_assoc]
  refine hR.load hw.conn ?_
  split
  · simp only [bind_assoc]
    exact hR.op rfl fun _ w₂ hr => hdlclose w₂ (hw.same (respond_quiet rfl hr))
  · exact hdlclose w₁ hw

/-- Closing takes the descriptor out of the table, and frees the connection. -/
theorem Closes.tgxCloseConnection (hR : Closes R lift) {f : Unit → M α} (hreg : Registered w fd c h d)
    (hm : R.may (lift w) (.scheduleUnregister fd c))
    (hf : ∀ w', Unregistered w' fd → w'.sent = w.sent → w'.closes c = w.closes c + 1 →
      R.Always post (f ()) (lift w')) :
    R.Always post (tgxCloseConnection c >>= f) (lift w) := by
  obtain rfl := hreg.fd
  simp only [Core.tgxCloseConnection, bind_assoc]
  refine hR.load hreg.conn (Rules.Always.op hm ?_)
  rintro r s' hafter
  obtain ⟨w₁, rfl, hr⟩ := hR.after w _ r s' (.inr ⟨_, _, rfl⟩) hafter
  have hw := hreg.unregister hr
  split
  · simp only [bind_assoc]
    exact hR.op rfl fun _ w₂ hr => hR.tgxFreeConnection (hw.same (respond_quiet rfl hr)) hf
  · exact hR.tgxFreeConnection hw hf

end

private theorem closes_rules (g : Guards) (outcome : (o : Op) → Ret o → Prop) (stuck : Prop) :
    Closes (g.rules outcome stuck) id where
  may w o ho := by cases o <;> first | exact trivial | cases ho
  after _ _ _ s' _ hafter := ⟨s', rfl, hafter.1⟩

theorem always_tgxCloseConnection {g : Guards} {outcome : (o : Op) → Ret o → Prop} {stuck : Prop} {α : Type}
    {post : World → α → Prop} {w : World} {fd : Int} {c : ConnId} {h : Handler} {d : Conn} {f : Unit → M α}
    (hreg : Registered w fd c h d) (hm : g.unregister w)
    (hf : ∀ w', Unregistered w' fd → w'.sent = w.sent → w'.closes c = w.closes c + 1 →
      (g.rules outcome stuck).Always post (f ()) w') :
    (g.rules outcome stuck).Always post (tgxCloseConnection c >>= f) w :=
  (closes_rules g outcome stuck).tgxCloseConnection hreg hm hf

/-- Connection 0 on descriptor 5, with `h` as its handler and `mask` in the interest set. -/
def oneConnection (h : Handler) (d : Conn) (mask : Option UInt32) : World where
  te := (tgxEventInit 8 3).bump.setSlot ⟨5, by decide⟩ (some ⟨5, some h, some 0⟩)
  interest fd := if fd = 5 then mask else none
  sockets fd := if fd = 5 then .open (some 0) else .closed
  conns c := if c = 0 then some d else none
  nextConn := 1
  wrappers id := if id = 0 then some false else none
  nextWrapper := 1
  nextTask := 1
  queue := []
  closes _ := 0
  sent _ := []

theorem oneConnection_registered (h : Handler) {d : Conn} (mask : Option UInt32) (hd : d.fd = 5) :
    Registered (oneConnection h d mask) 5 0 h d where
  started := ⟨rfl, show (0 : Int) ≤ 3 by decide⟩
  wellFormed :=
    have hempty : SlotTable.Unique Schedule.fd fun _ : Fin 8 => (none : Option (Schedule Handler ConnId)) :=
      fun _ _ _ _ h => by cases h
    hempty.put fun _ _ _ h => by cases h
  inRange := ⟨by decide, show (5 : Int) < 8 by decide⟩
  entry := rfl
  conn := rfl
  fd := hd

end TinyosGraphics.Core
