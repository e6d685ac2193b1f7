import TinyosGraphics.Server.Invariant

/-! Runs of the server: every program keeps to the rules with what its thread holds, in every state of
every run in which no worker wakes a connection that the loop is still going through. -/
namespace TinyosGraphics.Server
open Lib Event Core

variable {n : Nat}

/-- The workers let the loop finish: none of them changes the handler of the first descriptor of a
batch while the loop has iterations of this batch left. -/
def State.SwitchesLate (s : State n) : Label n → Prop
  | .call (.worker _) ⟨.setHandler fd _, _⟩ => s.left ≠ 0 → fd ≠ s.world.te.first.fd
  | _ => True

/-- The answers that the promise of `luck` rules out do not come. -/
def Label.Granted (luck : Luck) : Label n → Prop
  | .call t r => luck.Grants t.isLoop r.1 r.2
  | _ => True

def Orderly (luck : Luck) (s : State n) (l : Label n) : Prop :=
  s.SwitchesLate l ∧ l.Granted luck

/-- Nothing is promised. -/
def Luck.none : Luck := ⟨False, False⟩

/-- Where nothing is promised for new connections, only the buffer of a response header is of interest. -/
theorem Label.granted_of_header {luck : Luck} {l : Label n} (hnew : ¬ luck.accepting)
    (hheader : luck.header → ∀ t r, l = .call t ⟨.calloc (.string .httpRespHeader), r⟩ → r = true) :
    l.Granted luck := by
  cases l with
  | call t r =>
    obtain ⟨o, r⟩ := r
    cases o
    case calloc what =>
      cases what with
      | string field =>
        cases field with
        | httpReqBuf => trivial
        | httpRespHeader => exact fun h => hheader h t r rfl
      | connectionField f => exact fun h => absurd h hnew
      | _ => trivial
    case callocConnection f => exact fun h => absurd h hnew
    case scheduleRegister f h c => exact fun h => absurd h hnew
    case eventCtl op f event =>
      cases op with
      | ADD => exact fun h => absurd h hnew
      | _ => trivial
    all_goals trivial
  | _ => trivial

theorem Label.granted_none (l : Label n) : l.Granted .none :=
  granted_of_header id False.elim

/-- A connection that a worker has, or will take out of the queue. -/
def Holding.Away (g : Holding n) (c : ConnId) : Prop :=
  (∃ i, (g (.thread (.worker i))).conn = some c) ∨ ∃ d, g (.shelf c) = .held c d false

/-- What has been taken out of the interest set does nothing when the loop comes across it. -/
def Asleep (w : World) (h : Hold) : Prop :=
  ∀ c d, h = .held c d false →
    w.te.lookup d.fd = some ⟨d.fd, some .tgxConnectionHandlerNoOperation, some c⟩

def Ends (luck : Luck) : Thread n → Hold → Int → Prop
  | .loop, h, _ => Done luck h
  | .worker _, h, _ => h = .nothing ∨ ∃ c, h = .freed c

structure Inv (luck : Luck) (listenFd : Int) (s : State n) (g : Holding n) : Prop where
  owned : Owned listenFd s.world g
  asleep : Asleep s.world (g (.thread .loop))
  idle : ∀ t, s.running t = none → g (.thread t) = .nothing
  busy : ∀ t p, s.running t = some p → (Hold.rules luck t.isLoop).Always (Ends luck t) p (g (.thread t))
  /-- the loop comes across connections on their way, but only with the handler that does nothing -/
  first : s.left ≠ 0 → ∀ e c, s.world.te.lookup s.world.te.first.fd = some e → e.context = some c →
    g.Away c → e.handler = some .tgxConnectionHandlerNoOperation

section
variable {luck : Luck} {onLoop : Bool} {w w' : World} {h h' : Hold} {o : Op} {r : Ret o}

def writesTable : Op → Bool
  | .setHandler _ _ | .scheduleRegister _ _ _ | .scheduleUnregister _ _ => true
  | _ => false

theorem respond_te (hr : respond w o r = some w') (ho : writesTable o = false) : w'.te = w.te := by
  cases o
  case setHandler f h' => cases ho
  case scheduleRegister f h' c => cases ho
  case scheduleUnregister f c => cases ho
  case eventCtl op f event =>
    obtain ⟨_, rfl⟩ := eventCtl_world hr
    rfl
  all_goals simp only [respond] at hr
  all_goals repeat' split at hr
  all_goals first
    | exact Option.some.inj hr ▸ rfl
    | cases hr

theorem Asleep.frame (ha : Asleep w h) (ht : Touches w w' h') (hdesc : ∀ f, h.desc = some f → h'.desc ≠ some f) :
    Asleep w' h := by
  rintro c d rfl
  rw [(ht.lookup d.fd (hdesc d.fd rfl)).1]
  exact ha c d rfl

/-- The loop wakes nothing that it has taken out of the interest set. -/
theorem Asleep.call (ha : Asleep w h) (hs : Sees w h) (hmay : h.may luck true o)
    (hr : respond w o r = some w') : Asleep w' (h.next o r) := by
  have hte := respond_te hr
  have hch := changes_call (r := r) hmay
  generalize h.next o r = h', h.gives o r = g at hch
  cases hch with
  | stay _ hnext =>
    rintro c d rfl
    have ho : writesTable o = false := by
      cases o
      case setHandler f h' =>
        obtain ⟨_, _, _, hheld, -, -, rfl | ⟨hworker, -⟩⟩ := hmay
        · cases hheld
        · cases hworker
      case scheduleRegister f h' c' =>
        obtain ⟨_, hfresh, -⟩ := hmay
        cases hfresh
      case scheduleUnregister f c' => cases hnext
      all_goals rfl
    rw [hte ho]
    exact ha c d rfl
  | storeHeld hfd =>
    intro c d' hheld
    obtain ⟨rfl, rfl, rfl⟩ := Hold.held.inj hheld
    rw [hte rfl, hfd]
    exact ha _ _ rfl
  | disarmed =>
    intro c d hheld
    obtain ⟨rfl, rfl, -⟩ := Hold.held.inj hheld
    rw [hte rfl]
    exact hs.2.2.2.entry
  | _ => rintro _ _ ⟨⟩

end

section
variable {luck : Luck} {listenFd : Int} {e404 : List UInt8} {s s' : State n} {g : Holding n}

theorem record_spec (s : State n) (t : Thread n) (o : Op) (r : Ret o) :
    (s.record t o r).world = s.world ∧ (s.record t o r).left = s.left ∧
      (s.record t o r).running = s.running := by
  unfold State.record
  repeat' split
  all_goals exact ⟨rfl, rfl, rfl⟩

private theorem Inv.threads (hi : Inv luck listenFd s g) {t : Thread n} {p : Option (M Int)} {g' : Holding n}
    (hg : ∀ t', t' ≠ t → g' (.thread t') = g (.thread t')) (hidle : p = none → g' (.thread t) = .nothing)
    (hbusy : ∀ q, p = some q → (Hold.rules luck t.isLoop).Always (Ends luck t) q (g' (.thread t))) :
    (∀ t', Function.update s.running t p t' = none → g' (.thread t') = .nothing) ∧
      ∀ t' q, Function.update s.running t p t' = some q →
        (Hold.rules luck t'.isLoop).Always (Ends luck t') q (g' (.thread t')) := by
  constructor
  · intro t' ht'
    by_cases ht : t' = t
    · subst ht
      rw [Function.update_self] at ht'
      exact hidle ht'
    · rw [Function.update_of_ne ht] at ht'
      rw [hg t' ht]
      exact hi.idle t' ht'
  · intro t' q hq
    by_cases ht : t' = t
    · subst ht
      rw [Function.update_self] at hq
      exact hbusy q hq
    · rw [Function.update_of_ne ht] at hq
      rw [hg t' ht]
      exact hi.busy t' q hq

theorem Holding.put_other (g : Holding n) {t t' : Thread n} (ht : t' ≠ t) (h : Hold)
    (given : Option (ConnId × Conn × Bool)) : g.put t h given (.thread t') = g (.thread t') := by
  obtain ⟨heq, -⟩ | ⟨_, _, _, -, heq, -⟩ | ⟨-, -, hput⟩ := g.put_cases t h given (.thread t')
  · exact absurd (Holder.thread.inj heq) ht
  · cases heq
  · exact hput

/-- What rests on its shelf stays there when a thread puts something else down. -/
theorem Inv.shelf_put {t : Thread n} {c : ConnId} {d : Conn} (hi : Inv luck listenFd s g)
    (hshelf : g (.shelf c) = .held c d true) {h : Hold} {given : Option (ConnId × Conn × Bool)}
    (hgiven : ∀ c d a, given = some (c, d, a) → (g (.thread t)).conn = some c) :
    g.put t h given (.shelf c) = .held c d true := by
  obtain ⟨heq, -⟩ | ⟨c', d', a, hg, heq, -⟩ | ⟨-, -, hput⟩ := g.put_cases t h given (.shelf c)
  · cases heq
  · obtain rfl := Holder.shelf.inj heq
    have hsame := hi.owned.alone (.shelf c) (.thread t) c (by rw [hshelf]; rfl) (hgiven c d' a hg)
    cases hsame
  · exact hput.trans hshelf

theorem registered_conn {h : Hold} {c : ConnId} (hc : h.registered = some c) : h.conn = some c := by
  cases h
  case held c' d a => exact hc
  case lulled c' d => exact hc
  all_goals cases hc

theorem Holding.Away.conn {c : ConnId} (ha : g.Away c) : ∃ x, x ≠ .thread .loop ∧ (g x).conn = some c := by
  obtain ⟨i, hworker⟩ | ⟨d, hshelf⟩ := ha
  · exact ⟨.thread (.worker i), nofun, hworker⟩
  · exact ⟨.shelf c, nofun, by rw [hshelf]; rfl⟩

private theorem Holding.Away.of_put {t : Thread n} {h : Hold} {given : Option (ConnId × Conn × Bool)} {c : ConnId}
    (ha : (g.put t h given).Away c) (hh : h.conn ≠ some c) (hgiven : ∀ d a, given ≠ some (c, d, a)) :
    g.Away c := by
  obtain ⟨i, hworker⟩ | ⟨d, hshelf⟩ := ha
  · by_cases ht : .worker i = t
    · rw [ht, put_thread] at hworker
      exact absurd hworker hh
    · rw [put_other g ht] at hworker
      exact .inl ⟨i, hworker⟩
  · obtain ⟨heq, -⟩ | ⟨c', d', a, hg, heq, -⟩ | ⟨-, -, hput⟩ := g.put_cases t h given (.shelf c)
    · cases heq
    · obtain rfl := Holder.shelf.inj heq
      exact absurd hg (hgiven d' a)
    · rw [hput] at hshelf
      exact .inr ⟨d, hshelf⟩

/-- What the loop comes across during a call of `t` that does not change handlers. -/
private theorem Inv.first_call (hi : Inv luck listenFd s g) {t : Thread n} {o : Op} {r : Ret o} {w' : World}
    (hmay : (g (.thread t)).may luck t.isLoop o) (hr : respond s.world o r = some w')
    (hm : Moved s.world w' (g (.thread t)) ((g (.thread t)).next o r) ((g (.thread t)).gives o r))
    (ho : Owned listenFd w' (g.put t ((g (.thread t)).next o r) ((g (.thread t)).gives o r)))
    (hlate : s.SwitchesLate (.call t ⟨o, r⟩)) (hleft : s.left ≠ 0) {e : Schedule Handler ConnId} {c : ConnId}
    (he : w'.te.lookup w'.te.first.fd = some e) (hc : e.context = some c)
    (ha : (g.put t ((g (.thread t)).next o r) ((g (.thread t)).gives o r)).Away c) :
    e.handler = some .tgxConnectionHandlerNoOperation := by
  rw [hm.touches.first] at he
  by_cases hown : (g (.thread t)).desc = some s.world.te.first.fd
  · obtain hkept | ⟨c', d, a, hg, hfd⟩ | hnone := hm.desc _ hown
    · -- the thread still has it, so it is a worker
      obtain ⟨c', hregistered, hcontext⟩ := hm.sees.registered hkept he
      obtain rfl := Option.some.inj (hcontext.symm.trans hc)
      obtain ⟨x, hloop, hx⟩ := ha.conn
      obtain rfl := ho.alone x (.thread t) c' hx (by rw [Holding.put_thread]; exact registered_conn hregistered)
      have hte : w'.te = s.world.te := by
        apply respond_te hr
        cases o
        case setHandler f h' =>
          obtain ⟨c, d, a, hheld, rfl, -⟩ := hmay
          rw [hheld] at hown
          cases t with
          | loop => exact absurd rfl hloop
          | worker i => exact absurd (Option.some.inj hown) (hlate hleft)
        case scheduleRegister f h' c => cases hregistered
        case scheduleUnregister f c =>
          obtain ⟨d, a, hheld, -⟩ := hmay
          rw [hheld] at hregistered
          cases hregistered
        all_goals rfl
      rw [hte] at he
      obtain ⟨c'', hregistered', hcontext'⟩ := (hi.owned.sees _).registered hown he
      obtain rfl := Option.some.inj (hcontext'.symm.trans hc)
      cases t with
      | loop => exact absurd rfl hloop
      | worker i => exact hi.first hleft e c'' he hc (.inl ⟨i, registered_conn hregistered'⟩)
    · -- the thread has put it down
      rw [← hfd] at he
      obtain ⟨c'', hregistered, hcontext⟩ := (hm.given c' d a hg).registered rfl he
      obtain rfl := Option.some.inj hregistered
      obtain rfl := Option.some.inj (hcontext.symm.trans hc)
      obtain ⟨hconn, -, -, -, hpush⟩ := gives_cases hmay hg
      cases a with
      | true =>
        rw [hg] at ha ho
        obtain ⟨i, hworker⟩ | ⟨d', hshelf⟩ := ha
        · have heq := ho.alone (.thread (.worker i)) (.shelf c') c' hworker (by rw [Holding.put_shelf]; rfl)
          cases heq
        · rw [Holding.put_shelf] at hshelf
          cases hshelf
      | false =>
        obtain ⟨task, rfl⟩ := hpush.mp rfl
        obtain ⟨d', hheld, -⟩ := hmay
        rw [respond_te hr rfl] at he
        cases t with
        | loop =>
          rw [hfd, ← Option.some.inj ((congrArg Hold.desc hheld).symm.trans hown)] at he
          rw [hi.asleep _ _ hheld] at he
          rw [← Option.some.inj he]
        | worker i =>
          rw [hfd] at he
          exact hi.first hleft e c' he hc (.inl ⟨i, hconn⟩)
    · rw [hnone] at he
      cases he
  · -- somebody else has it
    rw [(hm.touches.lookup _ hown).1] at he
    obtain ⟨x, hregistered, hdesc⟩ := hi.owned.entries _ e c he hc
    have hx := registered_conn hregistered
    have hnot : (g (.thread t)).conn ≠ some c := by
      intro hconn
      rw [hi.owned.alone x (.thread t) c hx hconn] at hdesc
      exact hown hdesc
    apply hi.first hleft e c he hc
    apply ha.of_put
    · intro hnext
      obtain hconn | hnew := next_conn hmay hr hnext
      · exact hnot hconn
      · exact absurd ((hi.owned.sees x).born hi.owned.sane hx) (not_lt.mpr hnew)
    · intro d a hg
      exact hnot (gives_cases hmay hg).1

theorem Inv.call (hi : Inv luck listenFd s g) {t : Thread n} {r : (o : Op) × Ret o}
    (hok : Orderly luck s (.call t r)) (hs : s.call t r = some s') :
    Inv luck listenFd s' (g.after s (.call t r)) := by
  obtain ⟨o, r⟩ := r
  obtain ⟨k, w', hp, hr, rfl⟩ := State.call_cases hs
  dsimp only at k hp hr
  obtain ⟨hworld, hleft, hrunning⟩ := record_spec s t o r
  have hall := hi.busy t _ hp
  have hmay : (g (.thread t)).may luck t.isLoop o := hall.1
  obtain ⟨hallows, ho⟩ := hi.owned.call hmay hok.2 hr
  obtain ⟨-, hm⟩ := moved_call hi.owned.sane (hi.owned.sees _) hmay
    (fun _ _ hf => hi.owned.fd_on_loop hf) hok.2 hr
  obtain ⟨hidle, hbusy⟩ := hi.threads (t := t) (p := some (k r))
    (fun t' ht' => g.put_other ht' ((g (.thread t)).next o r) ((g (.thread t)).gives o r)) nofun (by
      intro q hq
      obtain rfl := Option.some.inj hq
      rw [Holding.put_thread]
      exact hall.step ⟨hallows, rfl⟩)
  constructor
  · exact ho
  · by_cases ht : .loop = t
    · subst ht
      simpa [Holding.after] using hi.asleep.call (hi.owned.sees _) hmay hr
    · have hloop : g.after s (.call t ⟨o, r⟩) (.thread .loop) = g (.thread .loop) := g.put_other ht _ _
      rw [hloop]
      refine hi.asleep.frame hm.touches fun f hf hown => ht ?_
      exact Holder.thread.inj (hi.owned.desc_apart hf hown)
  · intro t' ht'
    apply hidle
    simpa only [State.run, hrunning] using ht'
  · intro t' q hq
    apply hbusy
    simpa only [State.run, hrunning] using hq
  · intro hne e c he hc ha
    exact hi.first_call hmay hr hm ho hok.1 (hleft ▸ hne) he hc ha

/-- The loop finds what is registered for the first descriptor of the batch. -/
theorem lookedUp_first {w : World} {index fd : Int} {handler : Option Handler} {context : Option ConnId} (hw : Sane w)
    (hfd : tgxEventGetFd w.te (tgxEventGetNextIndex w.te index) = some fd)
    (hhandler : tgxEventGetHandler w.te fd = some handler) (hcontext : tgxEventGetContext w.te fd = some context) :
    fd = w.te.first.fd ∧ handler = (w.te.lookup fd).bind Schedule.handler ∧
      context = (w.te.lookup fd).bind Schedule.context := by
  have hfirst : tgxEventGetFd w.te 0 = some w.te.first.fd := TgxEvent.getFd_spec hw.started ⟨0, w.te.maxfds_pos⟩
  rw [TgxEvent.getNextIndex_zero hw.started, hfirst] at hfd
  have hrange := TgxEvent.inRange_of_getContext hcontext
  rw [TgxEvent.getHandler_spec hw.wellFormed hrange] at hhandler
  rw [TgxEvent.getContext_spec hw.wellFormed hrange] at hcontext
  exact ⟨(Option.some.inj hfd).symm, (Option.some.inj hhandler).symm, (Option.some.inj hcontext).symm⟩

/-- An iteration looks up the first descriptor of the batch. -/
theorem iterate_spec {fuel : Nat} (hw : Sane s.world) (h : s.iterate fuel = some s') :
    s.running .loop = none ∧ ∃ left event, s.left = left + 1 ∧
      (((s.world.te.lookup s.world.te.first.fd).bind Schedule.handler = none ∧
          s' = { s with left := left, index := tgxEventGetNextIndex s.world.te s.index }) ∨
        ∃ handler, (s.world.te.lookup s.world.te.first.fd).bind Schedule.handler = some handler ∧
          s' = { s with
            left := left
            index := tgxEventGetNextIndex s.world.te s.index
            serving := (s.world.te.lookup s.world.te.first.fd).bind Schedule.context
            accepted := [] }.run .loop (some (runHandler fuel handler
              ((s.world.te.lookup s.world.te.first.fd).bind Schedule.context) event))) := by
  obtain ⟨hidle, left, fd, handler, context, event, hleft, hfd, hhandler, hcontext, hcases⟩ :=
    State.iterate_cases h
  obtain ⟨rfl, rfl, rfl⟩ := lookedUp_first hw hfd hhandler hcontext
  exact ⟨hidle, left, event, hleft, hcases⟩

private theorem handler_registered {w : World} {h : Hold} {c : ConnId} {f : Int} {e : Schedule Handler ConnId}
    (hs : Sees w h) (hc : h.registered = some c) (hf : h.desc = some f) (he : w.te.lookup f = some e) :
    ∃ handler, e.handler = some handler ∧ handler ≠ .tgxAcceptionHandler := by
  cases h
  case held c' d a =>
    obtain ⟨-, -, -, handler, hne, hdesc⟩ := hs
    obtain rfl := Option.some.inj hf
    rw [hdesc.entry] at he
    exact ⟨handler, by rw [← Option.some.inj he], hne⟩
  case lulled c' d =>
    obtain rfl := Option.some.inj hf
    rw [hs.2.2.2.entry] at he
    exact ⟨.tgxConnectionHandlerNoOperation, by rw [← Option.some.inj he], nofun⟩
  all_goals cases hc

/-- A connection that the idle loop finds in the table is on its shelf and armed, or on its way. -/
theorem Inv.found (hi : Inv luck listenFd s g) (hidle : s.running .loop = none) {f : Int}
    {e : Schedule Handler ConnId} {c : ConnId} (he : s.world.te.lookup f = some e) (hc : e.context = some c) :
    (∃ handler, e.handler = some handler ∧ handler ≠ .tgxAcceptionHandler) ∧
      ((∃ d, g (.shelf c) = .held c d true) ∨ g.Away c ∧ (s.world.interest f).isSome = false ∧
        ∀ d, g (.shelf c) ≠ .held c d true) := by
  obtain ⟨x, hregistered, hdesc⟩ := hi.owned.entries f e c he hc
  refine ⟨handler_registered (hi.owned.sees x) hregistered hdesc he, ?_⟩
  have hx := registered_conn hregistered
  have harmed : ∀ d, g x = .held c d false → (s.world.interest f).isSome = false := by
    intro d hheld
    have hs := hi.owned.sees x
    rw [hheld] at hs hdesc
    obtain ⟨-, -, -, handler, -, hhas⟩ := hs
    exact Option.some.inj hdesc ▸ hhas.armed
  cases x with
  | thread t =>
    cases t with
    | loop =>
      rw [hi.idle .loop hidle] at hregistered
      cases hregistered
    | worker i =>
      refine .inr ⟨.inl ⟨i, hx⟩, ?_, ?_⟩
      · have hworker := hi.owned.workers i
        cases hg : g (.thread (.worker i)) with
        | held c' d a =>
          rw [hg] at hworker hregistered
          obtain rfl := Option.some.inj hregistered
          exact harmed d (by rw [hg, hworker.1])
        | lulled c' d =>
          rw [hg] at hworker
          exact hworker.elim
        | _ =>
          rw [hg] at hregistered
          cases hregistered
      · intro d hheld
        have heq := hi.owned.alone (.thread (.worker i)) (.shelf c) c hx (by rw [hheld]; rfl)
        cases heq
  | shelf c' =>
    obtain hnone | ⟨d, a, hheld, -⟩ := hi.owned.shelves c'
    · rw [hnone] at hregistered
      cases hregistered
    · rw [hheld] at hregistered
      obtain rfl := Option.some.inj hregistered
      cases a with
      | true => exact .inl ⟨d, hheld⟩
      | false =>
        refine .inr ⟨.inr ⟨d, hheld⟩, harmed d hheld, ?_⟩
        intro d' hheld'
        rw [hheld] at hheld'
        cases hheld'

namespace Holding

@[simp]
theorem pick_thread (g : Holding n) (t : Thread n) (c : ConnId) : g.pick t c (.thread t) = g (.shelf c) := by
  have hne : Holder.thread t ≠ .shelf c := nofun
  rw [pick, Function.update_of_ne hne, Function.update_self]

theorem pick_other (g : Holding n) {t t' : Thread n} (ht : t' ≠ t) (c : ConnId) :
    g.pick t c (.thread t') = g (.thread t') := by
  have hne : Holder.thread t' ≠ .shelf c := nofun
  have hne' : Holder.thread t' ≠ .thread t := fun h => ht (Holder.thread.inj h)
  rw [pick, Function.update_of_ne hne, Function.update_of_ne hne']

/-- What is away after a connection has been taken off its shelf was away before. -/
private theorem Away.of_pick {t : Thread n} {c c' : ConnId} (ha : (g.pick t c).Away c')
    (hworker : ∀ i, t = .worker i → ∃ d, g (.shelf c) = .held c d false) : g.Away c' := by
  obtain ⟨i, hi⟩ | ⟨d, hshelf⟩ := ha
  · by_cases ht : .worker i = t
    · obtain ⟨d, hheld⟩ := hworker i ht.symm
      rw [ht, pick_thread, hheld] at hi
      obtain rfl := Option.some.inj hi
      exact .inr ⟨d, hheld⟩
    · rw [pick_other g ht] at hi
      exact .inl ⟨i, hi⟩
  · by_cases hc : c' = c
    · subst hc
      rw [pick, Function.update_self] at hshelf
      cases hshelf
    · have hne : Holder.shelf c' ≠ (.shelf c : Holder n) := fun h => hc (Holder.shelf.inj h)
      have hne' : Holder.shelf c' ≠ .thread t := nofun
      rw [pick, Function.update_of_ne hne, Function.update_of_ne hne'] at hshelf
      exact .inr ⟨d, hshelf⟩

end Holding

theorem Inv.iterate (hi : Inv luck listenFd s g) {fuel : Nat} (hs : s.iterate fuel = some s') :
    Inv luck listenFd s' (g.after s (.iterate fuel)) := by
  obtain ⟨hidle, left, event, hleft, hcases⟩ := iterate_spec hi.owned.sane hs
  have hempty := hi.idle .loop hidle
  have hne : s.left ≠ 0 := by omega
  -- the handler starts with `h`, the shelves and the workers keep what they have
  have hstart : ∀ {g' : Holding n} {index : Int} {serving : Option ConnId} {p : M Int},
      Owned listenFd s.world g' → (∀ t', t' ≠ .loop → g' (.thread t') = g (.thread t')) →
      (∀ c, g'.Away c → g.Away c) → Asleep s.world (g' (.thread .loop)) →
      (Hold.rules luck true).Always (fun h _ => Done luck h) p (g' (.thread .loop)) →
      Inv luck listenFd
        ({ s with left := left, index := index, serving := serving, accepted := [] }.run .loop (some p)) g' := by
    intro g' index serving p ho hother haway hasleep hbusy
    obtain ⟨hidle', hbusy'⟩ := hi.threads (t := .loop) (p := some p) hother nofun (by
      intro q hq
      obtain rfl := Option.some.inj hq
      exact hbusy)
    exact ⟨ho, hasleep, hidle', hbusy', fun _ e c he hc ha => hi.first hne e c he hc (haway c ha)⟩
  cases he : s.world.te.lookup s.world.te.first.fd with
  | none =>
    rw [he] at hcases
    obtain ⟨-, rfl⟩ | ⟨handler, hhandler, -⟩ := hcases
    · have hg : g.after s (.iterate fuel) = g := by simp [Holding.after, he]
      rw [hg]
      exact ⟨hi.owned, hi.asleep, hi.idle, hi.busy, fun _ => hi.first hne⟩
    · cases hhandler
  | some e =>
    rw [he] at hcases
    simp only [Option.bind_some] at hcases
    cases hc : e.context with
    | none =>
      have hg : g.after s (.iterate fuel) = g := by simp [Holding.after, he, hc]
      have hlisten := hi.owned.others _ e he hc
      rw [hlisten, hi.owned.listening.entry] at he
      obtain rfl := Option.some.inj he
      obtain ⟨hhandler, -⟩ | ⟨handler, hhandler, rfl⟩ := hcases
      · cases hhandler
      · obtain rfl := Option.some.inj hhandler
        rw [hg]
        apply hstart hi.owned (fun _ _ => rfl) (fun _ ha => ha) hi.asleep
        rw [hempty]
        exact always_tgxAcceptionHandler
    | some c =>
      obtain ⟨⟨handler, hhandler, hh⟩, hplace⟩ := hi.found hidle he hc
      rw [hhandler, hc] at hcases
      obtain ⟨hnone, -⟩ | ⟨_, hsome, rfl⟩ := hcases
      · cases hnone
      obtain rfl := Option.some.inj hsome
      obtain ⟨d, hheld⟩ | ⟨haway, -, hshelf⟩ := hplace
      · have hg : g.after s (.iterate fuel) = g.pick .loop c := by simp [Holding.after, he, hc, hheld]
        have hnot : ∀ c', c' ∈ queued s.world ↔ c' ∈ queued s.world ∧ c' ≠ c := by
          intro c'
          refine ⟨fun hin => ⟨hin, ?_⟩, And.left⟩
          rintro rfl
          obtain ⟨d', hheld'⟩ := (hi.owned.queue c').mp hin
          rw [hheld] at hheld'
          cases hheld'
        have hsees := hi.owned.sees (.shelf c)
        rw [hheld] at hsees
        rw [hg]
        apply hstart
        · exact hi.owned.pick (Alike.refl _) hempty nofun hnot hi.owned.nodup
        · exact fun t' ht' => g.pick_other ht' c
        · exact fun c' ha => ha.of_pick nofun
        · rw [Holding.pick_thread, hheld]
          exact fun _ _ hfalse => nomatch hfalse
        · rw [Holding.pick_thread, hheld]
          exact always_runHandler hsees.2.1 hh
      · have hg : g.after s (.iterate fuel) = g := by
          simp only [Holding.after, he, hc, Option.bind_some]
          split
          · rename_i c' d hheld
            obtain hnone | ⟨d', a, hheld', -⟩ := hi.owned.shelves c
            · rw [hnone] at hheld
              cases hheld
            · rw [hheld'] at hheld
              obtain ⟨rfl, rfl, rfl⟩ := Hold.held.inj hheld
              exact absurd hheld' (hshelf d')
          · rfl
        obtain rfl := Option.some.inj (hhandler.symm.trans (hi.first hne e c he hc haway))
        rw [hg]
        apply hstart hi.owned (fun _ _ => rfl) (fun _ ha => ha) hi.asleep
        rw [hempty]
        trivial

theorem Inv.take (hi : Inv luck listenFd s g) {i : Fin n} (hs : s.take e404 i = some s') :
    Inv luck listenFd s' (g.after s (.take i)) := by
  obtain ⟨hidle, task, queue, hqueue, rfl⟩ := State.take_cases hs
  have hempty := hi.idle (.worker i) hidle
  have hqueued : queued s.world = task.context.tconn :: queue.map fun task => task.context.tconn := by
    simp [queued, hqueue]
  have hnodup := hi.owned.nodup
  rw [hqueued, List.nodup_cons] at hnodup
  obtain ⟨d, hheld⟩ := (hi.owned.queue task.context.tconn).mp (by rw [hqueued]; exact List.mem_cons_self)
  obtain ⟨d', a', hheld', ht⟩ : ∃ d a, g (.shelf task.context.tconn) = .held task.context.tconn d a ∧
      (a = false → d.travelling = true) := by
    refine (hi.owned.shelves task.context.tconn).resolve_left ?_
    rw [hheld]
    simp
  rw [hheld] at hheld'
  obtain ⟨-, rfl, rfl⟩ := Hold.held.inj hheld'
  have hg : g.after s (.take i) = g.pick (.worker i) task.context.tconn := by
    simp [Holding.after, hqueue]
  have hpicked : g.pick (.worker i) task.context.tconn (.thread (.worker i)) =
      .held task.context.tconn d false := by
    rw [Holding.pick_thread, hheld]
  have hsees := hi.owned.sees (.shelf task.context.tconn)
  rw [hheld] at hsees
  have halike : Alike s.world { s.world with queue := queue } := ⟨rfl, rfl, rfl, rfl, rfl, rfl⟩
  obtain ⟨hidle', hbusy'⟩ := hi.threads (t := .worker i) (p := some (State.runTask e404 task))
    (fun t' ht' => g.pick_other ht' task.context.tconn) (by simp) (by
      intro q hq
      obtain rfl := Option.some.inj hq
      rw [hpicked]
      apply (always_runTask hsees.2.1 (ht rfl) rfl).mono
      rintro h r (rfl | rfl)
      · exact .inl rfl
      · exact .inr ⟨_, rfl⟩)
  rw [hg]
  constructor
  · apply hi.owned.pick halike hempty
    · intro _ _
      rw [hheld]
      exact ⟨rfl, ht rfl⟩
    · intro c'
      rw [hqueued]
      show c' ∈ queue.map _ ↔ _
      constructor
      · intro hin
        refine ⟨List.mem_cons_of_mem _ hin, ?_⟩
        rintro rfl
        exact hnodup.1 hin
      · rintro ⟨hin, hne⟩
        exact (List.mem_cons.mp hin).resolve_left hne
    · exact hnodup.2
  · rw [g.pick_other (Thread.loop_ne_worker i)]
    refine hi.asleep.frame (halike.touches .nothing) ?_
    rintro _ _ ⟨⟩
  · exact hidle'
  · exact hbusy'
  · intro hne e c he hc ha
    exact hi.first hne e c he hc (ha.of_pick fun _ _ => ⟨d, hheld⟩)

/-- A thread that ends puts down what it still has. -/
theorem Inv.leave (hi : Inv luck listenFd s g) {t : Thread n} (hs : s.leave t = some s') :
    Inv luck listenFd s' (g.after s (.leave t)) := by
  obtain ⟨ret, hret, rfl⟩ := State.leave_cases hs
  have hends : Ends luck t (g (.thread t)) ret := hi.busy t _ hret
  obtain ⟨given, hg, ho, harmed⟩ : ∃ given, g.after s (.leave t) = g.put t .nothing given ∧
      Owned listenFd s.world (g.put t .nothing given) ∧ ∀ c d a, given = some (c, d, a) → a = true := by
    cases hheld : g (.thread t) with
    | held c d a =>
      rw [hheld] at hends
      obtain rfl : a = true := by
        cases t with
        | loop => exact hends.1
        | worker i =>
          obtain hnone | ⟨c', hfreed⟩ := hends
          · cases hnone
          · cases hfreed
      refine ⟨some (c, d, true), by simp [Holding.after, Holding.leave, hheld], hi.owned.shelve hheld, ?_⟩
      intro c' d' a' hgiven
      obtain ⟨rfl, rfl, rfl⟩ := by simpa using hgiven
      rfl
    | lulled c d =>
      rw [hheld] at hends
      cases t with
      | loop => exact hends.elim
      | worker i =>
        obtain hnone | ⟨c', hfreed⟩ := hends
        · cases hnone
        · cases hfreed
    | _ =>
      refine ⟨none, by simp [Holding.after, Holding.leave, hheld], ?_, fun _ _ _ hgiven => nomatch hgiven⟩
      apply hi.owned.drop
      rw [hheld]
      rfl
  obtain ⟨hidle', hbusy'⟩ := hi.threads (t := t) (p := none)
    (fun t' ht' => g.put_other ht' .nothing given) (fun _ => g.put_thread t .nothing given)
    fun _ hq => nomatch hq
  rw [hg]
  constructor
  · exact ho
  · by_cases ht : .loop = t
    · subst ht
      rw [Holding.put_thread]
      exact fun _ _ hfalse => nomatch hfalse
    · rw [g.put_other ht]
      exact hi.asleep
  · exact hidle'
  · exact hbusy'
  · intro hne e c he hc ha
    apply hi.first hne e c he hc
    obtain ⟨i, hworker⟩ | ⟨d, hshelf⟩ := ha
    · by_cases ht : .worker i = t
      · rw [ht, Holding.put_thread] at hworker
        cases hworker
      · rw [g.put_other ht] at hworker
        exact .inl ⟨i, hworker⟩
    · obtain ⟨heq, -⟩ | ⟨c', d', a, hgiven, heq, hput⟩ | ⟨-, -, hput⟩ := g.put_cases t .nothing given (.shelf c)
      · cases heq
      · obtain rfl := harmed c' d' a hgiven
        rw [hput] at hshelf
        cases hshelf
      · rw [hput] at hshelf
        exact .inr ⟨d, hshelf⟩

theorem Inv.poll (hi : Inv luck listenFd s g) {wait : Option (List EpollEvent)} (hs : s.poll wait = some s') :
    Inv luck listenFd s' (g.after s (.poll wait)) := by
  obtain ⟨hidle, hleft, hbatch, hlength, nEvent, te, hpoll, hcases⟩ := State.poll_cases hs
  have ho := hi.owned.poll hpoll
  have hlookup : ∀ f, te.lookup f = s.world.te.lookup f := by
    obtain ⟨events, rfl⟩ := TgxEvent.poll_events hpoll
    exact fun _ => rfl
  have hasleep : Asleep { s.world with te := te } (g (.thread .loop)) := by
    rw [hi.idle .loop hidle]
    exact fun _ _ hheld => nomatch hheld
  obtain ⟨-, rfl⟩ | ⟨hneg, rfl⟩ := hcases
  · exact ⟨ho, hasleep, hi.idle, hi.busy, fun hne => absurd hleft hne⟩
  · refine ⟨ho, hasleep, hi.idle, hi.busy, ?_⟩
    intro hne e c he hc ha
    rw [hlookup] at he
    have harmed : (s.world.interest te.first.fd).isSome := by
      cases wait with
      | none =>
        simp only [tgxEventPoll, hi.owned.sane.started.engine, tgxLinuxEpollPoll] at hpoll
        exact absurd (Prod.mk.inj hpoll).1.symm hneg
      | some batch =>
        have hb : batch.length ≤ s.world.te.maxfds := hlength
        rw [TgxEvent.poll_spec hi.owned.sane.started hb] at hpoll
        obtain ⟨rfl, rfl⟩ := Prod.mk.inj hpoll
        cases batch with
        | nil => exact absurd rfl hne
        | cons event rest => exact hbatch event List.mem_cons_self
    obtain ⟨-, ⟨d, hheld⟩ | ⟨-, hdisarmed, -⟩⟩ := hi.found hidle he hc
    · obtain ⟨x, hloop, hx⟩ := ha.conn
      obtain rfl := hi.owned.alone x (.shelf c) c hx (by rw [hheld]; rfl)
      obtain ⟨i, hworker⟩ | ⟨d', hshelf⟩ := ha
      · have heq := hi.owned.alone (.thread (.worker i)) (.shelf c) c hworker hx
        cases heq
      · cases hheld.symm.trans hshelf
    · rw [hdisarmed] at harmed
      cases harmed

/-- One orderly step. -/
theorem Inv.step (hi : Inv luck listenFd s g) {l : Label n} (hok : Orderly luck s l)
    (hs : State.step e404 s l = some s') : Inv luck listenFd s' (g.after s l) := by
  cases l with
  | poll wait => exact hi.poll hs
  | iterate fuel => exact hi.iterate hs
  | take i => exact hi.take hs
  | call t r => exact hi.call hok hs
  | leave t => exact hi.leave hs

private theorem inv_fresh (luck : Luck) (hs : s.Fresh listenFd) : Inv luck listenFd s Holding.none where
  owned := owned_fresh hs
  asleep _ _ hheld := nomatch hheld
  idle _ _ := rfl
  busy t p hp := by
    rw [hs.running] at hp
    cases hp
  first hne := absurd hs.left hne

end

/-- The server with the record of who holds what. -/
def watched (n : Nat) (e404 : List UInt8) (listenFd : Int) : Transition (State n × Holding n) (Label n) :=
  (system n e404 listenFd).instrument Holding.none Holding.after

theorem inv_of_reachable {luck : Luck} {e404 : List UInt8} {listenFd : Int} {x : State n × Holding n}
    (h : (watched n e404 listenFd).Reachable (fun x l => Orderly luck x.1 l) x) :
    Inv luck listenFd x.1 x.2 := by
  apply h.invariant
  · rintro ⟨s, g⟩ ⟨hs, rfl⟩
    exact inv_fresh luck hs
  · rintro x l y hx hok hstep
    obtain ⟨hs, hg⟩ := Transition.instrument_step hstep
    rw [hg]
    exact hx.step hok hs

end TinyosGraphics.Server
