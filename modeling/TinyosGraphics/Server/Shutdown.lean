import TinyosGraphics.Server.Handover
import TinyosGraphics.Server.Shadow

/-! The end of `main`: it frees the connections that it finds in the schedule table, then the table and
the event system, and only then waits for the workers. -/
namespace TinyosGraphics.Server
open Lib Event Core

variable {n : Nat}

/-- Where `main` is. -/
inductive Phase
  | loop
  /-- in front of the test of `sched_array[i]` -/
  | scan (i : Nat)
  /-- in `tgx_free_connection`, in front of `close` and in front of `free` -/
  | closing (i : Nat) (c : ConnId)
  | freeing (i : Nat) (c : ConnId)
  /-- in front of `sched_array[i] = NULL` -/
  | clearing (i : Nat)
  /-- in front of `free(sched_array)` and in front of `free(tevent)` -/
  | table
  | event
  /-- in `tgx_task_schedule_destroy` -/
  | joining
  | done

/-- The server and its shutdown. The last two fields are history. -/
structure Stopping (n : Nat) where
  server : State n
  phase : Phase
  /-- the schedule table at the end of the loop -/
  last : TgxEvent Handler ConnId
  /-- the connections that `main` has freed -/
  freed : ConnId → Bool

inductive StopLabel (n : Nat)
  | serve (l : Label n)
  | main

/-- `tgx_linux_epoll_event_free`, as far as the workers can tell. -/
def eventFree (te : TgxEvent Handler ConnId) : TgxEvent Handler ConnId :=
  if te.epollFd > 0 then { te with epollFd := -1 } else te

/-- `sched_array[i] = NULL`; `usedfds` stays as it is. -/
def clearSlot (te : TgxEvent Handler ConnId) (i : Nat) : TgxEvent Handler ConnId :=
  match rawIndex te.maxfds i with
  | some i => te.setSlot i none
  | none => te

/-- `close`. -/
def closeSocket (w : World) (fd : Int) : World :=
  (w.setSocket fd .closed).setInterest fd none

namespace Stopping

def setWorld (x : Stopping n) (w : World) : Stopping n :=
  { x with server := { x.server with world := w } }

/-- The next step of `main` once `running` is 0. The end of the loop and `event_free` are one step, and
so is what it does about the listening descriptor. -/
def main (listenFd : Int) (x : Stopping n) : Option (Stopping n) :=
  let w := x.server.world
  match x.phase with
  | .loop => do
    guard (x.server.running .loop = none ∧ x.server.left = 0)
    return { x.setWorld { w with te := eventFree w.te } with phase := .scan 0, last := w.te }
  | .scan i =>
    if i < w.te.maxfds then
      match w.te.slotAt i with
      | none => some { x with phase := .scan (i + 1) }
      | some e =>
        if e.fd = listenFd then
          some { x.setWorld { closeSocket w listenFd with te := clearSlot w.te i } with phase := .scan (i + 1) }
        else
          match e.context with
          | some c => some { x with phase := .closing i c }
          | none => some { x with phase := .scan (i + 1) }
    else some { x with phase := .table }
  | .closing i c => do
    let d ← w.conns c
    return { x.setWorld (if d.fd > 0 then closeSocket w d.fd else w) with phase := .freeing i c }
  | .freeing i c => do
    let _ ← w.conns c
    return { x.setWorld (w.setConn c none) with phase := .clearing i, freed := Function.update x.freed c true }
  | .clearing i => some { x.setWorld { w with te := clearSlot w.te i } with phase := .scan (i + 1) }
  | .table => some { x with phase := .event }
  | .event => some { x with phase := .joining }
  | .joining => do
    guard (∀ i, x.server.running (.worker i) = none)
    return { x with phase := .done }
  | .done => none

end Stopping

def Label.ofWorker : Label n → Bool
  | .take _ | .call (.worker _) _ | .leave (.worker _) => true
  | _ => false

namespace Stopping

/-- After the loop the workers go on, until they have been waited for. -/
def serve (e404 : List UInt8) (x : Stopping n) (l : Label n) : Option (Stopping n) := do
  match x.phase with
  | .loop => return { x with server := ← State.step e404 x.server l }
  | .done => none
  | _ =>
    guard l.ofWorker
    return { x with server := ← State.step e404 x.server l }

def step (e404 : List UInt8) (listenFd : Int) (x : Stopping n) : StopLabel n → Option (Stopping n)
  | .serve l => x.serve e404 l
  | .main => x.main listenFd

/-- The server in front of `while (running)`; 0 is not the epoll descriptor. -/
structure Fresh (listenFd : Int) (x : Stopping n) : Prop where
  server : x.server.Fresh listenFd
  epollFd : 0 < x.server.world.te.epollFd
  phase : x.phase = .loop
  freed : x.freed = fun _ => false

/-- The connection whose entry `main` has come to. -/
def found (listenFd : Int) (x : Stopping n) : Option ConnId :=
  match x.phase with
  | .scan i => (x.server.world.te.slotAt i).bind fun e => if e.fd = listenFd then none else e.context
  | _ => none

/-- The connection that the next step of a thread reads, writes or frees. -/
def touching (x : Stopping n) : Thread n → Option ConnId
  | .worker i => x.server.touching (.worker i)
  | .loop =>
    match x.phase with
    | .loop => x.server.touching .loop
    | .closing _ c | .freeing _ c => some c
    | _ => none

/-- The next call of a worker goes to the schedule table, or to the event system. -/
def usesTable (x : Stopping n) (i : Fin n) : Bool :=
  match x.server.running (.worker i) with
  | some (.call o _) => writesTable o
  | _ => false

def usesEvent (x : Stopping n) (i : Fin n) : Bool :=
  match x.server.running (.worker i) with
  | some (.call (.eventCtl _ _ _) _) => true
  | _ => x.usesTable i

/-- The condition: no header buffer is refused, the workers let the loop finish, and `main` comes to no
connection that has a task in the queue or with a worker. -/
def Spares (listenFd : Int) (x : Stopping n) : StopLabel n → Prop
  | .serve l => x.server.SwitchesLate l ∧ l.headerHad
  | .main => (x.found listenFd).all fun c => !x.server.away c

instance (listenFd : Int) (x : Stopping n) (l : StopLabel n) : Decidable (x.Spares listenFd l) :=
  match l with
  | .serve _ => inferInstanceAs (Decidable (_ ∧ _))
  | .main => inferInstanceAs (Decidable (_ = true))

end Stopping

def Phase.tableFreed : Phase → Bool
  | event | joining | done => true
  | _ => false

def Phase.eventFreed : Phase → Bool
  | joining | done => true
  | _ => false

def stopping (n : Nat) (e404 : List UInt8) (listenFd : Int) : Transition (Stopping n) (StopLabel n) where
  init := Stopping.Fresh listenFd
  step := Stopping.step e404 listenFd

/-- Nobody touches what has been freed, and in the end the connections of the table have been. -/
structure FreedOnce (x : Stopping n) : Prop where
  spared : ∀ i c, x.touching (.worker i) = some c → x.freed c = false
  live : ∀ t c, x.touching t = some c → (x.server.world.conns c).isSome
  table : x.phase.tableFreed → ∀ i, x.usesTable i = false
  event : x.phase.eventFreed → ∀ i, x.usesEvent i = false
  all : x.phase = .done → ∀ f e c, x.last.lookup f = some e → e.context = some c →
    x.server.world.conns c = none

/-- `main` has seen the slot. -/
def Phase.Passed (j : Nat) : Phase → Prop
  | loop => False
  | scan i | closing i _ | freeing i _ | clearing i => j < i
  | table | event | joining | done => True

private theorem Phase.passed_of_tableFreed {p : Phase} (h : p.tableFreed) (j : Nat) : p.Passed j := by
  cases p with
  | event => trivial
  | joining => trivial
  | done => trivial
  | _ => cases h

private theorem Phase.tableFreed_of_eventFreed {p : Phase} (h : p.eventFreed) : p.tableFreed := by
  cases p with
  | joining => rfl
  | done => rfl
  | _ => cases h

/-- The connections that `main` has come to. -/
def Stopping.Taken (x : Stopping n) (c : ConnId) : Prop :=
  x.freed c = true ∨ ∃ i, x.phase = .closing i c ∨ x.phase = .freeing i c

/-- The descriptors whose entries `main` clears. -/
def Stopping.Gone (listenFd : Int) (x : Stopping n) (g : Holding n) (f : Int) : Prop :=
  f = listenFd ∨ ∃ c d, x.Taken c ∧ g (.shelf c) = .held c d true ∧ d.fd = f

/-- After the loop, the server is beside one that has not been shut down. -/
structure Stopped (listenFd : Int) (x : Stopping n) (s : State n) (g : Holding n) : Prop where
  server : x.server = { s with world := x.server.world }
  idle : s.running .loop = none
  left : s.left = 0
  beside : Beside (x.Gone listenFd g) (fun c => x.freed c = true) s.world x.server.world
  taken : ∀ c, x.Taken c → ∃ d, g (.shelf c) = .held c d true
  freed : ∀ c, x.freed c = true → x.server.world.conns c = none
  once : ∀ i c, x.phase = .closing i c ∨ x.phase = .freeing i c → x.freed c = false
  slot : ∀ i c, x.phase = .closing i c ∨ x.phase = .freeing i c →
    ∀ e, x.server.world.te.slotAt i = some e → e.context = some c
  only : ∀ i c, x.phase = .closing i c ∨ x.phase = .freeing i c →
    ∀ j e, x.server.world.te.slotAt j = some e → e.context = some c → j = i
  cleared : ∀ i, x.phase = .clearing i → ∀ e, x.server.world.te.slotAt i = some e →
    ∃ c, e.context = some c ∧ x.freed c = true
  passed : ∀ j e c, x.server.world.te.slotAt j = some e → e.context = some c → ¬ x.phase.Passed j
  ahead : ∀ j e c, x.server.world.te.slotAt j = some e → e.context = some c → x.freed c = true →
    x.phase = .clearing j
  known : ∀ f e c, x.last.lookup f = some e → e.context = some c →
    (∃ z, (g z).conn = some c) ∨ s.world.conns c = none
  joined : x.phase = .done → ∀ i, s.running (.worker i) = none

section
variable {luck : Luck} {listenFd : Int} {e404 : List UInt8} {x : Stopping n} {s : State n} {g : Holding n}

/-- A worker's step among what `main` has left is a step of the server that has not been shut down. -/
theorem Stopped.next (hstop : Stopped listenFd x s g) (hdone : x.phase ≠ .done) {s₁ s' : State n}
    {g' : Holding n} (hserver : s₁ = { s' with world := s₁.world }) (hidle : s'.running .loop = none)
    (hleft : s'.left = 0)
    (hshelf : ∀ c d, g (.shelf c) = .held c d true → g' (.shelf c) = .held c d true)
    (hbeside : Beside (x.Gone listenFd g) (fun c => x.freed c = true) s'.world s₁.world)
    (hshrinks : Shrinks x.server.world.te s₁.world.te)
    (hfreed : ∀ c, x.freed c = true → s₁.world.conns c = x.server.world.conns c)
    (hheld : ∀ c, (∃ z, (g z).conn = some c) → (∃ z, (g' z).conn = some c) ∨ s'.world.conns c = none)
    (hnone : ∀ c, s.world.conns c = none → s'.world.conns c = none) :
    Stopped listenFd { x with server := s₁ } s' g' := by
  have hgone : ∀ f, x.Gone listenFd g f → Stopping.Gone listenFd { x with server := s₁ } g' f := by
    rintro f (hf | ⟨c, d, hc, hheld, hf⟩)
    · exact .inl hf
    · exact .inr ⟨c, d, hc, hshelf c d hheld, hf⟩
  constructor
  · exact hserver
  · exact hidle
  · exact hleft
  · refine ⟨hbeside.rest, hbeside.wellFormed, hbeside.epollFd, hbeside.maxfds, ?_, hbeside.conns⟩
    exact fun f => (hbeside.lookup f).imp_right fun h => ⟨hgone f h.1, h.2⟩
  · intro c hc
    obtain ⟨d, hd⟩ := hstop.taken c hc
    exact ⟨d, hshelf c d hd⟩
  · exact fun c hc => (hfreed c hc).trans (hstop.freed c hc)
  · exact hstop.once
  · intro i c hphase e' he'
    obtain ⟨e, he, hsame⟩ := hshrinks i e' he'
    exact hsame.symm.trans (hstop.slot i c hphase e he)
  · intro i c hphase j e' he' hc
    obtain ⟨e, he, hsame⟩ := hshrinks j e' he'
    exact hstop.only i c hphase j e he (hsame.trans hc)
  · intro i hphase e' he'
    obtain ⟨e, he, hsame⟩ := hshrinks i e' he'
    rw [← hsame]
    exact hstop.cleared i hphase e he
  · intro j e' c he' hc
    obtain ⟨e, he, hsame⟩ := hshrinks j e' he'
    exact hstop.passed j e c he (hsame.trans hc)
  · intro j e' c he' hc
    obtain ⟨e, he, hsame⟩ := hshrinks j e' he'
    exact hstop.ahead j e c he (hsame.trans hc)
  · intro f e c he hc
    obtain hz | hnever := hstop.known f e c he hc
    · exact hheld c hz
    · exact .inr (hnone c hnever)
  · exact fun h => absurd h hdone

private theorem run_worker_loop (s : State n) (i : Fin n) (p : Option (M Int)) :
    (s.run (.worker i) p).running .loop = s.running .loop := by
  simp only [State.run]
  exact Function.update_of_ne (Thread.loop_ne_worker i) p s.running

theorem Stopped.running (hstop : Stopped listenFd x s g) : x.server.running = s.running := by
  rw [hstop.server]

theorem Stopped.take (hstop : Stopped listenFd x s g) (hi : Inv luck listenFd s g) (hdone : x.phase ≠ .done)
    {i : Fin n} {s₁ : State n} (hs : x.server.take e404 i = some s₁) :
    ∃ s', s.take e404 i = some s' ∧
      Stopped listenFd { x with server := s₁ } s' (g.after s (.take i)) := by
  obtain ⟨hidle, task, queue, hqueue, rfl⟩ := State.take_cases hs
  rw [hstop.running] at hidle
  rw [hstop.beside.queue] at hqueue
  obtain ⟨d, hheld⟩ := (hi.owned.queue task.context.tconn).mp (by simp [queued, hqueue])
  have hg : g.after s (.take i) = g.pick (.worker i) task.context.tconn := by
    simp [Holding.after, hqueue]
  refine ⟨{ s with world := { s.world with queue := queue } }.run (.worker i)
    (some (State.runTask e404 task)), by simp [State.take, hidle, hqueue], ?_⟩
  rw [hg]
  apply hstop.next hdone
  · simp only [State.run]
    rw [hstop.server]
  · exact (run_worker_loop _ i _).trans hstop.idle
  · exact hstop.left
  · intro c d' hshelf
    obtain ⟨heq, -⟩ | ⟨heq, -⟩ | hx := g.pick_cases (.worker i) task.context.tconn (.shelf c)
    · cases heq
    · obtain rfl := Holder.shelf.inj heq
      cases hshelf.symm.trans hheld
    · exact hx.trans hshelf
  · exact hstop.beside.setQueue queue
  · exact .refl _
  · exact fun _ _ => rfl
  · rintro c ⟨z, hz⟩
    left
    by_cases hshelf : z = .shelf task.context.tconn
    · subst hshelf
      exact ⟨.thread (.worker i), by rwa [Holding.pick_thread]⟩
    · obtain ⟨rfl, -⟩ | ⟨hz', -⟩ | hx := g.pick_cases (.worker i) task.context.tconn z
      · rw [hi.idle (.worker i) hidle] at hz
        cases hz
      · exact absurd hz' hshelf
      · exact ⟨z, by rwa [hx]⟩
  · exact fun _ hc => hc

theorem Stopped.leave (hstop : Stopped listenFd x s g) (hi : Inv luck listenFd s g) (hdone : x.phase ≠ .done)
    {i : Fin n} {s₁ : State n} (hs : x.server.leave (.worker i) = some s₁) :
    ∃ s', s.leave (.worker i) = some s' ∧
      Stopped listenFd { x with server := s₁ } s' (g.after s (.leave (.worker i))) := by
  obtain ⟨ret, hret, rfl⟩ := State.leave_cases hs
  rw [hstop.running] at hret
  have hends : g (.thread (.worker i)) = .nothing ∨ ∃ c, g (.thread (.worker i)) = .freed c :=
    hi.busy (.worker i) _ hret
  have hg : g.after s (.leave (.worker i)) = g.put (.worker i) .nothing none := by
    obtain hg | ⟨c, d, a, hheld, -⟩ := g.leave_cases (.worker i)
    · exact hg
    · rw [hheld] at hends
      obtain hfalse | ⟨c', hfalse⟩ := hends
      · cases hfalse
      · cases hfalse
  refine ⟨s.run (.worker i) none, by simp [State.leave, hret], ?_⟩
  rw [hg]
  apply hstop.next hdone
  · simp only [State.run]
    rw [hstop.server]
  · exact (run_worker_loop _ i _).trans hstop.idle
  · exact hstop.left
  · intro c d hshelf
    exact hi.shelf_put hshelf (by simp)
  · exact hstop.beside
  · exact .refl _
  · exact fun _ _ => rfl
  · rintro c ⟨z, hz⟩
    by_cases hthread : z = .thread (.worker i)
    · subst hthread
      right
      have hsees := hi.owned.sees (.thread (.worker i))
      obtain hnothing | ⟨c', hfreed⟩ := hends
      · rw [hnothing] at hz
        cases hz
      · rw [hfreed] at hz hsees
        obtain rfl := Option.some.inj hz
        exact hsees.1
    · left
      obtain ⟨heq, -⟩ | ⟨_, _, _, hgiven, -⟩ | ⟨-, -, hx⟩ := g.put_cases (.worker i) .nothing none z
      · exact absurd heq hthread
      · cases hgiven
      · exact ⟨z, by rwa [hx]⟩
  · exact fun _ hc => hc

private theorem record_refused (s : State n) (t : Thread n) (op : CtlOp) (f : Int) (event : UInt32) :
    s.record t (.eventCtl op f event) (-1 : Int) = s := by
  simp only [State.record]
  repeat' split
  all_goals first | rfl | contradiction

private theorem Stopping.Gone.shelved {f : Int} (hgone : x.Gone listenFd g f) (hi : Inv luck listenFd s g)
    {z : Holder n} (hz : (g z).desc = some f) : ∃ c, x.Taken c ∧ z = .shelf c := by
  obtain rfl | ⟨c, d, htaken, hheld, rfl⟩ := hgone
  · exact absurd hz (hi.owned.listen_apart z)
  · exact ⟨c, htaken, hi.owned.desc_apart hz (by rw [hheld]; rfl)⟩

private theorem Stopped.apart (hstop : Stopped listenFd x s g) (hi : Inv luck listenFd s g) {c : ConnId}
    (htaken : x.Taken c) (i : Fin n) : (g (.thread (.worker i))).conn ≠ some c := by
  intro hc
  obtain ⟨d, hheld⟩ := hstop.taken c htaken
  have hsame := hi.owned.alone _ (.shelf c) c hc (by rw [hheld]; rfl)
  cases hsame

private theorem Stopped.unpassed (hstop : Stopped listenFd x s g) (hi : Inv luck listenFd s g) {z : Holder n}
    {c : ConnId}
    {d : Conn} {a : Bool} (hz : g z = .held c d a) (hnot : ¬ x.Gone listenFd g d.fd) : ∃ j, ¬ x.phase.Passed j := by
  have hs := hi.owned.sees z
  rw [hz] at hs
  obtain ⟨-, -, -, handler, -, hdesc⟩ := hs
  have hentry := hdesc.entry
  rw [← hstop.beside.lookup_kept hnot] at hentry
  obtain ⟨j, -, hslot⟩ := lookup_slotAt hentry
  exact ⟨j, hstop.passed j _ c hslot rfl⟩

theorem Stopped.call (hstop : Stopped listenFd x s g) (hi : Inv luck listenFd s g) (hdone : x.phase ≠ .done)
    {i : Fin n} {r : (o : Op) × Ret o} {s₁ : State n} (hs : x.server.call (.worker i) r = some s₁) :
    ∃ s', s.call (.worker i) r = some s' ∧
      Stopped listenFd { x with server := s₁ } s' (g.after s (.call (.worker i) r)) := by
  obtain ⟨o, r⟩ := r
  obtain ⟨k, w', hp, hr, rfl⟩ := State.call_cases hs
  dsimp only at k hp hr
  rw [hstop.running] at hp
  have hmay : (g (.thread (.worker i))).may luck false o := (hi.busy (.worker i) _ hp).1
  have hd := hi.owned.workers i
  have hgone : ∀ f, (g (.thread (.worker i))).desc = some f → ¬ x.Gone listenFd g f := by
    intro f hf hgone
    obtain ⟨c, -, hz⟩ := hgone.shelved hi hf
    cases hz
  have hfreed : ∀ c, (g (.thread (.worker i))).conn = some c → ¬ x.freed c = true :=
    fun c hc hfreed => hstop.apart hi (.inl hfreed) i hc
  obtain ⟨v', hv', hbeside, hshrinks, hkept⟩ := hstop.beside.respond hi.owned.sane (hi.owned.sees _) hd hmay
    hgone hfreed hr
  have hrecord : x.server.record (.worker i) o r =
      { s.record (.worker i) o r with world := x.server.world } := by
    cases o
    case eventCtl op f event =>
      obtain ⟨rfl, -⟩ := eventCtl_refused hstop.beside.epollFd hr
      rw [record_refused, record_refused]
      exact hstop.server
    case accept => cases hmay.1
    all_goals
      rw [hstop.server]
      rfl
  refine ⟨{ s.record (.worker i) o r with world := v' }.run (.worker i) (some (k r)), ?_, ?_⟩
  · simp [State.call, hp, Prog.step, hv']
  obtain ⟨-, hleft, hrunning⟩ := record_spec s (.worker i) o r
  apply hstop.next hdone
  · simp only [State.run]
    rw [hrecord]
  · rw [run_worker_loop]
    exact (congrFun hrunning .loop).trans hstop.idle
  · exact hleft.trans hstop.left
  · intro c d hshelf
    exact hi.shelf_put hshelf fun _ _ _ hg => (gives_cases hmay hg).1
  · exact hbeside
  · exact hshrinks
  · exact hkept
  · rintro c ⟨z, hz⟩
    left
    by_cases hthread : z = .thread (.worker i)
    · subst hthread
      obtain hnext | ⟨d, a, hg⟩ := conn_kept (r := r) hd hmay hz
      · exact ⟨.thread (.worker i), by rwa [Holding.after, Holding.put_thread]⟩
      · exact ⟨.shelf c, by rw [Holding.after, hg, Holding.put_shelf]; rfl⟩
    · obtain ⟨heq, -⟩ | ⟨c', d, a, hg, rfl, -⟩ | ⟨-, -, hx⟩ := g.put_cases (.worker i)
        ((g (.thread (.worker i))).next o r) ((g (.thread (.worker i))).gives o r) z
      · exact absurd heq hthread
      · have hz' : c' = c := by
          obtain hnone | ⟨d', a', hheld, -⟩ := hi.owned.shelves c'
          · rw [hnone] at hz
            cases hz
          · rw [hheld] at hz
            exact Option.some.inj hz
        subst hz'
        exact ⟨.shelf c', by rw [Holding.after, hg, Holding.put_shelf]; rfl⟩
      · exact ⟨z, by rwa [Holding.after, hx]⟩
  · exact fun c hc => respond_unborn hd hmay hv' hc

private theorem clearSlot_cases (te : TgxEvent Handler ConnId) (i : Nat) :
    (∃ j : Fin te.maxfds, j.val = i ∧ clearSlot te i = te.setSlot j none) ∨
      te.slotAt i = none ∧ clearSlot te i = te := by
  simp only [clearSlot, TgxEvent.slotAt]
  cases hi : rawIndex te.maxfds i with
  | none => exact .inr ⟨rfl, rfl⟩
  | some j =>
    refine .inl ⟨j, ?_, rfl⟩
    unfold rawIndex at hi
    split at hi
    · rw [← Option.some.inj hi]
      simp
    · cases hi

private theorem slotAt_clearSlot (te : TgxEvent Handler ConnId) (i j : Nat) :
    (clearSlot te i).slotAt j = if j = i then none else te.slotAt j := by
  obtain ⟨k, rfl, heq⟩ | ⟨hnone, heq⟩ := clearSlot_cases te i
  · rw [heq, slotAt_setSlot]
  · rw [heq]
    split
    · rename_i hj
      rw [hj, hnone]
    · rfl

/-- What becomes of the lookups when the entry of a descriptor that goes is cleared. -/
theorem Beside.clear {gone : Int → Prop} {freed : ConnId → Prop} {v w : World} (hb : Beside gone freed v w)
    {i : Nat} (hgone : ∀ e, w.te.slotAt i = some e → gone e.fd) :
    Beside gone freed v { w with te := clearSlot w.te i } := by
  have hrest : ({ w with te := clearSlot w.te i } : World) =
      { v with te := clearSlot w.te i, interest := w.interest, sockets := w.sockets, conns := w.conns } := by
    rw [hb.rest]
  obtain ⟨k, rfl, heq⟩ | ⟨-, heq⟩ := clearSlot_cases w.te i
  · refine ⟨hrest, ?_, ?_, ?_, ?_, hb.conns⟩
    · rw [heq]
      exact SlotTable.Unique.clear hb.wellFormed k
    · rw [heq]
      exact hb.epollFd
    · rw [heq]
      exact hb.maxfds
    · intro f
      simp only [heq]
      cases he : w.te.schedArray k with
      | none =>
        have hsame : w.te.setSlot k none = w.te := by
          rw [TgxEvent.setSlot, ← he, Function.update_eq_self]
        rw [hsame]
        exact hb.lookup f
      | some e =>
        have hclear : (w.te.setSlot k none).lookup f = if f = e.fd then none else w.te.lookup f :=
          SlotTable.get_clear hb.wellFormed he f
        rw [hclear]
        split
        · rename_i hf
          rw [hf]
          exact .inr ⟨hgone e ((slotAt_fin k).trans he), rfl⟩
        · exact hb.lookup f
  · rw [heq]
    exact hb

private theorem Beside.closeSocket {gone : Int → Prop} {freed : ConnId → Prop} {v w : World}
    (hb : Beside gone freed v w) (f : Int) : Beside gone freed v (closeSocket w f) where
  rest := by
    rw [hb.rest]
    rfl
  wellFormed := hb.wellFormed
  epollFd := hb.epollFd
  maxfds := hb.maxfds
  lookup := hb.lookup
  conns := hb.conns

/-- `main` is not in the middle of an entry. -/
def Phase.between : Phase → Bool
  | loop | closing _ _ | freeing _ _ | clearing _ => false
  | scan _ | table | event | joining | done => true

private theorem taken_between (hbetween : x.phase.between) {c : ConnId} (hc : x.Taken c) : x.freed c = true := by
  obtain hfreed | ⟨i, hphase | hphase⟩ := hc
  · exact hfreed
  · rw [hphase] at hbetween
    cases hbetween
  · rw [hphase] at hbetween
    cases hbetween

private theorem Stopped.goto (hstop : Stopped listenFd x s g) {u : World} {p : Phase}
    (hbeside : Beside (x.Gone listenFd g) (fun c => x.freed c = true) s.world u)
    (hshrinks : Shrinks x.server.world.te u.te) (hconns : u.conns = x.server.world.conns)
    (htaken : ∀ c, x.Taken c → x.freed c = true)
    (hbetween : p.between) (hahead : ∀ j e, x.phase = .clearing j → u.te.slotAt j ≠ some e)
    (hpassed : ∀ j e c, u.te.slotAt j = some e → e.context = some c → ¬ p.Passed j)
    (hjoined : p = .done → ∀ i, s.running (.worker i) = none) :
    Stopped listenFd { x.setWorld u with phase := p } s g := by
  have hnot : ∀ q : Phase, q.between = false → p ≠ q := by
    rintro q hq rfl
    rw [hbetween] at hq
    cases hq
  have hfreed : ∀ c, Stopping.Taken { x.setWorld u with phase := p } c → x.freed c = true :=
    fun c hc => taken_between (x := { x.setWorld u with phase := p }) hbetween hc
  constructor
  · simp only [Stopping.setWorld]
    rw [hstop.server]
  · exact hstop.idle
  · exact hstop.left
  · apply hbeside.mono
    · rintro f (hf | ⟨c, d, hc, hheld, hf⟩)
      · exact .inl hf
      · exact .inr ⟨c, d, .inl (htaken c hc), hheld, hf⟩
    · exact fun _ hc => hc
  · exact fun c hc => hstop.taken c (.inl (hfreed c hc))
  · intro c hc
    exact (congrFun hconns c).trans (hstop.freed c hc)
  · rintro i c (hphase | hphase)
    · exact absurd hphase (hnot _ rfl)
    · exact absurd hphase (hnot _ rfl)
  · rintro i c (hphase | hphase)
    · exact absurd hphase (hnot _ rfl)
    · exact absurd hphase (hnot _ rfl)
  · rintro i c (hphase | hphase)
    · exact absurd hphase (hnot _ rfl)
    · exact absurd hphase (hnot _ rfl)
  · exact fun i hphase => absurd hphase (hnot _ rfl)
  · exact hpassed
  · intro j e' c he' hc hfreed'
    obtain ⟨e, he, hsame⟩ := hshrinks j e' he'
    exact absurd he' (hahead j e' (hstop.ahead j e c he (hsame.trans hc) hfreed'))
  · exact hstop.known
  · exact hjoined

private theorem between_clearing (hbetween : x.phase.between) (j : Nat) : x.phase ≠ .clearing j := by
  intro hphase
  rw [hphase] at hbetween
  cases hbetween

private theorem Stopped.skip (hstop : Stopped listenFd x s g) (hfrom : x.phase.between) {p : Phase} (hp : p.between)
    (hpassed : ∀ j e c, x.server.world.te.slotAt j = some e → e.context = some c → ¬ p.Passed j)
    (hjoined : p = .done → ∀ i, s.running (.worker i) = none) :
    Stopped listenFd { x with phase := p } s g := by
  apply hstop.goto (u := x.server.world) hstop.beside (.refl _) rfl (fun _ => taken_between hfrom) hp
  · exact fun j _ hclearing => absurd hclearing (between_clearing hfrom j)
  · exact hpassed
  · exact hjoined

/-- An entry that is left is an entry of the server that has not been shut down. -/
theorem Stopped.entry (hstop : Stopped listenFd x s g) {j : Nat} {e : Schedule Handler ConnId}
    (he : x.server.world.te.slotAt j = some e) : s.world.te.lookup e.fd = some e := by
  have hlookup := slotAt_lookup hstop.beside.wellFormed he
  obtain hsame | ⟨-, hnone⟩ := hstop.beside.lookup e.fd
  · rw [← hsame, hlookup]
  · rw [hnone] at hlookup
    cases hlookup

private theorem Stopped.entry_fd (hstop : Stopped listenFd x s g) (hi : Inv luck listenFd s g) {j : Nat}
    {e : Schedule Handler ConnId} {c : ConnId} {d : Conn} (he : x.server.world.te.slotAt j = some e)
    (hc : e.context = some c) (hheld : g (.shelf c) = .held c d true) : d.fd = e.fd := by
  obtain ⟨y, hregistered, hdesc⟩ := hi.owned.entries _ e c (hstop.entry he) hc
  obtain rfl := hi.owned.alone y (.shelf c) c (registered_conn hregistered) (by rw [hheld]; rfl)
  rw [hheld] at hdesc
  exact Option.some.inj hdesc

theorem Stopped.gone (hstop : Stopped listenFd x s g) (hi : Inv luck listenFd s g) {j : Nat}
    {e : Schedule Handler ConnId} {c : ConnId} (he : x.server.world.te.slotAt j = some e)
    (hc : e.context = some c) (ht : x.Taken c) : x.Gone listenFd g e.fd := by
  obtain ⟨d, hheld⟩ := hstop.taken c ht
  exact .inr ⟨c, d, ht, hheld, hstop.entry_fd hi he hc hheld⟩

/-- A connection that `main` comes to, and that is not away, is in the interest set and nobody's. -/
theorem Stopped.armed (hstop : Stopped listenFd x s g) (hi : Inv luck listenFd s g) (hrec : Recorded s g)
    {j : Nat} {e : Schedule Handler ConnId} {c : ConnId} (he : x.server.world.te.slotAt j = some e)
    (hc : e.context = some c) (haway : x.server.away c = false) : ∃ d, g (.shelf c) = .held c d true := by
  rw [hstop.server] at haway
  have haway : s.away c = false := haway
  obtain ⟨y, hregistered, -⟩ := hi.owned.entries _ e c (hstop.entry he) hc
  have htells := (hrec.tells y c (registered_conn hregistered)).away
  cases y with
  | thread t =>
    cases t with
    | loop =>
      rw [hi.idle .loop hstop.idle] at hregistered
      cases hregistered
    | worker i =>
      rw [haway] at htells
      cases htells
  | shelf c' =>
    obtain hnone | ⟨d, a, hheld, -⟩ := hi.owned.shelves c'
    · rw [hnone] at hregistered
      cases hregistered
    · rw [hheld] at hregistered htells
      obtain rfl := Option.some.inj hregistered
      cases a with
      | true => exact ⟨d, hheld⟩
      | false =>
        rw [haway] at htells
        cases htells

private theorem shrinks_clearSlot (te : TgxEvent Handler ConnId) (i : Nat) : Shrinks te (clearSlot te i) := by
  intro j e he
  rw [slotAt_clearSlot] at he
  split at he
  · cases he
  · exact ⟨e, he, rfl⟩

private theorem Stopped.come (hstop : Stopped listenFd x s g) (hi : Inv luck listenFd s g) (hrec : Recorded s g)
    {i : Nat} (hphase : x.phase = .scan i) {e : Schedule Handler ConnId} {c : ConnId}
    (he : x.server.world.te.slotAt i = some e) (hc : e.context = some c) (haway : x.server.away c = false) :
    Stopped listenFd { x with phase := .closing i c } s g := by
  obtain ⟨d, hheld⟩ := hstop.armed hi hrec he hc haway
  have hbetween : x.phase.between := by
    rw [hphase]
    rfl
  have hnot : x.freed c = false := by
    by_contra hfreed
    have hclearing := hstop.ahead i e c he hc (by simpa using hfreed)
    rw [hphase] at hclearing
    cases hclearing
  have hcurrent : ∀ {i' c'}, Phase.closing i c = .closing i' c' ∨ Phase.closing i c = .freeing i' c' →
      i = i' ∧ c = c' := by
    rintro i' c' (heq | heq)
    · exact Phase.closing.inj heq
    · cases heq
  constructor
  · exact hstop.server
  · exact hstop.idle
  · exact hstop.left
  · apply hstop.beside.mono
    · rintro f (hf | ⟨c', d', hc', hheld', hf⟩)
      · exact .inl hf
      · exact .inr ⟨c', d', .inl (taken_between hbetween hc'), hheld', hf⟩
    · exact fun _ hfreed => hfreed
  · rintro c' (hfreed | ⟨i', hcur⟩)
    · exact hstop.taken c' (.inl hfreed)
    · obtain ⟨-, rfl⟩ := hcurrent hcur
      exact ⟨d, hheld⟩
  · exact hstop.freed
  · rintro i' c' hcur
    obtain ⟨-, rfl⟩ := hcurrent hcur
    exact hnot
  · rintro i' c' hcur e' he'
    obtain ⟨rfl, rfl⟩ := hcurrent hcur
    obtain rfl := Option.some.inj (he.symm.trans he')
    exact hc
  · rintro i' c' hcur j e' he' hc'
    obtain ⟨rfl, rfl⟩ := hcurrent hcur
    apply slotAt_unique hstop.beside.wellFormed he' he
    rw [← hstop.entry_fd hi he' hc' hheld, ← hstop.entry_fd hi he hc hheld]
  · intro i' hcur
    cases hcur
  · intro j e' c' he' hc'
    have hpassed := hstop.passed j e' c' he' hc'
    rw [hphase] at hpassed
    exact hpassed
  · intro j e' c' he' hc' hfreed
    have hclearing := hstop.ahead j e' c' he' hc' hfreed
    rw [hphase] at hclearing
    cases hclearing
  · exact hstop.known
  · intro hdone
    cases hdone

/-- `close` in `tgx_free_connection`. -/
theorem Stopped.close (hstop : Stopped listenFd x s g) {i : Nat} {c : ConnId} (hphase : x.phase = .closing i c)
    {w' : World} (hte : w'.te = x.server.world.te) (hconns : w'.conns = x.server.world.conns)
    (hbeside : Beside (x.Gone listenFd g) (fun c => x.freed c = true) s.world w') :
    Stopped listenFd { x.setWorld w' with phase := .freeing i c } s g := by
  have hcurrent : ∀ {i' c'}, Phase.freeing i c = .closing i' c' ∨ Phase.freeing i c = .freeing i' c' →
      x.phase = .closing i' c' ∨ x.phase = .freeing i' c' := by
    rintro i' c' (heq | heq)
    · cases heq
    · obtain ⟨rfl, rfl⟩ := Phase.freeing.inj heq
      exact .inl hphase
  have htaken : ∀ c', x.Taken c' → Stopping.Taken { x.setWorld w' with phase := .freeing i c } c' := by
    rintro c' (hfreed | ⟨i', hcur⟩)
    · exact .inl hfreed
    · rw [hphase] at hcur
      obtain heq | heq := hcur
      · obtain ⟨rfl, rfl⟩ := Phase.closing.inj heq
        exact .inr ⟨i, .inr rfl⟩
      · cases heq
  constructor
  · simp only [Stopping.setWorld]
    rw [hstop.server]
  · exact hstop.idle
  · exact hstop.left
  · apply hbeside.mono
    · rintro f (hf | ⟨c', d', hc', hheld', hf⟩)
      · exact .inl hf
      · exact .inr ⟨c', d', htaken c' hc', hheld', hf⟩
    · exact fun _ hfreed => hfreed
  · rintro c' (hfreed | ⟨i', hcur⟩)
    · exact hstop.taken c' (.inl hfreed)
    · exact hstop.taken c' (.inr ⟨i', hcurrent hcur⟩)
  · intro c' hfreed
    exact (congrFun hconns c').trans (hstop.freed c' hfreed)
  · exact fun i' c' hcur => hstop.once i' c' (hcurrent hcur)
  · intro i' c' hcur e he
    simp only [Stopping.setWorld, hte] at he
    exact hstop.slot i' c' (hcurrent hcur) e he
  · intro i' c' hcur j e he
    simp only [Stopping.setWorld, hte] at he
    exact hstop.only i' c' (hcurrent hcur) j e he
  · intro i' hcur
    cases hcur
  · intro j e c' he hc'
    simp only [Stopping.setWorld, hte] at he
    have hpassed := hstop.passed j e c' he hc'
    rw [hphase] at hpassed
    exact hpassed
  · intro j e c' he hc' hfreed
    simp only [Stopping.setWorld, hte] at he
    have hclearing := hstop.ahead j e c' he hc' hfreed
    rw [hphase] at hclearing
    cases hclearing
  · exact hstop.known
  · intro hdone
    cases hdone

/-- `free` in `tgx_free_connection`. -/
theorem Stopped.free (hstop : Stopped listenFd x s g) {i : Nat} {c : ConnId}
    (hphase : x.phase = .freeing i c) :
    Stopped listenFd { x.setWorld (x.server.world.setConn c none) with
      phase := .clearing i, freed := Function.update x.freed c true } s g := by
  have hfreed : ∀ {c'}, Function.update x.freed c true c' = true ↔ c' = c ∨ x.freed c' = true := by
    intro c'
    by_cases hc : c' = c
    · rw [hc, Function.update_self]
      simp
    · rw [Function.update_of_ne hc]
      simp [hc]
  have hcurrent : x.Taken c := .inr ⟨i, .inr hphase⟩
  constructor
  · simp only [Stopping.setWorld]
    rw [hstop.server]
  · exact hstop.idle
  · exact hstop.left
  · refine ⟨?_, hstop.beside.wellFormed, hstop.beside.epollFd, hstop.beside.maxfds, ?_, ?_⟩
    · simp only [Stopping.setWorld]
      rw [hstop.beside.rest]
      rfl
    · intro f
      refine (hstop.beside.lookup f).imp_right ?_
      rintro ⟨hf | ⟨c', d', hc', hheld', hf⟩, hnone⟩
      · exact ⟨.inl hf, hnone⟩
      · refine ⟨.inr ⟨c', d', .inl (hfreed.mpr ?_), hheld', hf⟩, hnone⟩
        obtain hold | ⟨i', hcur | hcur⟩ := hc'
        · exact .inr hold
        · rw [hphase] at hcur
          cases hcur
        · rw [hphase] at hcur
          exact .inl (Phase.freeing.inj hcur).2.symm
    · intro c' hc'
      have hne : c' ≠ c := fun heq => hc' (hfreed.mpr (.inl heq))
      refine (Function.update_of_ne hne _ _).trans (hstop.beside.conns c' ?_)
      exact fun hold => hc' (hfreed.mpr (.inr hold))
  · rintro c' (hnew | ⟨i', hcur | hcur⟩)
    · obtain rfl | hold := hfreed.mp hnew
      · exact hstop.taken c' hcurrent
      · exact hstop.taken c' (.inl hold)
    · cases hcur
    · cases hcur
  · intro c' hc'
    show Function.update x.server.world.conns c none c' = none
    by_cases heq : c' = c
    · rw [heq, Function.update_self]
    · rw [Function.update_of_ne heq]
      exact hstop.freed c' ((hfreed.mp hc').resolve_left heq)
  · rintro i' c' (hcur | hcur)
    · cases hcur
    · cases hcur
  · rintro i' c' (hcur | hcur)
    · cases hcur
    · cases hcur
  · rintro i' c' (hcur | hcur)
    · cases hcur
    · cases hcur
  · rintro i' hcur e he
    obtain rfl := Phase.clearing.inj hcur
    exact ⟨c, hstop.slot i c (.inr hphase) e he, hfreed.mpr (.inl rfl)⟩
  · intro j e c' he hc'
    have hpassed := hstop.passed j e c' he hc'
    rw [hphase] at hpassed
    exact hpassed
  · intro j e c' he hc' hnew
    obtain rfl | hold := hfreed.mp hnew
    · show Phase.clearing i = .clearing j
      rw [hstop.only i c' (.inr hphase) j e he hc']
    · have hclearing := hstop.ahead j e c' he hc' hold
      rw [hphase] at hclearing
      cases hclearing
  · exact hstop.known
  · intro hdone
    cases hdone

/-- `main` looks at the next slot of the table. -/
theorem Stopped.scan (hstop : Stopped listenFd x s g) (hi : Inv luck listenFd s g) (hrec : Recorded s g) {i : Nat}
    (hphase : x.phase = .scan i) (hok : ∀ c, x.found listenFd = some c → x.server.away c = false)
    {x' : Stopping n} (hs : x.main listenFd = some x') : Stopped listenFd x' s g := by
  have hold := hstop.passed
  have hfrom : x.phase.between := by
    rw [hphase]
    rfl
  -- the entries with a context that are left lie from `i` on
  have hleft : ∀ j e c, x.server.world.te.slotAt j = some e → e.context = some c → i ≤ j := by
    intro j e c he hc
    have hpassed := hold j e c he hc
    rw [hphase] at hpassed
    exact not_lt.mp hpassed
  simp only [Stopping.main, hphase] at hs
  split at hs
  · split at hs
    · rename_i hslot
      obtain rfl := Option.some.inj hs
      refine hstop.skip hfrom rfl ?_ (by simp)
      intro j e c he hc hj
      have hij : i = j := le_antisymm (hleft j e c he hc) (Nat.lt_succ_iff.mp hj)
      rw [← hij, hslot] at he
      cases he
    · rename_i e he
      split at hs
      · rename_i hlisten
        obtain rfl := Option.some.inj hs
        have hbeside : Beside (x.Gone listenFd g) (fun c => x.freed c = true) s.world
            { closeSocket x.server.world listenFd with te := clearSlot x.server.world.te i } := by
          apply (hstop.beside.closeSocket listenFd).clear
          intro e' he'
          obtain rfl := Option.some.inj (he.symm.trans he')
          exact .inl hlisten
        refine hstop.goto hbeside (shrinks_clearSlot _ i) rfl (fun _ => taken_between hfrom) rfl ?_ ?_ (by simp)
        · exact fun j _ hclearing => absurd hclearing (between_clearing hfrom j)
        · intro j e' c he' hc hj
          have he' : (clearSlot x.server.world.te i).slotAt j = some e' := he'
          rw [slotAt_clearSlot] at he'
          split at he'
          · cases he'
          · rename_i hij
            have hle := hleft j e' c he' hc
            have hlt : j < i + 1 := hj
            omega
      · rename_i hlisten
        split at hs
        · rename_i c hc
          obtain rfl := Option.some.inj hs
          apply hstop.come hi hrec hphase he hc
          exact hok c (by simp [Stopping.found, hphase, he, hlisten, hc])
        · rename_i hc
          obtain rfl := Option.some.inj hs
          refine hstop.skip hfrom rfl ?_ (by simp)
          intro j e' c he' hc' hj
          have hij : i = j := le_antisymm (hleft j e' c he' hc') (Nat.lt_succ_iff.mp hj)
          subst hij
          obtain rfl := Option.some.inj (he.symm.trans he')
          rw [hc] at hc'
          cases hc'
  · rename_i hend
    obtain rfl := Option.some.inj hs
    refine hstop.skip hfrom rfl ?_ (by simp)
    intro j e c he hc _
    obtain ⟨k, rfl, -⟩ := slotAt_cases he
    have hle := hleft _ e c he hc
    have hlt := k.isLt
    omega

/-- `main` clears the slot of a connection that it has freed. -/
theorem Stopped.clear (hstop : Stopped listenFd x s g) (hi : Inv luck listenFd s g) {i : Nat}
    (hphase : x.phase = .clearing i) {x' : Stopping n} (hs : x.main listenFd = some x') :
    Stopped listenFd x' s g := by
  have hold := hstop.passed
  simp only [Stopping.main, hphase] at hs
  obtain rfl := Option.some.inj hs
  have hbeside : Beside (x.Gone listenFd g) (fun c => x.freed c = true) s.world
      { x.server.world with te := clearSlot x.server.world.te i } := by
    apply hstop.beside.clear
    intro e he
    obtain ⟨c, hc, hfreed⟩ := hstop.cleared i hphase e he
    exact hstop.gone hi he hc (.inl hfreed)
  refine hstop.goto hbeside (shrinks_clearSlot _ i) rfl ?_ rfl ?_ ?_ (by simp)
  · rintro c (hfreed | ⟨j, hcur | hcur⟩)
    · exact hfreed
    · cases hphase.symm.trans hcur
    · cases hphase.symm.trans hcur
  · intro j e hclearing he
    obtain rfl := Phase.clearing.inj (hphase.symm.trans hclearing)
    have he : (clearSlot x.server.world.te i).slotAt i = some e := he
    rw [slotAt_clearSlot, if_pos rfl] at he
    cases he
  · intro j e c he hc hj
    have he : (clearSlot x.server.world.te i).slotAt j = some e := he
    rw [slotAt_clearSlot] at he
    split at he
    · cases he
    · rename_i hij
      have hpassed := hold j e c he hc
      rw [hphase] at hpassed
      have hle : i ≤ j := not_lt.mp hpassed
      have hlt : j < i + 1 := hj
      omega

private theorem Stopped.main (hstop : Stopped listenFd x s g) (hi : Inv luck listenFd s g) (hrec : Recorded s g)
    (hloop : x.phase ≠ .loop) (hok : ∀ c, x.found listenFd = some c → x.server.away c = false)
    {x' : Stopping n} (hs : x.main listenFd = some x') : Stopped listenFd x' s g := by
  -- behind the last slot there is no entry with a context left
  have hnone : (∀ j, x.phase.Passed j) → ∀ j e c, x.server.world.te.slotAt j = some e → e.context = some c → False :=
    fun hall j e c he hc => hstop.passed j e c he hc (hall j)
  cases hphase : x.phase with
  | loop => exact absurd hphase hloop
  | scan i => exact hstop.scan hi hrec hphase hok hs
  | closing i c =>
    simp only [Stopping.main, hphase, Option.bind_eq_bind, Option.pure_def] at hs
    obtain ⟨d, -, hs⟩ := Option.bind_eq_some_iff.mp hs
    obtain rfl := Option.some.inj hs
    apply hstop.close hphase
    · split
      · rfl
      · rfl
    · split
      · rfl
      · rfl
    · split
      · exact hstop.beside.closeSocket d.fd
      · exact hstop.beside
  | freeing i c =>
    simp only [Stopping.main, hphase, Option.bind_eq_bind, Option.pure_def] at hs
    obtain ⟨d, -, hs⟩ := Option.bind_eq_some_iff.mp hs
    obtain rfl := Option.some.inj hs
    exact hstop.free hphase
  | clearing i => exact hstop.clear hi hphase hs
  | table =>
    simp only [Stopping.main, hphase] at hs
    obtain rfl := Option.some.inj hs
    refine hstop.skip (by rw [hphase]; rfl) rfl ?_ (by simp)
    exact fun j e c he hc _ => hnone (fun _ => hphase ▸ trivial) j e c he hc
  | event =>
    simp only [Stopping.main, hphase] at hs
    obtain rfl := Option.some.inj hs
    refine hstop.skip (by rw [hphase]; rfl) rfl ?_ (by simp)
    exact fun j e c he hc _ => hnone (fun _ => hphase ▸ trivial) j e c he hc
  | joining =>
    simp only [Stopping.main, hphase, Option.bind_eq_bind, guard, Option.pure_def] at hs
    split at hs
    · rename_i hidle
      obtain rfl := Option.some.inj hs
      refine hstop.skip (by rw [hphase]; rfl) rfl ?_ ?_
      · exact fun j e c he hc _ => hnone (fun _ => hphase ▸ trivial) j e c he hc
      · intro _ i
        rw [← hstop.running]
        exact hidle i
    · cases hs
  | done =>
    simp only [Stopping.main, hphase] at hs
    cases hs

private theorem stopped_scan (hi : Inv luck listenFd x.server g) (hepoll : 0 < x.server.world.te.epollFd)
    (hfreed : ∀ c, x.freed c = false) {x' : Stopping n} (hphase : x.phase = .loop)
    (hs : x.main listenFd = some x') : Stopped listenFd x' x.server g ∧ x'.phase ≠ .loop := by
  simp only [Stopping.main, hphase, Option.bind_eq_bind, guard, Option.pure_def] at hs
  split at hs
  swap
  · cases hs
  rename_i hidle
  obtain rfl := Option.some.inj hs
  have hte : eventFree x.server.world.te = { x.server.world.te with epollFd := -1 } := if_pos hepoll
  have hnot : ∀ c, ¬ x.freed c = true := by
    intro c
    rw [hfreed c]
    nofun
  refine ⟨?_, nofun⟩
  simp only [Stopping.setWorld, hte]
  constructor
  · rfl
  · exact hidle.1
  · exact hidle.2
  · exact ⟨rfl, hi.owned.sane.wellFormed, rfl, rfl, fun _ => .inl rfl, fun _ _ => rfl⟩
  · rintro c (hc | ⟨i, hcur | hcur⟩)
    · exact absurd hc (hnot c)
    · cases hcur
    · cases hcur
  · exact fun c hc => absurd hc (hnot c)
  · rintro i c (hcur | hcur)
    · cases hcur
    · cases hcur
  · rintro i c (hcur | hcur)
    · cases hcur
    · cases hcur
  · rintro i c (hcur | hcur)
    · cases hcur
    · cases hcur
  · intro i hcur
    cases hcur
  · exact fun j _ _ _ _ => Nat.not_lt_zero j
  · exact fun _ _ c _ _ hc => absurd hc (hnot c)
  · intro f e c he hc
    obtain ⟨z, hregistered, -⟩ := hi.owned.entries f e c he hc
    exact .inl ⟨z, registered_conn hregistered⟩
  · intro hdone
    cases hdone

end

section
variable {listenFd : Int} {e404 : List UInt8}

private theorem respond_epollFd {w w' : World} {o : Op} {r : Ret o} (hr : respond w o r = some w') :
    w'.te.epollFd = w.te.epollFd := by
  by_cases ho : writesTable o = false
  · rw [respond_te hr ho]
  · cases o
    case setHandler f h' =>
      simp only [respond] at hr
      split at hr
      · rename_i r' te hset
        split at hr
        · obtain rfl := Option.some.inj hr
          exact epollFd_setHandler hset
        · cases hr
      · cases hr
    case scheduleRegister f h' c =>
      simp only [respond] at hr
      split at hr
      · rename_i r' te hreg
        split at hr
        · obtain rfl := Option.some.inj hr
          obtain ⟨-, -, rfl⟩ | ⟨-, -, -, rfl, -⟩ | ⟨-, -, -, -, i, -, -, rfl⟩ := TgxEvent.register_cases hreg
          · rfl
          · rfl
          · rfl
        · cases hr
      · cases hr
    case scheduleUnregister f c =>
      obtain ⟨⟨r', te⟩, hun, rfl⟩ := Option.map_eq_some_iff.mp hr
      exact epollFd_unregister hun
    all_goals exact absurd rfl ho

private theorem step_epollFd {s s' : State n} {l : Label n} (hs : State.step e404 s l = some s') :
    s'.world.te.epollFd = s.world.te.epollFd := by
  cases l with
  | poll wait =>
    obtain ⟨-, -, -, -, nEvent, te, hpoll, hcases⟩ := State.poll_cases hs
    obtain ⟨events, rfl⟩ := TgxEvent.poll_events hpoll
    obtain ⟨-, rfl⟩ | ⟨-, rfl⟩ := hcases
    · rfl
    · rfl
  | iterate fuel =>
    obtain ⟨-, left, fd, handler, context, event, -, -, -, -, ⟨-, rfl⟩ | ⟨h, -, rfl⟩⟩ := State.iterate_cases hs
    · rfl
    · rfl
  | take i =>
    obtain ⟨-, task, queue, -, rfl⟩ := State.take_cases hs
    rfl
  | call t r =>
    obtain ⟨k, w', -, hr, rfl⟩ := State.call_cases hs
    exact respond_epollFd hr
  | leave t =>
    obtain ⟨ret, -, rfl⟩ := State.leave_cases hs
    rfl

/-- The server, which may have been shut down, and one that has not been. -/
def Mirrored (listenFd : Int) (x : Stopping n) (y : State n × Holding n) : Prop :=
  (x.phase = .loop ∧ x.server = y.1 ∧ 0 < x.server.world.te.epollFd ∧ ∀ c, x.freed c = false) ∨
    x.phase ≠ .loop ∧ Stopped listenFd x y.1 y.2

private theorem switchesLate_of_left {s : State n} (hleft : s.left = 0) (l : Label n) : s.SwitchesLate l := by
  unfold State.SwitchesLate
  split
  · exact fun hne => absurd hleft hne
  · trivial

private theorem serve_cases {x x' : Stopping n} {l : Label n} (hloop : x.phase ≠ .loop)
    (hs : x.serve e404 l = some x') : x.phase ≠ .done ∧ l.ofWorker = true ∧
      ∃ s, State.step e404 x.server l = some s ∧ x' = { x with server := s } := by
  unfold Stopping.serve at hs
  split at hs
  · rename_i hphase
    exact absurd hphase hloop
  · cases hs
  · rename_i hdone
    simp only [Option.bind_eq_bind, guard, Option.pure_def] at hs
    split at hs
    · rename_i hworker
      rw [Option.bind_some] at hs
      obtain ⟨s, hstep, hs⟩ := Option.bind_eq_some_iff.mp hs
      exact ⟨hdone, hworker, s, hstep, (Option.some.inj hs).symm⟩
    · cases hs

private theorem Stopped.serve {luck : Luck} {x : Stopping n} {s s₁ : State n} {g : Holding n}
    (hstop : Stopped listenFd x s g) (hi : Inv luck listenFd s g) (hdone : x.phase ≠ .done) {l : Label n}
    (hworker : l.ofWorker = true) (hs : State.step e404 x.server l = some s₁) :
    ∃ s', State.step e404 s l = some s' ∧ Stopped listenFd { x with server := s₁ } s' (g.after s l) := by
  cases l with
  | poll wait => cases hworker
  | iterate fuel => cases hworker
  | take i => exact hstop.take hi hdone hs
  | call t r =>
    cases t with
    | loop => cases hworker
    | worker i => exact hstop.call hi hdone hs
  | leave t =>
    cases t with
    | loop => cases hworker
    | worker i => exact hstop.leave hi hdone hs

private theorem main_phase {x x' : Stopping n} (hs : x.main listenFd = some x') : x'.phase ≠ .loop := by
  simp only [Stopping.main, Option.bind_eq_bind, guard, Option.pure_def] at hs
  repeat' split at hs
  all_goals try rw [Option.bind_some] at hs
  all_goals first
    | cases hs
    | obtain ⟨d, -, hs⟩ := Option.bind_eq_some_iff.mp hs
      cases hs
  all_goals intro hphase
  all_goals cases hphase

/-- A server that is being shut down does nothing to its workers that they could tell. -/
private theorem mirrored_of_reachable {x : Stopping n}
    (h : (stopping n e404 listenFd).Reachable (Stopping.Spares listenFd) x) :
    ∃ y, (watched n e404 listenFd).Reachable (fun y l => Orderly ⟨True, False⟩ y.1 l) y ∧ Mirrored listenFd x y := by
  apply h.simulates
  · intro x hx
    have hx : x.Fresh listenFd := hx
    refine ⟨(x.server, Holding.none), ⟨hx.server, rfl⟩, .inl ⟨hx.phase, rfl, hx.epollFd, fun c => ?_⟩⟩
    rw [hx.freed]
  · rintro x l x' ⟨s, g⟩ hm hr hok hs
    have hi := inv_of_reachable hr
    have hrec := recorded_of_reachable hr
    cases l with
    | serve l =>
      right
      obtain ⟨hphase, rfl, hepoll, hfreed⟩ | ⟨hloop, hstop⟩ := hm
      · have hs : x.serve e404 l = some x' := hs
        simp only [Stopping.serve, hphase, Option.bind_eq_bind, Option.pure_def] at hs
        obtain ⟨s', hstep, hs⟩ := Option.bind_eq_some_iff.mp hs
        obtain rfl := Option.some.inj hs
        refine ⟨l, (s', g.after x.server l), ⟨hok.1, Label.granted_headerHad hok.2⟩, ?_, ?_⟩
        · simp [watched, system, Transition.instrument, hstep]
        · refine .inl ⟨rfl, rfl, ?_, hfreed⟩
          exact (step_epollFd hstep).symm ▸ hepoll
      · obtain ⟨hdone, hworker, s₁, hstep, rfl⟩ := serve_cases hloop hs
        obtain ⟨s', hs', hstop'⟩ := hstop.serve hi hdone hworker hstep
        refine ⟨l, (s', g.after s l), ⟨switchesLate_of_left hstop.left l, Label.granted_headerHad hok.2⟩, ?_, ?_⟩
        · simp [watched, system, Transition.instrument, hs']
        · exact .inr ⟨hloop, hstop'⟩
    | main =>
      left
      obtain ⟨hphase, rfl, hepoll, hfreed⟩ | ⟨hloop, hstop⟩ := hm
      · obtain ⟨hstop, hne⟩ := stopped_scan hi hepoll hfreed hphase hs
        exact .inr ⟨hne, hstop⟩
      · have hspared : ∀ c, x.found listenFd = some c → x.server.away c = false := by
          intro c hc
          have hok : (x.found listenFd).all (fun c => !x.server.away c) = true := hok
          simpa [hc] using hok
        exact .inr ⟨main_phase hs, hstop.main hi hrec hloop hspared hs⟩

/-- Once the scan is over, no worker has a connection with an entry. -/
theorem Stopped.unregistered {luck : Luck} {x : Stopping n} {s : State n} {g : Holding n}
    (hstop : Stopped listenFd x s g) (hi : Inv luck listenFd s g) (hpassed : ∀ j, x.phase.Passed j) (i : Fin n)
    {c : ConnId} {d : Conn} {a : Bool} : g (.thread (.worker i)) ≠ .held c d a := by
  intro hheld
  have hnot : ¬ x.Gone listenFd g d.fd := by
    intro hgone
    obtain ⟨c', -, hz⟩ := hgone.shelved (z := .thread (.worker i)) hi (by rw [hheld]; rfl)
    cases hz
  obtain ⟨j, hj⟩ := hstop.unpassed hi hheld hnot
  exact hj (hpassed j)

/-- A worker's calls to the table and to the event system are about a connection with an entry. -/
private theorem Stopped.usesEvent {luck : Luck} {x : Stopping n} {s : State n} {g : Holding n}
    (hstop : Stopped listenFd x s g) (hi : Inv luck listenFd s g) (hpassed : ∀ j, x.phase.Passed j) (i : Fin n) :
    x.usesTable i = false ∧ x.usesEvent i = false := by
  have hnone : ∀ {c d a}, g (.thread (.worker i)) ≠ .held c d a := hstop.unregistered hi hpassed i
  have hd := hi.owned.workers i
  have hcall : ∀ o k, s.running (.worker i) = some (.call o k) →
      writesTable o = false ∧ ∀ op f event, o ≠ .eventCtl op f event := by
    intro o k hp
    have hmay : (g (.thread (.worker i))).may luck false o := (hi.busy (.worker i) _ hp).1
    cases o
    case setHandler f h' =>
      obtain ⟨c, d, a, hheld, -⟩ := hmay
      exact absurd hheld hnone
    case scheduleRegister f h' c =>
      obtain ⟨d, hfresh, -⟩ := hmay
      rw [hfresh] at hd
      exact hd.elim
    case scheduleUnregister f c =>
      obtain ⟨d, a, hheld, -⟩ := hmay
      exact absurd hheld hnone
    case eventCtl op f event =>
      cases op with
      | MOD => exact hmay.elim
      | ADD =>
        obtain hfd | ⟨c, d, hheld, -⟩ := hmay
        · rw [hfd] at hd
          exact hd.elim
        · exact absurd hheld hnone
      | DEL =>
        obtain ⟨c, d, hlulled | ⟨a, hclosing, ht⟩, -⟩ := hmay
        · rw [hlulled] at hd
          exact hd.elim
        · rw [hclosing] at hd
          cases ht.symm.trans hd.2
    all_goals exact ⟨rfl, by simp⟩
  have htable : x.usesTable i = false := by
    simp only [Stopping.usesTable, hstop.running]
    split
    · rename_i o k hp
      exact (hcall o k hp).1
    · rfl
  refine ⟨htable, ?_⟩
  simp only [Stopping.usesEvent, hstop.running]
  split
  · rename_i op f event k hp
    exact absurd rfl ((hcall _ k hp).2 op f event)
  · exact htable

theorem Stopped.all {luck : Luck} {x : Stopping n} {s : State n} {g : Holding n}
    (hstop : Stopped listenFd x s g) (hi : Inv luck listenFd s g) (hdone : x.phase = .done) {f : Int}
    {e : Schedule Handler ConnId} {c : ConnId} (he : x.last.lookup f = some e) (hc : e.context = some c) :
    x.server.world.conns c = none := by
  by_cases hfreed : x.freed c = true
  · exact hstop.freed c hfreed
  rw [hstop.beside.conns c hfreed]
  obtain ⟨z, hz⟩ | hnone := hstop.known f e c he hc
  swap
  · exact hnone
  cases z with
  | thread t =>
    have hidle : s.running t = none := by
      cases t with
      | loop => exact hstop.idle
      | worker i => exact hstop.joined hdone i
    rw [hi.idle t hidle] at hz
    cases hz
  | shelf c' =>
    obtain hnone | ⟨d, a, hheld, -⟩ := hi.owned.shelves c'
    · rw [hnone] at hz
      cases hz
    · rw [hheld] at hz
      obtain rfl := Option.some.inj hz
      -- its entry would still be there
      have hnot : ¬ x.Gone listenFd g d.fd := by
        intro hgone
        obtain ⟨c, htaken, hz⟩ := hgone.shelved (z := .shelf c') hi (by rw [hheld]; rfl)
        obtain rfl := Holder.shelf.inj hz
        exact hfreed (taken_between (by rw [hdone]; rfl) htaken)
      obtain ⟨j, hj⟩ := hstop.unpassed hi hheld hnot
      exact absurd (by rw [hdone]; trivial) hj

/-- Whoever is about to touch a connection after the loop finds it in memory. -/
theorem Stopped.touching {luck : Luck} {x : Stopping n} {s : State n} {g : Holding n}
    (hstop : Stopped listenFd x s g) (hi : Inv luck listenFd s g) (hluck : luck.header) (hloop : x.phase ≠ .loop)
    {t : Thread n} {c : ConnId} (hc : x.touching t = some c) : x.freed c = false ∧ (x.server.world.conns c).isSome := by
  have hlive : ¬ x.freed c = true ∧ (s.world.conns c).isSome := by
    cases t with
    | worker i =>
      have htouching : s.touching (.worker i) = some c := by
        simpa only [Stopping.touching, State.touching, hstop.running] using hc
      obtain ⟨hconn, hlive⟩ := touching_cases hi htouching
      exact ⟨fun hfreed => hstop.apart hi (.inl hfreed) i hconn, hlive hluck⟩
    | loop =>
      have hcur : ∃ i, x.phase = .closing i c ∨ x.phase = .freeing i c := by
        simp only [Stopping.touching] at hc
        split at hc
        · rename_i hphase
          exact absurd hphase hloop
        · rename_i i c' hphase
          exact ⟨i, .inl (Option.some.inj hc ▸ hphase)⟩
        · rename_i i c' hphase
          exact ⟨i, .inr (Option.some.inj hc ▸ hphase)⟩
        · cases hc
      obtain ⟨i, hcur⟩ := hcur
      obtain ⟨d, hheld⟩ := hstop.taken c (.inr ⟨i, hcur⟩)
      have hs := hi.owned.sees (.shelf c)
      rw [hheld] at hs
      exact ⟨by simp [hstop.once i c hcur], by rw [hs.1.conn]; rfl⟩
  rw [hstop.beside.conns c hlive.1]
  exact ⟨by simpa using hlive.1, hlive.2⟩

end

/-- In every run in which no header buffer is refused, the workers let the loop finish and `main` comes to
no connection with a task, everything is freed once and after its last use. -/
theorem freed_once {e404 : List UInt8} {listenFd : Int} {x : Stopping n}
    (h : (stopping n e404 listenFd).Reachable (Stopping.Spares listenFd) x) : FreedOnce x := by
  obtain ⟨⟨s, g⟩, hr, hm⟩ := mirrored_of_reachable h
  have hi := inv_of_reachable hr
  obtain ⟨hphase, rfl, -, hfreed⟩ | ⟨hloop, hstop⟩ := hm
  · constructor
    · exact fun _ c _ => hfreed c
    · intro t c hc
      have htouching : x.server.touching t = some c := by
        cases t with
        | loop => simpa only [Stopping.touching, hphase] using hc
        | worker i => exact hc
      exact (touching_cases hi htouching).2 trivial
    · simp [hphase, Phase.tableFreed]
    · simp [hphase, Phase.eventFreed]
    · simp [hphase]
  · constructor
    · exact fun i c hc => (hstop.touching hi trivial hloop hc).1
    · exact fun t c hc => (hstop.touching hi trivial hloop hc).2
    · exact fun hfreed i => (hstop.usesEvent hi (Phase.passed_of_tableFreed hfreed) i).1
    · exact fun hfreed i =>
        (hstop.usesEvent hi (Phase.passed_of_tableFreed (Phase.tableFreed_of_eventFreed hfreed)) i).2
    · exact fun hdone f e c he hc => hstop.all hi hdone he hc

/-- A move of the server, or `none` for a step of `main`. -/
def Stopping.choose (x : Stopping n) : Option (Move n) → Option (StopLabel n)
  | some m => (x.server.choose m).map .serve
  | none => some .main

def Stopping.start (n : Nat) : Stopping n where
  server := .start n
  phase := .loop
  last := tgxEventInit 8 4
  freed := fun _ => false

private theorem stopping_fresh (n : Nat) : (Stopping.start n).Fresh 5 where
  server := start_fresh n
  epollFd := show (0 : Int) < 4 by decide
  phase := rfl
  freed := rfl

def stoppedAfter (moves : List (Move 1)) (steps : Nat) : List (Option (Move 1)) :=
  moves.map some ++ List.replicate steps none

/-- A connection has been with the worker and is back when the server is shut down. -/
theorem freed_once_returned : ∃ x, (stopping 1 [] 5).guided Stopping.choose (Stopping.Spares 5) (.start 1)
    (stoppedAfter (returning ++ working 1 ++ resting) 16) = some x ∧ x.phase.eventFreed = true ∧
      x.freed 0 = true ∧ FreedOnce x := by
  have hrun : (((stopping 1 [] 5).guided Stopping.choose (Stopping.Spares 5) (.start 1)
      (stoppedAfter (returning ++ working 1 ++ resting) 16)).map fun x => (x.phase.eventFreed, x.freed 0)) =
        some (true, true) := by
    decide +kernel
  obtain ⟨x, hx, hrun⟩ := Option.map_eq_some_iff.mp hrun
  obtain ⟨hevent, hfreed⟩ := Prod.mk.inj hrun
  exact ⟨x, hx, hevent, hfreed, freed_once (.of_guided (stoppedAfter (returning ++ working 1 ++ resting) 16)
    (.init (stopping_fresh 1)) hx)⟩

/-- The worker has the parser task of a connection that `main` frees. -/
theorem freed_under_worker : ¬ ∀ (n : Nat) (e404 : List UInt8) (listenFd : Int) (x : Stopping n),
    (stopping n e404 listenFd).Reachable (fun _ _ => True) x →
      ∀ i c, x.touching (.worker i) = some c → x.freed c = false := by
  intro h
  have hrun : (((stopping 1 [] 5).guided Stopping.choose (fun _ _ => True) (.start 1)
      (stoppedAfter (requesting []) 10)).map fun x => (x.touching (.worker 0), x.freed 0)) =
        some (some 0, true) := by
    decide +kernel
  obtain ⟨x, hx, hbad⟩ := Option.map_eq_some_iff.mp hrun
  obtain ⟨htouching, hfreed⟩ := Prod.mk.inj hbad
  have hspared := h 1 [] 5 x (.of_guided (stoppedAfter (requesting []) 10) (.init (stopping_fresh 1)) hx) 0 0
    htouching
  rw [hfreed] at hspared
  cases hspared

end TinyosGraphics.Server
