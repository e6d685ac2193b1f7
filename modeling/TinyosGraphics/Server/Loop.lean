import TinyosGraphics.Core.Tasks

/-! The server as `main` starts it: the event loop and `n` workers over one world. A step is a poll,
the lookups of one iteration, the start of a task, or a single call of a handler or task. -/
namespace TinyosGraphics.Server
open Lib Event Core

/-- The thread of `main`, and the threads of the pool. -/
inductive Thread (n : Nat)
  | loop
  | worker (i : Fin n)
  deriving DecidableEq

/-- The state of the server. The last four fields are history. -/
structure State (n : Nat) where
  world : World
  /-- the variables of the inner `for`: how many iterations are left, and `index` -/
  left : Nat
  index : Int
  running : Thread n → Option (M Int)
  /-- the context of the handler that the loop is running -/
  serving : Option ConnId
  /-- the descriptors accepted by the handler that the loop is running -/
  accepted : List Int
  /-- connections between the push of their parser task and the ADD of `_task_end_travelling` -/
  away : ConnId → Bool
  /-- connections that this ADD has brought back, until the loop takes them out again -/
  returned : ConnId → Bool
  /-- connections that a handler of the loop has freed -/
  loopFreed : ConnId → Bool

inductive Label (n : Nat)
  | poll (wait : Option (List EpollEvent))
  | iterate (fuel : Nat)
  | take (i : Fin n)
  | call (t : Thread n) (r : (o : Op) × Ret o)
  | leave (t : Thread n)

namespace State
variable {n : Nat}

@[simps -fullyApplied]
def run (s : State n) (t : Thread n) (p : Option (M Int)) : State n :=
  { s with running := Function.update s.running t p }

def record (s : State n) (t : Thread n) : (o : Op) → Ret o → State n
  | .pushTask task, _ => { s with away := Function.update s.away task.context.tconn true }
  | .eventCtl op fd _, r =>
    match op, t, (s.world.te.lookup fd).bind Schedule.context with
    | .ADD, .worker _, some c =>
      if r = 0 then
        { s with
          away := Function.update s.away c false
          returned := Function.update s.returned c true }
      else s
    | .DEL, .loop, some c =>
      if r = 0 then { s with returned := Function.update s.returned c false } else s
    | _, _, _ => s
  | .freeConnection c, _ =>
    match t with
    | .loop => { s with loopFreed := Function.update s.loopFreed c true }
    | .worker _ => s
  | .accept, r =>
    match r with
    | some fd => { s with accepted := s.accepted ++ [fd] }
    | none => s
  | _, _ => s

/-- `tgx_event_poll` in `while (running)`. The kernel reports descriptors of the interest set, and not
more than it has been given room for. -/
def poll (s : State n) (wait : Option (List EpollEvent)) : Option (State n) := do
  guard (s.running .loop = none ∧ s.left = 0)
  let batch := wait.getD []
  guard (batch.length ≤ s.world.te.maxfds ∧ ∀ e ∈ batch, (s.world.interest e.fd).isSome)
  let (nEvent, te) := tgxEventPoll s.world.te wait
  let s := { s with world := { s.world with te := te } }
  if nEvent = -1 then return s
  return { s with left := nEvent.toNat, index := -1 }

/-- One iteration of the inner `for`, up to the call of the handler. -/
def iterate (s : State n) (fuel : Nat) : Option (State n) := do
  guard (s.running .loop = none)
  match s.left with
  | 0 => none
  | left + 1 =>
    let te := s.world.te
    let index := tgxEventGetNextIndex te s.index
    let fd ← tgxEventGetFd te index
    let handler ← tgxEventGetHandler te fd
    let context ← tgxEventGetContext te fd
    let event ← tgxEventGetEvent te index
    let s := { s with left := left, index := index }
    match handler with
    | none => return s
    | some handler =>
      return { s with serving := context, accepted := [] }.run .loop
        (some (runHandler fuel handler context event))

/-- What `do_pthread` does with a task. -/
def runTask (e404 : List UInt8) (task : TgxTask) : M Int := do
  let ret ← runTaskHandler e404 task.taskHandler task.context
  runOnComplete task.onTaskComplete task.context ret

/-- An idle worker takes the first task of the queue. -/
def take (e404 : List UInt8) (s : State n) (i : Fin n) : Option (State n) := do
  guard (s.running (.worker i) = none)
  match s.world.queue with
  | [] => none
  | task :: queue =>
    return { s with world := { s.world with queue := queue } }.run (.worker i) (some (runTask e404 task))

def call (s : State n) (t : Thread n) (r : (o : Op) × Ret o) : Option (State n) := do
  let p ← s.running t
  let (p', w') ← p.step respond s.world r
  return { s.record t r.1 r.2 with world := w' }.run t (some p')

/-- A thread's program has returned. The loop only logs a negative result. -/
def leave (s : State n) (t : Thread n) : Option (State n) :=
  match s.running t with
  | some (.ret _) => some (s.run t none)
  | _ => none

def step (e404 : List UInt8) (s : State n) : Label n → Option (State n)
  | .poll wait => s.poll wait
  | .iterate fuel => s.iterate fuel
  | .take i => s.take e404 i
  | .call t r => s.call t r
  | .leave t => s.leave t

/-- The server in front of `while (running)`. Every other descriptor that is open now stays so: 0 is
the terminal's or the lock file's. -/
structure Fresh (listenFd : Int) (s : State n) : Prop where
  table : ∃ maxfds epollFd, 0 ≤ epollFd ∧
    tgxEventScheduleRegister (tgxEventInit maxfds epollFd) listenFd (some .tgxAcceptionHandler) none true =
      some (0, s.world.te)
  listening : 0 < listenFd ∧ s.world.sockets listenFd = .open none
  interest : s.world.interest = fun fd => if fd = listenFd then some EPOLLIN else none
  sockets : ∀ fd, s.world.sockets fd = .closed ∨ s.world.sockets fd = .open none
  zero : s.world.sockets 0 ≠ .closed
  conns : s.world.conns = fun _ => none
  closes : s.world.closes = fun _ => 0
  queue : s.world.queue = []
  running : s.running = fun _ => none
  left : s.left = 0
  accepted : s.accepted = []
  away : s.away = fun _ => false
  returned : s.returned = fun _ => false
  loopFreed : s.loopFreed = fun _ => false

variable {e404 : List UInt8} {s s' : State n}

theorem poll_cases {wait : Option (List EpollEvent)} (h : s.poll wait = some s') :
    s.running .loop = none ∧ s.left = 0 ∧ (∀ e ∈ wait.getD [], (s.world.interest e.fd).isSome) ∧
      (wait.getD []).length ≤ s.world.te.maxfds ∧
      ∃ nEvent te, tgxEventPoll s.world.te wait = (nEvent, te) ∧
        (nEvent = -1 ∧ s' = { s with world := { s.world with te := te } } ∨
          nEvent ≠ -1 ∧
            s' = { s with world := { s.world with te := te }, left := nEvent.toNat, index := -1 }) := by
  simp only [poll, Option.bind_eq_bind, guard, Option.pure_def] at h
  split at h
  · rename_i hidle
    rw [Option.bind_some] at h
    split at h
    · rename_i hbatch
      rw [Option.bind_some] at h
      refine ⟨hidle.1, hidle.2, hbatch.2, hbatch.1, _, _, rfl, ?_⟩
      split at h
      · rename_i hneg
        exact .inl ⟨hneg, (Option.some.inj h).symm⟩
      · rename_i hneg
        exact .inr ⟨hneg, (Option.some.inj h).symm⟩
    · cases h
  · cases h

theorem iterate_cases {fuel : Nat} (h : s.iterate fuel = some s') :
    s.running .loop = none ∧ ∃ left fd handler context event,
      s.left = left + 1 ∧
      tgxEventGetFd s.world.te (tgxEventGetNextIndex s.world.te s.index) = some fd ∧
      tgxEventGetHandler s.world.te fd = some handler ∧
      tgxEventGetContext s.world.te fd = some context ∧
      (handler = none ∧
          s' = { s with left := left, index := tgxEventGetNextIndex s.world.te s.index } ∨
        ∃ h, handler = some h ∧
          s' = { s with
            left := left
            index := tgxEventGetNextIndex s.world.te s.index
            serving := context
            accepted := [] }.run .loop (some (runHandler fuel h context event))) := by
  simp only [iterate, Option.bind_eq_bind, guard, Option.pure_def] at h
  split at h
  · rename_i hidle
    rw [Option.bind_some] at h
    split at h
    · cases h
    · rename_i left hleft
      obtain ⟨fd, hfd, h⟩ := Option.bind_eq_some_iff.mp h
      obtain ⟨handler, hhandler, h⟩ := Option.bind_eq_some_iff.mp h
      obtain ⟨context, hcontext, h⟩ := Option.bind_eq_some_iff.mp h
      obtain ⟨event, -, h⟩ := Option.bind_eq_some_iff.mp h
      refine ⟨hidle, left, fd, handler, context, event, hleft, hfd, hhandler, hcontext, ?_⟩
      cases handler with
      | none => exact .inl ⟨rfl, (Option.some.inj h).symm⟩
      | some handler => exact .inr ⟨handler, rfl, (Option.some.inj h).symm⟩
  · cases h

theorem take_cases {i : Fin n} (h : s.take e404 i = some s') :
    s.running (.worker i) = none ∧ ∃ task queue, s.world.queue = task :: queue ∧
      s' = { s with world := { s.world with queue := queue } }.run (.worker i)
        (some (runTask e404 task)) := by
  simp only [take, Option.bind_eq_bind, guard, Option.pure_def] at h
  split at h
  · rename_i hidle
    rw [Option.bind_some] at h
    split at h
    · cases h
    · rename_i task queue hqueue
      exact ⟨hidle, task, queue, hqueue, (Option.some.inj h).symm⟩
  · cases h

theorem call_cases {t : Thread n} {r : (o : Op) × Ret o} (h : s.call t r = some s') :
    ∃ k w', s.running t = some (.call r.1 k) ∧ respond s.world r.1 r.2 = some w' ∧
      s' = { s.record t r.1 r.2 with world := w' }.run t (some (k r.2)) := by
  simp only [call, Option.bind_eq_bind, Option.pure_def] at h
  obtain ⟨p, hp, h⟩ := Option.bind_eq_some_iff.mp h
  obtain ⟨⟨p', w'⟩, hstep, h⟩ := Option.bind_eq_some_iff.mp h
  obtain ⟨k, rfl, hr, rfl⟩ := Prog.step_cases hstep
  exact ⟨k, w', hp, hr, (Option.some.inj h).symm⟩

theorem leave_cases {t : Thread n} (h : s.leave t = some s') :
    ∃ ret, s.running t = some (.ret ret) ∧ s' = s.run t none := by
  simp only [leave] at h
  split at h
  · rename_i ret hret
    exact ⟨ret, hret, (Option.some.inj h).symm⟩
  · cases h

end State

/-- All that the server can do with `n` workers. -/
def system (n : Nat) (e404 : List UInt8) (listenFd : Int) : Transition (State n) (Label n) where
  init := State.Fresh listenFd
  step := State.step e404

end TinyosGraphics.Server
