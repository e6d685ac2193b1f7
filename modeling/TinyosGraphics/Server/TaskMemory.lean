import TinyosGraphics.Lib.Custody
import TinyosGraphics.Server.Charges
import TinyosGraphics.Server.Handover

/-! The wrappers and tasks that `_post_task` allocates, and how often each of them is freed: by the completions, and
by `do_pthread`. -/
namespace TinyosGraphics.Server
open Lib Event Core

variable {n : Nat}

/-- What has been allocated for which connection, what has been freed, and what the threads have in their hands. -/
structure Books (n : Nat) where
  wrappers : List WrapperContext
  tasks : List (Nat × ConnId)
  freedWrappers : List Nat
  freedTasks : List Nat
  charge : Thread n → Charge

namespace Books

def empty : Books n :=
  ⟨[], [], [], [], fun _ => {}⟩

/-- What a call of a thread with `h` in its hands adds. -/
def enter (b : Books n) (h : Charge) : (o : Op) → Ret o → Books n
  | .callocWrapper c, r =>
    match r with
    | some id => { b with wrappers := b.wrappers ++ [⟨id, c⟩] }
    | none => b
  | .taskInit, r =>
    match r with
    | some task => { b with tasks := b.tasks ++ (h.posting.map fun w => (task, w.tconn)).toList }
    | none => b
  | .freeWrapper id, _ => { b with freedWrappers := b.freedWrappers ++ [id] }
  | _, _ => b

/-- The books after a step. `do_pthread` frees the task when its completion has returned. -/
def after (b : Books n) (s : State n) : Label n → Books n
  | .poll _ | .iterate _ => b
  | .take i =>
    match s.world.queue with
    | task :: _ => { b with charge := Function.update b.charge (.worker i) { taken := some task } }
    | [] => b
  | .call t ⟨o, r⟩ =>
    { b.enter (b.charge t) o r with charge := Function.update b.charge t ((b.charge t).next o r) }
  | .leave t =>
    { b with
      freedTasks := b.freedTasks ++ ((b.charge t).taken.map TgxTask.id).toList
      charge := Function.update b.charge t {} }

/-- Every wrapper and every task allocated for a connection has been freed exactly once. -/
structure FreedOnce (b : Books n) (c : ConnId) : Prop where
  wrappers : ∀ w ∈ b.wrappers, w.tconn = c → b.freedWrappers.count w.id = 1
  tasks : ∀ task ∈ b.tasks, task.2 = c → b.freedTasks.count task.1 = 1

end Books

/-- The server with its books. -/
def audited (n : Nat) (e404 : List UInt8) (listenFd : Int) : Transition (State n × Books n) (Label n) :=
  (system n e404 listenFd).instrument Books.empty Books.after

/-- The connection is closed, and nobody is at work for it any more. -/
structure Ended (x : State n × Books n) (c : ConnId) : Prop where
  closed : x.1.world.conns c = none
  queue : ∀ task ∈ x.1.world.queue, task.context.tconn ≠ c
  loop : x.1.running .loop = none ∨ x.1.serving ≠ some c
  workers : ∀ i task, (x.2.charge (.worker i)).taken = some task → task.context.tconn ≠ c

/-- The calls of the threads are answered so that the first `_post_task` of a connection succeeds once it has its
wrapper, and that there is no second one. -/
def PostsOnce (x : State n × Books n) : Label n → Prop
  | .call t ⟨o, r⟩ => (x.2.charge t).Meets o r
  | _ => True

instance (h : Charge) (o : Op) (r : Ret o) : Decidable (h.Meets o r) := by
  unfold Charge.Meets
  split <;> infer_instance

instance (x : State n × Books n) : (l : Label n) → Decidable (PostsOnce x l)
  | .call t ⟨o, r⟩ => inferInstanceAs (Decidable ((x.2.charge t).Meets o r))
  | .poll _ | .iterate _ | .take _ | .leave _ => isTrue trivial

namespace Charge

def wrappers (h : Charge) : Multiset WrapperContext :=
  (h.posting.toList ++ if h.wrapperFreed then [] else (h.taken.map TgxTask.context).toList : List WrapperContext)

def tasks (h : Charge) : Multiset (Nat × ConnId) :=
  ((h.posting.bind fun w => h.posted.map fun task => (task, w.tconn)).toList ++
    (h.taken.map fun t => (t.id, t.context.tconn)).toList : List (Nat × ConnId))

end Charge

instance : Fintype (Thread n) :=
  .ofEquiv (Option (Fin n))
    ⟨fun o => o.elim .loop .worker, fun t => match t with | .loop => none | .worker i => some i,
      fun o => by cases o <;> rfl, fun t => by cases t <;> rfl⟩

/-- Everything allocated is queued, in somebody's hands, or freed, and the queue holds first tasks only. -/
structure Stocked (w : World) (b : Books n) : Prop where
  wrappers : Custody WrapperContext.id b.wrappers (w.queue.map TgxTask.context) (fun t => (b.charge t).wrappers)
    b.freedWrappers w.nextWrapper
  tasks : Custody Prod.fst b.tasks (w.queue.map fun t => (t.id, t.context.tconn)) (fun t => (b.charge t).tasks)
    b.freedTasks w.nextTask
  queue : ∀ task ∈ w.queue, Charge.Parses task

private theorem stocked_fresh {listenFd : Int} {s : State n} (h : s.Fresh listenFd) :
    Stocked s.world (Books.empty : Books n) where
  wrappers := by
    rw [h.queue]
    exact Custody.empty _ _
  tasks := by
    rw [h.queue]
    exact Custody.empty _ _
  queue task hmem := by
    rw [h.queue] at hmem
    cases hmem

private theorem held_update {β : Type} (f : Charge → β) (charge : Thread n → Charge) (t : Thread n) (h : Charge) :
    (fun t' => f (Function.update charge t h t')) = Function.update (fun t' => f (charge t')) t (f h) :=
  funext fun t' => Function.apply_update (fun _ => f) charge t h t'

private theorem respond_keeps {w w' : World} {o : Op} {r : Ret o} (ho : Charge.keeps o = true)
    (h : respond w o r = some w') :
    w'.queue = w.queue ∧ w'.nextWrapper = w.nextWrapper ∧ w'.nextTask = w.nextTask := by
  cases o
  case eventCtl op fd event =>
    obtain ⟨_, rfl⟩ := eventCtl_world h
    exact ⟨rfl, rfl, rfl⟩
  case scheduleUnregister fd c =>
    obtain ⟨_, _, rfl⟩ := scheduleUnregister_world h
    exact ⟨rfl, rfl, rfl⟩
  all_goals try cases ho
  all_goals simp only [respond] at h
  all_goals repeat' split at h
  all_goals first
    | exact Option.some.inj h ▸ ⟨rfl, rfl, rfl⟩
    | cases h

private theorem enter_keeps {b : Books n} {h : Charge} {o : Op} {r : Ret o} (ho : Charge.keeps o = true) :
    b.enter h o r = b := by
  cases o
  all_goals first | rfl | cases ho

section
variable {w w' : World} {s : State n} {b : Books n} {t : Thread n}

theorem Stocked.callocWrapper {c : ConnId} {id : Nat} (hs : Stocked w b) (hcharge : b.charge t = {})
    (hr : respond w (.callocWrapper c) (some id) = some w') :
    Stocked w' (b.after s (.call t ⟨.callocWrapper c, some id⟩)) := by
  simp only [respond] at hr
  split at hr
  swap
  · cases hr
  rename_i hid
  obtain rfl := Option.some.inj hr
  have hmake := hs.wrappers.make (a := ⟨id, c⟩) t hid
  have hsame : ((b.charge t).next (.callocWrapper c) (some id)).tasks = (b.charge t).tasks := by
    rw [hcharge]
    rfl
  simp only [Books.after]
  refine ⟨?_, ?_, hs.queue⟩
  · rw [held_update, hcharge]
    rw [hcharge] at hmake
    exact hid ▸ hmake
  · rw [held_update, hsame, Function.update_eq_self]
    exact hs.tasks

theorem Stocked.taskInit {wrapper : WrapperContext} {task : Nat} (hs : Stocked w b)
    (hcharge : b.charge t = { posting := some wrapper }) (hr : respond w .taskInit (some task) = some w') :
    Stocked w' (b.after s (.call t ⟨.taskInit, some task⟩)) := by
  simp only [respond] at hr
  split at hr
  swap
  · cases hr
  rename_i hid
  obtain rfl := Option.some.inj hr
  have hmake := hs.tasks.make (a := (task, wrapper.tconn)) t hid
  have hsame : ((b.charge t).next .taskInit (some task)).wrappers = (b.charge t).wrappers := by
    rw [hcharge]
    rfl
  simp only [Books.after]
  refine ⟨?_, ?_, hs.queue⟩
  · rw [held_update, hsame, Function.update_eq_self]
    exact hs.wrappers
  · rw [held_update, hcharge]
    rw [hcharge] at hmake
    exact hid ▸ hmake

theorem Stocked.pushTask {task : TgxTask} {r : Unit} (hs : Stocked w b)
    (hcharge : b.charge t = { posting := some task.context, posted := some task.id }) (hparses : Charge.Parses task) :
    Stocked { w with queue := w.queue ++ [task] } (b.after s (.call t ⟨.pushTask task, r⟩)) := by
  simp only [Books.after]
  refine ⟨?_, ?_, ?_⟩
  · rw [held_update, List.map_append]
    refine hs.wrappers.put (a := task.context) ?_
    rw [hcharge]
    rfl
  · rw [held_update, List.map_append]
    refine hs.tasks.put (a := (task.id, task.context.tconn)) ?_
    rw [hcharge]
    rfl
  · intro task' hmem
    rcases List.mem_append.mp hmem with hmem | hmem
    · exact hs.queue task' hmem
    · rw [List.mem_singleton.mp hmem]
      exact hparses

theorem Stocked.freeWrapper {task : TgxTask} {r : Unit} (hs : Stocked w b)
    (hcharge : b.charge t = { taken := some task })
    (hr : respond w (.freeWrapper task.context.id) r = some w') :
    Stocked w' (b.after s (.call t ⟨.freeWrapper task.context.id, r⟩)) := by
  obtain rfl := Option.some.inj hr
  have hsame : ((b.charge t).next (.freeWrapper task.context.id) r).tasks = (b.charge t).tasks := by
    rw [hcharge]
    rfl
  simp only [Books.after]
  refine ⟨?_, ?_, hs.queue⟩
  · rw [held_update]
    refine hs.wrappers.dispose (a := task.context) ?_
    rw [hcharge]
    rfl
  · rw [held_update, hsame, Function.update_eq_self]
    exact hs.tasks

theorem Stocked.kept {o : Op} {r : Ret o} (hs : Stocked w b) (ho : Charge.keeps o = true)
    (hr : respond w o r = some w') : Stocked w' (b.after s (.call t ⟨o, r⟩)) := by
  obtain ⟨hqueue, hwrapper, htask⟩ := respond_keeps ho hr
  simp only [Books.after, enter_keeps ho, Charge.next_of_keeps ho, Function.update_eq_self]
  exact ⟨hqueue ▸ hwrapper ▸ hs.wrappers, hqueue ▸ htask ▸ hs.tasks, hqueue ▸ hs.queue⟩

theorem Stocked.call {context : Option ConnId} {o : Op} {r : Ret o} (hs : Stocked w b)
    (hmay : (b.charge t).may context o) (hmeets : (b.charge t).Meets o r) (hr : respond w o r = some w') :
    Stocked w' (b.after s (.call t ⟨o, r⟩)) := by
  cases o
  case callocWrapper c =>
    cases r with
    | none =>
      obtain rfl := Option.some.inj hr
      simp only [Books.after, Books.enter, Charge.next, Function.update_eq_self]
      exact hs
    | some id => exact hs.callocWrapper (hmay (Charge.taken_of_meets hmeets)).1 hr
  case taskInit =>
    obtain ⟨wrapper, hcharge⟩ := hmay
    cases r with
    | none => exact absurd rfl hmeets
    | some task => exact hs.taskInit hcharge hr
  case pushTask task =>
    obtain rfl := Option.some.inj hr
    exact hs.pushTask hmay.1 hmay.2
  case freeWrapper id =>
    obtain ⟨task, hcharge, rfl⟩ := hmay
    exact hs.freeWrapper hcharge hr
  all_goals exact hs.kept rfl hr

theorem Stocked.take {i : Fin n} {task : TgxTask} {queue : List TgxTask} (hs : Stocked w b)
    (hqueue : w.queue = task :: queue) (hidle : b.charge (.worker i) = {}) :
    Stocked { w with queue := queue }
      { b with charge := Function.update b.charge (.worker i) { taken := some task } } := by
  have hwrappers := hs.wrappers
  have htasks := hs.tasks
  rw [hqueue] at hwrappers htasks
  refine ⟨?_, ?_, fun t ht => hs.queue t (hqueue ▸ List.mem_cons_of_mem _ ht)⟩
  · have htake := hwrappers.take (.worker i)
    rw [hidle] at htake
    rw [held_update]
    exact htake
  · have htake := htasks.take (.worker i)
    rw [hidle] at htake
    rw [held_update]
    exact htake

/-- `do_pthread` frees the task whose wrapper has been freed. -/
theorem Stocked.leave {task : TgxTask} (hs : Stocked w b)
    (hdone : b.charge t = { taken := some task, wrapperFreed := true }) :
    Stocked w { b with
      freedTasks := b.freedTasks ++ [task.id]
      charge := Function.update b.charge t {} } := by
  have hsame : (b.charge t).wrappers = Charge.wrappers {} := by
    rw [hdone]
    rfl
  refine ⟨?_, ?_, hs.queue⟩
  · rw [held_update, ← hsame, Function.update_eq_self]
    exact hs.wrappers
  · rw [held_update]
    refine hs.tasks.dispose (a := (task.id, task.context.tconn)) ?_
    rw [hdone]
    rfl

end

def State.postsFor (s : State n) : Thread n → Option ConnId
  | .loop => s.serving
  | .worker _ => none

/-- What a thread's program ends with: a worker has freed the wrapper of its task. -/
def Thread.Ends : Thread n → Charge → Prop
  | .loop, h => h = {}
  | .worker _, h => ∃ task, h = { taken := some task, wrapperFreed := true }

/-- A thread with `h` in its hands that posts tasks for `context` works by the rules, if it works at all. -/
structure Thread.Works (t : Thread n) (context : Option ConnId) (p : Option (M Int)) (h : Charge) : Prop where
  posting : ∀ w, h.posting = some w → context = some w.tconn
  loop : t = .loop → h.taken = none
  idle : p = none → h = {}
  busy : ∀ q, p = some q → (Charge.rules context).Always (fun h _ => t.Ends h) q h

/-- All threads do. -/
def Manned (s : State n) (b : Books n) : Prop :=
  ∀ t : Thread n, t.Works (s.postsFor t) (s.running t) (b.charge t)

private theorem manned_fresh {listenFd : Int} {s : State n} (h : s.Fresh listenFd) :
    Manned s (Books.empty : Books n) := by
  intro t
  rw [h.running]
  exact ⟨nofun, fun _ => rfl, fun _ => rfl, nofun⟩

section
variable {s s' : State n} {b b' : Books n} {t : Thread n}

/-- What one thread does, and what it has then, is no matter for the others. -/
theorem Manned.set (hm : Manned s b) {p : Option (M Int)} {h : Charge}
    (hrunning : s'.running = Function.update s.running t p) (hcharge : b'.charge = Function.update b.charge t h)
    (hother : ∀ t' ≠ t, s'.postsFor t' = s.postsFor t') (hw : t.Works (s'.postsFor t) p h) : Manned s' b' := by
  intro t'
  rw [hrunning, hcharge]
  by_cases ht : t' = t
  · subst ht
    rw [Function.update_self, Function.update_self]
    exact hw
  · rw [Function.update_of_ne ht, Function.update_of_ne ht, hother t' ht]
    exact hm t'

private theorem next_posting {context : Option ConnId} {h : Charge} {o : Op} {r : Ret o} (hmay : h.may context o)
    (hmeets : h.Meets o r) (hp : ∀ w, h.posting = some w → context = some w.tconn) :
    ∀ w, (h.next o r).posting = some w → context = some w.tconn := by
  cases o
  case callocWrapper c =>
    cases r with
    | none => exact hp
    | some id =>
      rintro w hw
      obtain rfl := Option.some.inj hw
      exact (hmay (Charge.taken_of_meets hmeets)).2
  case taskInit =>
    cases r with
    | none => exact hp
    | some task => exact hp
  case pushTask task => exact nofun
  all_goals exact hp

private theorem next_taken (h : Charge) (o : Op) (r : Ret o) : (h.next o r).taken = h.taken := by
  cases o
  case callocWrapper c => cases r <;> rfl
  case taskInit => cases r <;> rfl
  all_goals rfl

theorem Thread.Works.call {context : Option ConnId} {o : Op} {k : Ret o → M Int} {h : Charge} {r : Ret o}
    (hw : t.Works context (some (.call o k)) h) (hmeets : h.Meets o r) :
    t.Works context (some (k r)) (h.next o r) := by
  have hall := hw.busy _ rfl
  refine ⟨next_posting hall.1 hmeets hw.posting, fun ht => ?_, nofun, ?_⟩
  · rw [next_taken]
    exact hw.loop ht
  · intro q hq
    obtain rfl := Option.some.inj hq
    exact hall.step ⟨hmeets, rfl⟩

end

structure Balanced (x : State n × Books n) : Prop where
  stocked : Stocked x.1.world x.2
  manned : Manned x.1 x.2

section
variable {s s' : State n} {b : Books n}

theorem Balanced.iterate {fuel : Nat} (hx : Balanced (s, b)) (hs : s.iterate fuel = some s') : Balanced (s', b) := by
  obtain ⟨hstocked, hmanned⟩ := hx
  obtain ⟨hidle, left, fd, handler, context, event, -, -, -, -, hcases⟩ := State.iterate_cases hs
  obtain ⟨-, rfl⟩ | ⟨handler, -, rfl⟩ := hcases
  · exact ⟨⟨hstocked.wrappers, hstocked.tasks, hstocked.queue⟩, hmanned⟩
  · have hempty := (hmanned .loop).idle hidle
    refine ⟨⟨hstocked.wrappers, hstocked.tasks, hstocked.queue⟩, hmanned.set (h := {}) rfl ?_ ?_ ?_⟩
    · exact (hempty ▸ Function.update_eq_self (Thread.loop : Thread n) b.charge).symm
    · intro t' ht'
      cases t' with
      | loop => exact absurd rfl ht'
      | worker i => rfl
    · refine ⟨nofun, fun _ => rfl, nofun, ?_⟩
      intro q hq
      obtain rfl := Option.some.inj hq
      exact Charge.always_runHandler fuel handler context event

theorem Balanced.take {e404 : List UInt8} {i : Fin n} (hx : Balanced (s, b)) (hs : s.take e404 i = some s') :
    Balanced (s', b.after s (.take i)) := by
  obtain ⟨hstocked, hmanned⟩ := hx
  obtain ⟨hidle, task, queue, hqueue, rfl⟩ := State.take_cases hs
  have hempty : b.charge (.worker i) = {} := (hmanned (.worker i)).idle hidle
  have hafter : b.after s (.take i) =
      { b with charge := Function.update b.charge (.worker i) { taken := some task } } := by
    simp only [Books.after, hqueue]
  rw [hafter]
  refine ⟨hstocked.take hqueue hempty, hmanned.set rfl rfl (fun _ _ => rfl) ?_⟩
  refine ⟨nofun, nofun, nofun, ?_⟩
  intro q hq
  obtain rfl := Option.some.inj hq
  refine (Charge.always_runTask e404 (hstocked.queue task (hqueue ▸ List.mem_cons_self))).mono ?_
  exact fun h _ hh => ⟨task, hh⟩

theorem Balanced.call {t : Thread n} {o : Op} {r : Ret o} (hx : Balanced (s, b)) (hmeets : (b.charge t).Meets o r)
    (hs : s.call t ⟨o, r⟩ = some s') : Balanced (s', b.after s (.call t ⟨o, r⟩)) := by
  obtain ⟨hstocked, hmanned⟩ := hx
  obtain ⟨k, w', hp, hr, rfl⟩ := State.call_cases hs
  have hwork := hmanned t
  rw [hp] at hwork
  have hrunning : ((s.record t o r).run t (some (k r))).running = Function.update s.running t (some (k r)) := by
    rw [State.run_running, (record_spec s t o r).2.2]
  have hserving : ∀ t', State.postsFor (s.record t o r) t' = s.postsFor t' := by
    intro t'
    cases t' with
    | loop => exact record_serving s t o r
    | worker i => rfl
  refine ⟨hstocked.call (s := s) (hwork.busy _ rfl).1 hmeets hr, hmanned.set hrunning rfl (fun t' _ => hserving t') ?_⟩
  have hnext := hwork.call hmeets
  rw [← hserving] at hnext
  exact hnext

theorem Balanced.leave {t : Thread n} (hx : Balanced (s, b)) (hs : s.leave t = some s') :
    Balanced (s', b.after s (.leave t)) := by
  obtain ⟨hstocked, hmanned⟩ := hx
  obtain ⟨ret, hp, rfl⟩ := State.leave_cases hs
  have hwork := hmanned t
  rw [hp] at hwork
  have hends : t.Ends (b.charge t) := hwork.busy _ rfl
  have hnone : t.Works (s.postsFor t) none {} := ⟨nofun, fun _ => rfl, fun _ => rfl, nofun⟩
  refine ⟨?_, hmanned.set rfl rfl (fun _ _ => rfl) hnone⟩
  cases t with
  | loop =>
    have hempty : b.charge .loop = {} := hends
    have hsame : b.after s (.leave .loop) = b := by
      simp only [Books.after, hempty, Option.map_none, Option.toList_none, List.append_nil]
      rw [← hempty, Function.update_eq_self]
    rw [hsame]
    exact hstocked
  | worker i =>
    obtain ⟨task, hdone⟩ := hends
    have hleave := hstocked.leave hdone
    simp only [Books.after, hdone]
    exact hleave

end

private theorem balanced_step {e404 : List UInt8} {listenFd : Int} {x y : State n × Books n} {l : Label n}
    (hx : Balanced x)
    (hok : PostsOnce x l) (hs : (audited n e404 listenFd).step x l = some y) : Balanced y := by
  obtain ⟨s, b⟩ := x
  obtain ⟨s', b'⟩ := y
  obtain ⟨hs, rfl⟩ := Transition.instrument_step hs
  cases l with
  | poll wait =>
    obtain ⟨hstocked, hmanned⟩ := hx
    obtain ⟨-, -, -, -, nEvent, te, -, ⟨-, rfl⟩ | ⟨-, rfl⟩⟩ := State.poll_cases hs
    · exact ⟨⟨hstocked.wrappers, hstocked.tasks, hstocked.queue⟩, hmanned⟩
    · exact ⟨⟨hstocked.wrappers, hstocked.tasks, hstocked.queue⟩, hmanned⟩
  | iterate fuel => exact hx.iterate hs
  | take i => exact hx.take hs
  | call t r => exact hx.call hok hs
  | leave t => exact hx.leave hs

private theorem balanced_of_reachable {e404 : List UInt8} {listenFd : Int} {x : State n × Books n}
    (h : (audited n e404 listenFd).Reachable PostsOnce x) : Balanced x := by
  refine h.invariant ?_ fun x l y hx hok hs => balanced_step hx hok hs
  rintro ⟨s, b⟩ ⟨hs, rfl⟩
  exact ⟨stocked_fresh hs, manned_fresh hs⟩

/-- When a connection is done with, nobody has anything in his hands that was allocated for it. -/
private theorem Ended.hands {x : State n × Books n} {c : ConnId} (hc : Ended x c) (hx : Balanced x) (t : Thread n) :
    (∀ w, (x.2.charge t).posting = some w → w.tconn ≠ c) ∧
      ∀ task, (x.2.charge t).taken = some task → task.context.tconn ≠ c := by
  have hwork := hx.manned t
  cases t with
  | loop =>
    refine ⟨?_, fun task htask => ?_⟩
    · rintro w hw rfl
      rcases hc.loop with hidle | hserving
      · rw [hwork.idle hidle] at hw
        cases hw
      · exact hserving (hwork.posting w hw)
    · rw [hwork.loop rfl] at htask
      cases htask
  | worker i =>
    refine ⟨fun w hw => ?_, hc.workers i⟩
    cases hwork.posting w hw

private theorem Charge.mem_wrappers {h : Charge} {w : WrapperContext} (hw : w ∈ h.wrappers) :
    h.posting = some w ∨ ∃ task, h.taken = some task ∧ task.context = w := by
  rcases List.mem_append.mp (Multiset.mem_coe.mp hw) with hw | hw
  · exact .inl (Option.mem_toList.mp hw)
  · split at hw
    · cases hw
    · exact .inr (Option.map_eq_some_iff.mp (Option.mem_toList.mp hw))

private theorem Charge.mem_tasks {h : Charge} {item : Nat × ConnId} (hi : item ∈ h.tasks) :
    (∃ w, h.posting = some w ∧ w.tconn = item.2) ∨ ∃ task, h.taken = some task ∧ task.context.tconn = item.2 := by
  rcases List.mem_append.mp (Multiset.mem_coe.mp hi) with hi | hi
  · obtain ⟨w, hw, hmap⟩ := Option.bind_eq_some_iff.mp (Option.mem_toList.mp hi)
    obtain ⟨task, -, rfl⟩ := Option.map_eq_some_iff.mp hmap
    exact .inl ⟨w, hw, rfl⟩
  · obtain ⟨task, htask, rfl⟩ := Option.map_eq_some_iff.mp (Option.mem_toList.mp hi)
    exact .inr ⟨task, htask, rfl⟩

/-- In every run in which the first `_post_task` of a connection succeeds once it has its wrapper, and there is no
second one, all that it has allocated for a connection is freed once by the time the connection is done with. -/
theorem freed_once_posting {e404 : List UInt8} {listenFd : Int} {x : State n × Books n}
    (h : (audited n e404 listenFd).Reachable PostsOnce x) {c : ConnId} (hc : Ended x c) : x.2.FreedOnce c := by
  have hx := balanced_of_reachable h
  constructor
  · rintro w hw hconn
    refine hx.stocked.wrappers.disposed_once hw (fun hmem => ?_) fun t hmem => ?_
    · obtain ⟨task, htask, hcontext⟩ := List.mem_map.mp hmem
      exact hc.queue task htask (hcontext ▸ hconn)
    · obtain ⟨hposting, htaken⟩ := hc.hands hx t
      rcases Charge.mem_wrappers hmem with hp | ⟨task, htask, hcontext⟩
      · exact hposting w hp hconn
      · exact htaken task htask (hcontext ▸ hconn)
  · rintro item hitem hconn
    refine hx.stocked.tasks.disposed_once hitem (fun hmem => ?_) fun t hmem => ?_
    · obtain ⟨task, htask, rfl⟩ := List.mem_map.mp hmem
      exact hc.queue task htask hconn
    · obtain ⟨hposting, htaken⟩ := hc.hands hx t
      rcases Charge.mem_tasks hmem with ⟨w, hp, hw⟩ | ⟨task, htask, hcontext⟩
      · exact hposting w hp (hw.trans hconn)
      · exact htaken task htask (hcontext.trans hconn)

def atRest (x : State n × Books n) (c : ConnId) : Bool :=
  (x.1.world.conns c).isNone && x.1.world.queue.isEmpty && (x.1.running .loop).isNone &&
    decide (∀ i, (x.2.charge (.worker i)).taken.isNone)

private theorem ended_of_atRest {x : State n × Books n} {c : ConnId} (h : atRest x c = true) : Ended x c := by
  simp only [atRest, Bool.and_eq_true, Option.isNone_iff_eq_none, List.isEmpty_iff, decide_eq_true_eq] at h
  obtain ⟨⟨⟨hclosed, hqueue⟩, hloop⟩, hworkers⟩ := h
  refine ⟨hclosed, ?_, .inl hloop, ?_⟩
  · intro task htask
    rw [hqueue] at htask
    cases htask
  · intro i task htask
    rw [hworkers i] at htask
    cases htask

private theorem audited_start : (audited n [] 5).init (State.start n, Books.empty) :=
  ⟨start_fresh n, rfl⟩

/-- The worker gets no wrapper for the task that prepares the response, and gives the connection up. -/
def unprepared : List (Move 1) :=
  requesting [] ++ working 4 ++ answered ⟨.callocWrapper 0, none⟩ ++ working 6 ++ resting

theorem freed_once_unprepared : ∃ x, (audited 1 [] 5).guided (fun x => x.1.choose) PostsOnce
    (.start 1, Books.empty) unprepared = some x ∧ Ended x 0 ∧ x.2.wrappers = [⟨0, 0⟩] ∧ x.2.FreedOnce 0 := by
  have hrun : ((audited 1 [] 5).guided (fun x => x.1.choose) PostsOnce (.start 1, Books.empty) unprepared).map
      (fun x => (atRest x 0, x.2.wrappers)) = some (true, [⟨0, 0⟩]) := by
    decide +kernel
  obtain ⟨x, hx, hrest⟩ := Option.map_eq_some_iff.mp hrun
  obtain ⟨hrest, hwrappers⟩ := Prod.mk.inj hrest
  have hended := ended_of_atRest hrest
  exact ⟨x, hx, hended, hwrappers, freed_once_posting (.of_guided unprepared (.init audited_start) hx) hended⟩

/-- The wrapper of the task that has parsed the request stays in memory when the next task is posted. -/
theorem leaked_when_served : ¬ ∀ (n : Nat) (e404 : List UInt8) (listenFd : Int) (x : State n × Books n) (c : ConnId),
    (audited n e404 listenFd).Reachable (fun _ _ => True) x → Ended x c → x.2.FreedOnce c := by
  intro h
  have hrun : ((audited 1 [] 5).guided (fun x => x.1.choose) (fun _ _ => True) (.start 1, Books.empty) served).map
      (fun x => (atRest x 0, x.2.wrappers, x.2.freedWrappers)) = some (true, [⟨0, 0⟩, ⟨1, 0⟩], [1]) := by
    decide +kernel
  obtain ⟨x, hx, hbooks⟩ := Option.map_eq_some_iff.mp hrun
  obtain ⟨hrest, hbooks⟩ := Prod.mk.inj hbooks
  obtain ⟨hwrappers, hfreed⟩ := Prod.mk.inj hbooks
  have hreach := Transition.Reachable.of_guided served (.init audited_start) hx
  have honce := (h 1 [] 5 x 0 hreach (ended_of_atRest hrest)).wrappers ⟨0, 0⟩ (hwrappers ▸ List.mem_cons_self) rfl
  rw [hfreed] at honce
  cases honce

end TinyosGraphics.Server
