import TinyosGraphics.Lib.Transition
import TinyosGraphics.Lib.Threads

/-! The task scheduler of `tgx_task.c` and its threads: the thread that calls
`tgx_task_schedule_init` and `_destroy`, the workers in `do_pthread`, and the posters. -/
namespace TinyosGraphics.Task
open Lib

/-- `tgx_task_t`. A task is known by the number of posts before it; the `context` is left out. -/
structure TgxTask where
  id : Nat
  /-- `on_task_complete` is set -/
  onTaskComplete : Bool
  deriving DecidableEq

/-- `tgx_task_queue_t`: the tasks from `head` to `tail`, of which there are `n_task`, and the value
of the semaphore `resource`. -/
structure TgxTaskQueue where
  tasks : List TgxTask
  resource : Nat
  deriving DecidableEq

def SEM_VALUE_MAX : Nat := 2147483647

/-- `tgx_task_queue_signal`, that is `sem_post`. -/
def tgxTaskQueueSignal (q : TgxTaskQueue) : Int × TgxTaskQueue :=
  if q.resource < SEM_VALUE_MAX then (0, { q with resource := q.resource + 1 }) else (-1, q)

/-- `tgx_task_queue_wait` returning 0; it blocks while the semaphore is 0. -/
def tgxTaskQueueWait (q : TgxTaskQueue) : Option TgxTaskQueue :=
  if 0 < q.resource then some { q with resource := q.resource - 1 } else none

def tgxTaskQueuePushBack (q : TgxTaskQueue) (t : TgxTask) : TgxTaskQueue :=
  { q with tasks := q.tasks ++ [t] }

/-- `tgx_task_queue_pop_front`; no task is a null pointer. -/
def tgxTaskQueuePopFront (q : TgxTaskQueue) : Option TgxTask × TgxTaskQueue :=
  match q.tasks with
  | [] => (none, q)
  | t :: tasks => (some t, { q with tasks := tasks })

/-- Where a worker is in `do_pthread`. -/
inductive Pc
  /-- at the test of `keep_alive` in the `while` -/
  | head
  /-- in `tgx_task_queue_wait` -/
  | waiting
  /-- at the second test of `keep_alive` -/
  | check
  /-- about to lock `sched_lock` and pop -/
  | wantPop
  | claimed (t : TgxTask)
  | completing (t : TgxTask) (ret : Int)
  | exited
  /-- dereferencing the null task of an empty queue -/
  | nullTask
  /-- `pthread_create` returned an error number, which is positive and passes the test for a failure -/
  | missing
  deriving DecidableEq

def Pc.task : Pc → Option TgxTask
  | .claimed t | .completing t _ => some t
  | _ => none

def Pc.hasToken : Pc → Bool
  | .check | .wantPop => true
  | _ => false

def Pc.popping : Pc → Bool
  | .wantPop => true
  | _ => false

inductive Phase
  | creating (i : Nat)
  /-- all threads are created, `keep_alive` is still to be set -/
  | storing
  | ready
  | signalling (i : Nat)
  | joining (i : Nat)
  | emptying
  | destroyed
  /-- `tgx_task_schedule_init` returned NULL, or `_destroy` returned early -/
  | failed
  deriving DecidableEq

/-- `keep_alive` has not been cleared. -/
def Phase.beforeDestroy : Phase → Bool
  | .creating _ | .storing | .ready => true
  | _ => false

/-- A task's callbacks, in the order they ran. -/
inductive Event
  | handled (id : Nat) (ret : Int)
  | completed (id : Nat) (ret : Int)
  deriving DecidableEq

def Event.id : Event → Nat
  | .handled id _ | .completed id _ => id

/-- `tgx_task_schedule_t` with its threads. `posting` is the task of the poster that holds
`sched_lock` between its signal and its push; `posted`, `done`, `freed`, `leaked` and `log` are
history. -/
structure TgxTaskSchedule where
  nThreads : Nat
  keepAlive : Bool
  taskQueue : TgxTaskQueue
  posting : Option TgxTask
  workers : List Pc
  phase : Phase
  posted : List TgxTask
  done : List (TgxTask × Int)
  freed : List TgxTask
  leaked : List TgxTask
  log : List Event
  deriving DecidableEq

/-- The state in which `tgx_task_schedule_init` starts its threads. -/
def tgxTaskScheduleInit (nThreads : Int) : TgxTaskSchedule where
  nThreads := if nThreads < 1 then 1 else nThreads.toNat
  keepAlive := false
  taskQueue := ⟨[], 0⟩
  posting := none
  workers := []
  phase := .creating 0
  posted := []
  done := []
  freed := []
  leaked := []
  log := []

/-- What `tgx_post_task` meets before it locks: the results of `pthread_mutex_trylock` and of
`on_post`, each only if there is one, and of `calloc`. -/
structure Post where
  trylock : Option Int
  onPost : Option Int
  calloc : Bool
  onTaskComplete : Bool

/-- `tgx_post_task` has not returned -1 before the lock. -/
def Post.accepted (p : Post) : Bool :=
  !p.trylock.any (· < 0) && !p.onPost.any (· < 0) && p.calloc

inductive Label
  | create (ret : Int)
  | storeKeepAlive
  | post (p : Post)
  | push
  | clearKeepAlive
  | fakeSignal
  | join
  | emptyOne
  | testHead (i : Nat)
  | wait (i : Nat)
  | waitFails (i : Nat)
  | check (i : Nat)
  | pop (i : Nat)
  | runHandler (i : Nat) (ret : Int)
  | complete (i : Nat)

namespace TgxTaskSchedule

def setPc (s : TgxTaskSchedule) (i : Nat) (pc : Pc) : TgxTaskSchedule :=
  { s with workers := s.workers.set i pc }

section
variable (s : TgxTaskSchedule) (i : Nat) (pc : Pc)
@[simp] theorem setPc_workers : (s.setPc i pc).workers = s.workers.set i pc := rfl
@[simp] theorem setPc_phase : (s.setPc i pc).phase = s.phase := rfl
@[simp] theorem setPc_keepAlive : (s.setPc i pc).keepAlive = s.keepAlive := rfl
@[simp] theorem setPc_taskQueue : (s.setPc i pc).taskQueue = s.taskQueue := rfl
@[simp] theorem setPc_posting : (s.setPc i pc).posting = s.posting := rfl
end

/-- Tasks can be posted once `tgx_task_schedule_init` has returned and until the lock is destroyed. -/
def Open (s : TgxTaskSchedule) : Bool :=
  match s.phase with
  | .ready | .signalling _ | .joining _ => true
  | _ => false

/-- The thread in `tgx_task_schedule_init` or `_destroy`, and the posters. -/
def step (s : TgxTaskSchedule) : Label → Option TgxTaskSchedule
  | .create ret =>
    match s.phase with
    | .creating i =>
      if ret < 0 then some { s with phase := .failed }
      else
        some { s with
          workers := s.workers ++ [if ret = 0 then .head else .missing]
          phase := if i + 1 < s.nThreads then .creating (i + 1) else .storing }
    | _ => none
  | .storeKeepAlive =>
    if s.phase = .storing then some { s with keepAlive := true, phase := .ready } else none
  | .post p =>
    if s.Open = false then none
    else if p.accepted = false then some s
    else if s.posting.isSome then none
    else
      some { s with
        taskQueue := (tgxTaskQueueSignal s.taskQueue).2
        posting := some ⟨s.posted.length, p.onTaskComplete⟩ }
  | .push =>
    s.posting.map fun t =>
      { s with taskQueue := tgxTaskQueuePushBack s.taskQueue t, posting := none, posted := s.posted ++ [t] }
  | .clearKeepAlive =>
    if s.phase = .ready then some { s with keepAlive := false, phase := .signalling 0 } else none
  | .fakeSignal =>
    match s.phase with
    | .signalling i =>
      let (ret, q) := tgxTaskQueueSignal s.taskQueue
      some { s with
        taskQueue := q
        phase := if ret < 0 then .failed else if i + 1 < s.nThreads then .signalling (i + 1) else .joining 0 }
    | _ => none
  | .join =>
    match s.phase with
    | .joining i =>
      if s.workers[i]? = some .exited ∨ s.workers[i]? = some .missing then
        some { s with phase := if i + 1 < s.nThreads then .joining (i + 1) else .emptying }
      else none
    | _ => none
  | .emptyOne =>
    if s.phase = .emptying ∧ s.posting = none then
      match tgxTaskQueuePopFront s.taskQueue with
      | (none, q) => some { s with taskQueue := q, phase := .destroyed }
      | (some t, q) =>
        match tgxTaskQueueWait q with
        | some q => some { s with taskQueue := q, freed := s.freed ++ [t] }
        | none => some { s with taskQueue := q, leaked := s.leaked ++ [t], phase := .destroyed }
    else none
  | .testHead i =>
    if s.workers[i]? = some .head then some (s.setPc i (if s.keepAlive then .waiting else .exited)) else none
  | .wait i =>
    if s.workers[i]? = some .waiting then
      (tgxTaskQueueWait s.taskQueue).map fun q => { s.setPc i .check with taskQueue := q }
    else none
  | .waitFails i =>
    if s.workers[i]? = some .waiting then some (s.setPc i .exited) else none
  | .check i =>
    if s.workers[i]? = some .check then some (s.setPc i (if s.keepAlive then .wantPop else .exited)) else none
  | .pop i =>
    if s.workers[i]? = some .wantPop ∧ s.posting = none then
      match tgxTaskQueuePopFront s.taskQueue with
      | (none, q) => some { s.setPc i .nullTask with taskQueue := q }
      | (some t, q) => some { s.setPc i (.claimed t) with taskQueue := q }
    else none
  | .runHandler i ret =>
    match s.workers[i]? with
    | some (.claimed t) => some { s.setPc i (.completing t ret) with log := s.log ++ [.handled t.id ret] }
    | _ => none
  | .complete i =>
    match s.workers[i]? with
    | some (.completing t ret) =>
      some { s.setPc i .head with
        log := if t.onTaskComplete then s.log ++ [.completed t.id ret] else s.log
        done := s.done ++ [(t, ret)] }
    | _ => none

end TgxTaskSchedule

/-- All runs from a call of `tgx_task_schedule_init`. -/
def system : Transition TgxTaskSchedule Label where
  init s := ∃ n, s = tgxTaskScheduleInit n
  step := TgxTaskSchedule.step

/-- The steps, one constructor for each branch of the source. -/
inductive TgxTaskSchedule.Steps (s : TgxTaskSchedule) : Label → TgxTaskSchedule → Prop
  | createFails (i ret) : s.phase = .creating i → ret < 0 → Steps s (.create ret) { s with phase := .failed }
  | created (i ret pc phase) : s.phase = .creating i → 0 ≤ ret → pc = (if ret = 0 then .head else .missing) →
      phase = (if i + 1 < s.nThreads then .creating (i + 1) else .storing) →
      Steps s (.create ret) { s with workers := s.workers ++ [pc], phase := phase }
  | stored : s.phase = .storing → Steps s .storeKeepAlive { s with keepAlive := true, phase := .ready }
  | refused (p) : p.accepted = false → Steps s (.post p) s
  | signalled (p q) : s.Open = true → s.posting = none → q.tasks = s.taskQueue.tasks →
      q.resource ≤ s.taskQueue.resource + 1 →
      Steps s (.post p)
        { s with taskQueue := q, posting := some ⟨s.posted.length, p.onTaskComplete⟩ }
  | pushed (t) : s.posting = some t →
      Steps s .push
        { s with taskQueue := ⟨s.taskQueue.tasks ++ [t], s.taskQueue.resource⟩, posting := none,
                 posted := s.posted ++ [t] }
  | cleared : s.phase = .ready →
      Steps s .clearKeepAlive { s with keepAlive := false, phase := .signalling 0 }
  | fakeSignalled (i q phase) : s.phase = .signalling i → q.tasks = s.taskQueue.tasks →
      (q.resource = s.taskQueue.resource + 1 ∧
          phase = (if i + 1 < s.nThreads then .signalling (i + 1) else .joining 0) ∨
        q = s.taskQueue ∧ phase = .failed) →
      Steps s .fakeSignal { s with taskQueue := q, phase := phase }
  | joined (i phase) : s.phase = .joining i →
      (s.workers[i]? = some .exited ∨ s.workers[i]? = some .missing) →
      phase = (if i + 1 < s.nThreads then .joining (i + 1) else .emptying) →
      Steps s .join { s with phase := phase }
  | emptied : s.phase = .emptying → s.posting = none → s.taskQueue.tasks = [] →
      Steps s .emptyOne { s with phase := .destroyed }
  | emptiedOne (t tasks resource) : s.phase = .emptying → s.posting = none →
      s.taskQueue.tasks = t :: tasks → s.taskQueue.resource = resource + 1 →
      Steps s .emptyOne { s with taskQueue := ⟨tasks, resource⟩, freed := s.freed ++ [t] }
  | leaked (t tasks) : s.phase = .emptying → s.posting = none →
      s.taskQueue.tasks = t :: tasks → s.taskQueue.resource = 0 →
      Steps s .emptyOne { s with taskQueue := ⟨tasks, 0⟩, leaked := s.leaked ++ [t], phase := .destroyed }
  | headStays (i) : s.workers[i]? = some .head → s.keepAlive = true →
      Steps s (.testHead i) (s.setPc i .waiting)
  | headExits (i) : s.workers[i]? = some .head → s.keepAlive = false →
      Steps s (.testHead i) (s.setPc i .exited)
  | waited (i resource) : s.workers[i]? = some .waiting → s.taskQueue.resource = resource + 1 →
      Steps s (.wait i) { s.setPc i .check with taskQueue := ⟨s.taskQueue.tasks, resource⟩ }
  | waitFailed (i) : s.workers[i]? = some .waiting → Steps s (.waitFails i) (s.setPc i .exited)
  | checkStays (i) : s.workers[i]? = some .check → s.keepAlive = true →
      Steps s (.check i) (s.setPc i .wantPop)
  | checkExits (i) : s.workers[i]? = some .check → s.keepAlive = false →
      Steps s (.check i) (s.setPc i .exited)
  | poppedNull (i) : s.workers[i]? = some .wantPop → s.posting = none → s.taskQueue.tasks = [] →
      Steps s (.pop i) (s.setPc i .nullTask)
  | popped (i t tasks) : s.workers[i]? = some .wantPop → s.posting = none →
      s.taskQueue.tasks = t :: tasks →
      Steps s (.pop i) { s.setPc i (.claimed t) with taskQueue := ⟨tasks, s.taskQueue.resource⟩ }
  | handled (i t ret) : s.workers[i]? = some (.claimed t) →
      Steps s (.runHandler i ret)
        { s.setPc i (.completing t ret) with log := s.log ++ [.handled t.id ret] }
  | completed (i t ret) : s.workers[i]? = some (.completing t ret) →
      Steps s (.complete i)
        { s.setPc i .head with
          log := if t.onTaskComplete then s.log ++ [.completed t.id ret] else s.log
          done := s.done ++ [(t, ret)] }

variable {s s' : TgxTaskSchedule}

theorem not_beforeDestroy_signalled {i n : Nat} {q q' : TgxTaskQueue} {phase : Phase} {P : Prop}
    (h : P ∧ phase = (if i + 1 < n then .signalling (i + 1) else .joining 0) ∨ q = q' ∧ phase = .failed) :
    ¬ phase.beforeDestroy = true := by
  rcases h with ⟨-, rfl⟩ | ⟨-, rfl⟩
  · split <;> simp [Phase.beforeDestroy]
  · simp [Phase.beforeDestroy]

theorem not_beforeDestroy_joined {i n : Nat} {phase : Phase}
    (h : phase = if i + 1 < n then .joining (i + 1) else .emptying) : ¬ phase.beforeDestroy = true := by
  rw [h]
  split <;> simp [Phase.beforeDestroy]

private theorem signal_cases (q : TgxTaskQueue) :
    (tgxTaskQueueSignal q).1 = 0 ∧ (tgxTaskQueueSignal q).2 = ⟨q.tasks, q.resource + 1⟩ ∨
    (tgxTaskQueueSignal q).1 = -1 ∧ (tgxTaskQueueSignal q).2 = q := by
  unfold tgxTaskQueueSignal
  split
  · exact .inl ⟨rfl, rfl⟩
  · exact .inr ⟨rfl, rfl⟩

theorem step_cases {l : Label} (h : s.step l = some s') : s.Steps l s' := by
  cases l with
  | create ret =>
    simp only [TgxTaskSchedule.step] at h
    split at h <;> try cases h
    rename_i i hp
    split at h <;> cases h
    · rename_i hneg
      exact .createFails i ret hp hneg
    · rename_i hret
      exact .created i ret _ _ hp (Int.not_lt.mp hret) rfl rfl
  | storeKeepAlive =>
    simp only [TgxTaskSchedule.step, Option.ite_none_right_eq_some, Option.some.injEq] at h
    obtain ⟨hp, rfl⟩ := h
    exact .stored hp
  | post p =>
    simp only [TgxTaskSchedule.step] at h
    split at h
    · cases h
    rename_i hopen
    split at h
    · rename_i hacc
      cases h
      exact .refused p hacc
    split at h
    · cases h
    rename_i hlock
    cases h
    rcases signal_cases s.taskQueue with ⟨-, hq⟩ | ⟨-, hq⟩
    · exact .signalled p _ (by simpa using hopen) (by simpa using hlock) (by simp only [hq]) (by simp [hq])
    · exact .signalled p _ (by simpa using hopen) (by simpa using hlock) (by simp only [hq]) (by simp [hq])
  | push =>
    obtain ⟨t, ht, rfl⟩ := Option.map_eq_some_iff.mp h
    exact .pushed t ht
  | clearKeepAlive =>
    simp only [TgxTaskSchedule.step, Option.ite_none_right_eq_some, Option.some.injEq] at h
    obtain ⟨hp, rfl⟩ := h
    exact .cleared hp
  | fakeSignal =>
    simp only [TgxTaskSchedule.step] at h
    split at h <;> cases h
    rename_i i hp
    rcases signal_cases s.taskQueue with ⟨hr, hq⟩ | ⟨hr, hq⟩
    · exact .fakeSignalled i _ _ hp (by rw [hq]) (.inl ⟨by rw [hq], by simp [hr]⟩)
    · exact .fakeSignalled i _ _ hp (by rw [hq]) (.inr ⟨hq, by simp [hr]⟩)
  | join =>
    simp only [TgxTaskSchedule.step] at h
    split at h <;> try cases h
    rename_i i hp
    simp only [Option.ite_none_right_eq_some, Option.some.injEq] at h
    obtain ⟨hw, rfl⟩ := h
    exact .joined i _ hp hw rfl
  | emptyOne =>
    simp only [TgxTaskSchedule.step] at h
    split at h <;> try cases h
    rename_i hp
    cases htasks : s.taskQueue.tasks with
    | nil =>
      simp only [tgxTaskQueuePopFront, htasks, Option.some.injEq] at h
      subst h
      exact .emptied hp.1 hp.2 htasks
    | cons t tasks =>
      simp only [tgxTaskQueuePopFront, htasks, tgxTaskQueueWait] at h
      by_cases hres : 0 < s.taskQueue.resource
      · simp only [hres, if_true, Option.some.injEq] at h
        subst h
        exact .emptiedOne t tasks _ hp.1 hp.2 htasks (by omega)
      · have hzero : s.taskQueue.resource = 0 := by omega
        simp only [hzero, Nat.lt_irrefl, if_false, Option.some.injEq] at h
        subst h
        exact .leaked t tasks hp.1 hp.2 htasks hzero
  | testHead i =>
    simp only [TgxTaskSchedule.step, Option.ite_none_right_eq_some, Option.some.injEq] at h
    obtain ⟨hw, rfl⟩ := h
    cases hk : s.keepAlive
    · exact .headExits i hw hk
    · exact .headStays i hw hk
  | wait i =>
    simp only [TgxTaskSchedule.step, tgxTaskQueueWait] at h
    split at h <;> try cases h
    rename_i hw
    split at h <;> cases h
    rename_i hres
    exact .waited i _ hw (by omega)
  | waitFails i =>
    simp only [TgxTaskSchedule.step, Option.ite_none_right_eq_some, Option.some.injEq] at h
    obtain ⟨hw, rfl⟩ := h
    exact .waitFailed i hw
  | check i =>
    simp only [TgxTaskSchedule.step, Option.ite_none_right_eq_some, Option.some.injEq] at h
    obtain ⟨hw, rfl⟩ := h
    cases hk : s.keepAlive
    · exact .checkExits i hw hk
    · exact .checkStays i hw hk
  | pop i =>
    simp only [TgxTaskSchedule.step] at h
    split at h <;> try cases h
    rename_i hw
    cases htasks : s.taskQueue.tasks with
    | nil =>
      simp only [tgxTaskQueuePopFront, htasks, Option.some.injEq] at h
      subst h
      exact .poppedNull i hw.1 hw.2 htasks
    | cons t tasks =>
      simp only [tgxTaskQueuePopFront, htasks, Option.some.injEq] at h
      subst h
      exact .popped i t tasks hw.1 hw.2 htasks
  | runHandler i ret =>
    simp only [TgxTaskSchedule.step] at h
    split at h <;> cases h
    rename_i t hw
    exact .handled i t ret hw
  | complete i =>
    simp only [TgxTaskSchedule.step] at h
    split at h <;> cases h
    rename_i t ret hw
    exact .completed i t ret hw

end TinyosGraphics.Task
