import TinyosGraphics.Task.TaskQueue
import TinyosGraphics.Task.Conservation

/-! What `tgx_task_schedule_destroy` finds in the queue when it has waited for all workers. The list of the scheduler is
the content of the linked nodes. -/
namespace TinyosGraphics.Task
open Lib TgxTaskSchedule

/-- What the loop leaves: the queue, the semaphore, the tasks it has freed, and whether no `sem_trywait`
failed. -/
structure Emptied (T : Type) where
  queue : TaskQueue.TgxTaskQueue T
  resource : Nat
  freed : List T
  complete : Bool

/-- `tgx_task_queue_empty`, with a bound on the turns of its loop. -/
def tgxTaskQueueEmpty {T : Type} : Nat → TaskQueue.TgxTaskQueue T → Nat → Option (Emptied T)
  | 0, _, _ => none
  | turns + 1, q, resource => do
    match ← TaskQueue.tgxTaskQueuePopFront q with
    | (none, q) => some ⟨{ q with nTask := 0, head := none, tail := none }, resource, [], true⟩
    | (some task, q) =>
      if 0 < resource then do
        let r ← tgxTaskQueueEmpty turns q (resource - 1)
        some { r with freed := task :: r.freed }
      else some ⟨q, resource, [], false⟩

/-- With a token for each task the loop frees every task and every node, and nothing else. -/
private theorem tgxTaskQueueEmpty_spec {T : Type} {q : TaskQueue.TgxTaskQueue T} {as : List TaskQueue.Addr}
    (h : TaskQueue.Holds q as) (hroom : q.nTask ≤ TaskQueue.INT_MAX) {resource : Nat}
    (hle : as.length ≤ resource) :
    ∃ r, tgxTaskQueueEmpty (as.length + 1) q resource = some r ∧ r.complete = true ∧ r.freed = q.tasks as ∧
      (∀ a ∈ as, r.queue.nodes a = none) ∧ ∀ a, a ∉ as → r.queue.nodes a = q.nodes a := by
  induction as generalizing q resource with
  | nil =>
    have hzero := h.empty_iff.mpr rfl
    exact ⟨_, by simp [tgxTaskQueueEmpty, TaskQueue.tgxTaskQueuePopFront, hzero]; rfl, rfl, rfl, by simp, by simp⟩
  | cons a as ih =>
    obtain ⟨n, q', hn, hpop, hq', htasks, hnodes⟩ := h.pop hroom
    have hlen : q'.nTask ≤ q.nTask := by
      rw [hq'.count, h.count, List.length_cons]
      omega
    rw [List.length_cons] at hle
    have hrest : as.length ≤ resource - 1 := by omega
    obtain ⟨r, hr, hcomplete, hfreed, hgone, hrest⟩ := ih hq' (hlen.trans hroom) hrest
    have hpos : 0 < resource := by omega
    refine ⟨{ r with freed := n.task :: r.freed }, ?_, hcomplete, ?_, ?_, ?_⟩
    · rw [List.length_cons, tgxTaskQueueEmpty, hpop]
      simp only [Option.bind_eq_bind, Option.bind_some, if_pos hpos, hr]
    · show n.task :: r.freed = q.tasks (a :: as)
      rw [hfreed, htasks]
      simp [TaskQueue.TgxTaskQueue.tasks, hn]
    · have hself : a ∉ as := (List.nodup_cons.mp h.chain.nodup).1
      intro b hb
      rcases List.mem_cons.mp hb with rfl | hb
      · simp [hrest b hself, hnodes]
      · exact hgone b hb
    · intro b hb
      rw [List.mem_cons, not_or] at hb
      rw [hrest b hb.2, hnodes, Function.update_of_ne hb.1]

def Represents (q : TaskQueue.TgxTaskQueue TgxTask) (as : List TaskQueue.Addr) (tasks : List TgxTask) : Prop :=
  TaskQueue.Holds q as ∧ q.nTask ≤ TaskQueue.INT_MAX ∧ q.tasks as = tasks

/-- A queue in memory with these tasks, and no node besides theirs. -/
structure Linked (q : TaskQueue.TgxTaskQueue TgxTask) (as : List TaskQueue.Addr) (tasks : List TgxTask) : Prop where
  represents : Represents q as tasks
  clean : ∀ a, a ∉ as → q.nodes a = none

section
variable {q : TaskQueue.TgxTaskQueue TgxTask} {as : List TaskQueue.Addr} {queue : TgxTaskQueue}

theorem Linked.length (h : Linked q as queue.tasks) : q.nTask = queue.tasks.length := by
  obtain ⟨hq, -, htasks⟩ := h.represents
  rw [hq.count, ← htasks, hq.length_tasks]

/-- While the counter has room, a node that `calloc` gives is put where the list has the new task. -/
private theorem Linked.pushBack (h : Linked q as queue.tasks) (hroom : (queue.tasks.length : Int) < TaskQueue.INT_MAX)
    {a : TaskQueue.Addr} (ha : a ∉ as) (t : TgxTask) :
    ∃ q', TaskQueue.tgxTaskQueuePushBack (q.setNode a (some ⟨t, none, none⟩)) (some a) = some (0, q') ∧
      Linked q' (as ++ [a]) (tgxTaskQueuePushBack queue t).tasks := by
  obtain ⟨hq, -, htasks⟩ := h.represents
  obtain ⟨q', hpush, hn, htail, hchain, hnew, hfree⟩ := hq.push (h.clean a ha) t
  rw [← h.length] at hroom
  have hcount : q'.nTask = (as.length : Int) + 1 := by
    rw [hn, TaskQueue.toInt32_succ (by rw [hq.count]; omega) hroom, hq.count]
  refine ⟨q', hpush, ⟨⟨hchain, by simp [htail], by simp [hcount]⟩, ?_, ?_⟩, fun b hb => ?_⟩
  · rw [hcount, ← hq.count]
    exact hroom
  · rw [hnew, htasks]
    rfl
  · rw [List.mem_append, List.mem_singleton, not_or] at hb
    exact hfree b hb.2 (h.clean b hb.1)

/-- The queue in memory gives the task that the list gives, and frees its node. -/
private theorem Linked.popFront (h : Linked q as queue.tasks) :
    ∃ q', TaskQueue.tgxTaskQueuePopFront q = some ((tgxTaskQueuePopFront queue).1, q') ∧
      Linked q' as.tail (tgxTaskQueuePopFront queue).2.tasks := by
  obtain ⟨hq, hroom, htasks⟩ := h.represents
  cases as with
  | nil =>
    have hnone : queue.tasks = [] := htasks.symm
    have hzero := hq.empty_iff.mpr rfl
    simp only [tgxTaskQueuePopFront, hnone]
    exact ⟨q, by simp [TaskQueue.tgxTaskQueuePopFront, hzero], hnone ▸ h⟩
  | cons a as =>
    obtain ⟨n, q', hn, hpop, hq', hrest, hnodes⟩ := hq.pop hroom
    have hcons : queue.tasks = n.task :: q.tasks as := by
      rw [← htasks]
      simp [TaskQueue.TgxTaskQueue.tasks, hn]
    have hle : q'.nTask ≤ q.nTask := by
      rw [hq'.count, hq.count, List.length_cons]
      omega
    simp only [tgxTaskQueuePopFront, hcons, List.tail_cons]
    refine ⟨q', hpop, ⟨hq', hle.trans hroom, hrest⟩, fun b hb => ?_⟩
    rw [hnodes]
    by_cases hba : b = a
    · rw [hba, Function.update_self]
    · rw [Function.update_of_ne hba]
      exact h.clean b (by simp [hba, hb])

end

private theorem step_queue {s s' : TgxTaskSchedule} {l : Label} (h : s.Steps l s') :
    (s'.taskQueue.tasks = s.taskQueue.tasks ∧ s'.posted = s.posted) ∨
    (∃ t, l = .push ∧ s'.taskQueue.tasks = s.taskQueue.tasks ++ [t] ∧ s'.posted = s.posted ++ [t]) ∨
    ∃ t, s.taskQueue.tasks = t :: s'.taskQueue.tasks ∧ s'.posted = s.posted := by
  cases h with
  | pushed t => exact .inr (.inl ⟨t, rfl, rfl, rfl⟩)
  | emptiedOne t tasks resource hp hposting htasks => exact .inr (.inr ⟨t, htasks, rfl⟩)
  | leaked t tasks hp hposting htasks => exact .inr (.inr ⟨t, htasks, rfl⟩)
  | popped i t tasks hw hposting htasks => exact .inr (.inr ⟨t, htasks, rfl⟩)
  | signalled p q hopen hposting hq => exact .inl ⟨hq, rfl⟩
  | fakeSignalled i q phase hp hq => exact .inl ⟨hq, rfl⟩
  | _ => exact .inl ⟨rfl, rfl⟩

/-- The counter of the queue has room for the task that is pushed. -/
def CounterRoom (s : TgxTaskSchedule) : Label → Prop
  | .push => (s.taskQueue.tasks.length : Int) < TaskQueue.INT_MAX
  | _ => True

/-- The list of a scheduler is what linked nodes hold into which the posted tasks were pushed in their order. -/
def Follows (s : TgxTaskSchedule) (u : TaskQueue.Use TgxTask) : Prop :=
  u.pushed = s.posted ∧ ∃ as, Linked u.queue as s.taskQueue.tasks

/-- The queue of a run of the scheduler is that of a run of `tgx_task_queue_push_back` and `tgx_task_queue_pop_front`
on linked nodes. -/
theorem queue_linked {s : TgxTaskSchedule} (h : system.Reachable CounterRoom s) :
    ∃ u, (TaskQueue.system TgxTask).Reachable TaskQueue.Roomy u ∧ Follows s u := by
  refine h.simulates ?_ ?_
  · rintro _ ⟨n, rfl⟩
    exact ⟨⟨TaskQueue.tgxTaskQueueInit, [], []⟩, rfl, rfl, [],
      ⟨TaskQueue.holds_init, show (0 : Int) ≤ 2147483647 by omega, rfl⟩, fun _ _ => rfl⟩
  rintro s l s' u ⟨hpushed, as, hlinked⟩ - hok hs
  obtain ⟨htasks, hposted⟩ | ⟨t, rfl, htasks, hposted⟩ | ⟨t, htasks, hposted⟩ := step_queue (step_cases hs)
  · exact .inl ⟨hpushed.trans hposted.symm, as, htasks ▸ hlinked⟩
  · -- `calloc` gives a node that the queue does not use
    obtain ⟨a, ha⟩ := Infinite.exists_notMem_finset as.toFinset
    rw [List.mem_toFinset] at ha
    obtain ⟨q', hpush, hlinked'⟩ := hlinked.pushBack hok ha t
    have hroom : u.queue.nTask < TaskQueue.INT_MAX := hlinked.length ▸ hok
    refine .inr ⟨.push a t, ⟨q', u.pushed ++ [t], u.popped⟩, hroom, ?_, ?_, as ++ [a], ?_⟩
    · simp [TaskQueue.system, TaskQueue.Use.step, hlinked.clean a ha, hpush]
    · rw [hposted, ← hpushed]
    · rw [htasks]
      exact hlinked'
  · obtain ⟨q', hpop, hlinked'⟩ := hlinked.popFront
    simp only [tgxTaskQueuePopFront, htasks] at hpop hlinked'
    refine .inr ⟨.pop, ⟨q', u.pushed, u.popped ++ [t]⟩, trivial, ?_, ?_, as.tail, hlinked'⟩
    · simp [TaskQueue.system, TaskQueue.Use.step, hpop]
    · rw [hposted]
      exact hpushed

/-- No signal of a post is refused. -/
def SignalCounts (s : TgxTaskSchedule) : Label → Prop
  | .post p => p.accepted = true → s.taskQueue.resource < SEM_VALUE_MAX
  | _ => True

/-- What `destroy` may count on when it has waited for all workers, and what it has done at its end. -/
structure Drains (s : TgxTaskSchedule) : Prop where
  tokens : s.phase = .emptying → s.taskQueue.tasks.length ≤ s.taskQueue.resource
  nodes : s.phase = .emptying → ∀ q as, Represents q as s.taskQueue.tasks →
    ∃ r, tgxTaskQueueEmpty (as.length + 1) q s.taskQueue.resource = some r ∧ r.complete = true ∧
      r.freed = s.taskQueue.tasks ∧ (∀ a ∈ as, r.queue.nodes a = none) ∧
      ∀ a, a ∉ as → r.queue.nodes a = q.nodes a
  leaked : s.leaked = []
  freed : s.phase = .destroyed → s.taskQueue.tasks = [] ∧
    s.posted.Perm (s.done.map Prod.fst ++ s.freed) ∧ s.posted.Nodup

/-- How often `destroy` has signalled. -/
def Phase.faked (nThreads : Nat) : Phase → Nat
  | .signalling i => i
  | .joining _ | .emptying => nThreads
  | _ => 0

/-- Every task and every signal of `destroy` has a token, in the semaphore or taken by a worker that has
not popped for it. -/
structure Surplus (s : TgxTaskSchedule) : Prop where
  sized : s.workers.length ≤ s.nThreads
  tokens : s.taskQueue.tasks.length + s.posting.toList.length + s.phase.faked s.nThreads ≤
    s.taskQueue.resource + s.workers.countP Pc.hasToken + s.workers.countP Pc.gone
  leaked : s.leaked = []
  ended : s.phase = .destroyed → s.taskQueue.tasks = [] ∧ s.posting = none ∧ ∀ pc ∈ s.workers, pc.gone = true

variable {s s' : TgxTaskSchedule}

private theorem surplus_init (n : Int) : Surplus (tgxTaskScheduleInit n) := by
  constructor <;> simp [tgxTaskScheduleInit, Phase.faked]

/-- A worker moves, and takes from the semaphore and the queue what its new place accounts for. -/
theorem Surplus.move (h : Surplus s) {i : Nat} {pc : Pc} (hw : s.workers[i]? = some pc)
    (hgone : pc.gone = false) (pc' : Pc) (q : TgxTaskQueue)
    (hq : q.tasks.length + s.taskQueue.resource + (if pc.hasToken then 1 else 0) ≤
      s.taskQueue.tasks.length + q.resource + (if pc'.hasToken then 1 else 0) + (if pc'.gone then 1 else 0))
    (log : List Event) (done : List (TgxTask × Int)) :
    Surplus { s.setPc i pc' with taskQueue := q, log := log, done := done } := by
  have htoken := Threads.countP_set hw Pc.hasToken pc'
  have hcount := Threads.countP_set hw Pc.gone pc'
  have htokens := h.tokens
  rw [hgone] at hcount
  simp only [Bool.false_eq_true, if_false] at hcount
  constructor
  · show (s.workers.set i pc').length ≤ s.nThreads
    rw [List.length_set]
    exact h.sized
  · simp only [setPc_workers, setPc_phase, setPc_posting]
    show _ + _ + Phase.faked s.nThreads _ ≤ _
    omega
  · exact h.leaked
  · intro hp
    have hall := (h.ended hp).2.2 pc (Threads.mem_of_getElem? hw)
    simp [hall] at hgone

theorem Surplus.post (h : Surplus s) {p : Post} (hok : SignalCounts s (.post p)) (hs : s.step (.post p) = some s') :
    Surplus s' := by
  simp only [TgxTaskSchedule.step] at hs
  split at hs
  · cases hs
  rename_i hopen
  split at hs
  · obtain rfl := Option.some.inj hs
    exact h
  rename_i hacc
  split at hs
  · cases hs
  rename_i hlock
  obtain rfl := Option.some.inj hs
  have hroom := hok (by simpa using hacc)
  have htokens := h.tokens
  have hnone : s.posting = none := by simpa using hlock
  simp only [hnone, Option.toList_none, List.length_nil] at htokens
  constructor
  · exact h.sized
  · simp only [tgxTaskQueueSignal, if_pos hroom, Option.toList_some, List.length_singleton]
    omega
  · exact h.leaked
  · intro hp
    have hp : s.phase = .destroyed := hp
    simp [Open, hp] at hopen

private theorem Surplus.covers (h : Surplus s) (hj : Joined s) (hp : s.phase = .emptying) :
    s.taskQueue.tasks.length + s.posting.toList.length ≤ s.taskQueue.resource := by
  have htoken : s.workers.countP Pc.hasToken = 0 := by
    refine List.countP_eq_zero.mpr fun pc hpc => ?_
    have hgone := hj.emptying hp pc hpc
    cases pc <;> simp [Pc.gone, Pc.hasToken] at *
  have hgone := List.countP_le_length (p := Pc.gone) (l := s.workers)
  have hsized := h.sized
  have htokens := h.tokens
  rw [hp] at htokens
  simp only [Phase.faked] at htokens
  omega

private theorem surplus_step {l : Label} (h : Surplus s) (hj : Joined s) (hc' : Covered s') (hok : SignalCounts s l)
    (hstep : s.step l = some s') : Surplus s' := by
  have htokens := h.tokens
  have hs := step_cases hstep
  cases hs with
  | refused => exact h
  | signalled p => exact h.post hok hstep
  | createFails i ret hp =>
    rw [hp] at htokens
    exact ⟨h.sized, htokens, h.leaked, by simp⟩
  | created i ret pc phase hp hret hpc hphase =>
    have hcreating := hj.creating i hp
    rw [hp] at htokens
    simp only [Phase.faked] at htokens
    refine ⟨?_, ?_, h.leaked, ?_⟩
    · simp only [List.length_append, List.length_singleton]
      omega
    · have hfaked : phase.faked s.nThreads = 0 := by
        rw [hphase]
        split <;> rfl
      simp only [List.countP_append, hfaked]
      omega
    · rw [hphase]
      split <;> simp
  | stored hp =>
    rw [hp] at htokens
    exact ⟨h.sized, htokens, h.leaked, by simp⟩
  | pushed t ht =>
    simp only [ht, Option.toList_some, List.length_singleton] at htokens
    refine ⟨h.sized, ?_, h.leaked, fun hp => ?_⟩
    · simp only [List.length_append, List.length_singleton, Option.toList_none, List.length_nil]
      omega
    · have hnone := (h.ended hp).2.1
      rw [ht] at hnone
      cases hnone
  | cleared hp =>
    rw [hp] at htokens
    exact ⟨h.sized, htokens, h.leaked, by simp⟩
  | fakeSignalled i q phase hp hq hcase =>
    rw [hp] at htokens
    simp only [Phase.faked] at htokens
    obtain ⟨hres, rfl⟩ | ⟨rfl, rfl⟩ := hcase
    · refine ⟨h.sized, ?_, h.leaked, by split <;> simp⟩
      simp only [hq, hres]
      split
      · simp only [Phase.faked]
        omega
      · simp only [Phase.faked]
        omega
    · refine ⟨h.sized, ?_, h.leaked, by simp⟩
      simp only [Phase.faked]
      omega
  | joined i phase hp hw hphase =>
    rw [hp] at htokens
    refine ⟨h.sized, ?_, h.leaked, ?_⟩
    · rw [hphase]
      split <;> exact htokens
    · rw [hphase]
      split <;> simp
  | emptied hp hposting htasks =>
    rw [hp] at htokens
    refine ⟨h.sized, ?_, h.leaked, fun _ => ⟨htasks, hposting, hj.emptying hp⟩⟩
    simp only [Phase.faked] at htokens ⊢
    omega
  | emptiedOne t tasks resource hp hposting htasks hres =>
    simp only [htasks, hres, List.length_cons] at htokens
    refine ⟨h.sized, ?_, h.leaked, fun hd => ?_⟩
    · simp only
      omega
    · rw [show s.phase = .destroyed from hd] at hp
      cases hp
  | leaked t tasks hp hposting htasks hres =>
    have hcover := h.covers hj hp
    simp only [htasks, hres, List.length_cons] at hcover
    omega
  | headStays i hw => exact h.move hw rfl _ s.taskQueue (by simp [Pc.hasToken]) s.log s.done
  | headExits i hw => exact h.move hw rfl _ s.taskQueue (by simp [Pc.hasToken]) s.log s.done
  | waited i resource hw hres =>
    exact h.move hw rfl _ ⟨_, resource⟩ (by simp [Pc.hasToken, hres]; omega) s.log s.done
  | waitFailed i hw => exact h.move hw rfl _ s.taskQueue (by simp [Pc.hasToken]) s.log s.done
  | checkStays i hw => exact h.move hw rfl _ s.taskQueue (by simp [Pc.hasToken]) s.log s.done
  | checkExits i hw => exact h.move hw rfl _ s.taskQueue (by simp [Pc.hasToken, Pc.gone]) s.log s.done
  | poppedNull i hw =>
    obtain ⟨hlt, -⟩ := List.getElem?_eq_some_iff.mp hw
    exact absurd (List.mem_set hlt _) hc'.noNull
  | popped i t tasks hw hposting htasks =>
    exact h.move hw rfl _ ⟨tasks, _⟩ (by simp [Pc.hasToken, htasks]; omega) s.log s.done
  | handled i t ret hw => exact h.move hw rfl _ s.taskQueue (by simp [Pc.hasToken]) _ s.done
  | completed i t ret hw => exact h.move hw rfl _ s.taskQueue (by simp [Pc.hasToken]) _ _

private theorem surplus_of_reachable (h : system.Reachable SignalCounts s) : Surplus s := by
  refine h.invariant_of ?_ fun s l s' hr hs hok hstep => ?_
  · rintro _ ⟨n, rfl⟩
    exact surplus_init n
  · have hsound := sound_of_reachable (hr.mono fun _ _ _ => trivial)
    exact surplus_step hs hsound.joined (covered_step hsound.covered hsound.joined (step_cases hstep)) hok hstep

/-- In every run in which no signal of a post is refused, `destroy` has a token for each task that is left
and frees each of them once. -/
theorem destroy_drains (h : system.Reachable SignalCounts s) : Drains s := by
  have hsound := sound_of_reachable (h.mono fun _ _ _ => trivial)
  have hsurplus := surplus_of_reachable h
  have hcover : s.phase = .emptying → s.taskQueue.tasks.length ≤ s.taskQueue.resource := by
    intro hp
    have hcovers := hsurplus.covers hsound.joined hp
    omega
  constructor
  · exact hcover
  · rintro hp q as ⟨hq, hroom, htasks⟩
    have hle := hcover hp
    rw [← htasks, hq.length_tasks] at hle
    rw [← htasks]
    exact tgxTaskQueueEmpty_spec hq hroom hle
  · exact hsurplus.leaked
  · intro hp
    obtain ⟨htasks, -, hgone⟩ := hsurplus.ended hp
    refine ⟨htasks, ?_, ?_⟩
    · have hheld : s.workers.filterMap Pc.entry = [] := by
        refine List.filterMap_eq_nil_iff.mpr fun pc hpc => ?_
        have hpc := hgone pc hpc
        cases pc <;> simp [Pc.gone, Pc.entry] at *
      have hposted := hsound.conserved.posted
      rw [ledger, htasks, hheld, hsurplus.leaked] at hposted
      simpa [Function.comp_def] using hposted.symm
    · have hids := hsound.conserved.ids
      exact List.Nodup.of_map TgxTask.id (hids ▸ List.nodup_range)

def accepted : Post :=
  ⟨none, some 0, true, true⟩

/-- One worker, two tasks: the worker runs one and leaves the other to `destroy`. -/
def oneLeft : List Label :=
  [.create 0, .storeKeepAlive, .post accepted, .push, .testHead 0, .wait 0, .check 0, .pop 0, .post accepted, .push,
    .clearKeepAlive, .fakeSignal, .runHandler 0 7, .complete 0, .testHead 0, .join, .emptyOne, .emptyOne]

instance (s : TgxTaskSchedule) (l : Label) : Decidable (SignalCounts s l) :=
  match l with
  | .post _ => inferInstanceAs (Decidable (_ → _))
  | .create _ | .storeKeepAlive | .push | .clearKeepAlive | .fakeSignal | .join | .emptyOne | .testHead _
  | .wait _ | .waitFails _ | .check _ | .pop _ | .runHandler _ _ | .complete _ => isTrue trivial

theorem destroy_drains_left : ∃ s, system.guided (fun _ l => some l) SignalCounts (tgxTaskScheduleInit 1) oneLeft =
    some s ∧ s.phase = .destroyed ∧ s.freed = [⟨1, true⟩] ∧ Drains s := by
  obtain ⟨s, hs⟩ := Option.isSome_iff_exists.mp (show (system.guided (fun _ l => some l) SignalCounts
    (tgxTaskScheduleInit 1) oneLeft).isSome = true by decide)
  have hend : s.phase = .destroyed ∧ s.freed = [⟨1, true⟩] := by
    obtain rfl := Option.some.inj hs
    decide
  exact ⟨s, hs, hend.1, hend.2, destroy_drains (.of_guided oneLeft (.init ⟨1, rfl⟩) hs)⟩

/-- Three workers, of which two wait and one runs a task that posts others. -/
def posting (tasks posted : List TgxTask) (resource : Nat) : TgxTaskSchedule where
  nThreads := 3
  keepAlive := true
  taskQueue := ⟨tasks, resource⟩
  posting := none
  workers := [.waiting, .waiting, .claimed ⟨0, true⟩]
  phase := .ready
  posted := posted
  done := []
  freed := []
  leaked := []
  log := []

private theorem posting_reached (k : Nat) (hk : k ≤ SEM_VALUE_MAX) : ∃ tasks posted, tasks.length = k ∧
    system.Reachable (fun _ _ => True) (posting tasks posted k) := by
  induction k with
  | zero =>
    refine ⟨[], [⟨0, true⟩], rfl, .of_replay ⟨3, rfl⟩ [.create 0, .create 0, .create 0, .storeKeepAlive,
      .post accepted, .push, .testHead 2, .wait 2, .check 2, .pop 2, .testHead 0, .testHead 1] ?_⟩
    decide
  | succ k ih =>
    obtain ⟨tasks, posted, hlen, hr⟩ := ih (by omega)
    refine ⟨tasks ++ [⟨posted.length, true⟩], posted ++ [⟨posted.length, true⟩], by simp [hlen], ?_⟩
    have hsignal : system.step (posting tasks posted k) (.post accepted) =
        some { posting tasks posted (k + 1) with posting := some ⟨posted.length, true⟩ } := by
      have hlt : k < SEM_VALUE_MAX := hk
      simp [system, TgxTaskSchedule.step, posting, Open, accepted, Post.accepted, tgxTaskQueueSignal, hlt]
    exact (hr.next trivial hsignal).next (l := .push) trivial rfl

/-- What happens then: `destroy` signals twice and fills the semaphore, the running task posts two more tasks,
and the waiting workers take a token each on their way out. -/
def refusedTwice : List Label :=
  [.clearKeepAlive, .fakeSignal, .fakeSignal, .post accepted, .push, .post accepted, .push, .wait 0, .check 0,
    .wait 1, .check 1, .fakeSignal, .runHandler 2 0, .complete 2, .testHead 2, .join, .join, .join]

/-- With a full semaphore a post adds a task without a token. -/
theorem token_missing : ¬ ∀ s, system.Reachable (fun _ _ => True) s → Drains s := by
  intro h
  obtain ⟨tasks, posted, hlen, hr⟩ := posting_reached 2147483645 (by decide)
  obtain ⟨s, hs, hphase, hres, htasks⟩ : ∃ s, system.replay (posting tasks posted 2147483645) refusedTwice = some s ∧
      s.phase = .emptying ∧ s.taskQueue.resource = 2147483646 ∧ s.taskQueue.tasks.length = tasks.length + 2 := by
    refine ⟨_, rfl, rfl, rfl, ?_⟩
    show (tasks ++ [_] ++ [_]).length = tasks.length + 2
    simp
  have hreach := hr.run (Transition.run_of_replay _ hs) fun _ _ => trivial
  have hle := (h s hreach).tokens hphase
  rw [hres, htasks, hlen] at hle
  omega

end TinyosGraphics.Task
