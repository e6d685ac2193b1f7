import TinyosGraphics.Lib.CString
import TinyosGraphics.Lib.Chain
import TinyosGraphics.Lib.Transition

/-! The task queue of `tgx_task.c` as it lies in memory: a counter, two pointers and linked nodes. -/
namespace TinyosGraphics.TaskQueue
open Lib

def INT_MAX : Int := 2147483647

abbrev Addr := Nat

/-- `__tgx_task_internal_t`. Its task is never a null pointer. -/
structure TgxTaskInternal (T : Type) where
  task : T
  next : Option Addr
  prev : Option Addr

/-- `tgx_task_queue_t` without its semaphore, and the nodes that are allocated. -/
structure TgxTaskQueue (T : Type) where
  head : Option Addr
  tail : Option Addr
  nTask : Int
  nodes : Addr → Option (TgxTaskInternal T)

variable {T : Type}

def tgxTaskQueueInit : TgxTaskQueue T where
  head := none
  tail := none
  nTask := 0
  nodes _ := none

namespace TgxTaskQueue

/-- The node at a pointer; `none` for a null pointer and for freed memory. -/
def deref (q : TgxTaskQueue T) (p : Option Addr) : Option (TgxTaskInternal T) :=
  p.bind q.nodes

def setNode (q : TgxTaskQueue T) (a : Addr) (n : Option (TgxTaskInternal T)) : TgxTaskQueue T :=
  { q with nodes := Function.update q.nodes a n }

def modify (q : TgxTaskQueue T) (p : Option Addr) (f : TgxTaskInternal T → TgxTaskInternal T) :
    Option (TgxTaskQueue T) :=
  match p with
  | none => none
  | some a => (q.nodes a).map fun n => q.setNode a (some (f n))

def free (q : TgxTaskQueue T) (p : Option Addr) : TgxTaskQueue T :=
  match p with
  | none => q
  | some a => q.setNode a none

/-- The `next` links in memory. -/
def next (q : TgxTaskQueue T) (a : Addr) : Option (Option Addr) :=
  (q.nodes a).map TgxTaskInternal.next

def tasks (q : TgxTaskQueue T) (as : List Addr) : List T :=
  as.filterMap fun a => (q.nodes a).map TgxTaskInternal.task

end TgxTaskQueue

/-- `tgx_task_queue_push_back`. It is `none` where memory is touched that is not allocated. -/
def tgxTaskQueuePushBack (q : TgxTaskQueue T) (taskInternal : Option Addr) : Option (Int × TgxTaskQueue T) :=
  if taskInternal = none then some (-1, q)
  else do
    let q ←
      if q.nTask = 0 then some { q with head := taskInternal, tail := taskInternal }
      else do
        let q ← q.modify taskInternal fun n => { n with prev := q.tail }
        let q ← q.modify q.tail fun n => { n with next := taskInternal }
        some { q with tail := taskInternal }
    let q ← q.modify q.tail fun n => { n with next := none }
    some (0, { q with nTask := toInt32 (q.nTask + 1) })

/-- `tgx_task_queue_pop_front`, with the same meaning of `none`. -/
def tgxTaskQueuePopFront (q : TgxTaskQueue T) : Option (Option T × TgxTaskQueue T) :=
  if q.nTask = 0 then some (none, q)
  else do
    let (taskInternal, q) ←
      if q.nTask = 1 then some (q.tail, { q with head := none, tail := none })
      else (q.deref q.head).map fun n => (q.head, { q with head := n.next })
    let q := { q with nTask := toInt32 (q.nTask - 1) }
    let n ← q.deref taskInternal
    some (some n.task, q.free taskInternal)

/-- The queue, and the history of its tasks. -/
structure Use (T : Type) where
  queue : TgxTaskQueue T
  pushed : List T
  popped : List T

inductive Label (T : Type)
  /-- a node that `calloc` has given is filled in and pushed -/
  | push (node : Addr) (task : T)
  | pop

/-- The calls of the two functions; `calloc` gives no memory that is in use. -/
def Use.step (s : Use T) : Label T → Option (Use T)
  | .push node task =>
    if (s.queue.nodes node).isSome then none
    else
      (tgxTaskQueuePushBack (s.queue.setNode node (some ⟨task, none, none⟩)) (some node)).map fun (_, q) =>
        { s with queue := q, pushed := s.pushed ++ [task] }
  | .pop =>
    (tgxTaskQueuePopFront s.queue).map fun (r, q) =>
      { s with queue := q, popped := s.popped ++ r.toList }

/-- All sequences of calls from `tgx_task_queue_init` on. -/
def system (T : Type) : Transition (Use T) (Label T) where
  init s := s = ⟨tgxTaskQueueInit, [], []⟩
  step := Use.step

/-- The counter has room for what is pushed. -/
def Roomy (s : Use T) : Label T → Prop
  | .push _ _ => s.queue.nTask < INT_MAX
  | .pop => True

/-- What the queue promises between two calls. -/
structure Fifo (s : Use T) : Prop where
  nodes : ∃ as : List Addr, as.Nodup ∧ (∀ a, Reaches s.queue.next s.queue.head a ↔ a ∈ as) ∧
    s.queue.nTask = as.length ∧ s.queue.tail = as.getLast? ∧ s.pushed = s.popped ++ s.queue.tasks as
  last : ∀ a, s.queue.tail = some a → s.queue.next a = some none
  ends : (s.queue.head = none ↔ s.queue.nTask = 0) ∧ (s.queue.tail = none ↔ s.queue.nTask = 0)
  live : ∀ a, Reaches s.queue.next s.queue.head a → (s.queue.nodes a).isSome
  pop : ∃ r q, tgxTaskQueuePopFront s.queue = some (r, q) ∧ (r = none ↔ s.pushed = s.popped)
  push : ∀ a t, s.queue.nodes a = none → (s.step (.push a t)).isSome

/-- The nodes from `head` to `tail`. -/
structure Holds (q : TgxTaskQueue T) (as : List Addr) : Prop where
  chain : Chain q.next q.head as
  tail : q.tail = as.getLast?
  count : q.nTask = as.length

section
variable {q : TgxTaskQueue T} {as : List Addr} {a : Addr} {t : T}

theorem holds_init : Holds (tgxTaskQueueInit : TgxTaskQueue T) [] :=
  ⟨rfl, rfl, rfl⟩

theorem Holds.isSome (h : Holds q as) (ha : a ∈ as) : (q.nodes a).isSome := by
  have hnext := h.chain.isSome ha
  simpa [TgxTaskQueue.next] using hnext

theorem Holds.length_tasks (h : Holds q as) : (q.tasks as).length = as.length := by
  have hall : ∀ bs : List Addr, (∀ a ∈ bs, (q.nodes a).isSome) → (q.tasks bs).length = bs.length := by
    intro bs
    induction bs with
    | nil => exact fun _ => rfl
    | cons b bs ih =>
      intro hlive
      obtain ⟨n, hn⟩ := Option.isSome_iff_exists.mp (hlive b (by simp))
      have hrest := ih fun a ha => hlive a (by simp [ha])
      simpa [TgxTaskQueue.tasks, hn] using hrest
  exact hall as fun a ha => h.isSome ha

theorem Holds.empty_iff (h : Holds q as) : q.nTask = 0 ↔ as = [] := by
  rw [h.count]
  simp

private theorem tasks_congr {q' : TgxTaskQueue T}
    (h : ∀ a ∈ as, (q'.nodes a).map TgxTaskInternal.task = (q.nodes a).map TgxTaskInternal.task) :
    q'.tasks as = q.tasks as :=
  List.filterMap_congr h

/-- Pushing a fresh node puts it behind the others. -/
theorem Holds.push (h : Holds q as) (ha : q.nodes a = none) (t : T) :
    ∃ q', tgxTaskQueuePushBack (q.setNode a (some ⟨t, none, none⟩)) (some a) = some (0, q') ∧
      q'.nTask = toInt32 (q.nTask + 1) ∧ q'.tail = some a ∧ Chain q'.next q'.head (as ++ [a]) ∧
      q'.tasks (as ++ [a]) = q.tasks as ++ [t] ∧ ∀ b, b ≠ a → q.nodes b = none → q'.nodes b = none := by
  have hnot : a ∉ as := by
    intro hmem
    have hlive := h.isSome hmem
    simp [ha] at hlive
  obtain rfl | ⟨front, b, rfl⟩ := as.eq_nil_or_concat
  · have hzero := h.empty_iff.mpr rfl
    refine ⟨_, by simp [tgxTaskQueuePushBack, TgxTaskQueue.setNode, hzero, TgxTaskQueue.modify]; rfl, ?_⟩
    simp +contextual [Chain, TgxTaskQueue.next, TgxTaskQueue.tasks, hzero]
  · rw [List.concat_eq_append] at *
    have hne : q.nTask ≠ 0 := by
      rw [Ne, h.empty_iff]
      simp
    have htail : q.tail = some b := by simpa using h.tail
    have hba : b ≠ a := by
      rintro rfl
      simp at hnot
    obtain ⟨n, hn⟩ := Option.isSome_iff_exists.mp (h.isSome (a := b) (by simp))
    have hpush : tgxTaskQueuePushBack (q.setNode a (some ⟨t, none, none⟩)) (some a) = some (0,
        { q with
          tail := some a
          nTask := toInt32 (q.nTask + 1)
          nodes := Function.update (Function.update q.nodes b (some { n with next := some a })) a
            (some ⟨t, none, some b⟩) }) := by
      have hab : a ≠ b := hba.symm
      simp [tgxTaskQueuePushBack, TgxTaskQueue.setNode, TgxTaskQueue.modify, hne, htail, hn, hba, hab]
      rw [Function.update_comm hab, Function.update_idem]
    refine ⟨_, hpush, rfl, rfl, ?_, ?_, ?_⟩
    · rw [List.append_assoc]
      refine h.chain.snoc ?_ ?_ fun c hc => ?_
      · simp [TgxTaskQueue.next, hba]
      · simp [TgxTaskQueue.next]
      · have hca : c ≠ a := by
          rintro rfl
          simp [hc] at hnot
        have hcb : c ≠ b := h.chain.ne_of_mem_front hc
        simp [TgxTaskQueue.next, hca, hcb]
    · have hold : ∀ c ∈ front ++ [b], c ≠ a := by
        rintro c hc rfl
        exact hnot hc
      rw [TgxTaskQueue.tasks, List.filterMap_append]
      congr 1
      · refine tasks_congr fun c hc => ?_
        by_cases hcb : c = b
        · subst hcb
          simp [hba, hn]
        · simp [hold c hc, hcb]
      · simp
    · intro c hca hc
      have hcb : c ≠ b := by
        rintro rfl
        simp [hn] at hc
      simp [hca, hcb, hc]

/-- Popping takes the first node off. -/
theorem Holds.pop (h : Holds q (a :: as)) (hroom : q.nTask ≤ INT_MAX) :
    ∃ n q', q.nodes a = some n ∧ tgxTaskQueuePopFront q = some (some n.task, q') ∧ Holds q' as ∧
      q'.tasks as = q.tasks as ∧ q'.nodes = Function.update q.nodes a none := by
  obtain ⟨n, hn⟩ := Option.isSome_iff_exists.mp (h.isSome (a := a) (by simp))
  obtain ⟨hhead, l, hnext, hrest⟩ := id h.chain
  have hcount : q.nTask = as.length + 1 := by simpa using h.count
  have hfresh : a ∉ as := (List.nodup_cons.mp h.chain.nodup).1
  obtain rfl : n.next = l := by simpa [TgxTaskQueue.next, hn] using hnext
  have hnum : toInt32 (q.nTask - 1) = as.length := by
    have hle : q.nTask ≤ 2147483647 := hroom
    rw [toInt32, Int.bmod_eq_of_le] <;> omega
  have hne : q.nTask ≠ 0 := by omega
  have hpop : tgxTaskQueuePopFront q = some (some n.task,
      { q with
        head := n.next
        tail := as.getLast?
        nTask := as.length
        nodes := Function.update q.nodes a none }) := by
    cases as with
    | nil =>
      have htail : q.tail = some a := h.tail
      have hone : q.nTask = 1 := by simpa using hcount
      have hnull : n.next = none := hrest
      simp [tgxTaskQueuePopFront, hone, htail, TgxTaskQueue.deref, hn, TgxTaskQueue.free, TgxTaskQueue.setNode,
        hnull]
      rw [show toInt32 0 = 0 from by decide]
    | cons b as =>
      have hone : q.nTask ≠ 1 := by
        simp only [List.length_cons] at hcount
        omega
      have htail : q.tail = (b :: as).getLast? := by simpa using h.tail
      simp [tgxTaskQueuePopFront, hne, hone, hhead, TgxTaskQueue.deref, hn, TgxTaskQueue.free,
        TgxTaskQueue.setNode, htail, hnum]
  refine ⟨n, _, hn, hpop, ⟨?_, rfl, rfl⟩, ?_, rfl⟩
  · refine hrest.congr fun b hb => ?_
    have hba : b ≠ a := by
      rintro rfl
      exact hfresh hb
    simp [TgxTaskQueue.next, hba]
  · refine tasks_congr fun b hb => ?_
    have hba : b ≠ a := by
      rintro rfl
      exact hfresh hb
    simp [hba]

end

section
variable {s s' : Use T} {as : List Addr}

/-- The queue holds the tasks that were pushed and have not been popped. -/
def Sound (s : Use T) : Prop :=
  ∃ as, Holds s.queue as ∧ s.pushed = s.popped ++ s.queue.tasks as ∧ s.queue.nTask ≤ INT_MAX

theorem toInt32_succ {x : Int} (h0 : 0 ≤ x) (h : x < INT_MAX) : toInt32 (x + 1) = x + 1 := by
  have hlt : x < 2147483647 := h
  rw [toInt32, Int.bmod_eq_of_le] <;> omega

private theorem step_sound {l : Label T} (h : Sound s) (hok : Roomy s l) (hs : s.step l = some s') : Sound s' := by
  obtain ⟨as, hq, hfifo, hroom⟩ := h
  cases l with
  | push a t =>
    simp only [Use.step] at hs
    split at hs
    · cases hs
    rename_i hfree
    obtain ⟨q, hpush, hn, htail, hchain, htasks, -⟩ := hq.push (by simpa using hfree) t
    rw [hpush] at hs
    obtain rfl := Option.some.inj hs
    have hcount : q.nTask = (as.length : Int) + 1 := by
      rw [hn, toInt32_succ (by rw [hq.count]; omega) hok, hq.count]
    refine ⟨as ++ [a], ⟨hchain, by simp [htail], by simp [hcount]⟩, ?_, ?_⟩
    · simp only [hfifo, htasks, List.append_assoc]
    · have hlt : s.queue.nTask < INT_MAX := hok
      rw [hcount, ← hq.count]
      exact hlt
  | pop =>
    obtain ⟨⟨r, q⟩, hpop, rfl⟩ := Option.map_eq_some_iff.mp hs
    cases as with
    | nil =>
      have hzero := hq.empty_iff.mpr rfl
      obtain ⟨rfl, rfl⟩ : none = r ∧ s.queue = q := by simpa [tgxTaskQueuePopFront, hzero] using hpop
      exact ⟨[], hq, by simpa using hfifo, hroom⟩
    | cons a as =>
      obtain ⟨n, q', hn, hpop', hq', htasks, -⟩ := hq.pop hroom
      obtain ⟨rfl, rfl⟩ := Prod.mk.inj (Option.some.inj (hpop.symm.trans hpop'))
      refine ⟨as, hq', ?_, ?_⟩
      · rw [hfifo, htasks]
        simp [TgxTaskQueue.tasks, hn]
      · have hlen := hq.count
        rw [List.length_cons] at hlen
        rw [hq'.count]
        omega

theorem sound_of_reachable (h : (system T).Reachable Roomy s) : Sound s := by
  refine h.invariant ?_ fun s l s' hs hok hstep => step_sound hs hok hstep
  rintro s rfl
  exact ⟨[], holds_init, rfl, show (0 : Int) ≤ 2147483647 by omega⟩

/-- While the counter has room, the queue is a first-in first-out queue and its nodes are the ones that
the counter counts. -/
theorem queue_is_fifo (h : (system T).Reachable Roomy s) : Fifo s := by
  obtain ⟨as, hq, hfifo, hroom⟩ := sound_of_reachable h
  have hempty : s.pushed = s.popped ↔ as = [] := by
    rw [hfifo, List.append_right_eq_self, ← List.length_eq_zero_iff, hq.length_tasks, List.length_eq_zero_iff]
  constructor
  · exact ⟨as, hq.chain.nodup, fun a => hq.chain.reaches_iff, hq.count, hq.tail, hfifo⟩
  · intro a ha
    rw [hq.tail] at ha
    obtain ⟨front, rfl⟩ := List.getLast?_eq_some_iff.mp ha
    exact hq.chain.last
  · rw [hq.empty_iff, hq.chain.nil_iff, hq.tail, List.getLast?_eq_none_iff]
    exact ⟨.rfl, .rfl⟩
  · intro a ha
    exact hq.isSome (hq.chain.reaches_iff.mp ha)
  · cases as with
    | nil =>
      have hzero := hq.empty_iff.mpr rfl
      exact ⟨none, s.queue, by simp [tgxTaskQueuePopFront, hzero], by simp [hempty]⟩
    | cons a as =>
      obtain ⟨n, q, -, hpop, -⟩ := hq.pop hroom
      exact ⟨_, q, hpop, by simp [hempty]⟩
  · intro a t ha
    obtain ⟨q, hpush, -⟩ := hq.push ha t
    simp [Use.step, ha, hpush]

end

instance (s : Use T) (l : Label T) : Decidable (Roomy s l) :=
  match l with
  | .push _ _ => inferInstanceAs (Decidable (_ < _))
  | .pop => isTrue trivial

/-- Two tasks pushed, one of them popped again; its node is used for the third. -/
def threeTasks : List (Label Nat) :=
  [.push 5 70, .push 9 80, .pop, .push 5 90]

theorem queue_is_fifo_three : ∃ s, (system Nat).guided (fun _ l => some l) Roomy ⟨tgxTaskQueueInit, [], []⟩
    threeTasks = some s ∧ s.popped = [70] ∧ Fifo s := by
  obtain ⟨s, hs⟩ := Option.isSome_iff_exists.mp (show ((system Nat).guided (fun _ l => some l) Roomy
    ⟨tgxTaskQueueInit, [], []⟩ threeTasks).isSome = true by decide)
  have hpopped : s.popped = [70] := by
    obtain rfl := Option.some.inj hs
    decide
  exact ⟨s, hs, hpopped, queue_is_fifo (.of_guided threeTasks (.init rfl) hs)⟩

private theorem push_counts {s : Use T} (h : Sound s) {a : Addr} (ha : s.queue.nodes a = none) (t : T) :
    ∃ s', s.step (.push a t) = some s' ∧ s'.queue.nTask = toInt32 (s.queue.nTask + 1) ∧
      ∀ b, b ≠ a → s.queue.nodes b = none → s'.queue.nodes b = none := by
  obtain ⟨as, hq, -, -⟩ := h
  obtain ⟨q, hpush, hn, -, -, -, hfree⟩ := hq.push ha t
  exact ⟨_, by simp [Use.step, ha, hpush]; rfl, hn, hfree⟩

theorem filled (k : Nat) (hk : (k : Int) ≤ INT_MAX) : ∃ s, (system Nat).Reachable Roomy s ∧
    s.queue.nTask = k ∧ ∀ a, k ≤ a → s.queue.nodes a = none := by
  induction k with
  | zero => exact ⟨_, .init rfl, rfl, fun _ _ => rfl⟩
  | succ k ih =>
    have hlt : (k : Int) < INT_MAX := by
      push_cast at hk
      omega
    obtain ⟨s, hr, hn, hfree⟩ := ih (by omega)
    obtain ⟨s', hs, hn', hfree'⟩ := push_counts (sound_of_reachable hr) (hfree k le_rfl) 0
    have hok : Roomy s (.push k 0) := by
      rw [Roomy, hn]
      exact hlt
    refine ⟨s', hr.next hok hs, ?_, fun a ha => ?_⟩
    · rw [hn', hn, toInt32_succ (by omega) hlt]
      push_cast
      rfl
    · exact hfree' a (Nat.ne_of_gt ha) (hfree a (Nat.le_of_succ_le ha))

/-- One task more than an `int` can count. -/
theorem counter_overflows : ¬ ∀ s, (system Nat).Reachable (fun _ _ => True) s → Fifo s := by
  intro h
  obtain ⟨s, hr, hn, hfree⟩ := filled 2147483647 le_rfl
  obtain ⟨s', hs, hn', -⟩ := push_counts (sound_of_reachable hr) (hfree _ le_rfl) 0
  have hany : (system Nat).Reachable (fun _ _ => True) s := hr.mono fun _ _ _ => trivial
  obtain ⟨as, -, -, hcount, -⟩ := (h s' (hany.next (l := .push 2147483647 0) trivial hs)).nodes
  rw [hn', hn, show toInt32 ((2147483647 : Nat) + 1) = -2147483648 by decide] at hcount
  omega

end TinyosGraphics.TaskQueue
