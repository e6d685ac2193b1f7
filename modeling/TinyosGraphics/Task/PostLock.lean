import TinyosGraphics.Task.Scheduler

/-! The `task_lock` that is to keep a task from being posted again before it is done.
`pthread_mutex_trylock` reports a mutex that is held by a positive number, and nothing unlocks it. -/
namespace TinyosGraphics.Task.PostLock
open Lib

/-- A call of `tgx_post_task` past its `pthread_mutex_trylock`. `busy` is history: whether the task was
queued or executing when the call was made. -/
structure Call (K : Type) where
  task : K
  busy : Bool
  trylock : Int
  deriving DecidableEq

/-- The tasks are known by their locks: `do_pthread` frees a task, and its lock stays with the user. -/
structure Tasks (K : Type) where
  locked : K → Bool
  queue : List K
  workers : List (Option K)
  posters : List (Call K)

inductive Label (K : Type)
  /-- a call, up to the result of its `pthread_mutex_trylock`, which is `err` where that fails -/
  | call (k : K) (err : Nat)
  /-- the rest of a call, with the result of `on_post` if there is one and of `calloc` -/
  | finish (i : Nat) (onPost : Option Int) (calloc : Bool)
  /-- a worker pops a task -/
  | pop (w : Nat)
  /-- it has run the handler and `on_task_complete`, and frees the task -/
  | complete (w : Nat)

/-- `pthread_mutex_trylock`: its result, and whether the mutex is held now. -/
def pthreadMutexTrylock (locked : Bool) (err : Nat) : Int × Bool :=
  if locked then (err, true) else (0, true)

variable {K : Type}

/-- `tgx_post_task` gets to the queue. -/
def Call.accepted (p : Call K) (onPost : Option Int) (calloc : Bool) : Bool :=
  Post.accepted { trylock := some p.trylock, onPost, calloc, onTaskComplete := false }

namespace Tasks
variable [DecidableEq K]

/-- A successful post of the task is queued or executing. -/
def busy (s : Tasks K) (k : K) : Bool :=
  s.queue.contains k || s.workers.contains (some k)

def step (s : Tasks K) : Label K → Option (Tasks K)
  | .call k err =>
    if err = 0 then none
    else
      let (ret, held) := pthreadMutexTrylock (s.locked k) err
      some { s with
        locked := Function.update s.locked k held
        posters := s.posters ++ [⟨k, s.busy k, ret⟩] }
  | .finish i onPost calloc =>
    s.posters[i]?.map fun p =>
      { s with
        posters := s.posters.eraseIdx i
        queue := if p.accepted onPost calloc then s.queue ++ [p.task] else s.queue }
  | .pop w =>
    match s.queue with
    | k :: queue =>
      if s.workers[w]? = some none then some { s with queue, workers := s.workers.set w (some k) } else none
    | [] => none
  | .complete w =>
    match s.workers[w]? with
    | some (some _) => some { s with workers := s.workers.set w none }
    | _ => none

end Tasks

/-- All tasks can be posted, and all workers wait. -/
def start (K : Type) (nThreads : Nat) : Tasks K where
  locked := fun _ => false
  queue := []
  workers := List.replicate nThreads none
  posters := []

def system (K : Type) [DecidableEq K] : Transition (Tasks K) (Label K) where
  init s := ∃ nThreads, s = start K nThreads
  step := Tasks.step

variable [DecidableEq K]

/-- The step keeps what the lock is for: a call made while the task is busy returns -1 and enqueues
nothing, and the lock is free once the task is complete and once its post has failed in `on_post`. -/
def Kept (s : Tasks K) (l : Label K) : Prop :=
  ∀ u, s.step l = some u →
    match l with
    | .finish i onPost calloc => ∀ p, s.posters[i]? = some p →
      (p.busy = true → p.accepted onPost calloc = false ∧ u.queue = s.queue) ∧
      (p.trylock = 0 → onPost.any (· < 0) = true → u.locked p.task = false)
    | .complete w => ∀ k, s.workers[w]? = some (some k) → u.locked k = false
    | _ => True

/-- What callers and callbacks would have to do about it: a call made while the task is busy fails in
`on_post` or in `calloc`, no call that has the lock fails in `on_post`, and no task completes. -/
def Harmless (s : Tasks K) : Label K → Prop
  | .finish i onPost calloc => ∀ p, s.posters[i]? = some p →
    (p.busy = true → onPost.any (· < 0) = true ∨ calloc = false) ∧
    (p.trylock = 0 → onPost.any (· < 0) = false)
  | .complete w => s.workers[w]?.join = none
  | _ => True

/-- The lock of a task is held from its first post on. -/
structure Held (s : Tasks K) : Prop where
  posters : ∀ p ∈ s.posters, s.locked p.task = true ∧ 0 ≤ p.trylock
  queue : ∀ k ∈ s.queue, s.locked k = true
  workers : ∀ k, some k ∈ s.workers → s.locked k = true

omit [DecidableEq K] in
private theorem held_start (nThreads : Nat) : Held (start K nThreads) where
  posters := by simp [start]
  queue := by simp [start]
  workers := by simp [start]

theorem Held.call {s u : Tasks K} (h : Held s) {k : K} {err : Nat} (hs : s.step (.call k err) = some u) :
    Held u := by
  simp only [Tasks.step] at hs
  split at hs
  · cases hs
  obtain rfl := Option.some.inj hs
  have hheld : (pthreadMutexTrylock (s.locked k) err).2 = true := by
    unfold pthreadMutexTrylock
    split <;> rfl
  have hret : 0 ≤ (pthreadMutexTrylock (s.locked k) err).1 := by
    unfold pthreadMutexTrylock
    split <;> simp
  have hmono : ∀ j, s.locked j = true → Function.update s.locked k true j = true := by
    intro j hj
    by_cases hjk : j = k
    · rw [hjk, Function.update_self]
    · rwa [Function.update_of_ne hjk]
  simp only [hheld]
  constructor
  · intro p hp
    rcases List.mem_append.mp hp with hp | hp
    · exact ⟨hmono _ (h.posters p hp).1, (h.posters p hp).2⟩
    · obtain rfl := List.mem_singleton.mp hp
      exact ⟨Function.update_self .., hret⟩
  · exact fun j hj => hmono j (h.queue j hj)
  · exact fun j hj => hmono j (h.workers j hj)

theorem Held.finish {s u : Tasks K} (h : Held s) {i : Nat} {onPost : Option Int} {calloc : Bool}
    (hs : s.step (.finish i onPost calloc) = some u) : Held u := by
  obtain ⟨p, hp, rfl⟩ := Option.map_eq_some_iff.mp hs
  have hmem := List.mem_of_getElem? hp
  constructor
  · exact fun q hq => h.posters q (List.mem_of_mem_eraseIdx hq)
  · intro k hk
    simp only at hk
    split at hk
    · rcases List.mem_append.mp hk with hk | hk
      · exact h.queue k hk
      · obtain rfl := List.mem_singleton.mp hk
        exact (h.posters p hmem).1
    · exact h.queue k hk
  · exact h.workers

private theorem held_step {s u : Tasks K} {l : Label K} (h : Held s) (hs : s.step l = some u) : Held u := by
  cases l with
  | call k err => exact h.call hs
  | finish i onPost calloc => exact h.finish hs
  | pop w =>
    simp only [Tasks.step] at hs
    split at hs
    · rename_i k queue hqueue
      obtain ⟨-, rfl⟩ := by simpa using hs
      refine ⟨h.posters, fun j hj => h.queue j (by simp [hqueue, hj]), fun j hj => ?_⟩
      rcases List.mem_or_eq_of_mem_set hj with hj | hj
      · exact h.workers j hj
      · exact h.queue j (by simp [hqueue, Option.some.inj hj])
    · cases hs
  | complete w =>
    simp only [Tasks.step] at hs
    split at hs
    · obtain rfl := Option.some.inj hs
      refine ⟨h.posters, h.queue, fun j hj => ?_⟩
      rcases List.mem_or_eq_of_mem_set hj with hj | hj
      · exact h.workers j hj
      · cases hj
    · cases hs

omit [DecidableEq K] in
private theorem accepted_iff {p : Call K} (h : 0 ≤ p.trylock) (onPost : Option Int) (calloc : Bool) :
    p.accepted onPost calloc = false ↔ onPost.any (· < 0) = true ∨ calloc = false := by
  have hpass : decide (p.trylock < 0) = false := by simpa using h
  cases onPost <;> cases calloc <;> simp [Call.accepted, Post.accepted, hpass]

/-- With the lock held as it always is, a step keeps exclusion exactly when it is harmless. -/
theorem Held.kept_iff {s u : Tasks K} {l : Label K} (h : Held s) (hs : s.step l = some u) :
    Kept s l ↔ Harmless s l := by
  cases l with
  | call k err => simp [Kept, Harmless]
  | pop w => simp [Kept, Harmless]
  | complete w =>
    simp only [Tasks.step] at hs
    split at hs
    · rename_i k hw
      have hlocked := h.workers k (List.mem_of_getElem? hw)
      simp [Kept, Harmless, Tasks.step, hw, hlocked]
    · cases hs
  | finish i onPost calloc =>
    obtain ⟨p, hp, rfl⟩ := Option.map_eq_some_iff.mp hs
    obtain ⟨hlocked, hret⟩ := h.posters p (List.mem_of_getElem? hp)
    have hacc := accepted_iff hret onPost calloc
    simp only [Kept, Harmless, Tasks.step, hp, Option.map_some, Option.some.injEq, forall_eq', hlocked]
    constructor
    · rintro ⟨hbusy, hfree⟩
      refine ⟨fun hb => hacc.mp (hbusy hb).1, fun hgot => ?_⟩
      by_contra hfails
      exact Bool.noConfusion (hfree hgot (by simpa using hfails))
    · rintro ⟨hbusy, hfree⟩
      refine ⟨fun hb => ?_, fun hgot hfails => ?_⟩
      · have hrefused := hacc.mpr (hbusy hb)
        exact ⟨hrefused, by simp [hrefused]⟩
      · rw [hfree hgot] at hfails
        cases hfails

/-- A run keeps exclusion at every step exactly when every step of it is harmless. -/
theorem exclusion_iff {s u : Tasks K} {tr : List (Tasks K × Label K)} (hs : (system K).init s)
    (hrun : (system K).Run s tr u) : (∀ p ∈ tr, Kept p.1 p.2) ↔ ∀ p ∈ tr, Harmless p.1 p.2 := by
  have hheld : Held u ∧ ∀ p ∈ tr, (Kept p.1 p.2 ↔ Harmless p.1 p.2) := by
    induction hrun with
    | start =>
      obtain ⟨nThreads, rfl⟩ := hs
      exact ⟨held_start nThreads, by simp⟩
    | next _ hstep ih =>
      refine ⟨held_step ih.1 hstep, fun p hp => ?_⟩
      rcases List.mem_append.mp hp with hp | hp
      · exact ih.2 p hp
      · obtain rfl := List.mem_singleton.mp hp
        exact ih.1.kept_iff hstep
  exact forall₂_congr hheld.2

/-- A task is posted, refused by its own `on_post` when it is posted again, and run. -/
def refusedAgain : List (Label Nat) :=
  [.call 7 16, .finish 0 (some 0) true, .call 7 16, .finish 0 (some (-1)) true, .pop 0]

theorem exclusion_iff_once :
    (∀ p ∈ (system Nat).trail (start Nat 1) refusedAgain, Harmless p.1 p.2) ∧
      ∀ p ∈ (system Nat).trail (start Nat 1) refusedAgain, Kept p.1 p.2 := by
  have hrun := Transition.run_of_replay (T := system Nat) (s := start Nat 1) refusedAgain (Option.some_get rfl).symm
  have hharmless : ∀ p ∈ (system Nat).trail (start Nat 1) refusedAgain, Harmless p.1 p.2 := by
    simp [refusedAgain, Transition.trail, system, Tasks.step, start, Harmless, pthreadMutexTrylock, Tasks.busy,
      Call.accepted, Post.accepted]
  exact ⟨hharmless, (exclusion_iff ⟨1, rfl⟩ hrun).mpr hharmless⟩

/-- A task that is queued is posted again: `pthread_mutex_trylock` returns `EBUSY`, 16, which is not
negative, and the task is queued twice. -/
theorem posted_twice :
    ¬ ∀ (nThreads : Nat) (tr : List (Tasks Nat × Label Nat)) (u : Tasks Nat),
      (system Nat).Run (start Nat nThreads) tr u → ∀ p ∈ tr, Kept p.1 p.2 := by
  intro hall
  have hrun := Transition.run_of_replay (T := system Nat) (s := start Nat 1)
    [.call 7 16, .finish 0 none true, .call 7 16, .finish 0 none true] (Option.some_get rfl).symm
  have hkept := hall 1 _ _ hrun (_, .finish 0 none true) (List.mem_of_getElem? (i := 3) rfl) _ rfl ⟨7, true, 16⟩ rfl
  exact Bool.noConfusion (hkept.1 rfl).1

end TinyosGraphics.Task.PostLock
