import TinyosGraphics.Task.Accounting

/-! Workers that are lost before the scheduler is destroyed. `tgx_task_schedule_init` stores
`keep_alive` only after it has created its threads. -/
namespace TinyosGraphics.Task
open Lib TgxTaskSchedule

/-- A worker that runs tasks or can go on to run some. -/
def Pc.inService : Pc → Bool
  | .exited | .missing | .nullTask => false
  | _ => true

/-- The pool `tgx_task_schedule_init` promises, as far as its threads exist yet. -/
def InService (s : TgxTaskSchedule) : Prop :=
  (∀ pc ∈ s.workers, pc.inService = true) ∧ (s.phase = .ready → s.workers.length = s.nThreads)

/-- The steps that leave the pool with a thread less: a worker tests `keep_alive` at the head of its
loop before the store, its wait for a token is interrupted, or the thread is not created. -/
def LosesWorker (s : TgxTaskSchedule) : Label → Prop
  | .create ret => 0 < ret
  | .testHead _ => s.keepAlive = false
  | .waitFails _ => True
  | _ => False

instance (s : TgxTaskSchedule) (l : Label) : Decidable (LosesWorker s l) :=
  match l with
  | .create ret => inferInstanceAs (Decidable (0 < ret))
  | .testHead _ => inferInstanceAs (Decidable (s.keepAlive = false))
  | .waitFails _ => isTrue trivial
  | .storeKeepAlive | .post _ | .push | .clearKeepAlive | .fakeSignal | .join | .emptyOne | .wait _
  | .check _ | .pop _ | .runHandler _ _ | .complete _ => isFalse id

/-- Before `keep_alive` is stored no worker gets past the head of its loop. -/
def Idle (s : TgxTaskSchedule) : Prop :=
  s.phase.beforeDestroy = true → s.keepAlive = false →
    ∀ pc ∈ s.workers, pc = .head ∨ pc = .exited ∨ pc = .missing

variable {s s' : TgxTaskSchedule}

private theorem idle_step {l : Label} (h : Idle s) (hs : s.Steps l s') : Idle s' := by
  intro hb hk
  cases hs with
  | createFails => simp [Phase.beforeDestroy] at hb
  | created i ret pc phase hp hret hpc hphase =>
    intro q hq
    rcases List.mem_append.mp hq with hq | hq
    · exact h (by simp [hp, Phase.beforeDestroy]) hk q hq
    · obtain rfl := List.mem_singleton.mp hq
      rw [hpc]
      split <;> simp
  | stored => cases hk
  | cleared => simp [Phase.beforeDestroy] at hb
  | fakeSignalled i q phase hp hq hcase => exact absurd hb (not_beforeDestroy_signalled hcase)
  | joined i phase hp hw hphase => exact absurd hb (not_beforeDestroy_joined hphase)
  | emptied => simp [Phase.beforeDestroy] at hb
  | leaked => simp [Phase.beforeDestroy] at hb
  | refused => exact h hb hk
  | signalled => exact h hb hk
  | pushed => exact h hb hk
  | emptiedOne => exact h hb hk
  | headStays i hw hkeep => simp [hkeep] at hk
  | headExits i hw => exact Threads.forall_set (h hb hk) (by simp)
  | waited i resource hw => simpa using h hb hk _ (Threads.mem_of_getElem? hw)
  | waitFailed i hw => simpa using h hb hk _ (Threads.mem_of_getElem? hw)
  | checkStays i hw => simpa using h hb hk _ (Threads.mem_of_getElem? hw)
  | checkExits i hw => simpa using h hb hk _ (Threads.mem_of_getElem? hw)
  | poppedNull i hw => simpa using h hb hk _ (Threads.mem_of_getElem? hw)
  | popped i t tasks hw => simpa using h hb hk _ (Threads.mem_of_getElem? hw)
  | handled i t ret hw => simpa using h hb hk _ (Threads.mem_of_getElem? hw)
  | completed i t ret hw => simpa using h hb hk _ (Threads.mem_of_getElem? hw)

private theorem beforeDestroy_back {l : Label} (hs : s.Steps l s') (hb : s'.phase.beforeDestroy = true) :
    s.phase.beforeDestroy = true := by
  cases hs with
  | created i ret pc phase hp => simp [hp, Phase.beforeDestroy]
  | stored hp => simp [hp, Phase.beforeDestroy]
  | cleared hp => simp [hp, Phase.beforeDestroy]
  | createFails i ret hp => simp [hp, Phase.beforeDestroy]
  | fakeSignalled i q phase hp hq hcase => exact absurd hb (not_beforeDestroy_signalled hcase)
  | joined i phase hp hw hphase => exact absurd hb (not_beforeDestroy_joined hphase)
  | emptied => simp [Phase.beforeDestroy] at hb
  | leaked => simp [Phase.beforeDestroy] at hb
  | _ => exact hb

private theorem service_set {i : Nat} {pc : Pc} (hw : s.workers[i]? = some pc) (hpc : pc.inService = true)
    (pc' : Pc) : (∀ q ∈ s.workers.set i pc', q.inService = true) ↔
      (∀ q ∈ s.workers, q.inService = true) ∧ pc'.inService = true :=
  Threads.forall_set_iff (Q := fun q => q.inService = true) hw hpc pc'

private theorem service_step {l : Label} (hi : Idle s) (hc' : Covered s') (hs : s.Steps l s')
    (hb : s'.phase.beforeDestroy = true) :
    (∀ pc ∈ s'.workers, pc.inService = true) ↔
      (∀ pc ∈ s.workers, pc.inService = true) ∧ ¬ LosesWorker s l := by
  cases hs with
  | created i ret pc phase hp hret hpc hphase =>
    have hone : pc.inService = true ↔ ¬ 0 < ret := by
      rw [hpc]
      by_cases h0 : ret = 0
      · simp [h0, Pc.inService]
      · simp only [h0, if_false, Pc.inService, Bool.false_eq_true, false_iff, not_not]
        omega
    simp only [List.mem_append, List.mem_singleton, or_imp, forall_and, forall_eq, hone, LosesWorker]
  | headStays i hw hk =>
    rw [setPc_workers, service_set hw rfl]
    simp [Pc.inService, LosesWorker, hk]
  | headExits i hw hk =>
    rw [setPc_workers, service_set hw rfl]
    simp [Pc.inService, LosesWorker, hk]
  | waited i resource hw =>
    rw [setPc_workers, service_set hw rfl]
    simp [Pc.inService, LosesWorker]
  | waitFailed i hw =>
    rw [setPc_workers, service_set hw rfl]
    simp [Pc.inService, LosesWorker]
  | checkStays i hw hk =>
    rw [setPc_workers, service_set hw rfl]
    simp [Pc.inService, LosesWorker]
  | checkExits i hw hk =>
    -- keep_alive has been stored, since a worker is past the head of its loop, and not cleared
    simpa using hi hb hk _ (Threads.mem_of_getElem? hw)
  | poppedNull i hw =>
    obtain ⟨hlt, -⟩ := List.getElem?_eq_some_iff.mp hw
    exact absurd (List.mem_set hlt _) hc'.noNull
  | popped i t tasks hw =>
    rw [setPc_workers, service_set hw rfl]
    simp [Pc.inService, LosesWorker]
  | handled i t ret hw =>
    rw [setPc_workers, service_set hw rfl]
    simp [Pc.inService, LosesWorker]
  | completed i t ret hw =>
    rw [setPc_workers, service_set hw rfl]
    simp [Pc.inService, LosesWorker]
  | createFails => simp [Phase.beforeDestroy] at hb
  | cleared => simp [Phase.beforeDestroy] at hb
  | emptied => simp [Phase.beforeDestroy] at hb
  | leaked => simp [Phase.beforeDestroy] at hb
  | fakeSignalled | joined | stored | refused | signalled | pushed | emptiedOne => simp [LosesWorker]

private theorem service_run {s₀ : TgxTaskSchedule} {tr : List (TgxTaskSchedule × Label)} (hi : system.init s₀)
    (hr : system.Run s₀ tr s) :
    (Covered s ∧ Joined s ∧ Idle s) ∧ (s.phase.beforeDestroy = true →
      ((∀ pc ∈ s.workers, pc.inService = true) ↔ ∀ p ∈ tr, ¬ LosesWorker p.1 p.2)) := by
  induction hr with
  | start =>
    obtain ⟨n, rfl⟩ := hi
    exact ⟨⟨covered_init n, joined_init n, fun _ _ pc hpc => by simp [tgxTaskScheduleInit] at hpc⟩,
      fun _ => by simp [tgxTaskScheduleInit]⟩
  | @next tr t l u hrun hstep ih =>
    obtain ⟨⟨hc, hj, hidle⟩, hiff⟩ := ih
    have hs := step_cases hstep
    have hc' := covered_step hc hj hs
    refine ⟨⟨hc', joined_step hj hs, idle_step hidle hs⟩, fun hb => ?_⟩
    rw [service_step hidle hc' hs hb, hiff (beforeDestroy_back hs hb)]
    simp [or_imp, forall_and]

/-- Before the scheduler is destroyed the pool is whole, all its threads in service, exactly when no
step of the run lost a worker. -/
theorem workers_in_service_iff {s₀ : TgxTaskSchedule} {tr : List (TgxTaskSchedule × Label)}
    (hi : system.init s₀) (hr : system.Run s₀ tr s) (hb : s.phase.beforeDestroy = true) :
    InService s ↔ ∀ p ∈ tr, ¬ LosesWorker p.1 p.2 := by
  obtain ⟨⟨-, hj, -⟩, hiff⟩ := service_run hi hr
  rw [← hiff hb]
  exact ⟨And.left, fun h => ⟨h, fun hp => hj.created (.inr (.inl hp))⟩⟩

def lateStart : List Label :=
  [.create 0, .create 0, .storeKeepAlive, .testHead 1, .testHead 0]

theorem workers_in_service_late :
    ∃ s, system.replay (tgxTaskScheduleInit 2) lateStart = some s ∧ InService s := by
  obtain ⟨s, hs⟩ := Option.isSome_iff_exists.mp
    (show (system.replay (tgxTaskScheduleInit 2) lateStart).isSome = true by decide)
  have hb : s.phase.beforeDestroy = true := by
    obtain rfl := Option.some.inj hs
    decide
  exact ⟨s, hs, (workers_in_service_iff ⟨2, rfl⟩ (Transition.run_of_replay _ hs) hb).mpr (by decide)⟩

/-- The first worker runs before the store and is gone when the scheduler is handed out. -/
theorem worker_lost_at_start :
    ¬ ∀ s, system.Reachable (fun _ _ => True) s → s.phase.beforeDestroy = true → InService s := by
  intro h
  obtain ⟨s, hs⟩ := Option.isSome_iff_exists.mp (show (system.replay (tgxTaskScheduleInit 1)
    [.create 0, .testHead 0, .storeKeepAlive]).isSome = true by decide)
  have hs' : s.phase.beforeDestroy = true ∧ .exited ∈ s.workers := by
    obtain rfl := Option.some.inj hs
    decide
  have hin := (h s (.of_replay ⟨1, rfl⟩ _ hs) hs'.1).1 _ hs'.2
  cases hin

end TinyosGraphics.Task
