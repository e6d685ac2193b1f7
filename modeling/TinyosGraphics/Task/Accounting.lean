import TinyosGraphics.Task.Scheduler

/-! Tokens and tasks of the scheduler over all runs: no worker pops an empty queue, each task runs
once and is completed once, and none is lost before the scheduler is destroyed. -/
namespace TinyosGraphics.Task
open Lib TgxTaskSchedule

def Pc.gone : Pc → Bool
  | .exited | .missing => true
  | _ => false

/-- Every worker that has taken a token and can still pop has a task, pushed or being pushed. -/
structure Covered (s : TgxTaskSchedule) : Prop where
  tokens : s.phase.beforeDestroy = true →
    s.taskQueue.resource + s.workers.countP Pc.hasToken ≤
      s.taskQueue.tasks.length + s.posting.toList.length
  popping : s.workers.countP Pc.popping ≤ s.taskQueue.tasks.length + s.posting.toList.length
  noNull : Pc.nullTask ∉ s.workers

/-- What the phase says about `keep_alive` and the threads: those waited for are gone. -/
structure Joined (s : TgxTaskSchedule) : Prop where
  alive : s.keepAlive = true → s.phase = .ready
  creating : ∀ i, s.phase = .creating i → s.workers.length = i ∧ i < s.nThreads
  created : s.phase = .storing ∨ s.phase = .ready ∨ (∃ i, s.phase = .signalling i ∨ s.phase = .joining i) →
    s.workers.length = s.nThreads
  joining : ∀ i, s.phase = .joining i → ∀ j pc, j < i → s.workers[j]? = some pc → pc.gone = true
  emptying : s.phase = .emptying → ∀ pc ∈ s.workers, pc.gone = true

variable {s s' : TgxTaskSchedule}

theorem Joined.setPc (h : Joined s) {i : Nat} {pc pc' : Pc} (hw : s.workers[i]? = some pc)
    (hg : pc.gone = false) : Joined (s.setPc i pc') := by
  refine ⟨h.alive, fun j hp => ?_, fun hp => ?_, fun j hp k q hk hq => ?_, fun hp => ?_⟩
  · simpa [TgxTaskSchedule.setPc] using h.creating j hp
  · simpa [TgxTaskSchedule.setPc] using h.created hp
  · have hne : i ≠ k := by
      rintro rfl
      simp [h.joining j hp i pc hk hw] at hg
    have hq' : s.workers[k]? = some q := by
      simpa [TgxTaskSchedule.setPc, List.getElem?_set_ne hne] using hq
    exact h.joining j hp k q hk hq'
  · have hgone := h.emptying hp pc (Threads.mem_of_getElem? hw)
    simp [hgone] at hg

/-- Joining reads the threads and the phase only. -/
theorem Joined.congr (h : Joined s) (hn : s'.nThreads = s.nThreads) (hw : s'.workers = s.workers)
    (hp : s'.phase = s.phase) (hk : s'.keepAlive = s.keepAlive) : Joined s' := by
  refine ⟨?_, ?_, ?_, ?_, ?_⟩
  · simpa [hk, hp] using h.alive
  · simpa [hn, hw, hp] using h.creating
  · simpa [hn, hw, hp] using h.created
  · simpa [hw, hp] using h.joining
  · simpa [hw, hp] using h.emptying

theorem joined_step {l : Label} (h : Joined s) (hs : s.Steps l s') : Joined s' := by
  have hsleep : s.phase ≠ .ready → s.keepAlive = false := fun hp => by
    cases hk : s.keepAlive
    · rfl
    · exact absurd (h.alive hk) hp
  cases hs with
  | createFails i ret hp hneg =>
    have hk := hsleep (by simp [hp])
    exact ⟨by simp [hk], by simp, by simp, by simp, by simp⟩
  | created i ret pc phase hp hret hpc hphase =>
    have hk := hsleep (by simp [hp])
    obtain ⟨hlen, hi⟩ := h.creating i hp
    subst hphase
    by_cases hlast : i + 1 < s.nThreads
    · refine ⟨?_, ?_, ?_, ?_, ?_⟩ <;> simp [hk, hlast, hlen]
    · have : i + 1 = s.nThreads := by omega
      refine ⟨?_, ?_, ?_, ?_, ?_⟩ <;> simp [hk, hlen, this]
  | stored hp => exact ⟨by simp, by simp, by simpa using h.created (by simp [hp]), by simp, by simp⟩
  | refused => exact h
  | signalled => exact h.congr rfl rfl rfl rfl
  | pushed => exact h.congr rfl rfl rfl rfl
  | cleared hp => exact ⟨by simp, by simp, by simpa using h.created (by simp [hp]), by simp, by simp⟩
  | fakeSignalled i q phase hp hq hcase =>
    have hk := hsleep (by simp [hp])
    have hlen := h.created (.inr (.inr ⟨i, .inl hp⟩))
    rcases hcase with ⟨-, rfl⟩ | ⟨-, rfl⟩
    · by_cases hlast : i + 1 < s.nThreads
      · refine ⟨?_, ?_, ?_, ?_, ?_⟩ <;> simp [hk, hlast, hlen]
      · refine ⟨?_, ?_, ?_, ?_, ?_⟩ <;> simp [hk, hlast, hlen]
    · refine ⟨?_, ?_, ?_, ?_, ?_⟩ <;> simp [hk]
  | joined i phase hp hw hphase =>
    have hk := hsleep (by simp [hp])
    have hlen := h.created (.inr (.inr ⟨i, .inr hp⟩))
    have hdone : ∀ j pc, j < i + 1 → s.workers[j]? = some pc → pc.gone = true := by
      intro j pc hj hpc
      rcases Nat.lt_succ_iff_lt_or_eq.mp hj with hj | rfl
      · exact h.joining i hp j pc hj hpc
      · rcases hw with hw | hw <;> rw [hw] at hpc <;> obtain rfl := Option.some.inj hpc <;> rfl
    subst hphase
    by_cases hlast : i + 1 < s.nThreads
    · refine ⟨by simp [hk], by simp [hlast], by simp [hlast, hlen], ?_, by simp [hlast]⟩
      intro k hi j pc hj hpc
      simp only [hlast, if_true, Phase.joining.injEq] at hi
      exact hdone j pc (hi ▸ hj) hpc
    · refine ⟨by simp [hk], by simp [hlast], by simp [hlast], by simp [hlast], ?_⟩
      intro _ pc hmem
      obtain ⟨j, hj, hpc⟩ := List.getElem_of_mem hmem
      exact hdone j pc (by simp only at hj; omega) (List.getElem?_eq_some_iff.mpr ⟨hj, hpc⟩)
  | emptied hp =>
    have hk := hsleep (by simp [hp])
    exact ⟨by simp [hk], by simp, by simp, by simp, by simp⟩
  | emptiedOne => exact h.congr rfl rfl rfl rfl
  | leaked t tasks hp =>
    have hk := hsleep (by simp [hp])
    exact ⟨by simp [hk], by simp, by simp, by simp, by simp⟩
  | headStays i hw => exact h.setPc hw rfl
  | headExits i hw => exact h.setPc hw rfl
  | waited i resource hw => exact (h.setPc hw rfl).congr rfl rfl rfl rfl
  | waitFailed i hw => exact h.setPc hw rfl
  | checkStays i hw => exact h.setPc hw rfl
  | checkExits i hw => exact h.setPc hw rfl
  | poppedNull i hw => exact h.setPc hw rfl
  | popped i t tasks hw => exact (h.setPc hw rfl).congr rfl rfl rfl rfl
  | handled i t ret hw => exact (h.setPc hw rfl).congr rfl rfl rfl rfl
  | completed i t ret hw => exact (h.setPc hw rfl).congr rfl rfl rfl rfl

theorem joined_init (n : Int) : Joined (tgxTaskScheduleInit n) := by
  refine ⟨by simp [tgxTaskScheduleInit], ?_, ?_, ?_, ?_⟩
  · simp only [tgxTaskScheduleInit, Phase.creating.injEq, List.length_nil]
    rintro _ rfl
    refine ⟨rfl, ?_⟩
    split <;> omega
  all_goals simp [tgxTaskScheduleInit]

private theorem Joined.nobodyPops (h : Joined s) (hp : s.phase = .emptying) :
    s.workers.countP Pc.popping = 0 := by
  refine List.countP_eq_zero.mpr fun pc hpc => ?_
  have hgone := h.emptying hp pc hpc
  cases pc <;> simp [Pc.gone, Pc.popping] at *

theorem covered_init (n : Int) : Covered (tgxTaskScheduleInit n) :=
  ⟨by simp [tgxTaskScheduleInit], by simp [tgxTaskScheduleInit], by simp [tgxTaskScheduleInit]⟩

private theorem Covered.noNull_set (h : Covered s) {i : Nat} {pc : Pc} (hpc : pc ≠ .nullTask) :
    Pc.nullTask ∉ s.workers.set i pc := by
  intro hmem
  rcases List.mem_or_eq_of_mem_set hmem with hmem | heq
  · exact h.noNull hmem
  · exact hpc heq.symm

private theorem popping_le_hasToken (pcs : List Pc) : pcs.countP Pc.popping ≤ pcs.countP Pc.hasToken :=
  List.countP_mono_left fun pc _ h => by
    cases pc <;> simp [Pc.popping, Pc.hasToken] at *

/-- A worker moves, and what it takes from the semaphore and the queue was its own to take. -/
theorem Covered.move (h : Covered s) {i : Nat} {pc : Pc} (hw : s.workers[i]? = some pc) (pc' : Pc)
    (hnull : pc' ≠ .nullTask) (q : TgxTaskQueue)
    (htoken : q.resource + s.taskQueue.tasks.length + (if pc'.hasToken then 1 else 0) ≤
      s.taskQueue.resource + q.tasks.length + (if pc.hasToken then 1 else 0))
    (hpop : s.taskQueue.tasks.length + (if pc'.popping then 1 else 0) ≤
      q.tasks.length + (if pc.popping then 1 else 0))
    (log : List Event) (done : List (TgxTask × Int)) :
    Covered { s.setPc i pc' with taskQueue := q, log := log, done := done } := by
  have hcount := Threads.countP_set hw Pc.hasToken pc'
  have hcount' := Threads.countP_set hw Pc.popping pc'
  refine ⟨fun hp => ?_, ?_, h.noNull_set hnull⟩
  · have := h.tokens hp
    simp only [setPc_workers, setPc_posting]
    omega
  · have := h.popping
    simp only [setPc_workers, setPc_posting]
    omega

theorem covered_step {l : Label} (h : Covered s) (hj : Joined s) (hs : s.Steps l s') : Covered s' := by
  cases hs with
  | createFails => exact ⟨by simp [Phase.beforeDestroy], h.popping, h.noNull⟩
  | created i ret pc phase hp hret hpc hphase =>
    have htoken : pc.hasToken = false ∧ pc.popping = false ∧ pc ≠ .nullTask := by
      rw [hpc]
      split <;> simp [Pc.hasToken, Pc.popping]
    refine ⟨fun _ => ?_, ?_, ?_⟩
    · simpa [List.countP_append, htoken] using h.tokens (by simp [hp, Phase.beforeDestroy])
    · simpa [List.countP_append, htoken] using h.popping
    · simpa [htoken, eq_comm] using h.noNull
  | stored hp =>
    exact ⟨fun _ => h.tokens (by simp [hp, Phase.beforeDestroy]), h.popping, h.noNull⟩
  | refused => exact h
  | signalled p q hopen hlock htasks hres =>
    have hpop := h.popping
    have htokens := h.tokens
    simp only [hlock, Option.toList_none, List.length_nil] at hpop htokens
    refine ⟨fun hp => ?_, ?_, h.noNull⟩
    · have := htokens hp
      simp only [htasks, Option.toList_some, List.length_singleton]
      omega
    · simp only [htasks, Option.toList_some, List.length_singleton]
      omega
  | pushed t ht =>
    have hpop := h.popping
    have htokens := h.tokens
    simp only [ht, Option.toList_some, List.length_singleton] at hpop htokens
    exact ⟨fun hp => by simpa using htokens hp, by simpa using hpop, h.noNull⟩
  | cleared => exact ⟨by simp [Phase.beforeDestroy], h.popping, h.noNull⟩
  | fakeSignalled i q phase hp hq hcase =>
    exact ⟨fun hb => absurd hb (not_beforeDestroy_signalled hcase), by simpa [hq] using h.popping, h.noNull⟩
  | joined i phase hp hw hphase =>
    exact ⟨fun hb => absurd hb (not_beforeDestroy_joined hphase), h.popping, h.noNull⟩
  | emptied => exact ⟨by simp [Phase.beforeDestroy], h.popping, h.noNull⟩
  | emptiedOne t tasks resource hp =>
    exact ⟨by simp [hp, Phase.beforeDestroy], by simp [hj.nobodyPops hp], h.noNull⟩
  | leaked t tasks hp =>
    exact ⟨by simp [Phase.beforeDestroy], by simp [hj.nobodyPops hp], h.noNull⟩
  | headStays i hw =>
    exact h.move hw .waiting (by simp) s.taskQueue (by simp [Pc.hasToken]) (by simp [Pc.popping]) s.log s.done
  | headExits i hw =>
    exact h.move hw .exited (by simp) s.taskQueue (by simp [Pc.hasToken]) (by simp [Pc.popping]) s.log s.done
  | waited i resource hw hres =>
    have htoken : resource + s.taskQueue.tasks.length + 1 ≤ s.taskQueue.resource + s.taskQueue.tasks.length := by omega
    exact h.move hw .check (by simp) ⟨_, resource⟩ htoken (by simp [Pc.popping]) s.log s.done
  | waitFailed i hw =>
    exact h.move hw .exited (by simp) s.taskQueue (by simp [Pc.hasToken]) (by simp [Pc.popping]) s.log s.done
  | checkStays i hw hk =>
    -- the token bound still holds while keep_alive is set, and it covers the new popper
    have hbefore : s.phase.beforeDestroy = true := by simp [hj.alive hk, Phase.beforeDestroy]
    have htokens := h.tokens hbefore
    have hcount := Threads.countP_set hw Pc.hasToken .wantPop
    simp only [Pc.hasToken, if_true] at hcount
    have hle := popping_le_hasToken (s.workers.set i .wantPop)
    refine ⟨fun _ => ?_, ?_, h.noNull_set (by simp)⟩
    · simp only [setPc_taskQueue, setPc_workers, setPc_posting]
      omega
    · simp only [setPc_taskQueue, setPc_workers, setPc_posting]
      omega
  | checkExits i hw =>
    exact h.move hw .exited (by simp) s.taskQueue (by simp [Pc.hasToken]) (by simp [Pc.popping]) s.log s.done
  | poppedNull i hw hlock htasks =>
    -- the popper itself is counted, so the queue cannot be empty
    have hpos : 0 < s.workers.countP Pc.popping :=
      List.countP_pos_iff.mpr ⟨_, Threads.mem_of_getElem? hw, rfl⟩
    have := h.popping
    simp only [htasks, hlock, List.length_nil, Option.toList_none] at this
    omega
  | popped i t tasks hw hlock htasks =>
    have hlen : s.taskQueue.tasks.length = tasks.length + 1 := by rw [htasks, List.length_cons]
    exact h.move hw (.claimed t) (by simp) ⟨tasks, _⟩ (by simp [Pc.hasToken, hlen, Nat.add_assoc])
      (by simp [Pc.popping, hlen]) s.log s.done
  | handled i t ret hw =>
    exact h.move hw _ (by simp) s.taskQueue (by simp [Pc.hasToken]) (by simp [Pc.popping]) _ s.done
  | completed i t ret hw =>
    exact h.move hw .head (by simp) s.taskQueue (by simp [Pc.hasToken]) (by simp [Pc.popping]) _ _

end TinyosGraphics.Task
