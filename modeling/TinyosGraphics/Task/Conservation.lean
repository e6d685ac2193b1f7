import TinyosGraphics.Task.Accounting

/-! Where every posted task is, and which of its callbacks have run. -/
namespace TinyosGraphics.Task
open Lib TgxTaskSchedule

/-- The callbacks of a task from start to end: the handler, then `on_task_complete` with its result. -/
def TgxTask.wholeTrace (t : TgxTask) (ret : Int) : List Event :=
  .handled t.id ret :: if t.onTaskComplete then [.completed t.id ret] else []

/-- The task a worker has, with the callbacks that have run. -/
def Pc.entry : Pc → Option (TgxTask × List Event)
  | .claimed t => some (t, [])
  | .completing t ret => some (t, [.handled t.id ret])
  | _ => none

namespace TgxTaskSchedule

/-- The callbacks of a task so far. -/
def trace (s : TgxTaskSchedule) (t : TgxTask) : List Event :=
  Ledger.own Event.id s.log t.id

/-- Every task with the callbacks it has had: queued, with a worker, done, and freed unrun. -/
def ledger (s : TgxTaskSchedule) : List (TgxTask × List Event) :=
  s.taskQueue.tasks.map (·, []) ++ s.workers.filterMap Pc.entry ++
    s.done.map (fun p => (p.1, p.1.wholeTrace p.2)) ++ (s.freed ++ s.leaked).map (·, [])

/-- The ledger with other entries for the tasks of the workers. -/
def ledgerWith (s : TgxTaskSchedule) (held : List (TgxTask × List Event)) :
    List (TgxTask × List Event) :=
  s.taskQueue.tasks.map (·, []) ++ held ++
    s.done.map (fun p => (p.1, p.1.wholeTrace p.2)) ++ (s.freed ++ s.leaked).map (·, [])

private theorem ledger_perm {s : TgxTaskSchedule} {p : Option (TgxTask × List Event)}
    {rest : List (TgxTask × List Event)}
    (h : (s.workers.filterMap Pc.entry).Perm (p.toList ++ rest)) :
    s.ledger.Perm (p.toList ++ s.ledgerWith rest) := by
  refine List.perm_iff_count.mpr fun a => ?_
  have := h.count_eq a
  simp only [ledger, ledgerWith, List.count_append] at this ⊢
  omega

end TgxTaskSchedule

structure Conserved (s : TgxTaskSchedule) : Prop where
  agrees : Ledger.Agrees TgxTask.id Event.id s.ledger s.log
  posted : (s.ledger.map Prod.fst).Perm s.posted
  ids : s.posted.map TgxTask.id = List.range s.posted.length
  posting : ∀ t, s.posting = some t → t.id = s.posted.length
  fresh : ∀ e ∈ s.log, e.id < s.posted.length
  kept : s.phase.beforeDestroy = true → s.freed = [] ∧ s.leaked = []

variable {s s' : TgxTaskSchedule}

private theorem Conserved.id_lt (h : Conserved s) {p : TgxTask × List Event} (hp : p ∈ s.ledger) :
    p.1.id < s.posted.length := by
  have hmem : p.1.id ∈ s.posted.map TgxTask.id :=
    List.mem_map_of_mem (h.posted.mem_iff.mp (List.mem_map_of_mem hp))
  rw [h.ids] at hmem
  exact List.mem_range.mp hmem

private theorem Conserved.shuffle (h : Conserved s) (hl : s'.ledger.Perm s.ledger) (hlog : s'.log = s.log)
    (hposted : s'.posted = s.posted) (hposting : ∀ t, s'.posting = some t → t.id = s.posted.length)
    (hkept : s'.phase.beforeDestroy = true → s'.freed = [] ∧ s'.leaked = []) : Conserved s' where
  agrees := hlog ▸ h.agrees.perm hl
  posted := hposted ▸ (hl.map Prod.fst).trans h.posted
  ids := hposted ▸ h.ids
  posting := hposted ▸ hposting
  fresh := by rw [hlog, hposted]; exact h.fresh
  kept := hkept

private theorem ledger_setPc {i : Nat} {pc pc' : Pc} (hw : s.workers[i]? = some pc)
    (he : pc'.entry = pc.entry) : (s.setPc i pc').ledger.Perm s.ledger := by
  refine List.perm_iff_count.mpr fun a => ?_
  have := (Threads.held_set_of_eq hw he).count_eq a
  simp only [ledger, setPc, List.count_append] at this ⊢
  omega

theorem Conserved.move (h : Conserved s) {i : Nat} {pc pc' : Pc} (hw : s.workers[i]? = some pc)
    (he : pc'.entry = pc.entry) : Conserved (s.setPc i pc') :=
  h.shuffle (ledger_setPc hw he) rfl rfl h.posting h.kept

private theorem Conserved.callback (h : Conserved s) {t : TgxTask} {es : List Event} {e : Event}
    {rest : List (TgxTask × List Event)} (hl : s.ledger.Perm ((t, es) :: rest)) (he : e.id = t.id)
    (hl' : s'.ledger.Perm ((t, es ++ [e]) :: rest)) (hlog : s'.log = s.log ++ [e])
    (hposted : s'.posted = s.posted) (hposting : s'.posting = s.posting)
    (hkept : s'.phase.beforeDestroy = true → s'.freed = [] ∧ s'.leaked = []) : Conserved s' where
  agrees := hlog ▸ ((h.agrees.perm hl.symm).event he).perm hl'
  posted := hposted ▸ (hl'.map Prod.fst).trans ((hl.map Prod.fst).symm.trans h.posted)
  ids := hposted ▸ h.ids
  posting := by rw [hposted, hposting]; exact h.posting
  fresh := by
    rw [hlog, hposted]
    intro e' he'
    rcases List.mem_append.mp he' with he' | he'
    · exact h.fresh e' he'
    · obtain rfl := List.mem_singleton.mp he'
      rw [he]
      exact h.id_lt (p := (t, es)) (hl.mem_iff.mpr (by simp))
  kept := hkept

private theorem conserved_step {l : Label} (h : Conserved s) (hs : s.Steps l s') : Conserved s' := by
  cases hs with
  | createFails i ret hp =>
    exact h.shuffle (.refl _) rfl rfl h.posting (by simp [Phase.beforeDestroy])
  | created i ret pc phase hp hret hpc hphase =>
    have hentry : pc.entry = none := by
      rw [hpc]
      split <;> rfl
    have hkept := h.kept (by simp [hp, Phase.beforeDestroy])
    refine h.shuffle ?_ rfl rfl h.posting fun _ => hkept
    simp [ledger, List.filterMap_append, hentry]
  | stored hp =>
    exact h.shuffle (.refl _) rfl rfl h.posting fun _ => h.kept (by simp [hp, Phase.beforeDestroy])
  | refused => exact h
  | signalled p q hopen hlock htasks =>
    refine h.shuffle (by simp [ledger, htasks]) rfl rfl (fun t ht => ?_) h.kept
    obtain rfl := Option.some.inj ht
    rfl
  | pushed t ht =>
    have hid := h.posting t ht
    have hperm : (TgxTaskSchedule.ledger
        { s with taskQueue := ⟨s.taskQueue.tasks ++ [t], s.taskQueue.resource⟩, posting := none,
                 posted := s.posted ++ [t] }).Perm ((t, []) :: s.ledger) := by
      refine List.perm_iff_count.mpr fun a => ?_
      simp only [ledger, List.map_append, List.map_cons, List.map_nil, List.count_append,
        List.count_cons, List.count_nil]
      omega
    refine ⟨?_, ?_, ?_, by simp, ?_, h.kept⟩
    · refine (h.agrees.add (fun p hp => ?_) fun e he => ?_).perm hperm
      · have := h.id_lt hp
        omega
      · have := h.fresh e he
        omega
    · refine (hperm.map Prod.fst).trans ?_
      exact (List.Perm.cons t h.posted).trans (List.perm_append_singleton t s.posted).symm
    · simp [h.ids, hid, List.range_succ]
    · intro e he
      have := h.fresh e he
      simp only [List.length_append, List.length_singleton]
      omega
  | cleared hp => exact h.shuffle (.refl _) rfl rfl h.posting (by simp [Phase.beforeDestroy])
  | fakeSignalled i q phase hp hq hcase =>
    exact h.shuffle (by simp [ledger, hq]) rfl rfl h.posting fun hb => absurd hb (not_beforeDestroy_signalled hcase)
  | joined i phase hp hw hphase =>
    exact h.shuffle (.refl _) rfl rfl h.posting fun hb => absurd hb (not_beforeDestroy_joined hphase)
  | emptied => exact h.shuffle (.refl _) rfl rfl h.posting (by simp [Phase.beforeDestroy])
  | emptiedOne t tasks resource hp hlock htasks =>
    refine h.shuffle ?_ rfl rfl h.posting (by simp [hp, Phase.beforeDestroy])
    refine List.perm_iff_count.mpr fun a => ?_
    simp only [ledger, htasks, List.map_append, List.map_cons, List.map_nil, List.count_append,
      List.count_cons, List.count_nil]
    omega
  | leaked t tasks hp hlock htasks =>
    refine h.shuffle ?_ rfl rfl h.posting (by simp [Phase.beforeDestroy])
    refine List.perm_iff_count.mpr fun a => ?_
    simp only [ledger, htasks, List.map_append, List.map_cons, List.map_nil, List.count_append,
      List.count_cons, List.count_nil]
    omega
  | headStays i hw => exact h.move hw rfl
  | headExits i hw => exact h.move hw rfl
  | waited i resource hw =>
    have hmove : Conserved (s.setPc i .check) := h.move hw rfl
    exact hmove.shuffle (.refl _) rfl rfl h.posting h.kept
  | waitFailed i hw => exact h.move hw rfl
  | checkStays i hw => exact h.move hw rfl
  | checkExits i hw => exact h.move hw rfl
  | poppedNull i hw => exact h.move hw rfl
  | popped i t tasks hw hlock htasks =>
    obtain ⟨rest, hall, hset⟩ := Threads.held_split hw Pc.entry
    have hold := ledger_perm (p := none) hall
    have hnew := ledger_perm (p := some (t, []))
      (s := { s.setPc i (.claimed t) with taskQueue := ⟨tasks, s.taskQueue.resource⟩ }) (hset (.claimed t))
    refine h.shuffle (hnew.trans ?_) rfl rfl h.posting h.kept
    refine List.Perm.trans ?_ hold.symm
    simp [ledgerWith, setPc, htasks]
  | handled i t ret hw =>
    obtain ⟨rest, hall, hset⟩ := Threads.held_split hw Pc.entry
    have hold := ledger_perm (p := some (t, [])) hall
    have hnew := ledger_perm (p := some (t, [.handled t.id ret]))
      (s := { s.setPc i (.completing t ret) with log := s.log ++ [.handled t.id ret] })
      (hset (.completing t ret))
    exact h.callback (e := .handled t.id ret) hold rfl hnew rfl rfl rfl h.kept
  | completed i t ret hw =>
    obtain ⟨rest, hall, hset⟩ := Threads.held_split hw Pc.entry
    have hold := ledger_perm (p := some (t, [.handled t.id ret])) hall
    have hnew := ledger_perm (p := none)
      (s := { s.setPc i .head with
        log := if t.onTaskComplete then s.log ++ [.completed t.id ret] else s.log
        done := s.done ++ [(t, ret)] }) (hset .head)
    have hdone : (ledgerWith { s.setPc i .head with
        log := if t.onTaskComplete then s.log ++ [.completed t.id ret] else s.log
        done := s.done ++ [(t, ret)] } rest).Perm ((t, t.wholeTrace ret) :: s.ledgerWith rest) := by
      refine List.perm_iff_count.mpr fun a => ?_
      simp only [ledgerWith, setPc, List.map_append, List.map_cons, List.map_nil, List.count_append,
        List.count_cons, List.count_nil]
      omega
    cases hc : t.onTaskComplete with
    | true =>
      refine h.callback (e := .completed t.id ret) hold rfl (hnew.trans ?_) (by simp) rfl rfl h.kept
      simpa [hc, TgxTask.wholeTrace] using hdone
    | false =>
      refine h.shuffle (hnew.trans ?_) (by simp) rfl h.posting h.kept
      refine List.Perm.trans ?_ hold.symm
      simpa [hc, TgxTask.wholeTrace] using hdone

/-- What holds of the scheduler in every state it reaches. -/
structure Sound (s : TgxTaskSchedule) : Prop where
  covered : Covered s
  joined : Joined s
  conserved : Conserved s

private theorem conserved_init (n : Int) : Conserved (tgxTaskScheduleInit n) := by
  refine ⟨⟨?_, ?_⟩, ?_, ?_, ?_, ?_, ?_⟩ <;> simp [tgxTaskScheduleInit, ledger]

theorem sound_of_reachable (h : system.Reachable (fun _ _ => True) s) : Sound s := by
  refine h.invariant (P := Sound) ?_ ?_
  · rintro _ ⟨n, rfl⟩
    exact ⟨covered_init n, joined_init n, conserved_init n⟩
  · intro s l s' hs _ hstep
    have hsteps := step_cases hstep
    exact ⟨covered_step hs.covered hs.joined hsteps, joined_step hs.joined hsteps,
      conserved_step hs.conserved hsteps⟩

private theorem ledger_entry {p : TgxTask × List Event} (hp : p ∈ s.ledger) :
    ∃ ret, p.2 <+: p.1.wholeTrace ret := by
  simp only [ledger, List.mem_append, List.mem_map, List.mem_filterMap] at hp
  rcases hp with ((⟨t, -, rfl⟩ | ⟨pc, -, he⟩) | ⟨⟨t, ret⟩, -, rfl⟩) | ⟨t, -, rfl⟩
  · exact ⟨0, List.nil_prefix⟩
  · cases pc <;> simp only [Pc.entry, Option.some.injEq, reduceCtorEq] at he
    · subst he
      exact ⟨0, List.nil_prefix⟩
    · subst he
      exact ⟨_, List.prefix_append [_] _⟩
  · exact ⟨ret, List.prefix_refl _⟩
  · exact ⟨0, List.nil_prefix⟩

/-- A task with a callback behind it has not left its worker before it is done. -/
private theorem ledger_started {p : TgxTask × List Event} (hp : p ∈ s.ledger) (hne : p.2 ≠ []) :
    (∃ (i : Nat) (ret : Int), s.workers[i]? = some (.completing p.1 ret)) ∨ ∃ ret, (p.1, ret) ∈ s.done := by
  simp only [ledger, List.mem_append, List.mem_map, List.mem_filterMap] at hp
  rcases hp with ((⟨t, -, rfl⟩ | ⟨pc, hpc, he⟩) | ⟨⟨t, ret⟩, hdone, rfl⟩) | ⟨t, -, rfl⟩
  · exact absurd rfl hne
  · obtain ⟨i, hi⟩ := List.mem_iff_getElem?.mp hpc
    cases pc with
    | completing t ret =>
      obtain rfl := Option.some.inj he
      exact .inl ⟨i, ret, hi⟩
    | claimed t =>
      obtain rfl := Option.some.inj he
      exact absurd rfl hne
    | _ => simp [Pc.entry] at he
  · exact .inr ⟨ret, hdone⟩
  · exact absurd rfl hne

private theorem held_tasks (pcs : List Pc) :
    (pcs.filterMap Pc.entry).map Prod.fst = pcs.filterMap Pc.task := by
  rw [List.map_filterMap]
  congr 1
  funext pc
  cases pc <;> rfl

/-- In every state any interleaving reaches: no worker has popped an empty queue; every posted task
has run its handler at most once, then `on_task_complete` with the handler's result, exactly once
when the task is done and not again; a worker that has run a handler can complete the task; until
`keep_alive` is cleared the posted tasks are those queued, those with a worker and those done; and
before and after that, a task whose handler has run is with a worker that is to complete it, or done. -/
theorem scheduler_accounts (h : system.Reachable (fun _ _ => True) s) :
    Pc.nullTask ∉ s.workers ∧
    (∀ t ∈ s.posted, ∃ ret, s.trace t <+: t.wholeTrace ret) ∧
    (∀ t ret, (t, ret) ∈ s.done → s.trace t = t.wholeTrace ret) ∧
    (∀ (i : Nat) t ret, s.workers[i]? = some (.completing t ret) →
      s.trace t = [.handled t.id ret] ∧ ∃ s', s.step (.complete i) = some s' ∧ (t, ret) ∈ s'.done) ∧
    (s.phase.beforeDestroy = true →
      s.posted.Perm (s.taskQueue.tasks ++ s.workers.filterMap Pc.task ++ s.done.map Prod.fst)) ∧
    ∀ t ∈ s.posted, s.trace t ≠ [] →
      (∃ (i : Nat) (ret : Int), s.workers[i]? = some (.completing t ret)) ∨ ∃ ret, (t, ret) ∈ s.done := by
  have hsound := sound_of_reachable h
  have hc := hsound.conserved
  refine ⟨hsound.covered.noNull, fun t ht => ?_, fun t ret hdone => ?_, fun i t ret hw => ⟨?_, ?_⟩,
    fun hbefore => ?_, fun t ht hne => ?_⟩
  · obtain ⟨p, hp, rfl⟩ := List.mem_map.mp (hc.posted.mem_iff.mpr ht)
    obtain ⟨ret, hret⟩ := ledger_entry hp
    exact ⟨ret, by rw [trace, hc.agrees.own p hp]; exact hret⟩
  · refine hc.agrees.own (t, t.wholeTrace ret) ?_
    simp only [ledger, List.mem_append, List.mem_map]
    exact .inl (.inr ⟨(t, ret), hdone, rfl⟩)
  · refine hc.agrees.own (t, [.handled t.id ret]) ?_
    simp only [ledger, List.mem_append, List.mem_filterMap]
    exact .inl (.inl (.inr ⟨_, Threads.mem_of_getElem? hw, rfl⟩))
  · refine ⟨_, by simp only [step, hw]; rfl, ?_⟩
    simp
  · obtain ⟨hfreed, hleaked⟩ := hc.kept hbefore
    have hposted := hc.posted
    rw [ledger, hfreed, hleaked] at hposted
    simpa [held_tasks, Function.comp_def] using hposted.symm
  · obtain ⟨p, hp, rfl⟩ := List.mem_map.mp (hc.posted.mem_iff.mpr ht)
    exact ledger_started hp (by rwa [trace, hc.agrees.own p hp] at hne)

/-- One worker, one task, from the creation of the pool to the completion of the task. -/
def oneTask : List Label :=
  [.create 0, .storeKeepAlive, .post ⟨none, some 0, true, true⟩, .testHead 0, .wait 0, .check 0, .push,
    .pop 0, .runHandler 0 7, .complete 0]

theorem scheduler_accounts_one :
    ∃ s, system.replay (tgxTaskScheduleInit 1) oneTask = some s ∧
      s.trace ⟨0, true⟩ = [.handled 0 7, .completed 0 7] := by
  obtain ⟨s, hs⟩ := Option.isSome_iff_exists.mp
    (show (system.replay (tgxTaskScheduleInit 1) oneTask).isSome = true by decide)
  have hdone : (⟨0, true⟩, 7) ∈ s.done := by
    obtain rfl := Option.some.inj hs
    decide
  exact ⟨s, hs, (scheduler_accounts (.of_replay ⟨1, rfl⟩ oneTask hs)).2.2.1 _ _ hdone⟩

end TinyosGraphics.Task
