import TinyosGraphics.Event.Schedule
import TinyosGraphics.Lib.Transition

/-! Calls of the table operations that return -1: which of them leave the table as it was,
and what `usedfds` counts in runs of such calls. -/
namespace TinyosGraphics.Event
open Lib TgxEvent

variable {H C : Type}

/-- One call that changes the schedule table, with its arguments. -/
inductive Call (H C : Type)
  | register (fd : Int) (handler : Option H) (context : Option C) (calloc : Bool)
  | unregister (fd : Int)
  | setHandler (fd : Int) (handler : Option H) (context : Option C)

/-- The return value and the table after a call. -/
def Call.run (te : TgxEvent H C) : Call H C → Option (Int × TgxEvent H C)
  | .register fd handler context calloc => tgxEventScheduleRegister te fd handler context calloc
  | .unregister fd => tgxEventScheduleUnregister te fd
  | .setHandler fd handler context => tgxEventSetHandler te fd handler context

def callSystem (H C : Type) : Transition (TgxEvent H C) (Call H C) where
  init te := ∃ maxfds epollFd, te = tgxEventInit maxfds epollFd
  step te c := (c.run te).map Prod.snd

/-- When the call returns -1 the table is as before. -/
def Call.KeepsTable (te : TgxEvent H C) (c : Call H C) : Prop :=
  ∀ te', c.run te = some (-1, te') → te' = te

/-- The call is not refused after it has begun to change the table: a registration with good
arguments finds room, memory and a slot, and a handler is not replaced together with a context. -/
def Call.Clean (te : TgxEvent H C) : Call H C → Prop
  | .register fd handler _ calloc =>
    handler = none ∨ fd < 0 ∨
      (te.usedfds + 1 < te.maxfds ∧ calloc = true ∧ (fd < te.maxfds → ∃ i, te.schedArray i = none))
  | .unregister _ => True
  | .setHandler fd handler context =>
    context = none ∨ ∀ i s, tgxFindScheduleIndex te fd = some (some i) → te.schedArray i = some s →
      s.handler.isSome → s.handler = handler

variable {te : TgxEvent H C}

private theorem bump_ne : te.bump ≠ te := by
  intro h
  have := congrArg TgxEvent.usedfds h
  simp at this

/-- A registration that is not clean returns -1 and leaves one more slot counted. -/
private theorem register_not_clean {fd : Int} {handler : Option H} {context : Option C} {calloc : Bool}
    (h : ¬ (Call.register fd handler context calloc).Clean te) :
    tgxEventScheduleRegister te fd handler context calloc = some (-1, te.bump) := by
  simp only [Call.Clean, not_or, not_lt, not_and] at h
  obtain ⟨hh, hfd, hrest⟩ := h
  have hpos := te.maxfds_pos
  have harg : ¬ (handler.isNone ∨ fd < 0) := by
    cases handler <;> simp_all
  unfold tgxEventScheduleRegister
  rw [if_neg harg]
  by_cases hfull : te.usedfds + 1 > te.maxfds - 1
  · rw [if_pos hfull]
  rw [if_neg hfull]
  have hroom : te.usedfds + 1 < te.maxfds := by omega
  by_cases hc : calloc = true
  · obtain ⟨hin, hslots⟩ := Classical.not_imp.mp (hrest hroom hc)
    simp only [not_exists] at hslots
    have hff : SlotTable.firstFree te.schedArray = none := by
      refine Option.not_isSome_iff_eq_none.mp fun hs => ?_
      obtain ⟨i, hi⟩ := SlotTable.firstFree_isSome_iff.mp hs
      exact hslots i hi
    simp [hc, rawIndex_eq ⟨hfd, hin⟩, hff, hslots]
  · simp [hc]

private theorem register_clean_keeps {fd : Int} {handler : Option H} {context : Option C} {calloc : Bool}
    (h : (Call.register fd handler context calloc).Clean te) :
    (Call.register fd handler context calloc).KeepsTable te := by
  intro te' hrun
  rcases register_cases hrun with ⟨-, -, rfl⟩ | ⟨hs, hfd, -, -, hwhy⟩ | ⟨-, -, -, -, -, -, hr, -⟩
  · rfl
  · rcases h with rfl | hneg | ⟨hroom, hc, hslot⟩
    · simp at hs
    · omega
    · rcases hwhy with hfull | hc' | ⟨hin, hall⟩
      · omega
      · simp [hc] at hc'
      · obtain ⟨i, hi⟩ := hslot hin
        simpa [hi] using hall i
  · omega

private theorem setHandler_keeps_iff {fd : Int} {handler : Option H} {context : Option C} :
    (Call.setHandler fd handler context).KeepsTable te ↔
      (Call.setHandler fd handler context).Clean te := by
  constructor
  · intro h
    by_cases hc : context = none
    · exact .inl hc
    refine .inr fun i s hi hs hh => ?_
    have hctx : context.isSome := Option.isSome_iff_ne_none.mpr hc
    have hrun : (Call.setHandler fd handler context).run te =
        some (-1, te.setSlot i (some { s with handler := handler })) := by
      simp [Call.run, tgxEventSetHandler, hi, hs, hh, hctx]
    have hsame := setSlot_eq_self (h _ hrun)
    rw [hs] at hsame
    exact congrArg Schedule.handler (Option.some.inj hsame)
  · rintro h te' hrun
    rcases setHandler_cases hrun with ⟨-, rfl⟩ | ⟨i, s, hi, hs, -, hh, hr, rfl⟩
    · rfl
    · rcases h with rfl | hsame
      · simp at hr
      · obtain rfl := hsame i s hi hs hh
        simp [setSlot, ← hs]

private theorem keepsTable_iff_clean (te : TgxEvent H C) (c : Call H C) : c.KeepsTable te ↔ c.Clean te := by
  cases c with
  | register fd handler context calloc =>
    refine ⟨fun h => ?_, register_clean_keeps⟩
    by_contra hn
    exact bump_ne (h _ (register_not_clean hn))
  | unregister fd =>
    refine ⟨fun _ => trivial, fun _ te' hrun => ?_⟩
    rcases unregister_cases hrun with ⟨-, rfl⟩ | ⟨-, -, -, -, -, hr, -⟩
    · rfl
    · omega
  | setHandler fd handler context => exact setHandler_keeps_iff

private theorem call_keeps_count {te' : TgxEvent H C} {c : Call H C} (hc : c.Clean te)
    (hcount : te.usedfds = SlotTable.used te.schedArray)
    (h : (callSystem H C).step te c = some te') : te'.usedfds = SlotTable.used te'.schedArray := by
  obtain ⟨⟨r, te₁⟩, hrun, rfl⟩ := Option.map_eq_some_iff.mp h
  cases c with
  | register fd handler context calloc =>
    rcases register_cases hrun with ⟨-, -, rfl⟩ | ⟨-, -, rfl, rfl, -⟩ | ⟨-, -, -, -, i, hi, -, rfl⟩
    · exact hcount
    · exact absurd ((keepsTable_iff_clean te _).mpr hc _ hrun) bump_ne
    · simp only [setSlot, bump, SlotTable.used_fill hi, hcount]
  | unregister fd =>
    rcases unregister_cases hrun with ⟨-, rfl⟩ | ⟨-, i, s, hs, -, -, rfl⟩
    · exact hcount
    · have := SlotTable.used_clear hs
      simp only [setSlot]
      omega
  | setHandler fd handler context =>
    rcases setHandler_cases hrun with ⟨-, rfl⟩ | ⟨i, s, -, hs, -, -, -, rfl⟩
    · exact hcount
    · simp only [setSlot, SlotTable.used_replace hs, hcount]

private theorem clean_run_counts (h : (callSystem H C).Reachable (fun te c => c.Clean te) te) :
    te.usedfds = SlotTable.used te.schedArray := by
  refine h.invariant (P := fun te => te.usedfds = SlotTable.used te.schedArray) ?_ ?_
  · rintro _ ⟨maxfds, epollFd, rfl⟩
    exact SlotTable.used_empty.symm
  · intro te c te' hcount hc hs
    exact call_keeps_count hc hcount hs

/-- Calls returning -1 leave the table alone exactly when they are clean; in runs of clean calls
`usedfds` is the number of entries, and a table with fewer than `maxfds - 1` entries accepts. -/
theorem refused_calls (H C : Type) :
    (∀ (te : TgxEvent H C) (c : Call H C), c.KeepsTable te ↔ c.Clean te) ∧
    (∀ te : TgxEvent H C, (callSystem H C).Reachable (fun te c => c.Clean te) te →
      te.usedfds = SlotTable.used te.schedArray ∧
      ∀ (fd : Int) (handler : Option H) (context : Option C), handler.isSome → te.InRange fd →
        te.lookup fd = none → SlotTable.used te.schedArray < te.maxfds - 1 →
        ∃ te', tgxEventScheduleRegister te fd handler context true = some (0, te')) := by
  refine ⟨keepsTable_iff_clean, fun te hreach => ?_⟩
  have hcount := clean_run_counts hreach
  refine ⟨hcount, fun fd handler context hh hr _ hroom => ?_⟩
  have hlive : SlotTable.used te.schedArray < te.maxfds := by omega
  obtain ⟨i, hi⟩ := SlotTable.exists_free hlive
  exact register_succeeds hh hr (by omega) hi

instance [DecidableEq H] : (c : Call H C) → Decidable (c.Clean te)
  | .register _ _ _ _ => inferInstanceAs (Decidable (_ ∨ _ ∨ (_ ∧ _ ∧ (_ → ∃ i, te.schedArray i = none))))
  | .unregister _ => isTrue trivial
  | .setHandler fd handler context =>
    decidable_of_iff (context = none ∨ ∀ i, tgxFindScheduleIndex te fd = some (some i) →
        ∀ s ∈ te.schedArray i, s.handler.isSome → s.handler = handler)
      (or_congr_right ⟨fun h i s hi hs => h i hi s hs, fun h i hi s hs => h i s hi hs⟩)

/-- Descriptors come and go. The calls without a handler, for an unknown descriptor and with a handler and a context
of which the first is there already are refused. -/
def busyCalls : List (Call Bool Unit) :=
  [.register 2 (some true) (some ()) true, .register 0 (some false) none true, .register 3 none none true,
    .setHandler 0 (some true) none, .unregister 5, .unregister 2, .register 4 (some true) (some ()) true,
    .setHandler 4 (some true) (some ())]

theorem refused_calls_busy :
    ∃ te, (callSystem Bool Unit).guided (fun _ c => some c) (fun te c => c.Clean te) (tgxEventInit 5 3)
        busyCalls = some te ∧ te.usedfds = 2 ∧
      ∃ te', tgxEventScheduleRegister te 2 (some true) (some ()) true = some (0, te') := by
  have hrun : ((callSystem Bool Unit).guided (fun _ c => some c) (fun te c => c.Clean te) (tgxEventInit 5 3)
      busyCalls).map (fun te => (te.maxfds, SlotTable.used te.schedArray, (te.lookup 2).isNone)) =
        some (5, 2, true) := by
    decide
  obtain ⟨te, hte, hend⟩ := Option.map_eq_some_iff.mp hrun
  simp only [Prod.mk.injEq, Option.isNone_iff_eq_none] at hend
  obtain ⟨hmax, hused, hnone⟩ := hend
  obtain ⟨hcount, hroom⟩ := (refused_calls Bool Unit).2 te (.of_guided busyCalls (.init ⟨5, 3, rfl⟩) hte)
  exact ⟨te, hte, hcount.trans hused, hroom 2 (some true) (some ()) rfl ⟨by decide, by omega⟩ hnone (by omega)⟩

/-- Two slots; one client is registered, one is refused, and the first leaves. -/
private def idleTable : Option (TgxEvent Unit Unit) :=
  (callSystem Unit Unit).replay (tgxEventInit 2 3)
    [.register 0 (some ()) none true, .register 1 (some ()) none true, .unregister 0]

/-- The refused registration stays counted: the table is empty and refuses everyone. -/
theorem refusal_starves_idle_table :
    ¬ ∀ te : TgxEvent Unit Unit, (callSystem Unit Unit).Reachable (fun _ _ => True) te →
      (∀ c : Call Unit Unit, c.KeepsTable te) ∧
      te.usedfds = SlotTable.used te.schedArray ∧
      ∀ (fd : Int) (handler : Option Unit) (context : Option Unit), handler.isSome → te.InRange fd →
        te.lookup fd = none → SlotTable.used te.schedArray < te.maxfds - 1 →
        ∃ te', tgxEventScheduleRegister te fd handler context true = some (0, te') := by
  intro h
  obtain ⟨te, hte⟩ : ∃ te, idleTable = some te := Option.isSome_iff_exists.mp (by decide)
  have hreach : (callSystem Unit Unit).Reachable (fun _ _ => True) te := .of_replay ⟨2, 3, rfl⟩ _ hte
  have hused : te.usedfds = 1 := by
    have : idleTable.map TgxEvent.usedfds = some 1 := by decide
    simpa [hte] using this
  have hlive : SlotTable.used te.schedArray = 0 := by
    have : (idleTable.map fun te => SlotTable.used te.schedArray) = some 0 := by decide
    simpa [hte] using this
  have hcount := (h te hreach).2.1
  omega

end TinyosGraphics.Event
