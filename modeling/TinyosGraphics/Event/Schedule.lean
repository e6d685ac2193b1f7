import TinyosGraphics.Lib.SlotTable

/-! The schedule table of `tgx_event.c`: which handler and context belong to a descriptor.
A result of `none` is an access of `sched_array` outside its `maxfds` slots, which C leaves undefined. -/
namespace TinyosGraphics.Event
open Lib

/-- `tgx_schedule_t`. A null pointer is `none`. -/
structure Schedule (H C : Type) where
  fd : Int
  handler : Option H
  context : Option C

/-- `struct epoll_event`, as `epoll_wait` fills it in. -/
structure EpollEvent where
  events : UInt32
  fd : Int
  deriving DecidableEq

/-- The multiplexer whose functions `tgx_event_t` points to. -/
inductive Engine
  | linuxEpoll

/-- `tgx_event_t`. Both arrays have `maxfds` elements; `tgx_event_init` never leaves `maxfds` at 0.
The six function pointers are set together, so they are one field. -/
structure TgxEvent (H C : Type) where
  maxfds : Nat
  maxfds_pos : 0 < maxfds
  schedArray : SlotTable.Slots maxfds (Schedule H C)
  usedfds : Nat
  epollFd : Int
  epollEvents : Fin maxfds → EpollEvent
  engine : Option Engine

variable {H C : Type}

/-- The array element a C subscript denotes, when it is inside the array. -/
def rawIndex (n : Nat) (i : Int) : Option (Fin n) :=
  if h : 0 ≤ i ∧ i.toNat < n then some ⟨i.toNat, h.2⟩ else none

namespace TgxEvent

def setSlot (te : TgxEvent H C) (i : Fin te.maxfds) (s : Option (Schedule H C)) : TgxEvent H C :=
  { te with schedArray := Function.update te.schedArray i s }

def bump (te : TgxEvent H C) : TgxEvent H C :=
  { te with usedfds := te.usedfds + 1 }

/-- The entry a descriptor's lookups see. -/
def lookup (te : TgxEvent H C) (fd : Int) : Option (Schedule H C) :=
  SlotTable.get Schedule.fd te.schedArray fd

/-- The entry at an index, when it is inside the array. -/
def slotAt (te : TgxEvent H C) (i : Nat) : Option (Schedule H C) :=
  (rawIndex te.maxfds i).bind te.schedArray

/-- A descriptor that the table can be subscripted with. -/
def InRange (te : TgxEvent H C) (fd : Int) : Prop :=
  0 ≤ fd ∧ fd < te.maxfds

/-- No descriptor has two entries. -/
def WellFormed (te : TgxEvent H C) : Prop :=
  SlotTable.Unique Schedule.fd te.schedArray

end TgxEvent

/-- `tgx_event_init` with the epoll engine. -/
def tgxEventInit (maxfds : Int) (epollFd : Int) : TgxEvent H C where
  maxfds := if 0 < maxfds then maxfds.toNat else 1
  maxfds_pos := by split <;> omega
  schedArray := fun _ => none
  usedfds := 0
  epollFd := epollFd
  epollEvents := fun _ => ⟨0, 0⟩
  engine := some .linuxEpoll

/-- The slot of a descriptor, `some none` being `TGX_NO_INDEX_FIND`. -/
def tgxFindScheduleIndex (te : TgxEvent H C) (fd : Int) : Option (Option (Fin te.maxfds)) :=
  (rawIndex te.maxfds fd).map fun i =>
    if (te.schedArray i).any fun s => decide (s.fd = fd) then some i
    else SlotTable.find Schedule.fd te.schedArray fd

/-- `tgx_event_schedule_register`; `calloc` tells whether the allocation of the entry succeeds.
`usedfds` is raised before the first of the three refusals that follow the argument check. -/
def tgxEventScheduleRegister (te : TgxEvent H C) (fd : Int) (handler : Option H)
    (context : Option C) (calloc : Bool) : Option (Int × TgxEvent H C) :=
  if handler.isNone ∨ fd < 0 then some (-1, te)
  else if te.usedfds + 1 > te.maxfds - 1 then some (-1, te.bump)
  else if calloc = false then some (-1, te.bump)
  else
    (rawIndex te.maxfds fd).map fun i =>
      if (te.schedArray i).isNone then (0, te.bump.setSlot i (some ⟨fd, handler, context⟩))
      else
        match SlotTable.firstFree te.schedArray with
        | some j => (0, te.bump.setSlot j (some ⟨fd, handler, context⟩))
        | none => (-1, te.bump)

def tgxEventScheduleUnregister (te : TgxEvent H C) (fd : Int) : Option (Int × TgxEvent H C) :=
  if fd < 0 then some (-1, te)
  else if fd > te.maxfds - 1 ∨ fd < 0 then some (-1, te)
  else
    (tgxFindScheduleIndex te fd).map fun r =>
      match r with
      | none => (-1, te)
      | some i => (0, { te.setSlot i none with usedfds := te.usedfds - 1 })

def tgxEventGetHandler (te : TgxEvent H C) (fd : Int) : Option (Option H) :=
  if fd < 0 then some none
  else
    (tgxFindScheduleIndex te fd).map fun r =>
      match r with
      | none => none
      | some i => (te.schedArray i).bind Schedule.handler

/-- `tgx_event_set_handler`. A context is refused only after the handler has been replaced. -/
def tgxEventSetHandler (te : TgxEvent H C) (fd : Int) (handler : Option H) (context : Option C) :
    Option (Int × TgxEvent H C) :=
  (tgxFindScheduleIndex te fd).map fun r =>
    match r with
    | none => (-1, te)
    | some i =>
      match te.schedArray i with
      | none => (-1, te)
      | some s =>
        if s.handler.isSome then
          let te := te.setSlot i (some { s with handler := handler })
          if context.isSome then (-1, te) else (0, te)
        else (-1, te)

def tgxEventGetContext (te : TgxEvent H C) (fd : Int) : Option (Option C) :=
  (tgxFindScheduleIndex te fd).map fun r =>
    match r with
    | none => none
    | some i => (te.schedArray i).bind Schedule.context

theorem rawIndex_eq {n : Nat} {i : Int} (h : 0 ≤ i ∧ i < n) :
    rawIndex n i = some ⟨i.toNat, by omega⟩ := by
  have : 0 ≤ i ∧ i.toNat < n := by omega
  simp [rawIndex, this]

private theorem rawIndex_isSome_iff {n : Nat} {i : Int} : (rawIndex n i).isSome ↔ 0 ≤ i ∧ i < n := by
  unfold rawIndex
  split <;> simp <;> omega

namespace TgxEvent
variable {te : TgxEvent H C} {fd : Int}

@[simp] theorem setSlot_maxfds (i : Fin te.maxfds) (s : Option (Schedule H C)) :
    (te.setSlot i s).maxfds = te.maxfds := rfl
@[simp] theorem setSlot_usedfds (i : Fin te.maxfds) (s : Option (Schedule H C)) :
    (te.setSlot i s).usedfds = te.usedfds := rfl

theorem setSlot_eq_self {i : Fin te.maxfds} {s : Option (Schedule H C)} (h : te.setSlot i s = te) :
    te.schedArray i = s := by
  cases te
  simp only [setSlot, TgxEvent.mk.injEq, heq_eq_eq, true_and, and_true] at h
  have hi := congrFun h i
  rw [Function.update_self] at hi
  exact hi.symm

@[simp] theorem bump_maxfds : te.bump.maxfds = te.maxfds := rfl
@[simp] theorem bump_usedfds : te.bump.usedfds = te.usedfds + 1 := rfl
@[simp] theorem bump_schedArray : te.bump.schedArray = te.schedArray := rfl

theorem wellFormed_init (maxfds epollFd : Int) : (tgxEventInit maxfds epollFd : TgxEvent H C).WellFormed := by
  intro i j a b ha
  simp [tgxEventInit] at ha

theorem lookup_init (maxfds epollFd fd : Int) :
    (tgxEventInit maxfds epollFd : TgxEvent H C).lookup fd = none := by
  apply SlotTable.get_eq_none_iff.mpr
  intro i a ha
  simp [tgxEventInit] at ha

private theorem lookup_fd {s : Schedule H C} (h : te.lookup fd = some s) : s.fd = fd :=
  SlotTable.get_key h

/-- The fast path and the scan find the same slot. -/
theorem find_spec (hw : te.WellFormed) (hr : te.InRange fd) :
    tgxFindScheduleIndex te fd = some (SlotTable.find Schedule.fd te.schedArray fd) := by
  simp only [tgxFindScheduleIndex, rawIndex_eq hr, Option.map_some, Option.some.injEq]
  split
  · rename_i h
    obtain ⟨s, hs, hfd⟩ : ∃ s, te.schedArray ⟨fd.toNat, by have := hr.1; have := hr.2; omega⟩ = some s ∧
        s.fd = fd := by
      simpa [Option.any_eq_true] using h
    rw [← SlotTable.find_eq_some hw hs, hfd]
  · rfl

private theorem find_holds {i : Fin te.maxfds} (h : tgxFindScheduleIndex te fd = some (some i)) :
    ∃ s, te.schedArray i = some s ∧ s.fd = fd := by
  obtain ⟨j, -, hj⟩ := Option.map_eq_some_iff.mp h
  split at hj
  · rename_i hfast
    obtain rfl := Option.some.inj hj
    simpa [Option.any_eq_true] using hfast
  · exact SlotTable.find_some hj

private theorem find_isSome (hw : te.WellFormed) (hr : te.InRange fd) {s : Schedule H C}
    (h : te.lookup fd = some s) :
    ∃ i, tgxFindScheduleIndex te fd = some (some i) ∧ te.schedArray i = some s := by
  obtain ⟨i, hi, hs⟩ := Option.bind_eq_some_iff.mp h
  exact ⟨i, by rw [find_spec hw hr, hi], hs⟩

private theorem find_isNone (hw : te.WellFormed) (hr : te.InRange fd) (h : te.lookup fd = none) :
    tgxFindScheduleIndex te fd = some none := by
  rw [find_spec hw hr]
  cases hf : SlotTable.find Schedule.fd te.schedArray fd with
  | none => rfl
  | some i =>
    obtain ⟨s, hs, -⟩ := SlotTable.find_some hf
    simp [lookup, SlotTable.get, hf, hs] at h

theorem getHandler_spec (hw : te.WellFormed) (hr : te.InRange fd) :
    tgxEventGetHandler te fd = some ((te.lookup fd).bind Schedule.handler) := by
  have h0 : ¬ fd < 0 := by have := hr.1; omega
  cases h : te.lookup fd with
  | none => simp [tgxEventGetHandler, h0, find_isNone hw hr h]
  | some s =>
    obtain ⟨i, hi, hs⟩ := find_isSome hw hr h
    simp [tgxEventGetHandler, h0, hi, hs]

theorem inRange_of_getContext {context : Option C} (h : tgxEventGetContext te fd = some context) :
    te.InRange fd := by
  obtain ⟨r, hr, -⟩ := Option.map_eq_some_iff.mp h
  obtain ⟨i, hi, -⟩ := Option.map_eq_some_iff.mp hr
  exact rawIndex_isSome_iff.mp (by rw [hi]; rfl)

theorem getContext_spec (hw : te.WellFormed) (hr : te.InRange fd) :
    tgxEventGetContext te fd = some ((te.lookup fd).bind Schedule.context) := by
  cases h : te.lookup fd with
  | none => simp [tgxEventGetContext, find_isNone hw hr h]
  | some s =>
    obtain ⟨i, hi, hs⟩ := find_isSome hw hr h
    simp [tgxEventGetContext, hi, hs]

/-- What one registration does: refused for its arguments, refused after `usedfds` was raised, or
stored in an empty slot. -/
theorem register_cases {handler : Option H} {context : Option C} {calloc : Bool} {r : Int}
    {te' : TgxEvent H C}
    (h : tgxEventScheduleRegister te fd handler context calloc = some (r, te')) :
    ((handler = none ∨ fd < 0) ∧ r = -1 ∧ te' = te) ∨
    (handler.isSome ∧ 0 ≤ fd ∧ r = -1 ∧ te' = te.bump ∧
      (te.maxfds ≤ te.usedfds + 1 ∨ calloc = false ∨ (fd < te.maxfds ∧ ∀ i, (te.schedArray i).isSome))) ∨
    (handler.isSome ∧ te.InRange fd ∧ te.usedfds + 1 < te.maxfds ∧ calloc = true ∧
      ∃ i, te.schedArray i = none ∧ r = 0 ∧ te' = te.bump.setSlot i (some ⟨fd, handler, context⟩)) := by
  have hpos := te.maxfds_pos
  unfold tgxEventScheduleRegister at h
  split at h
  · rename_i harg
    obtain ⟨rfl, rfl⟩ := Prod.mk.inj (Option.some.inj h)
    exact .inl ⟨by simpa using harg, rfl, rfl⟩
  · rename_i harg
    have hsome : handler.isSome := by
      cases handler <;> simp_all
    have hfd : 0 ≤ fd := by
      simp only [not_or, not_lt] at harg
      exact harg.2
    split at h
    · rename_i hfull
      obtain ⟨rfl, rfl⟩ := Prod.mk.inj (Option.some.inj h)
      exact .inr (.inl ⟨hsome, hfd, rfl, rfl, .inl (by omega)⟩)
    · rename_i hfull
      split at h
      · rename_i hc
        obtain ⟨rfl, rfl⟩ := Prod.mk.inj (Option.some.inj h)
        exact .inr (.inl ⟨hsome, hfd, rfl, rfl, .inr (.inl hc)⟩)
      · rename_i hc
        obtain ⟨i, hi, hres⟩ := Option.map_eq_some_iff.mp h
        have hr : te.InRange fd := rawIndex_isSome_iff.mp (by simp [hi])
        have hroom : te.usedfds + 1 < te.maxfds := by omega
        have hc' : calloc = true := by simpa using hc
        split at hres
        · rename_i hfree
          obtain ⟨rfl, rfl⟩ := Prod.mk.inj hres
          exact .inr (.inr ⟨hsome, hr, hroom, hc', i, by simpa using hfree, rfl, rfl⟩)
        · cases hff : SlotTable.firstFree te.schedArray with
          | some j =>
            simp only [hff, Prod.mk.injEq] at hres
            obtain ⟨rfl, rfl⟩ := hres
            exact .inr (.inr ⟨hsome, hr, hroom, hc', j, SlotTable.firstFree_some hff, rfl, rfl⟩)
          | none =>
            simp only [hff, Prod.mk.injEq] at hres
            obtain ⟨rfl, rfl⟩ := hres
            exact .inr (.inl ⟨hsome, hfd, rfl, rfl,
              .inr (.inr ⟨hr.2, SlotTable.firstFree_none hff⟩)⟩)

theorem register_succeeds {handler : Option H} {context : Option C} (hh : handler.isSome)
    (hr : te.InRange fd) (hroom : te.usedfds + 1 < te.maxfds) {i : Fin te.maxfds}
    (hi : te.schedArray i = none) :
    ∃ te', tgxEventScheduleRegister te fd handler context true = some (0, te') := by
  have harg : ¬ (handler.isNone ∨ fd < 0) := by
    have := hr.1
    cases handler <;> simp_all
  have hfull : ¬ te.usedfds + 1 > te.maxfds - 1 := by omega
  obtain ⟨j, hj⟩ := Option.isSome_iff_exists.mp (SlotTable.firstFree_isSome_iff.mpr ⟨i, hi⟩)
  simp only [tgxEventScheduleRegister, harg, if_false, hfull, Bool.true_eq_false, rawIndex_eq hr,
    Option.map_some, hj]
  split
  · exact ⟨_, rfl⟩
  · exact ⟨_, rfl⟩

/-- What one removal does: nothing, or it clears the one slot the lookups see. -/
theorem unregister_cases {r : Int} {te' : TgxEvent H C}
    (h : tgxEventScheduleUnregister te fd = some (r, te')) :
    (r = -1 ∧ te' = te) ∨
    (te.InRange fd ∧ ∃ i s, te.schedArray i = some s ∧ s.fd = fd ∧ r = 0 ∧
      te' = { te.setSlot i none with usedfds := te.usedfds - 1 }) := by
  have hpos := te.maxfds_pos
  unfold tgxEventScheduleUnregister at h
  split at h
  · obtain ⟨rfl, rfl⟩ := Prod.mk.inj (Option.some.inj h)
    exact .inl ⟨rfl, rfl⟩
  split at h
  · obtain ⟨rfl, rfl⟩ := Prod.mk.inj (Option.some.inj h)
    exact .inl ⟨rfl, rfl⟩
  rename_i h0 hmax
  obtain ⟨found, hfound, hres⟩ := Option.map_eq_some_iff.mp h
  cases found with
  | none =>
    obtain ⟨rfl, rfl⟩ := Prod.mk.inj hres
    exact .inl ⟨rfl, rfl⟩
  | some i =>
    obtain ⟨rfl, rfl⟩ := Prod.mk.inj hres
    obtain ⟨s, hs, hfd⟩ := find_holds hfound
    exact .inr ⟨⟨by omega, by omega⟩, i, s, hs, hfd, rfl, rfl⟩

/-- What one `tgx_event_set_handler` does: nothing, or it replaces the handler of an entry. -/
theorem setHandler_cases {handler : Option H} {context : Option C} {r : Int} {te' : TgxEvent H C}
    (h : tgxEventSetHandler te fd handler context = some (r, te')) :
    (r = -1 ∧ te' = te) ∨
    (∃ i s, tgxFindScheduleIndex te fd = some (some i) ∧ te.schedArray i = some s ∧ s.fd = fd ∧
      s.handler.isSome ∧ r = (if context.isSome then -1 else 0) ∧
      te' = te.setSlot i (some { s with handler := handler })) := by
  obtain ⟨found, hfound, hres⟩ := Option.map_eq_some_iff.mp h
  cases found with
  | none =>
    obtain ⟨rfl, rfl⟩ := Prod.mk.inj hres
    exact .inl ⟨rfl, rfl⟩
  | some i =>
    obtain ⟨s, hs, hfd⟩ := find_holds hfound
    simp only [hs] at hres
    split at hres
    · rename_i hh
      split at hres <;> obtain ⟨rfl, rfl⟩ := Prod.mk.inj hres
      · rename_i hc
        exact .inr ⟨i, s, hfound, hs, hfd, hh, by simp [hc], rfl⟩
      · rename_i hc
        exact .inr ⟨i, s, hfound, hs, hfd, hh, by simp [hc], rfl⟩
    · obtain ⟨rfl, rfl⟩ := Prod.mk.inj hres
      exact .inl ⟨rfl, rfl⟩

private theorem setSlot_put {i : Fin te.maxfds} {s : Schedule H C} (hw : te.WellFormed)
    (hold : ∀ b, te.schedArray i = some b → b.fd = s.fd)
    (hnew : ∀ j b, j ≠ i → te.schedArray j = some b → b.fd ≠ s.fd) :
    (te.setSlot i (some s)).WellFormed ∧
      ∀ k, (te.setSlot i (some s)).lookup k = if k = s.fd then some s else te.lookup k :=
  ⟨SlotTable.Unique.put hw hnew, SlotTable.get_put hw hold hnew⟩

theorem register_spec {handler : Option H} {context : Option C} {calloc : Bool} {r : Int}
    {te' : TgxEvent H C} (hw : te.WellFormed) (hl : te.lookup fd = none)
    (h : tgxEventScheduleRegister te fd handler context calloc = some (r, te')) :
    te'.WellFormed ∧ te'.maxfds = te.maxfds ∧
      ((r = 0 ∧ te.InRange fd ∧ ∀ k, te'.lookup k = if k = fd then some ⟨fd, handler, context⟩ else te.lookup k) ∨
       (r = -1 ∧ ∀ k, te'.lookup k = te.lookup k)) := by
  rcases register_cases h with ⟨-, rfl, rfl⟩ | ⟨-, -, rfl, rfl, -⟩ | ⟨-, hr, -, -, i, hi, rfl, rfl⟩
  · exact ⟨hw, rfl, .inr ⟨rfl, fun _ => rfl⟩⟩
  · exact ⟨hw, rfl, .inr ⟨rfl, fun _ => rfl⟩⟩
  · have hw' : te.bump.WellFormed := hw
    have hput := setSlot_put (i := i) (s := ⟨fd, handler, context⟩) hw'
      (fun b hb => by simp [hi] at hb) (fun j b _ hb => SlotTable.get_eq_none_iff.mp hl j b hb)
    exact ⟨hput.1, rfl, .inl ⟨rfl, hr, hput.2⟩⟩

theorem unregister_spec {r : Int} {te' : TgxEvent H C} (hw : te.WellFormed) (hr : te.InRange fd)
    (h : tgxEventScheduleUnregister te fd = some (r, te')) :
    te'.WellFormed ∧ te'.maxfds = te.maxfds ∧ ∀ k, te'.lookup k = if k = fd then none else te.lookup k := by
  have h0 : ¬ fd < 0 := not_lt.mpr hr.1
  have hmax : ¬ (fd > te.maxfds - 1 ∨ fd < 0) := by
    have := hr.2
    omega
  unfold tgxEventScheduleUnregister at h
  rw [if_neg h0, if_neg hmax] at h
  cases hl : te.lookup fd with
  | none =>
    rw [find_isNone hw hr hl] at h
    obtain ⟨rfl, rfl⟩ := Prod.mk.inj (Option.some.inj h)
    refine ⟨hw, rfl, fun k => ?_⟩
    split
    · rename_i hk
      rw [hk, hl]
    · rfl
  | some s =>
    obtain ⟨i, hi, hs⟩ := find_isSome hw hr hl
    rw [hi] at h
    obtain ⟨rfl, rfl⟩ := Prod.mk.inj (Option.some.inj h)
    have hclear := SlotTable.get_clear hw hs
    rw [lookup_fd hl] at hclear
    exact ⟨SlotTable.Unique.clear hw i, rfl, hclear⟩

/-- In range the removal is always defined. -/
theorem unregister_defined (hw : te.WellFormed) (hr : te.InRange fd) :
    ∃ r te', tgxEventScheduleUnregister te fd = some (r, te') := by
  have h0 : ¬ fd < 0 := not_lt.mpr hr.1
  have hmax : ¬ (fd > te.maxfds - 1 ∨ fd < 0) := by
    have := hr.2
    omega
  unfold tgxEventScheduleUnregister
  rw [if_neg h0, if_neg hmax, find_spec hw hr]
  cases SlotTable.find Schedule.fd te.schedArray fd with
  | none => exact ⟨_, _, rfl⟩
  | some i => exact ⟨_, _, rfl⟩

theorem setHandler_spec {handler : Option H} {context : Option C} {r : Int} {te' : TgxEvent H C}
    (hw : te.WellFormed) (h : tgxEventSetHandler te fd handler context = some (r, te')) :
    te'.WellFormed ∧ te'.maxfds = te.maxfds ∧
      ((te' = te ∧ r = -1) ∨
       ∃ s, te.lookup fd = some s ∧ s.handler.isSome ∧ r = (if context.isSome then -1 else 0) ∧
        ∀ k, te'.lookup k = if k = fd then some { s with handler := handler } else te.lookup k) := by
  rcases setHandler_cases h with ⟨rfl, rfl⟩ | ⟨i, s, -, hs, hfd, hh, rfl, rfl⟩
  · exact ⟨hw, rfl, .inl ⟨rfl, rfl⟩⟩
  · have hput := setSlot_put (i := i) (s := { s with handler := handler }) hw
      (fun b hb => by rw [hs] at hb; rw [← Option.some.inj hb])
      (fun j b hj hb hk => hj (hw j i b s hb hs hk))
    refine ⟨hput.1, rfl, .inr ⟨s, ?_, hh, rfl, ?_⟩⟩
    · exact (SlotTable.get_eq_some_iff hw).mpr ⟨i, hs, hfd⟩
    · simpa only [hfd] using hput.2

/-- On a descriptor that the lookups find, the handler is replaced. -/
theorem setHandler_registered {handler : Option H} {s : Schedule H C} (hw : te.WellFormed)
    (hr : te.InRange fd) (hl : te.lookup fd = some s) (hh : s.handler.isSome) :
    ∃ te', tgxEventSetHandler te fd handler none = some (0, te') := by
  obtain ⟨i, hi, hs⟩ := find_isSome hw hr hl
  exact ⟨te.setSlot i (some { s with handler := handler }), by simp [tgxEventSetHandler, hi, hs, hh]⟩

end TgxEvent
end TinyosGraphics.Event
