import TinyosGraphics.Event.Schedule
import TinyosGraphics.Lib.Transition

/-! Descriptors through accept, registration, handler changes, removal, close and reuse.
What a descriptor is at each moment is an abstract map; the lookups of the table return exactly it. -/
namespace TinyosGraphics.Event
open Lib TgxEvent

variable {H C : Type}

/-- What a descriptor number currently is. -/
inductive FdStatus (H C : Type)
  | closed
  /-- open, but nothing the table knows: a file, or an accepted client that was given up -/
  | other
  /-- returned by `accept`, not yet registered -/
  | accepted
  | registered (handler : Option H) (context : Option C)
  /-- unregistered by `tgx_close_connection`, its `close(fd)` still to come -/
  | closing

structure Fds (H C : Type) where
  te : TgxEvent H C
  status : Int → FdStatus H C

namespace Fds

def setStatus (s : Fds H C) (te : TgxEvent H C) (fd : Int) (st : FdStatus H C) : Fds H C :=
  ⟨te, Function.update s.status fd st⟩

/-- The calls that concern descriptors, in the order any interleaving makes them. -/
inductive Label (H C : Type)
  | accept (fd : Int)
  | register (fd : Int) (handler : H) (context : C) (calloc : Bool)
  /-- `tgx_acception_handler` returns before it registers; `closes` on the one path that closes the client -/
  | giveUp (fd : Int) (closes : Bool)
  | setHandler (fd : Int) (handler : Option H)
  /-- the first half of `tgx_close_connection` -/
  | unregister (fd : Int)
  /-- its second half, in `tgx_free_connection` -/
  | close (fd : Int)
  | openOther (fd : Int)
  | closeOther (fd : Int)

def Label.fd : Label H C → Int
  | .accept fd | .register fd _ _ _ | .giveUp fd _ | .setHandler fd _ | .unregister fd
  | .close fd | .openOther fd | .closeOther fd => fd

def step (s : Fds H C) : Label H C → Option (Fds H C)
  | .accept fd =>
    match s.status fd with
    | .closed => if 0 ≤ fd ∧ fd < s.te.maxfds then some (s.setStatus s.te fd .accepted) else none
    | _ => none
  | .register fd handler context calloc =>
    match s.status fd with
    | .accepted =>
      (tgxEventScheduleRegister s.te fd (some handler) (some context) calloc).map fun (r, te) =>
        s.setStatus te fd (if r = 0 then .registered (some handler) (some context) else .other)
    | _ => none
  | .giveUp fd closes =>
    match s.status fd with
    | .accepted => some (s.setStatus s.te fd (if closes then .closed else .other))
    | _ => none
  | .setHandler fd handler =>
    (tgxEventSetHandler s.te fd handler none).map fun (r, te) =>
      match s.status fd with
      | .registered old context =>
        s.setStatus te fd (.registered (if r = 0 then handler else old) context)
      | _ => ⟨te, s.status⟩
  | .unregister fd =>
    match s.status fd with
    | .registered _ (some _) =>
      (tgxEventScheduleUnregister s.te fd).map fun (_, te) => s.setStatus te fd .closing
    | _ => none
  | .close fd =>
    match s.status fd with
    -- tgx_free_connection closes only descriptors above 0
    | .closing => some (s.setStatus s.te fd (if 0 < fd then .closed else .other))
    | _ => none
  | .openOther fd =>
    match s.status fd with
    | .closed => some (s.setStatus s.te fd .other)
    | _ => none
  | .closeOther fd =>
    match s.status fd with
    | .other => some (s.setStatus s.te fd .closed)
    | _ => none

/-- `main` has initialised the event system and registered the listening descriptor. -/
def system (H C : Type) : Transition (Fds H C) (Label H C) where
  init s := ∃ maxfds epollFd listenFd acception,
    tgxEventScheduleRegister (tgxEventInit maxfds epollFd) listenFd (some acception) none true =
      some (0, s.te) ∧
    s.status listenFd = .registered (some acception) none ∧
    ∀ fd, fd ≠ listenFd → s.status fd = .closed ∨ s.status fd = .other
  step := step

end Fds

namespace FdStatus

def entry (fd : Int) : FdStatus H C → Option (Schedule H C)
  | .registered handler context => some ⟨fd, handler, context⟩
  | _ => none

def handler : FdStatus H C → Option H
  | .registered handler _ => handler
  | _ => none

def context : FdStatus H C → Option C
  | .registered _ context => context
  | _ => none

private theorem entry_handler (fd : Int) (st : FdStatus H C) : (st.entry fd).bind Schedule.handler = st.handler := by
  cases st <;> rfl

private theorem entry_context (fd : Int) (st : FdStatus H C) : (st.entry fd).bind Schedule.context = st.context := by
  cases st <;> rfl

end FdStatus

namespace Fds

/-- The table represents the abstract map. -/
structure Represents (s : Fds H C) : Prop where
  unique : s.te.WellFormed
  lookup : ∀ fd, s.te.lookup fd = (s.status fd).entry fd
  /-- only descriptors inside the table are on the way into it or out of it -/
  inRange : ∀ fd, s.te.InRange fd ∨ s.status fd = .closed ∨ s.status fd = .other

theorem Represents.update {s : Fds H C} (h : s.Represents) {te : TgxEvent H C} {fd : Int}
    {st : FdStatus H C} (hw : te.WellFormed) (hm : te.maxfds = s.te.maxfds)
    (hl : ∀ k, te.lookup k = if k = fd then st.entry fd else s.te.lookup k)
    (hr : s.te.InRange fd ∨ st = .closed ∨ st = .other) : (s.setStatus te fd st).Represents := by
  refine ⟨hw, fun k => ?_, fun k => ?_⟩
  · rcases eq_or_ne k fd with rfl | hk
    · simp [setStatus, hl]
    · simp [setStatus, hl, hk, h.lookup]
  · have hrange : ∀ k, te.InRange k ↔ s.te.InRange k := fun k => by simp [TgxEvent.InRange, hm]
    rcases eq_or_ne k fd with rfl | hk
    · simpa [setStatus, hrange] using hr
    · simpa [setStatus, hrange, hk] using h.inRange k

/-- A descriptor whose new status has no entry needs no change of the table, if it had none. -/
private theorem Represents.relabel {s : Fds H C} (h : s.Represents) {fd : Int} {st : FdStatus H C}
    (hold : (s.status fd).entry fd = none) (hnew : st.entry fd = none)
    (hr : s.te.InRange fd ∨ st = .closed ∨ st = .other) : (s.setStatus s.te fd st).Represents := by
  refine h.update h.unique rfl (fun k => ?_) hr
  split
  · rename_i hk
    rw [hk, hnew, h.lookup, hold]
  · rfl

private theorem represents_of_init {s : Fds H C} (h : (system H C).init s) : s.Represents := by
  obtain ⟨maxfds, epollFd, listenFd, acception, hreg, hlisten, hrest⟩ := h
  obtain ⟨hw', hm, ⟨-, hr, hl⟩ | ⟨hneg, -⟩⟩ :=
    register_spec (wellFormed_init maxfds epollFd) (lookup_init maxfds epollFd listenFd) hreg
  · refine ⟨hw', fun k => ?_, fun k => ?_⟩
    · rw [hl, lookup_init]
      split
      · rename_i hk
        rw [hk, hlisten]
        rfl
      · rename_i hk
        rcases hrest k hk with hs | hs <;> rw [hs] <;> rfl
    · by_cases hk : k = listenFd
      · rw [hk]
        exact .inl (by simpa [TgxEvent.InRange, hm] using hr)
      · exact .inr (hrest k hk)
  · cases hneg

/-- One step changes the table and the map at the same descriptor, in the same way. -/
private theorem step_represents {s s' : Fds H C} {l : Label H C} (h : s.Represents)
    (hstep : s.step l = some s') :
    s'.Represents ∧ s'.te.maxfds = s.te.maxfds ∧ ∀ fd, fd ≠ l.fd → s'.status fd = s.status fd := by
  have hother : ∀ te st, ∀ k, k ≠ l.fd → (s.setStatus te l.fd st).status k = s.status k :=
    fun te st k hk => by simp [setStatus, hk]
  cases l with
  | accept fd =>
    simp only [step] at hstep
    split at hstep <;> try cases hstep
    rename_i hs
    split at hstep <;> cases hstep
    rename_i hr
    exact ⟨h.relabel (by simp [hs, FdStatus.entry]) rfl (.inl hr), rfl, hother _ _⟩
  | register fd handler context calloc =>
    simp only [step] at hstep
    split at hstep <;> try cases hstep
    rename_i hs
    obtain ⟨⟨r, te⟩, hreg, rfl⟩ := Option.map_eq_some_iff.mp hstep
    have hnone : s.te.lookup fd = none := by simp [h.lookup, hs, FdStatus.entry]
    obtain ⟨hw, hm, ⟨rfl, hr, hl⟩ | ⟨rfl, hl⟩⟩ := register_spec h.unique hnone hreg
    · exact ⟨h.update hw hm (by simpa [FdStatus.entry] using hl) (.inl hr), hm, hother _ _⟩
    · refine ⟨h.update hw hm (fun k => ?_) (.inr (.inr rfl)), hm, hother _ _⟩
      split
      · rename_i hk
        rw [hl, hk, hnone]
        rfl
      · exact hl k
  | giveUp fd closes =>
    simp only [step] at hstep
    split at hstep <;> cases hstep
    rename_i hs
    refine ⟨h.relabel (by simp [hs, FdStatus.entry]) ?_ ?_, rfl, hother _ _⟩
    · cases closes <;> rfl
    · cases closes <;> simp
  | setHandler fd handler =>
    obtain ⟨⟨r, te⟩, hset, rfl⟩ := Option.map_eq_some_iff.mp hstep
    obtain ⟨hw, hm, ⟨rfl, rfl⟩ | ⟨e, he, -, rfl, hl⟩⟩ := setHandler_spec h.unique hset
    · cases hs : s.status fd with
      | registered old context =>
        refine ⟨h.update hw hm (fun k => ?_) ?_, rfl, hother _ _⟩
        · split
          · rename_i hk
            simp [hk, h.lookup, hs]
          · rfl
        · simpa [hs] using h.inRange fd
      | _ => exact ⟨h, rfl, fun _ _ => rfl⟩
    · cases hs : s.status fd with
      | registered old context =>
        rw [h.lookup, hs, FdStatus.entry, Option.some.injEq] at he
        refine ⟨h.update hw hm (fun k => ?_) ?_, hm, hother _ _⟩
        · simpa [FdStatus.entry, ← he] using hl k
        · simpa [hs] using h.inRange fd
      | _ => simp [h.lookup, hs, FdStatus.entry] at he
  | unregister fd =>
    simp only [step] at hstep
    split at hstep <;> try cases hstep
    rename_i hs
    obtain ⟨⟨r, te⟩, hun, rfl⟩ := Option.map_eq_some_iff.mp hstep
    have hr : s.te.InRange fd := by simpa [hs] using h.inRange fd
    obtain ⟨hw, hm, hl⟩ := unregister_spec h.unique hr hun
    exact ⟨h.update hw hm hl (.inl hr), hm, hother _ _⟩
  | close fd =>
    simp only [step] at hstep
    split at hstep <;> cases hstep
    rename_i hs
    refine ⟨h.relabel (by simp [hs, FdStatus.entry]) ?_ ?_, rfl, hother _ _⟩
    · split <;> rfl
    · split <;> simp
  | openOther fd =>
    simp only [step] at hstep
    split at hstep <;> cases hstep
    rename_i hs
    exact ⟨h.relabel (by simp [hs, FdStatus.entry]) rfl (by simp), rfl, hother _ _⟩
  | closeOther fd =>
    simp only [step] at hstep
    split at hstep <;> cases hstep
    rename_i hs
    exact ⟨h.relabel (by simp [hs, FdStatus.entry]) rfl (by simp), rfl, hother _ _⟩

private theorem represents_of_reachable {s : Fds H C} (h : (system H C).Reachable (fun _ _ => True) s) :
    s.Represents :=
  h.invariant (fun _ hi => represents_of_init hi) fun _ _ _ hr _ hs => (step_represents hr hs).1

private theorem Represents.getHandler {s : Fds H C} (h : s.Represents) {fd : Int} (hr : s.te.InRange fd) :
    tgxEventGetHandler s.te fd = some (s.status fd).handler := by
  rw [getHandler_spec h.unique hr, h.lookup, FdStatus.entry_handler]

theorem Represents.getContext {s : Fds H C} (h : s.Represents) {fd : Int} (hr : s.te.InRange fd) :
    tgxEventGetContext s.te fd = some (s.status fd).context := by
  rw [getContext_spec h.unique hr, h.lookup, FdStatus.entry_context]

private theorem Represents.inRange_registered {s : Fds H C} (h : s.Represents) {fd : Int} {old : Option H}
    {context : Option C} (hs : s.status fd = .registered old context) : s.te.InRange fd := by
  simpa [hs] using h.inRange fd

/-- A handler that is there is replaced, and the next lookup finds the new one. -/
theorem Represents.setHandler {s : Fds H C} (h : s.Represents) {fd : Int} {old : H} {context : Option C}
    (hs : s.status fd = .registered (some old) context) (handler : Option H) :
    ∃ te, tgxEventSetHandler s.te fd handler none = some (0, te) ∧ tgxEventGetHandler te fd = some handler := by
  have hr := h.inRange_registered hs
  have hentry : s.te.lookup fd = some ⟨fd, some old, context⟩ := by rw [h.lookup, hs, FdStatus.entry]
  have hdefined : ∃ te, tgxEventSetHandler s.te fd handler none = some (0, te) :=
    setHandler_registered h.unique hr hentry rfl
  obtain ⟨te, hset⟩ := hdefined
  obtain ⟨hw, hm, ⟨-, hneg⟩ | ⟨e, -, -, -, hl⟩⟩ := setHandler_spec h.unique hset
  · cases hneg
  · have hr' : te.InRange fd := by simpa [TgxEvent.InRange, hm] using hr
    exact ⟨te, hset, by rw [getHandler_spec hw hr', hl, if_pos rfl]; rfl⟩

/-- In every state any interleaving reaches, no descriptor has two entries; every lookup inside the
table returns what the map of the descriptors' owners says, which is the handler last set and the
context registered for a registered descriptor and null for every other; no operation on one
descriptor changes the lookups of another; and the handler of a registered descriptor can be set: the
call returns 0, and the lookup then finds the handler it was given. -/
theorem table_is_finite_map {s : Fds H C} (h : (system H C).Reachable (fun _ _ => True) s) :
    (∀ i j a b, s.te.schedArray i = some a → s.te.schedArray j = some b → a.fd = b.fd → i = j) ∧
    (∀ fd, s.te.InRange fd →
      tgxEventGetHandler s.te fd = some (s.status fd).handler ∧
      tgxEventGetContext s.te fd = some (s.status fd).context) ∧
    (∀ l s', (system H C).step s l = some s' → ∀ fd, fd ≠ l.fd → s.te.InRange fd →
      tgxEventGetHandler s'.te fd = tgxEventGetHandler s.te fd ∧
      tgxEventGetContext s'.te fd = tgxEventGetContext s.te fd) ∧
    ∀ fd old context handler, s.status fd = .registered (some old) context →
      ∃ te, tgxEventSetHandler s.te fd handler none = some (0, te) ∧
        tgxEventGetHandler te fd = some handler := by
  have hrep := represents_of_reachable h
  refine ⟨hrep.unique, fun fd hr => ⟨hrep.getHandler hr, hrep.getContext hr⟩, ?_,
    fun fd old context handler hs => hrep.setHandler hs handler⟩
  intro l s' hs fd hne hr
  obtain ⟨hrep', hm, hsame⟩ := step_represents hrep hs
  have hr' : s'.te.InRange fd := by simpa [TgxEvent.InRange, hm] using hr
  rw [hrep'.getHandler hr', hrep'.getContext hr', hrep.getHandler hr, hrep.getContext hr, hsame fd hne]
  exact ⟨rfl, rfl⟩

/-- `main` listening on descriptor 3 with a table of 6; descriptors 0 to 2 are the standard streams. -/
def listening : Fds Nat Nat where
  te := (tgxEventInit 6 4).bump.setSlot ⟨3, by decide⟩ (some ⟨3, some 0, none⟩)
  status fd := if fd = 3 then .registered (some 0) none else if 0 ≤ fd ∧ fd < 3 then .other else .closed

private theorem listening_init : (system Nat Nat).init listening :=
  ⟨6, 4, 3, 0, rfl, rfl, fun fd hfd => by
    simp only [listening, hfd, if_false]
    split
    · exact .inr rfl
    · exact .inl rfl⟩

def reuse : List (Label Nat Nat) :=
  [.accept 4, .register 4 10 100 true, .setHandler 4 (some 11), .unregister 4, .close 4,
    .accept 4, .register 4 12 101 true]

theorem table_is_finite_map_reuse :
    ∃ s, (system Nat Nat).replay listening reuse = some s ∧
      tgxEventGetHandler s.te 4 = some (some 12) ∧ tgxEventGetContext s.te 4 = some (some 101) ∧
      tgxEventGetHandler s.te 5 = some none := by
  obtain ⟨s, hs⟩ := Option.isSome_iff_exists.mp (show ((system Nat Nat).replay listening reuse).isSome from rfl)
  have hstatus : s.te.maxfds = 6 ∧ (s.status 4).handler = some 12 ∧ (s.status 4).context = some 101 ∧
      (s.status 5).handler = none := by
    obtain rfl := Option.some.inj hs
    exact ⟨rfl, rfl, rfl, rfl⟩
  have hall := (table_is_finite_map (Transition.Reachable.of_replay listening_init reuse hs)).2.1
  have h4 := hall 4 (by simp [TgxEvent.InRange, hstatus.1])
  have h5 := hall 5 (by simp [TgxEvent.InRange, hstatus.1])
  exact ⟨s, hs, h4.1.trans (by rw [hstatus.2.1]), h4.2.trans (by rw [hstatus.2.2.1]),
    h5.1.trans (by rw [hstatus.2.2.2])⟩

end Fds
end TinyosGraphics.Event
