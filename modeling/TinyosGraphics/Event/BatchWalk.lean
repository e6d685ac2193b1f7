import TinyosGraphics.Event.LinuxEpoll

/-! One turn of the event loop of `main`: a poll and the walk over the batch it left.
Handlers and workers may do anything to the schedule table meanwhile. -/
namespace TinyosGraphics.Event
open Lib TgxEvent

variable {H C : Type}

namespace TgxEvent

/-- The part of the event system that handlers and workers write. -/
abbrev Table (te : TgxEvent H C) := SlotTable.Slots te.maxfds (Schedule H C) × Nat

def withTable (te : TgxEvent H C) (t : te.Table) : TgxEvent H C :=
  { te with schedArray := t.1, usedfds := t.2 }

/-- The entry of `epoll_events` at 0. -/
def first (te : TgxEvent H C) : EpollEvent :=
  te.epollEvents ⟨0, te.maxfds_pos⟩

end TgxEvent

inductive Gap
  | beforeHandler
  | beforeContext

/-- What everything but the loop itself does during the walk. -/
structure Meanwhile (H C : Type) where
  workers : Nat → Gap → (te : TgxEvent H C) → te.Table
  handler : Nat → H → Option C → UInt32 → (te : TgxEvent H C) → Int × te.Table
  /-- what a read outside an array yields -/
  outside : Nat → Option H × Option C × UInt32

/-- What the loop looks up in the batch in one iteration. -/
structure Visit where
  index : Int
  fd : Option Int
  event : Option UInt32
  deriving DecidableEq

/-- The body of the inner `for`; the result carries the next value of `index`. -/
def iteration (m : Meanwhile H C) (i : Nat) (te : TgxEvent H C) (index : Int) :
    Visit × Int × TgxEvent H C :=
  let index := tgxEventGetNextIndex te index
  let fd := tgxEventGetFd te index
  let te := te.withTable (m.workers i .beforeHandler te)
  let handler := (fd.bind (tgxEventGetHandler te)).getD (m.outside i).1
  let te := te.withTable (m.workers i .beforeContext te)
  let context := (fd.bind (tgxEventGetContext te)).getD (m.outside i).2.1
  let event := tgxEventGetEvent te index
  match handler with
  | none => (⟨index, fd, event⟩, index, te)
  | some handler =>
    -- a negative result is only logged
    let (_, table) := m.handler i handler context (event.getD (m.outside i).2.2) te
    (⟨index, fd, event⟩, index, te.withTable table)

/-- The inner `for`, `left` iterations before its end. -/
def walk (m : Meanwhile H C) : Nat → Nat → TgxEvent H C → Int → List Visit × TgxEvent H C
  | 0, _, te, _ => ([], te)
  | left + 1, i, te, index =>
    let (visit, index, te) := iteration m i te index
    let (visits, te) := walk m left (i + 1) te index
    (visit :: visits, te)

/-- The body of `while (running)`. -/
def loopTurn (m : Meanwhile H C) (te : TgxEvent H C) (wait : Option (List EpollEvent)) :
    List Visit × TgxEvent H C :=
  let (nEvent, te) := tgxEventPoll te wait
  if nEvent = -1 then ([], te) else walk m nEvent.toNat 0 te (-1)

/-- The entries of the batch are looked up in order, each once. -/
def ExaminesBatch (visits : List Visit) (batch : List EpollEvent) : Prop :=
  visits.map Visit.index = (List.range batch.length).map (fun i : Nat => (i : Int)) ∧
  visits.map (fun v => (v.fd, v.event)) = batch.map fun e => (some e.fd, some (fromEpoll e.events))

def firstVisit (te : TgxEvent H C) : Visit :=
  ⟨0, some te.first.fd, some (fromEpoll te.first.events)⟩

variable {te : TgxEvent H C}

private theorem iteration_first (m : Meanwhile H C) (i : Nat) (h : te.Started) (index : Int) :
    (iteration m i te index).1 = firstVisit te ∧ (iteration m i te index).2.2.Started ∧
      firstVisit (iteration m i te index).2.2 = firstVisit te := by
  have hfd : tgxEventGetFd te 0 = some te.first.fd := getFd_spec h ⟨0, te.maxfds_pos⟩
  have hevent : ∀ t t', tgxEventGetEvent ((te.withTable t).withTable t') 0 =
      some (fromEpoll te.first.events) := fun t t' => by
    have hstarted : ((te.withTable t).withTable t').Started := ⟨h.engine, h.epollFd⟩
    exact getEvent_spec hstarted ⟨0, te.maxfds_pos⟩
  unfold iteration
  simp only [getNextIndex_zero h, hfd, hevent]
  split
  · exact ⟨rfl, ⟨h.engine, h.epollFd⟩, rfl⟩
  · exact ⟨rfl, ⟨h.engine, h.epollFd⟩, rfl⟩

private theorem walk_first (m : Meanwhile H C) (left i : Nat) (h : te.Started) (index : Int) :
    (walk m left i te index).1 = List.replicate left (firstVisit te) := by
  induction left generalizing i te index with
  | zero => rfl
  | succ left ih =>
    obtain ⟨hvisit, hstarted, hsame⟩ := iteration_first m i h index
    have hrest := ih (i + 1) hstarted (iteration m i te index).2.1
    simp only [walk, List.replicate_succ, List.cons.injEq]
    exact ⟨hvisit, hsame ▸ hrest⟩

/-- The walk of a batch looks up its first entry as often as the batch has entries. -/
private theorem loopTurn_visits (m : Meanwhile H C) (h : te.Started) {e : EpollEvent} {batch : List EpollEvent}
    (hb : (e :: batch).length ≤ te.maxfds) :
    (loopTurn m te (some (e :: batch))).1 =
      List.replicate (batch.length + 1) ⟨0, some e.fd, some (fromEpoll e.events)⟩ := by
  have hn : ((batch.length + 1 : Nat) : Int) ≠ -1 := by omega
  simp only [loopTurn, poll_spec h hb, List.length_cons, hn, if_false, Int.toNat_natCast]
  rw [walk_first]
  · rfl
  · exact ⟨h.engine, h.epollFd⟩

/-- The loop examines exactly the entries of a batch, in order and once each, if and only if the
batch has at most one entry. -/
theorem loop_examines_iff (m : Meanwhile H C) (h : te.Started) {batch : List EpollEvent}
    (hb : batch.length ≤ te.maxfds) :
    ExaminesBatch (loopTurn m te (some batch)).1 batch ↔ batch.length ≤ 1 := by
  cases batch with
  | nil => simp [ExaminesBatch, loopTurn, poll_spec h hb, walk]
  | cons e rest =>
    rw [ExaminesBatch, loopTurn_visits m h hb]
    constructor
    · rintro ⟨hindex, -⟩
      by_contra hlen
      simp only [List.length_cons, not_le] at hlen
      have hsecond := congrArg (fun l : List Int => l[1]?) hindex
      have hlt : 1 < rest.length + 1 := by omega
      simp [hlt] at hsecond
    · intro hlen
      obtain rfl : rest = [] := by
        simpa using hlen
      exact ⟨rfl, rfl⟩

def Meanwhile.quiet : Meanwhile H C where
  workers _ _ te := (te.schedArray, te.usedfds)
  handler _ _ _ _ te := (0, te.schedArray, te.usedfds)
  outside _ := (none, none, 0)

theorem loop_examines_one :
    ExaminesBatch (loopTurn .quiet (tgxEventInit 8 3 : TgxEvent Unit Unit) (some [⟨EPOLLIN, 5⟩])).1
      [⟨EPOLLIN, 5⟩] :=
  (loop_examines_iff .quiet ⟨rfl, by decide⟩ (by decide)).mpr (by decide)

/-- Two clients are ready in one poll: the first is dispatched twice, the second never. -/
theorem second_entry_skipped :
    ¬ ∀ (te : TgxEvent Unit Unit) (m : Meanwhile Unit Unit) (batch : List EpollEvent), te.Started →
      batch.length ≤ te.maxfds → ExaminesBatch (loopTurn m te (some batch)).1 batch := by
  intro h
  have hall := (h (tgxEventInit 8 3) .quiet [⟨EPOLLIN, 5⟩, ⟨EPOLLIN, 6⟩] ⟨rfl, by decide⟩ (by decide)).2
  revert hall
  decide

end TinyosGraphics.Event
