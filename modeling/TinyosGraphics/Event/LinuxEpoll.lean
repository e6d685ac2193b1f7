import TinyosGraphics.Event.Schedule
import Mathlib.Data.List.Basic

/-! The epoll engine of `tgx_linux_epoll.c` and the calls of `tgx_event.c` that go through it.
A system call's outcome is an argument; `none` is an access of `epoll_events` outside the array. -/
namespace TinyosGraphics.Event

variable {H C : Type}

def TGX_BITSET (x : UInt32) : UInt32 := 1 <<< x

def TGX_EVENT_IN : UInt32 := TGX_BITSET 0
def TGX_EVENT_OUT : UInt32 := TGX_BITSET 1
def TGX_EVENT_ERR : UInt32 := TGX_BITSET 2
def TGX_EVENT_HUP : UInt32 := TGX_BITSET 3
def TGX_EVENT_PRI : UInt32 := TGX_BITSET 4
def TGX_EVENT_RDHUP : UInt32 := TGX_BITSET 5

def EPOLLIN : UInt32 := 0x001
def EPOLLPRI : UInt32 := 0x002
def EPOLLOUT : UInt32 := 0x004
def EPOLLERR : UInt32 := 0x008
def EPOLLHUP : UInt32 := 0x010
def EPOLLRDHUP : UInt32 := 0x2000

/-- `event & flag` as a condition. -/
def hasFlag (event flag : UInt32) : Bool :=
  event &&& flag != 0

/-- `TGX_EVENT_CTL_ADD`, `_MOD` and `_DEL`, which are also the operations of `epoll_ctl`. -/
inductive CtlOp
  | ADD
  | MOD
  | DEL
  deriving DecidableEq

/-- The translation loop of `tgx_linux_epoll_get_event`. -/
def fromEpoll (event : UInt32) : UInt32 :=
  (if hasFlag event EPOLLIN then TGX_EVENT_IN else 0) |||
  (if hasFlag event EPOLLOUT then TGX_EVENT_OUT else 0) |||
  (if hasFlag event EPOLLERR then TGX_EVENT_ERR else 0) |||
  (if hasFlag event EPOLLHUP then TGX_EVENT_HUP else 0) |||
  (if hasFlag event EPOLLPRI then TGX_EVENT_PRI else 0) |||
  (if hasFlag event EPOLLRDHUP then TGX_EVENT_RDHUP else 0)

/-- The event set that `tgx_linux_epoll_ctl` hands to the kernel, level triggered. -/
def toEpoll (eventFlag : UInt32) : UInt32 :=
  (if hasFlag eventFlag TGX_EVENT_IN then EPOLLIN else 0) |||
  (if hasFlag eventFlag TGX_EVENT_OUT then EPOLLOUT else 0)

/-- `tgx_linux_epoll_ctl`; `kernel` is what `epoll_ctl` returns. -/
def tgxLinuxEpollCtl (te : TgxEvent H C) (op : CtlOp) (fd : Int) (eventFlag : UInt32)
    (kernel : CtlOp → Int → UInt32 → Int) : Int :=
  if te.epollFd < 0 then -1
  else if kernel op fd (toEpoll eventFlag) < 0 then -1
  else 0

/-- `tgx_linux_epoll_get_event`. The result is a set of flags, `-1` having all of them. -/
def tgxLinuxEpollGetEvent (te : TgxEvent H C) (index : Int) : Option UInt32 :=
  if te.epollFd < 0 then some (-1)
  else (rawIndex te.maxfds index).map fun i => fromEpoll (te.epollEvents i).events

def tgxLinuxEpollGetFd (te : TgxEvent H C) (index : Int) : Option Int :=
  let index := if index < 0 then 0 else index
  if te.epollFd < 0 then some (-1)
  else (rawIndex te.maxfds index).map fun i => (te.epollEvents i).fd

/-- `tgx_linux_epoll_get_next_index`. The body is one assignment, and C reads its right side as
`(-1) ? 0 : index + 1`. -/
def tgxLinuxEpollGetNextIndex (index : Int) : Int :=
  if (-1 : Int) ≠ 0 then 0 else index + 1

/-- `tgx_linux_epoll_poll`; `wait` is the batch that `epoll_wait` reports, at most `maxfds` entries,
or `none` when it returns -1. -/
def tgxLinuxEpollPoll (te : TgxEvent H C) (wait : Option (List EpollEvent)) : Int × TgxEvent H C :=
  match wait with
  | none => (-1, te)
  | some batch =>
    let ready := batch.take te.maxfds
    (ready.length, { te with epollEvents := fun i => ready.getD i (te.epollEvents i) })

def tgxEventPoll (te : TgxEvent H C) (wait : Option (List EpollEvent)) : Int × TgxEvent H C :=
  match te.engine with
  | some .linuxEpoll => tgxLinuxEpollPoll te wait
  | none => (-1, te)

def tgxEventCtl (te : TgxEvent H C) (op : CtlOp) (fd : Int) (event : UInt32)
    (kernel : CtlOp → Int → UInt32 → Int) : Int :=
  if fd < 0 then -1
  else
    match te.engine with
    | some .linuxEpoll => tgxLinuxEpollCtl te op fd event kernel
    | none => -1

def tgxEventGetFd (te : TgxEvent H C) (index : Int) : Option Int :=
  if index < 0 then some (-1)
  else
    match te.engine with
    | some .linuxEpoll => tgxLinuxEpollGetFd te index
    | none => some (-1)

def tgxEventGetEvent (te : TgxEvent H C) (index : Int) : Option UInt32 :=
  match te.engine with
  | some .linuxEpoll => tgxLinuxEpollGetEvent te index
  | none => some (-1)

def tgxEventGetNextIndex (te : TgxEvent H C) (index : Int) : Int :=
  match te.engine with
  | some .linuxEpoll => tgxLinuxEpollGetNextIndex index
  | none => -1

namespace TgxEvent

/-- `tgx_event_init` has finished: an engine is set and epoll has given a descriptor. -/
structure Started (te : TgxEvent H C) : Prop where
  engine : te.engine = some .linuxEpoll
  epollFd : 0 ≤ te.epollFd

variable {te : TgxEvent H C}

theorem Started.setHandler (h : te.Started) {fd : Int} {handler : Option H} {context : Option C} {r : Int}
    {te' : TgxEvent H C} (hset : tgxEventSetHandler te fd handler context = some (r, te')) :
    te'.Started := by
  rcases setHandler_cases hset with ⟨-, rfl⟩ | ⟨i, s, -, -, -, -, -, rfl⟩
  · exact h
  · exact ⟨h.engine, h.epollFd⟩

theorem Started.register (h : te.Started) {fd : Int} {handler : Option H} {context : Option C}
    {calloc : Bool} {r : Int} {te' : TgxEvent H C}
    (hreg : tgxEventScheduleRegister te fd handler context calloc = some (r, te')) : te'.Started := by
  rcases register_cases hreg with ⟨-, -, rfl⟩ | ⟨-, -, -, rfl, -⟩ | ⟨-, -, -, -, i, -, -, rfl⟩
  · exact h
  · exact ⟨h.engine, h.epollFd⟩
  · exact ⟨h.engine, h.epollFd⟩

theorem Started.unregister (h : te.Started) {fd r : Int} {te' : TgxEvent H C}
    (hun : tgxEventScheduleUnregister te fd = some (r, te')) : te'.Started := by
  rcases unregister_cases hun with ⟨-, rfl⟩ | ⟨-, i, s, -, -, -, rfl⟩
  · exact h
  · exact ⟨h.engine, h.epollFd⟩

theorem getNextIndex_zero (h : te.Started) (index : Int) : tgxEventGetNextIndex te index = 0 := by
  simp [tgxEventGetNextIndex, h.engine, tgxLinuxEpollGetNextIndex]

theorem getFd_spec (h : te.Started) (i : Fin te.maxfds) :
    tgxEventGetFd te (i : Nat) = some (te.epollEvents i).fd := by
  have hfd : ¬ te.epollFd < 0 := not_lt.mpr h.epollFd
  have hi : rawIndex te.maxfds (i : Nat) = some i := by
    rw [rawIndex_eq ⟨by omega, by omega⟩]
    simp
  have hneg : ¬ ((i : Nat) : Int) < 0 := by omega
  simp [tgxEventGetFd, h.engine, tgxLinuxEpollGetFd, hfd, hi, hneg]

theorem getEvent_spec (h : te.Started) (i : Fin te.maxfds) :
    tgxEventGetEvent te (i : Nat) = some (fromEpoll (te.epollEvents i).events) := by
  have hfd : ¬ te.epollFd < 0 := not_lt.mpr h.epollFd
  have hi : rawIndex te.maxfds (i : Nat) = some i := by
    rw [rawIndex_eq ⟨by omega, by omega⟩]
    simp
  simp [tgxEventGetEvent, h.engine, tgxLinuxEpollGetEvent, hfd, hi]

theorem poll_spec (h : te.Started) {batch : List EpollEvent} (hb : batch.length ≤ te.maxfds) :
    tgxEventPoll te (some batch) =
      ((batch.length : Int), { te with epollEvents := fun i => batch.getD i (te.epollEvents i) }) := by
  simp [tgxEventPoll, h.engine, tgxLinuxEpollPoll, List.take_of_length_le hb]

/-- A poll touches nothing but the array of events. -/
theorem poll_events {wait : Option (List EpollEvent)} {nEvent : Int} {te' : TgxEvent H C}
    (h : tgxEventPoll te wait = (nEvent, te')) : ∃ events, te' = { te with epollEvents := events } := by
  simp only [tgxEventPoll, tgxLinuxEpollPoll] at h
  split at h
  · split at h
    · exact ⟨_, (Prod.mk.inj h).2.symm⟩
    · exact ⟨_, (Prod.mk.inj h).2.symm⟩
  · exact ⟨_, (Prod.mk.inj h).2.symm⟩

end TgxEvent
end TinyosGraphics.Event
