import Mathlib.Order.Monotone.Basic
import TinyosGraphics.Core.Tasks

/-! The loop over `sendfile` while the file changes: when a call of the handler comes to an end. -/
namespace TinyosGraphics.Core
open Lib Event

/-- What a call of the handler meets: the answers of `stat` and `open`, and how long the file is at each
`sendfile`. -/
structure FileHistory where
  stat : Option Stat
  file : Option Nat
  size : Nat → Int

/-- The answer of `sendfile` for a file of `size` bytes. A socket that takes something takes `n + 1` bytes
at most; the file may have grown by the time they are read. -/
def sendfileAnswer (size : Int) (socket : WriteResult) (offset count : Int) : WriteResult :=
  if offset < 0 ∨ count < 0 then .error
  else if count = 0 ∨ size ≤ offset then .accepted 0
  else
    match socket with
    | .accepted n => .accepted (min (n + 1) count.toNat)
    | .again => .again
    | .error => .error

section
variable {size offset count : Int} {socket : WriteResult}

private theorem sendfileAnswer_error (h : offset < 0 ∨ count < 0) : sendfileAnswer size socket offset count = .error :=
  if_pos h

private theorem sendfileAnswer_nothing (h0 : 0 ≤ offset) (hcount : 0 ≤ count) (h : count = 0 ∨ size ≤ offset) :
    sendfileAnswer size socket offset count = .accepted 0 :=
  (if_neg (not_or.mpr ⟨not_lt.mpr h0, not_lt.mpr hcount⟩)).trans (if_pos h)

private theorem sendfileAnswer_socket (h0 : 0 ≤ offset) (hcount : 0 < count) (hsize : offset < size) :
    sendfileAnswer size socket offset count =
      match socket with
      | .accepted n => .accepted (min (n + 1) count.toNat)
      | .again => .again
      | .error => .error :=
  (if_neg (not_or.mpr ⟨not_lt.mpr h0, not_lt.mpr hcount.le⟩)).trans
    (if_neg (not_or.mpr ⟨hcount.ne', not_le.mpr hsize⟩))

end

/-- The connection, and the calls of `sendfile` so far. -/
structure Sending where
  conn : Conn
  calls : Nat

/-- The answers to the handler's calls; closing a file or a connection comes to an end. -/
def FileHistory.answer (h : FileHistory) (socket : Nat → WriteResult) (s : Sending) :
    (o : Op) → Option (Ret o × Sending)
  | .load _ => some (s.conn, s)
  | .store _ d => some ((), { s with conn := d })
  | .stat _ => some (h.stat, s)
  | .openFile _ => some (h.file, s)
  | .sendfile _ _ offset count =>
    some (sendfileAnswer (h.size s.calls) (socket s.calls) offset count, { s with calls := s.calls + 1 })
  | .closeFile _ => some ((), s)
  | .scheduleUnregister _ _ => some ((), s)
  | .eventCtl _ _ _ => some (0, s)
  | .close _ => some ((), s)
  | .dlclose => some ((), s)
  | .freeConnection _ => some ((), s)
  | _ => none

/-- Whatever the socket takes, the handler returns after finitely many calls. -/
def Returns (h : FileHistory) (d : Conn) (c : ConnId) (event : UInt32) : Prop :=
  ∀ socket, ∃ fuel,
    ((tgxConnectionHandlerGetMethodWriteFile fuel c event).exec (h.answer socket) ⟨d, 0⟩).isSome = true

/-- How many bytes may still be sent from the position `pos` on; a position past the largest `int` is
negative. -/
def bytesLeft (pos contentLength : Int) : Nat :=
  if pos < 0 then 0 else (min (toInt32 (contentLength - pos)) (2 ^ 31 - pos)).toNat

/-- One call after the other finds the next one of `n` bytes in the file. -/
def ByteByByte (size : Nat → Int) (pos : Int) (n : Nat) : Prop :=
  ∃ turn : Nat → Nat, StrictMono turn ∧ ∀ j < n, pos + j < size (turn j)

/-- The values of an `int`. -/
structure IsInt (x : Int) : Prop where
  low : -2 ^ 31 ≤ x
  high : x < 2 ^ 31

private theorem isInt_toInt32 (x : Int) : IsInt (toInt32 x) :=
  ⟨(toInt32_bounds x).1, (toInt32_bounds x).2⟩

private theorem toInt32_eq_add (x : Int) : ∃ q : Int, x = toInt32 x + 2 ^ 32 * q := by
  obtain ⟨q, hq⟩ := Int.dvd_bmod_sub_self (x := x) (m := 4294967296)
  have hcut : toInt32 x - x = 4294967296 * q := hq
  exact ⟨-q, by omega⟩

section
variable {pos contentLength : Int}

private theorem bytesLeft_zero (hpos : IsInt pos) (hlen : IsInt contentLength) (h : bytesLeft pos contentLength = 0) :
    pos < 0 ∨ toInt32 (contentLength - pos) < 0 ∨ toInt32 (contentLength - pos) = 0 ∧ pos = contentLength := by
  obtain ⟨q, hq⟩ := toInt32_eq_add (contentLength - pos)
  have := hpos.high
  have := hlen.low
  have := hlen.high
  rw [bytesLeft] at h
  split at h <;> omega

private theorem bytesLeft_pos (h : 0 < bytesLeft pos contentLength) : 0 ≤ pos ∧ 0 < toInt32 (contentLength - pos) := by
  rw [bytesLeft] at h
  split at h <;> omega

private theorem bytesLeft_moved (hpos : IsInt pos) (h : 0 < bytesLeft pos contentLength) {m : Nat} (h1 : 1 ≤ m)
    (hm : m ≤ (toInt32 (contentLength - pos)).toNat) :
    bytesLeft (toInt32 (pos + m)) contentLength = bytesLeft pos contentLength - m ∧
      (m < bytesLeft pos contentLength → toInt32 (pos + m) = pos + m) := by
  obtain ⟨h0, hcount⟩ := bytesLeft_pos h
  obtain ⟨q, hq⟩ := toInt32_eq_add (contentLength - pos)
  obtain ⟨q', hq'⟩ := toInt32_eq_add (pos + m)
  obtain ⟨q'', hq''⟩ := toInt32_eq_add (contentLength - toInt32 (pos + m))
  have := toInt32_bounds (contentLength - pos)
  have := toInt32_bounds (pos + m)
  have := toInt32_bounds (contentLength - toInt32 (pos + m))
  have := hpos.high
  rw [bytesLeft, bytesLeft, if_neg (not_lt.mpr h0)]
  constructor
  · split <;> omega
  · omega

end

section
variable {h : FileHistory} {socket : Nat → WriteResult} {c : ConnId} {file : Nat} {contentLength : Int} {d : Conn}

private theorem exec_close (s : Sending) : (tgxCloseConnection c).exec (h.answer socket) s = some ((), s) := by
  have hfree : (tgxFreeConnection c).exec (h.answer socket) s = some ((), s) := by
    simp only [tgxFreeConnection, load, close, dlclose, freeConnection, call, Prog.exec_op_bind, FileHistory.answer,
      Option.bind_some]
    split <;> cases s.conn.dlopenHandle <;> rfl
  simp only [tgxCloseConnection, load, tgxEventScheduleUnregister, tgxEventCtl, call, Prog.exec_op_bind,
    FileHistory.answer, Option.bind_some]
  split
  · exact hfree
  · exact hfree

private theorem exec_sendfileLoop (fuel k : Nat) :
    (sendfileLoop c file contentLength (fuel + 1)).exec (h.answer socket) ⟨d, k⟩ =
      let nWrite := sendfileAnswer (h.size k) (socket k) d.rwPos (toInt32 (contentLength - d.rwPos))
      let d' := { d with rwPos := toInt32 (d.rwPos + nWrite.moved) }
      match nWrite with
      | .again => some (0, ⟨d', k + 1⟩)
      | .error => some (-1, ⟨d', k + 1⟩)
      | .accepted _ =>
        if d'.rwPos = contentLength then some (0, ⟨d', k + 1⟩)
        else (sendfileLoop c file contentLength fuel).exec (h.answer socket) ⟨d', k + 1⟩ := by
  rw [sendfileLoop]
  simp only [load, sendfile, store, call, Prog.exec_op_bind, FileHistory.answer, Option.bind_some]
  have hclose (ret : Int) (s : Sending) :
      (tgxCloseConnection c >>= fun _ => pure ret).exec (h.answer socket) s = some (ret, s) :=
    Prog.exec_bind_of_eq _ (exec_close s)
  cases sendfileAnswer (h.size k) (socket k) d.rwPos (toInt32 (contentLength - d.rwPos)) with
  | again => rfl
  | error => exact hclose _ _
  | accepted n =>
    dsimp only
    split
    · exact hclose _ _
    · rfl

private theorem loop_done (hpos : IsInt d.rwPos) (hlen : IsInt contentLength)
    (hleft : bytesLeft d.rwPos contentLength = 0) (fuel k : Nat) :
    ((sendfileLoop c file contentLength (fuel + 1)).exec (h.answer socket) ⟨d, k⟩).isSome = true := by
  rw [exec_sendfileLoop]
  by_cases hbad : d.rwPos < 0 ∨ toInt32 (contentLength - d.rwPos) < 0
  · rw [sendfileAnswer_error hbad]
    rfl
  · obtain ⟨hzero, hend⟩ := (or_assoc.mpr (bytesLeft_zero hpos hlen hleft)).resolve_left hbad
    rw [not_or, not_lt, not_lt] at hbad
    have hstay : toInt32 (d.rwPos + (0 : Nat)) = contentLength := by
      rw [Nat.cast_zero, add_zero, hend, toInt32_of_bounds hlen.low hlen.high]
    rw [sendfileAnswer_nothing hbad.1 hbad.2 (.inl hzero)]
    simp only [WriteResult.moved, hstay, if_true]
    rfl

private theorem loop_waits (hpos : IsInt d.rwPos) (hleft : 0 < bytesLeft d.rwPos contentLength) {k : Nat}
    (hsize : h.size k ≤ d.rwPos) (fuel : Nat) :
    (sendfileLoop c file contentLength (fuel + 1)).exec (h.answer socket) ⟨d, k⟩ =
      (sendfileLoop c file contentLength fuel).exec (h.answer socket) ⟨d, k + 1⟩ := by
  obtain ⟨h0, hcount⟩ := bytesLeft_pos hleft
  have hstay : toInt32 (d.rwPos + (0 : Nat)) = d.rwPos := by
    rw [Nat.cast_zero, add_zero, toInt32_of_bounds hpos.low hpos.high]
  have hne : d.rwPos ≠ contentLength := by
    intro heq
    rw [heq, sub_self] at hcount
    exact absurd hcount (by decide)
  rw [exec_sendfileLoop, sendfileAnswer_nothing h0 hcount.le (.inr hsize)]
  simp only [WriteResult.moved, hstay, if_neg hne]

private theorem loop_moves (hleft : 0 < bytesLeft d.rwPos contentLength) {k n : Nat} (hsize : d.rwPos < h.size k)
    (hsocket : socket k = .accepted n) :
    ∃ m, m = min (n + 1) (toInt32 (contentLength - d.rwPos)).toNat ∧ ∀ fuel,
      (sendfileLoop c file contentLength (fuel + 1)).exec (h.answer socket) ⟨d, k⟩ =
        if toInt32 (d.rwPos + m) = contentLength then
          some (0, ⟨{ d with rwPos := toInt32 (d.rwPos + m) }, k + 1⟩)
        else (sendfileLoop c file contentLength fuel).exec (h.answer socket)
          ⟨{ d with rwPos := toInt32 (d.rwPos + m) }, k + 1⟩ := by
  obtain ⟨h0, hcount⟩ := bytesLeft_pos hleft
  refine ⟨_, rfl, fun fuel => ?_⟩
  rw [exec_sendfileLoop, sendfileAnswer_socket h0 hcount hsize, hsocket]
  rfl

private theorem loop_blocked (hleft : 0 < bytesLeft d.rwPos contentLength) {k : Nat} (hsize : d.rwPos < h.size k)
    (hsocket : ∀ n, socket k ≠ .accepted n) (fuel : Nat) :
    ((sendfileLoop c file contentLength (fuel + 1)).exec (h.answer socket) ⟨d, k⟩).isSome = true := by
  obtain ⟨h0, hcount⟩ := bytesLeft_pos hleft
  rw [exec_sendfileLoop, sendfileAnswer_socket h0 hcount hsize]
  cases hk : socket k with
  | accepted n => exact absurd hk (hsocket n)
  | again => rfl
  | error => rfl

/-- A file that has the bytes in time: the loop ends with the turn for the last one. -/
private theorem loop_ends (hlen : IsInt contentLength) {n k : Nat} {turn : Nat → Nat} (hpos : IsInt d.rwPos)
    (hturn : StrictMono turn) (hk : k ≤ turn 0) (hlast : turn (bytesLeft d.rwPos contentLength - 1) < k + n)
    (hbytes : ∀ j < bytesLeft d.rwPos contentLength, d.rwPos + j < h.size (turn j)) :
    ((sendfileLoop c file contentLength (n + 1)).exec (h.answer socket) ⟨d, k⟩).isSome = true := by
  induction n generalizing d k turn with
  | zero =>
    have := hturn.monotone (Nat.zero_le (bytesLeft d.rwPos contentLength - 1))
    omega
  | succ n ih =>
    by_cases hleft : bytesLeft d.rwPos contentLength = 0
    · exact loop_done hpos hlen hleft _ k
    replace hleft := Nat.pos_of_ne_zero hleft
    by_cases hsize : h.size k ≤ d.rwPos
    · rw [loop_waits hpos hleft hsize]
      have hne : k ≠ turn 0 := by
        rintro rfl
        have := hbytes 0 hleft
        omega
      exact ih hpos hturn (by omega) (by omega) hbytes
    rw [not_le] at hsize
    cases hsocket : socket k with
    | again => exact loop_blocked hleft hsize (fun m => by simp [hsocket]) _
    | error => exact loop_blocked hleft hsize (fun m => by simp [hsocket]) _
    | accepted taken =>
      obtain ⟨m, hm, hrun⟩ := loop_moves hleft hsize hsocket (c := c) (h := h)
      have hcount := (bytesLeft_pos hleft).2
      obtain ⟨hmoved, hcut⟩ := bytesLeft_moved hpos hleft (m := m) (by omega) (by omega)
      rw [hrun]
      split
      · rfl
      by_cases hrest : bytesLeft d.rwPos contentLength ≤ m
      · exact loop_done (isInt_toInt32 _) hlen (by simp only [hmoved]; omega) _ _
      rw [not_le] at hrest
      have hshift : StrictMono fun j => turn (j + m) := fun i j hij => hturn (Nat.add_lt_add_right hij m)
      have hlater : k + 1 ≤ turn (0 + m) := by
        have := hturn (show 0 < 0 + m by omega)
        omega
      refine ih (isInt_toInt32 _) hshift hlater ?_ fun j hj => ?_
      · simp only [hmoved]
        rw [show bytesLeft d.rwPos contentLength - m - 1 + m = bytesLeft d.rwPos contentLength - 1 by omega]
        omega
      · simp only [hmoved] at hj
        have := hbytes (j + m) (by omega)
        simp only [hcut hrest]
        push_cast at this
        omega

/-- A socket that takes a byte at a time finds every byte in a turn of its own. -/
private theorem exists_turns (hslow : ∀ k, socket k = .accepted 0) {fuel k : Nat}
    (hpos : IsInt d.rwPos)
    (hsome : ((sendfileLoop c file contentLength fuel).exec (h.answer socket) ⟨d, k⟩).isSome = true) :
    ∃ turn : Nat → Nat, StrictMono turn ∧ k ≤ turn 0 ∧
      ∀ j < bytesLeft d.rwPos contentLength, d.rwPos + j < h.size (turn j) := by
  induction fuel generalizing d k with
  | zero => cases hsome
  | succ fuel ih =>
    have hadd : StrictMono fun j => k + j := fun i j hij => Nat.add_lt_add_left hij k
    by_cases hleft : bytesLeft d.rwPos contentLength = 0
    · exact ⟨_, hadd, le_rfl, fun j hj => absurd (hleft ▸ hj) (Nat.not_lt_zero j)⟩
    replace hleft := Nat.pos_of_ne_zero hleft
    by_cases hsize : h.size k ≤ d.rwPos
    · rw [loop_waits hpos hleft hsize] at hsome
      obtain ⟨turn, hturn, hk, hbytes⟩ := ih hpos hsome
      exact ⟨turn, hturn, Nat.le_of_succ_le hk, hbytes⟩
    rw [not_le] at hsize
    obtain ⟨m, hm, hrun⟩ := loop_moves hleft hsize (hslow k) (c := c) (h := h)
    have hcount := (bytesLeft_pos hleft).2
    obtain rfl : m = 1 := by omega
    obtain ⟨hmoved, hcut⟩ := bytesLeft_moved hpos hleft (m := 1) le_rfl (by omega)
    by_cases hrest : bytesLeft d.rwPos contentLength = 1
    · refine ⟨_, hadd, le_rfl, fun j hj => ?_⟩
      obtain rfl : j = 0 := by omega
      simpa using hsize
    have hone : 1 < bytesLeft d.rwPos contentLength := by omega
    have hne : toInt32 (d.rwPos + (1 : Nat)) ≠ contentLength := by
      intro heq
      have hpos : 0 < bytesLeft contentLength contentLength := by
        rw [heq] at hmoved
        omega
      have := (bytesLeft_pos hpos).2
      rw [sub_self] at this
      exact absurd this (by decide)
    rw [hrun, if_neg hne] at hsome
    obtain ⟨turn, hturn, hk, hbytes⟩ := ih (isInt_toInt32 _) hsome
    refine ⟨fun j => j.casesOn k turn, strictMono_nat_of_lt_succ fun j => ?_, le_rfl, fun j hj => ?_⟩
    · cases j with
      | zero => exact hk
      | succ j => exact hturn (Nat.lt_succ_self j)
    · cases j with
      | zero => simpa using hsize
      | succ j =>
        have := hbytes j (by simp only [hmoved]; omega)
        simp only [hcut hone] at this
        push_cast at this ⊢
        omega

end

/-- What the handler comes down to: its loop, or a connection that it closes at once. -/
private theorem exec_handler (h : FileHistory) (socket : Nat → WriteResult) (d : Conn) (c : ConnId) (event : UInt32)
    (fuel : Nat) :
    (tgxConnectionHandlerGetMethodWriteFile fuel c event).exec (h.answer socket) ⟨d, 0⟩ =
      if hasFlag event TGX_EVENT_OUT then
        match h.stat.filter Stat.isReg, h.file with
        | some statbuf, some file =>
          (sendfileLoop c file (toInt32 statbuf.size) fuel).exec (h.answer socket) ⟨d, 0⟩
        | _, _ => some (-1, ⟨d, 0⟩)
      else some (-1, ⟨d, 0⟩) := by
  have hclose : (tgxCloseConnection c >>= fun _ => pure (-1)).exec (h.answer socket) ⟨d, 0⟩ = some (-1, ⟨d, 0⟩) :=
    Prog.exec_bind_of_eq _ (exec_close _)
  rw [tgxConnectionHandlerGetMethodWriteFile]
  cases hasFlag event TGX_EVENT_OUT with
  | false => exact hclose
  | true =>
    simp only [Bool.not_true, Bool.false_eq_true, if_false, if_true, load, stat, call, Prog.exec_op_bind,
      FileHistory.answer, Option.bind_some]
    cases h.stat with
    | none => exact hclose
    | some statbuf =>
      cases hreg : statbuf.isReg with
      | false =>
        simp only [hreg, Bool.not_false, if_true, Option.filter_some, Bool.false_eq_true, if_false]
        exact hclose
      | true =>
        simp only [hreg, Bool.not_true, Bool.false_eq_true, if_false, if_true, Option.filter_some, openFile, call,
          Prog.exec_op_bind, FileHistory.answer, Option.bind_some]
        cases h.file with
        | none => exact hclose
        | some file => rfl

/-- The handler returns exactly when it does not get to its loop, or the file has the bytes that are left, one call
after the other. -/
theorem returns_iff (h : FileHistory) {d : Conn} (hpos : IsInt d.rwPos) (c : ConnId) (event : UInt32) :
    Returns h d c event ↔
      (hasFlag event TGX_EVENT_OUT = true → ∀ statbuf, h.stat = some statbuf → statbuf.isReg = true →
        h.file.isSome = true → ByteByByte h.size d.rwPos (bytesLeft d.rwPos (toInt32 statbuf.size))) := by
  constructor
  · intro hreturns hout statbuf hstat hreg hfile
    obtain ⟨file, hfile⟩ := Option.isSome_iff_exists.mp hfile
    obtain ⟨fuel, hsome⟩ := hreturns fun _ => .accepted 0
    rw [exec_handler, if_pos hout, hstat, Option.filter_some, if_pos hreg, hfile] at hsome
    obtain ⟨turn, hturn, -, hbytes⟩ := exists_turns (fun _ => rfl) hpos hsome
    exact ⟨turn, hturn, hbytes⟩
  · intro hbytes socket
    by_cases hloop : hasFlag event TGX_EVENT_OUT = true ∧ ∃ statbuf file, h.stat.filter Stat.isReg = some statbuf ∧
      h.file = some file
    · obtain ⟨hout, statbuf, file, hstat, hfile⟩ := hloop
      obtain ⟨hstat', hreg⟩ := Option.filter_eq_some_iff.mp hstat
      obtain ⟨turn, hturn, hbytes⟩ := hbytes hout statbuf hstat' hreg (Option.isSome_of_mem hfile)
      refine ⟨turn (bytesLeft d.rwPos (toInt32 statbuf.size) - 1) + 1 + 1, ?_⟩
      rw [exec_handler, if_pos hout, hstat, hfile]
      exact loop_ends (isInt_toInt32 _) hpos hturn (Nat.zero_le _) (by omega) hbytes
    · refine ⟨0, ?_⟩
      rw [exec_handler]
      split
      · rename_i hout
        split
        · rename_i statbuf file hstat hfile
          exact absurd ⟨hout, statbuf, file, hstat, hfile⟩ hloop
        · rfl
      · rfl

/-- A file that grows while it is sent. -/
theorem returns_growing :
    Returns ⟨some ⟨true, 2, 0⟩, some 7, fun k => k⟩ (newConn 5) 0 TGX_EVENT_OUT :=
  (returns_iff _ ⟨by decide, by decide⟩ 0 TGX_EVENT_OUT).mpr fun _ _ _ _ _ =>
    ⟨fun j => j + 1, fun _ _ hij => Nat.succ_lt_succ hij, fun j _ => by simp [newConn]⟩

/-- Of the 10 bytes that the file had, 5 are left when they are sent. -/
def shrunkFile : FileHistory :=
  ⟨some ⟨true, 10, 0⟩, some 7, fun _ => 5⟩

theorem shrunkFile_spins : ¬ Returns shrunkFile (newConn 5) 0 TGX_EVENT_OUT := by
  intro h
  obtain ⟨turn, -, hbytes⟩ := (returns_iff shrunkFile ⟨by decide, by decide⟩ 0 TGX_EVENT_OUT).mp h (by decide)
    ⟨true, 10, 0⟩ rfl rfl rfl
  have := hbytes 5 (by decide)
  simp [newConn, shrunkFile] at this

end TinyosGraphics.Core
