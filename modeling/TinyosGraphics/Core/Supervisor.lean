import Mathlib.Algebra.Order.Group.Int
import Mathlib.Data.Int.Cast.Basic
import TinyosGraphics.Lib.Transition

/-! The parent process: `main` forks the workers, counts them, and waits for one to end. `wait` goes on after a
signal, as `signal` makes it do. -/
namespace TinyosGraphics.Supervisor
open Lib

def MAX_CHILD_NUM : Int := 4

/-- Where the parent is: at the head of its loop, in front of `numChild++`, in `wait`, or behind the loop. -/
inductive Phase
  | head
  | forked
  | waiting
  | left
  deriving DecidableEq

/-- The parent's variables, the children that run, and those that have ended but are not reaped. -/
structure State where
  phase : Phase
  running : Bool
  numChild : Int
  alive : Nat
  zombies : Nat
  deriving DecidableEq

inductive Event
  /-- the call of `fork`, which returns a child or -1 -/
  | fork (child : Bool)
  /-- there are enough children for the first `if` -/
  | enough
  /-- `running` is 0 -/
  | leave
  /-- `numChild++`, and the test behind it -/
  | count
  /-- `wait` returns, and `numChild--` -/
  | wait
  /-- a child ends -/
  | die
  /-- `tgx_sig_handler` gets a `SIGINT` -/
  | interrupt
  deriving DecidableEq

namespace State

def init : State :=
  ⟨.head, true, 0, 0, 0⟩

/-- `wait` reaps a child that has ended, returns -1 when there is none to wait for, and else blocks. -/
def wait (s : State) : Option State :=
  if 0 < s.zombies then
    some { s with phase := .head, numChild := s.numChild - 1, zombies := s.zombies - 1 }
  else if s.alive = 0 then some { s with phase := .head, numChild := s.numChild - 1 }
  else none

def step (s : State) : Event → Option State
  | .fork child =>
    if s.phase = .head ∧ s.running = true ∧ s.numChild < MAX_CHILD_NUM then
      some { s with phase := .forked, alive := if child then s.alive + 1 else s.alive }
    else none
  | .enough =>
    if s.phase = .head ∧ s.running = true ∧ MAX_CHILD_NUM ≤ s.numChild then some { s with phase := .forked }
    else none
  | .leave => if s.phase = .head ∧ s.running = false then some { s with phase := .left } else none
  | .count =>
    if s.phase = .forked then
      some { s with
        numChild := s.numChild + 1
        phase := if MAX_CHILD_NUM ≤ s.numChild + 1 then .waiting else .head }
    else none
  | .wait => if s.phase = .waiting then s.wait else none
  | .die => if 0 < s.alive then some { s with alive := s.alive - 1, zombies := s.zombies + 1 } else none
  | .interrupt => some { s with running := false }

end State

def supervisor : Transition State Event where
  init s := s = .init
  step s l := s.step l

namespace State

/-- The parent sits in `wait` until a child ends. -/
def Blocked (s : State) : Prop :=
  s.phase = .waiting ∧ s.zombies = 0 ∧ 0 < s.alive

/-- At the head of the loop the children that have not been reaped are counted exactly, and are not too many;
and the parent blocks only with all workers running. -/
def Supervised (s : State) : Prop :=
  (s.phase = .head → s.numChild = s.alive + s.zombies ∧ (s.alive + s.zombies : Int) ≤ MAX_CHILD_NUM) ∧
    (s.Blocked → s.alive = MAX_CHILD_NUM)

/-- The children that are counted, or are about to be, without having been forked. -/
def missing (s : State) : Int :=
  s.numChild + (if s.phase = .forked then 1 else 0) - (s.alive + s.zombies)

structure Bounded (s : State) : Prop where
  low : s.phase ≠ .waiting → s.numChild < MAX_CHILD_NUM
  waiting : s.phase = .waiting → s.numChild = MAX_CHILD_NUM
  missing : 0 ≤ s.missing

private theorem bounded_init : init.Bounded :=
  ⟨by decide, by decide, by decide⟩

private theorem missing_forked {s : State} (h : s.phase = .forked) :
    s.missing = s.numChild + 1 - (s.alive + s.zombies) := by
  rw [State.missing, if_pos h]

private theorem missing_other {s : State} (h : s.phase ≠ .forked) : s.missing = s.numChild - (s.alive + s.zombies) := by
  rw [State.missing, if_neg h, add_zero]

section Step
variable {s s' : State}

private theorem step_fork {child : Bool} (h : s.Bounded) (hs : s.step (.fork child) = some s') :
    s'.Bounded ∧ s'.missing = s.missing + if child then 0 else 1 := by
  rw [step, Option.ite_none_right_eq_some] at hs
  obtain ⟨⟨hphase, -, hroom⟩, hs⟩ := hs
  obtain rfl := Option.some.inj hs
  have hbefore := missing_other (s := s) (by rw [hphase]; decide)
  have hafter := missing_forked
    (s := { s with phase := .forked, alive := if child then s.alive + 1 else s.alive }) rfl
  have hsum := h.missing
  have hmissing : State.missing { s with phase := .forked, alive := if child then s.alive + 1 else s.alive } =
      s.missing + if child then 0 else 1 := by
    rw [hbefore, hafter]
    cases child with
    | true => simp only [if_true]; omega
    | false => simp only [Bool.false_eq_true, if_false]; omega
  refine ⟨⟨fun _ => hroom, nofun, ?_⟩, hmissing⟩
  rw [hmissing]
  split <;> omega

private theorem step_count (h : s.Bounded) (hs : s.step .count = some s') : s'.Bounded ∧ s'.missing = s.missing := by
  rw [step, Option.ite_none_right_eq_some] at hs
  obtain ⟨hphase, hs⟩ := hs
  have hlow := h.low (by rw [hphase]; decide)
  have hbefore := missing_forked hphase
  have hsum := h.missing
  by_cases hfull : MAX_CHILD_NUM ≤ s.numChild + 1
  · rw [if_pos hfull] at hs
    obtain rfl := Option.some.inj hs
    have hmissing : State.missing { s with numChild := s.numChild + 1, phase := .waiting } = s.missing := by
      rw [hbefore, missing_other (by simp)]
    exact ⟨⟨fun hwait => absurd rfl hwait, fun _ => by dsimp only; omega, by rw [hmissing]; exact hsum⟩, hmissing⟩
  · rw [if_neg hfull] at hs
    obtain rfl := Option.some.inj hs
    have hmissing : State.missing { s with numChild := s.numChild + 1, phase := .head } = s.missing := by
      rw [hbefore, missing_other (by simp)]
    exact ⟨⟨fun _ => not_le.mp hfull, nofun, by rw [hmissing]; exact hsum⟩, hmissing⟩

/-- When there is no child to wait for, all that is counted is missing, and most of it stays so. -/
private theorem step_wait (h : s.Bounded) (hs : s.step .wait = some s') :
    s'.Bounded ∧ (s'.missing = s.missing ∨ s'.missing = 3 ∧ s.missing = 4) := by
  rw [step, Option.ite_none_right_eq_some] at hs
  obtain ⟨hphase, hs⟩ := hs
  have hfull := h.waiting hphase
  have hbefore := missing_other (s := s) (by rw [hphase]; decide)
  have hsum := h.missing
  have hmax : MAX_CHILD_NUM = 4 := rfl
  by_cases hzombie : 0 < s.zombies
  · rw [State.wait, if_pos hzombie] at hs
    obtain rfl := Option.some.inj hs
    have hmissing : State.missing { s with phase := .head, numChild := s.numChild - 1, zombies := s.zombies - 1 } =
        s.missing := by
      rw [hbefore, missing_other (by simp)]
      dsimp only
      omega
    refine ⟨⟨fun _ => ?_, nofun, by rw [hmissing]; exact hsum⟩, .inl hmissing⟩
    dsimp only
    omega
  · rw [State.wait, if_neg hzombie, Option.ite_none_right_eq_some] at hs
    obtain ⟨halive, hs⟩ := hs
    obtain rfl := Option.some.inj hs
    have hmissing : State.missing { s with phase := .head, numChild := s.numChild - 1 } = 3 := by
      rw [missing_other (by simp)]
      dsimp only
      omega
    refine ⟨⟨fun _ => ?_, nofun, by rw [hmissing]; decide⟩, .inr ⟨hmissing, by omega⟩⟩
    dsimp only
    omega

private theorem step_aside {l : Event} (h : s.Bounded) (hl : l = .leave ∨ l = .die ∨ l = .interrupt)
    (hs : s.step l = some s') : s'.Bounded ∧ s'.missing = s.missing := by
  obtain rfl | rfl | rfl := hl
  · rw [step, Option.ite_none_right_eq_some] at hs
    obtain ⟨⟨hphase, -⟩, hs⟩ := hs
    obtain rfl := Option.some.inj hs
    have hbefore := missing_other (s := s) (by rw [hphase]; decide)
    have hmissing : State.missing { s with phase := .left } = s.missing := by
      rw [hbefore, missing_other (by simp)]
    exact ⟨⟨fun _ => h.low (by rw [hphase]; decide), nofun, by rw [hmissing]; exact h.missing⟩,
      hmissing⟩
  · rw [step, Option.ite_none_right_eq_some] at hs
    obtain ⟨halive, hs⟩ := hs
    obtain rfl := Option.some.inj hs
    have hmissing : State.missing { s with alive := s.alive - 1, zombies := s.zombies + 1 } = s.missing := by
      simp only [State.missing]
      omega
    exact ⟨⟨h.low, h.waiting, by rw [hmissing]; exact h.missing⟩, hmissing⟩
  · obtain rfl := Option.some.inj hs
    exact ⟨⟨h.low, h.waiting, h.missing⟩, rfl⟩

/-- One step keeps the bounds, and only a failed `fork` brings about that something is missing. -/
private theorem step_missing {l : Event} (h : s.Bounded) (hs : s.step l = some s') :
    s'.Bounded ∧ (0 < s'.missing ↔ 0 < s.missing ∨ l = .fork false) := by
  have hsum := h.missing
  cases l with
  | fork child =>
    obtain ⟨hbounded, hmissing⟩ := step_fork h hs
    refine ⟨hbounded, ?_⟩
    rw [hmissing]
    cases child with
    | true => simp
    | false => simp; omega
  | enough =>
    rw [step, Option.ite_none_right_eq_some] at hs
    obtain ⟨⟨hphase, -, hfull⟩, -⟩ := hs
    exact absurd hfull (not_le.mpr (h.low (by rw [hphase]; decide)))
  | count =>
    obtain ⟨hbounded, hmissing⟩ := step_count h hs
    exact ⟨hbounded, by rw [hmissing]; simp⟩
  | wait =>
    obtain ⟨hbounded, hmissing | ⟨hafter, hbefore⟩⟩ := step_wait h hs
    · exact ⟨hbounded, by rw [hmissing]; simp⟩
    · exact ⟨hbounded, by rw [hafter, hbefore]; decide⟩
  | leave =>
    obtain ⟨hbounded, hmissing⟩ := step_aside h (.inl rfl) hs
    exact ⟨hbounded, by rw [hmissing]; simp⟩
  | die =>
    obtain ⟨hbounded, hmissing⟩ := step_aside h (.inr (.inl rfl)) hs
    exact ⟨hbounded, by rw [hmissing]; simp⟩
  | interrupt =>
    obtain ⟨hbounded, hmissing⟩ := step_aside h (.inr (.inr rfl)) hs
    exact ⟨hbounded, by rw [hmissing]; simp⟩

end Step

private theorem supervised_of_missing {s : State} (h : s.Bounded) (hnone : s.missing = 0) : s.Supervised := by
  constructor
  · intro hhead
    have hlow := h.low (by rw [hhead]; decide)
    rw [missing_other (by rw [hhead]; decide)] at hnone
    omega
  · rintro ⟨hwaiting, hzombies, -⟩
    have hfull := h.waiting hwaiting
    rw [missing_other (by rw [hwaiting]; decide)] at hnone
    omega

private theorem missing_of_supervised {s : State} (h : s.Supervised) (hhead : s.phase = .head) : s.missing = 0 := by
  have hcounted := (h.1 hhead).1
  rw [missing_other (by rw [hhead]; decide)]
  omega

end State

private theorem run_missing {s : State} {tr : List (State × Event)} (h : supervisor.Run .init tr s) :
    s.Bounded ∧ (0 < s.missing ↔ ∃ p ∈ tr, p.2 = .fork false) := by
  induction h with
  | start => exact ⟨State.bounded_init, by decide⟩
  | next _ hs ih =>
    obtain ⟨hbounded, hmissing⟩ := State.step_missing ih.1 hs
    refine ⟨hbounded, ?_⟩
    rw [hmissing, ih.2]
    simp [or_and_right, exists_or]

/-- As long as every `fork` returns a child, the parent counts its children and keeps up their number; after
one that has failed, it never counts them right again. -/
theorem supervised_iff {s : State} {tr : List (State × Event)} (h : supervisor.Run .init tr s) :
    ((∀ p ∈ tr, p.2 ≠ .fork false) → s.Supervised) ∧
      (s.phase = .head → s.Supervised → ∀ p ∈ tr, p.2 ≠ .fork false) := by
  obtain ⟨hbounded, hmissing⟩ := run_missing h
  constructor
  · intro hforks
    have hnone : ¬ 0 < s.missing := by
      rw [hmissing]
      rintro ⟨p, hp, hfork⟩
      exact hforks p hp hfork
    exact State.supervised_of_missing hbounded (le_antisymm (not_lt.mp hnone) hbounded.missing)
  · intro hhead hsupervised p hp hfork
    have hsome := hmissing.mpr ⟨p, hp, hfork⟩
    rw [State.missing_of_supervised hsupervised hhead] at hsome
    exact lt_irrefl _ hsome

def restarts : List Event :=
  [.fork true, .count, .fork true, .count, .fork true, .count, .fork true, .count, .die, .wait, .fork true, .count]

theorem supervised_restarts : State.Supervised ⟨.waiting, true, 4, 4, 0⟩ :=
  (@supervised_iff _ (supervisor.trail .init restarts)
    (Transition.run_of_replay restarts (by decide))).1 (by decide)

/-- After one `fork` that fails, the parent waits with three workers. -/
theorem worker_lost :
    ¬ ∀ s, supervisor.Reachable (fun _ _ => True) s → s.Supervised := by
  intro h
  have hreach := Transition.Reachable.of_replay (T := supervisor) rfl
    [.fork false, .count, .fork true, .count, .fork true, .count, .fork true, .count]
    (show _ = some ⟨.waiting, true, 4, 3, 0⟩ by decide)
  have hblocked : State.Blocked ⟨.waiting, true, 4, 3, 0⟩ := ⟨rfl, rfl, by decide⟩
  exact absurd ((h _ hreach).2 hblocked) (by decide)

end TinyosGraphics.Supervisor
