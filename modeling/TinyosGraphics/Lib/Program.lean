import Mathlib.Logic.Basic

/-! Programs as trees of calls to their surroundings, one branch for each answer a call can get. A rule set says which
calls a program may make in a ghost state and what each answer does to that state; `Always` is the demonic weakest
precondition the rules give, stated over every answer. Last, a `while` loop whose turns may do what is undefined, and
the rule of total correctness for it. -/
namespace TinyosGraphics.Lib

/-- A program that returns an `α`. `stuck` stands where nothing more is said about the program: it
has used up its loop bound, or done what its language leaves undefined. -/
inductive Prog (Op : Type) (Ret : Op → Type) (α : Type) : Type
  | ret (a : α)
  | call (o : Op) (k : Ret o → Prog Op Ret α)
  | stuck

variable {Op : Type} {Ret : Op → Type} {α β σ τ : Type}

namespace Prog

protected def bind : Prog Op Ret α → (α → Prog Op Ret β) → Prog Op Ret β
  | .ret a, f => f a
  | .call o k, f => .call o fun r => (k r).bind f
  | .stuck, _ => .stuck

instance : Monad (Prog Op Ret) where
  pure := .ret
  bind := Prog.bind

def op (o : Op) : Prog Op Ret (Ret o) :=
  .call o .ret

@[simp] theorem pure_def (a : α) : (pure a : Prog Op Ret α) = .ret a := rfl
@[simp] theorem ret_bind (a : α) (f : α → Prog Op Ret β) : (Prog.ret a >>= f) = f a := rfl
@[simp] theorem call_bind (o : Op) (k : Ret o → Prog Op Ret α) (f : α → Prog Op Ret β) :
    (Prog.call o k >>= f) = .call o fun r => k r >>= f := rfl
@[simp] theorem stuck_bind (f : α → Prog Op Ret β) : (Prog.stuck >>= f) = .stuck := rfl

theorem bind_ret (p : Prog Op Ret α) : p.bind .ret = p := by
  induction p with
  | ret a => rfl
  | call o k ih => exact congrArg (Prog.call o) (funext ih)
  | stuck => rfl

theorem bind_bind {γ : Type} (p : Prog Op Ret α) (f : α → Prog Op Ret β) (g : β → Prog Op Ret γ) :
    (p.bind f).bind g = p.bind fun a => (f a).bind g := by
  induction p with
  | ret a => rfl
  | call o k ih => exact congrArg (Prog.call o) (funext ih)
  | stuck => rfl

instance : LawfulMonad (Prog Op Ret) :=
  LawfulMonad.mk' _ bind_ret (fun _ _ => rfl) bind_bind

/-- One step of a program: its next call gets an answer the surroundings allow. -/
def step [DecidableEq Op] (respond : σ → (o : Op) → Ret o → Option σ) (p : Prog Op Ret α) (s : σ)
    (r : (o : Op) × Ret o) : Option (Prog Op Ret α × σ) :=
  match p with
  | .call o k =>
    if h : r.1 = o then (respond s o (h ▸ r.2)).map fun s' => (k (h ▸ r.2), s') else none
  | .ret _ | .stuck => none

theorem step_cases [DecidableEq Op] {respond : σ → (o : Op) → Ret o → Option σ}
    {p p' : Prog Op Ret α} {s s' : σ} {r : (o : Op) × Ret o}
    (h : p.step respond s r = some (p', s')) :
    ∃ k, p = .call r.1 k ∧ respond s r.1 r.2 = some s' ∧ p' = k r.2 := by
  cases p with
  | ret a => cases h
  | stuck => cases h
  | call o k =>
    obtain ⟨o', r⟩ := r
    simp only [step] at h
    split at h
    · rename_i ho
      subst ho
      obtain ⟨s'', hs, heq⟩ := Option.map_eq_some_iff.mp h
      obtain ⟨rfl, rfl⟩ := Prod.mk.inj heq
      exact ⟨k, rfl, hs, rfl⟩
    · cases h

def calls (answer : (o : Op) → Ret o) : Prog Op Ret α → List Op
  | .call o k => o :: calls answer (k (answer o))
  | .ret _ | .stuck => []

@[simp] theorem calls_ret (answer : (o : Op) → Ret o) (a : α) : (Prog.ret a).calls answer = [] := rfl
@[simp] theorem calls_op (answer : (o : Op) → Ret o) (o : Op) : (op o).calls answer = [o] := rfl
@[simp] theorem calls_op_bind (answer : (o : Op) → Ret o) (o : Op) (f : Ret o → Prog Op Ret α) :
    (op o >>= f).calls answer = o :: (f (answer o)).calls answer := rfl

/-- The whole of a program when every answer is determined. It is `none` where the program gets stuck,
and where a call has no answer. -/
def exec (answer : σ → (o : Op) → Option (Ret o × σ)) : Prog Op Ret α → σ → Option (α × σ)
  | .ret a, s => some (a, s)
  | .call o k, s => (answer s o).bind fun x => exec answer (k x.1) x.2
  | .stuck, _ => none

section
variable (answer : σ → (o : Op) → Option (Ret o × σ))

@[simp] theorem exec_ret (a : α) (s : σ) : (Prog.ret a).exec answer s = some (a, s) := rfl

@[simp] theorem exec_op_bind (o : Op) (f : Ret o → Prog Op Ret α) (s : σ) :
    (op o >>= f).exec answer s = (answer s o).bind fun x => (f x.1).exec answer x.2 := rfl

theorem exec_bind (p : Prog Op Ret α) (f : α → Prog Op Ret β) (s : σ) :
    (p >>= f).exec answer s = (p.exec answer s).bind fun x => (f x.1).exec answer x.2 := by
  induction p generalizing s with
  | ret a => rfl
  | call o k ih =>
    show (answer s o).bind _ = ((answer s o).bind _).bind _
    cases answer s o with
    | none => rfl
    | some x => exact ih x.1 x.2
  | stuck => rfl

/-- A sequence whose first part is known to return. -/
theorem exec_bind_of_eq {p : Prog Op Ret α} {f : α → Prog Op Ret β} {s s' : σ} {a : α}
    (h : p.exec answer s = some (a, s')) : (p >>= f).exec answer s = (f a).exec answer s' := by
  rw [exec_bind, h]
  rfl

end

/-- Answers that meet `outcome` can bring the program to `post`: the angelic counterpart of `Always`. -/
def Can (respond : σ → (o : Op) → Ret o → Option σ) (outcome : (o : Op) → Ret o → Prop)
    (post : σ → α → Prop) : Prog Op Ret α → σ → Prop
  | .ret a, s => post s a
  | .call o k, s => ∃ r s', outcome o r ∧ respond s o r = some s' ∧ Can respond outcome post (k r) s'
  | .stuck, _ => False

section
variable {respond : σ → (o : Op) → Ret o → Option σ} {outcome : (o : Op) → Ret o → Prop}

theorem Can.mono {post post' : σ → α → Prop} {p : Prog Op Ret α} {s : σ} (h : p.Can respond outcome post s)
    (hpost : ∀ s a, post s a → post' s a) : p.Can respond outcome post' s := by
  induction p generalizing s with
  | ret a => exact hpost s a h
  | call o k ih =>
    obtain ⟨r, s', hout, hr, hrest⟩ := h
    exact ⟨r, s', hout, hr, ih r hrest⟩
  | stuck => exact h

theorem Can.op {o : Op} {f : Ret o → Prog Op Ret β} {post : σ → β → Prop} {s s' : σ} (r : Ret o)
    (hout : outcome o r) (hr : respond s o r = some s') (hf : (f r).Can respond outcome post s') :
    (Prog.op o >>= f).Can respond outcome post s :=
  ⟨r, s', hout, hr, hf⟩

end

/-- The program makes no other calls than these, whatever the answers. -/
def Only (P : Op → Prop) : Prog Op Ret α → Prop
  | .ret _ => True
  | .call o k => P o ∧ ∀ r, Only P (k r)
  | .stuck => True

section
variable {P : Op → Prop}

theorem Only.op (o : Op) (h : P o) : (op o : Prog Op Ret (Ret o)).Only P :=
  ⟨h, fun _ => trivial⟩

theorem Only.bind {p : Prog Op Ret α} {f : α → Prog Op Ret β} (h : p.Only P) (hf : ∀ a, (f a).Only P) :
    (p >>= f).Only P := by
  induction p with
  | ret a => exact hf a
  | call o k ih => exact ⟨h.1, fun r => ih r (h.2 r)⟩
  | stuck => trivial

theorem Only.ite {Q : Prop} [Decidable Q] {p q : Prog Op Ret α} (hp : p.Only P) (hq : q.Only P) :
    (if Q then p else q).Only P := by
  split
  · exact hp
  · exact hq

end

end Prog

/-- What a program may call in a ghost state, where each answer leads, and where it may get stuck. -/
structure Rules (Op : Type) (Ret : Op → Type) (σ : Type) where
  may : σ → Op → Prop
  after : σ → (o : Op) → Ret o → σ → Prop
  stuck : σ → Prop

namespace Rules
variable (R : Rules Op Ret σ)

/-- On every path the program makes only calls that the rules allow, and `post` holds if it returns. -/
def Always (post : σ → α → Prop) : Prog Op Ret α → σ → Prop
  | .ret a, s => post s a
  | .call o k, s => R.may s o ∧ ∀ r s', R.after s o r s' → Always post (k r) s'
  | .stuck, s => R.stuck s

variable {R} {post post' : σ → α → Prop} {s : σ}

@[simp] theorem always_ret (a : α) : R.Always post (.ret a) s ↔ post s a := Iff.rfl
@[simp] theorem always_stuck : R.Always post .stuck s ↔ R.stuck s := Iff.rfl

/-- Where nothing is forbidden, nothing is promised. -/
theorem always_of_free (hmay : ∀ s o, R.may s o) (hstuck : ∀ s, R.stuck s) (hpost : ∀ s a, post s a)
    (p : Prog Op Ret α) (s : σ) : R.Always post p s := by
  induction p generalizing s with
  | ret a => exact hpost s a
  | call o k ih => exact ⟨hmay s o, fun r s' _ => ih r s'⟩
  | stuck => exact hstuck s

theorem Always.mono {p : Prog Op Ret α} (h : R.Always post p s) (hpost : ∀ s a, post s a → post' s a) :
    R.Always post' p s := by
  induction p generalizing s with
  | ret a => exact hpost s a h
  | call o k ih =>
    obtain ⟨hmay, hnext⟩ := h
    exact ⟨hmay, fun r s' hr => ih r (hnext r s' hr)⟩
  | stuck => exact h

/-- The rule for a sequence. -/
theorem Always.bind {p : Prog Op Ret α} {f : α → Prog Op Ret β} {mid : σ → α → Prop}
    {post : σ → β → Prop} (h : R.Always mid p s) (hf : ∀ s a, mid s a → R.Always post (f a) s) :
    R.Always post (p >>= f) s := by
  induction p generalizing s with
  | ret a => exact hf s a h
  | call o k ih =>
    obtain ⟨hmay, hnext⟩ := h
    exact ⟨hmay, fun r s' hr => ih r (hnext r s' hr)⟩
  | stuck => exact h

/-- A program that makes only calls that leave the ghost state alone. -/
theorem always_of_only {P : Op → Prop} {p : Prog Op Ret α} (h : p.Only P) (hmay : ∀ o, P o → R.may s o)
    (hafter : ∀ o r s', P o → R.after s o r s' → s' = s) (hstuck : R.stuck s) :
    R.Always (fun s' _ => s' = s) p s := by
  induction p with
  | ret a => rfl
  | call o k ih =>
    refine ⟨hmay o h.1, fun r s' hr => ?_⟩
    rw [hafter o r s' h.1 hr]
    exact ih r (h.2 r)
  | stuck => exact hstuck

/-- The rule for one call in front of a program. -/
theorem Always.op {o : Op} {f : Ret o → Prog Op Ret β} {post : σ → β → Prop} (hmay : R.may s o)
    (hf : ∀ r s', R.after s o r s' → R.Always post (f r) s') :
    R.Always post (Prog.op o >>= f) s :=
  ⟨hmay, hf⟩

/-- The rule for a conditional. -/
theorem Always.ite {P : Prop} [Decidable P] {p q : Prog Op Ret α} (hp : P → R.Always post p s)
    (hq : ¬ P → R.Always post q s) : R.Always post (if P then p else q) s := by
  split
  · exact hp ‹P›
  · exact hq ‹¬ P›

/-- A step keeps what the rules promise of the rest of the program. -/
theorem Always.step {o : Op} {k : Ret o → Prog Op Ret α} (h : R.Always post (.call o k) s) {r : Ret o}
    {s' : σ} (hr : R.after s o r s') : R.Always post (k r) s' :=
  h.2 r s' hr

end Rules

section WhileLoop

/-- How a turn of a loop ends: it is followed by another one, or leaves the loop. -/
inductive Turn (σ : Type*)
  | again (s : σ)
  | leave (s : σ)

variable {σ : Type*} {turn : σ → Option (Turn σ)} {s s' : σ}

/-- The loop for at most `fuel` turns; `none` beyond them, and where a turn does what is undefined. -/
def whileLoop (turn : σ → Option (Turn σ)) : Nat → σ → Option σ
  | 0, _ => none
  | fuel + 1, s =>
    match turn s with
    | some (.again s') => whileLoop turn fuel s'
    | some (.leave s') => some s'
    | none => none

theorem whileLoop_again (h : turn s = some (.again s')) (fuel : Nat) :
    whileLoop turn (fuel + 1) s = whileLoop turn fuel s' := by
  rw [whileLoop, h]

theorem whileLoop_leave (h : turn s = some (.leave s')) {fuel : Nat} (hfuel : 0 < fuel) :
    whileLoop turn fuel s = some s' := by
  cases fuel with
  | zero => cases hfuel
  | succ fuel => rw [whileLoop, h]

/-- The rule of the loop: each turn keeps the invariant and makes the variant smaller, or leaves with what is wanted.
The variant bounds the number of turns. -/
theorem whileLoop_total (inv post : σ → Prop) (variant : σ → Nat)
    (hturn : ∀ s, inv s →
      (∃ s', turn s = some (.again s') ∧ inv s' ∧ variant s' < variant s) ∨
        ∃ s', turn s = some (.leave s') ∧ post s')
    (hs : inv s) : ∃ s', post s' ∧ ∀ fuel, variant s < fuel → whileLoop turn fuel s = some s' := by
  induction hv : variant s using Nat.strongRecOn generalizing s with
  | ind v ih =>
    obtain ⟨s', hagain, hinv, hlt⟩ | ⟨s', hleave, hpost⟩ := hturn s hs
    · obtain ⟨s'', hpost, hrest⟩ := ih (variant s') (hv ▸ hlt) hinv rfl
      refine ⟨s'', hpost, fun fuel hfuel => ?_⟩
      cases fuel with
      | zero => cases hfuel
      | succ fuel =>
        rw [whileLoop_again hagain]
        exact hrest fuel (by omega)
    · exact ⟨s', hpost, fun fuel hfuel => whileLoop_leave hleave (Nat.zero_lt_of_lt hfuel)⟩

end WhileLoop
end TinyosGraphics.Lib
