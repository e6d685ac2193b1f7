import TinyosGraphics.Lib.Program
import TinyosGraphics.Lib.Transition

/-! A process that runs programs one after another, each started by an event and each call one step.
Its invariant rule asks for one `Always` per program that can be started. -/
namespace TinyosGraphics.Lib

variable {Op : Type} {Ret : Op → Type} {α σ ε : Type}

structure Process (Op : Type) (Ret : Op → Type) (α σ : Type) where
  state : σ
  running : Option (Prog Op Ret α)

namespace Process

inductive Label (Op : Type) (Ret : Op → Type) (ε : Type)
  | start (e : ε)
  | answer (r : (o : Op) × Ret o)
  | finish

section
variable [DecidableEq Op] (respond : σ → (o : Op) → Ret o → Option σ)
  (dispatch : σ → ε → Option (Prog Op Ret α))

def step (x : Process Op Ret α σ) : Label Op Ret ε → Option (Process Op Ret α σ)
  | .start e =>
    match x.running with
    | none => (dispatch x.state e).map fun p => { x with running := some p }
    | some _ => none
  | .answer r =>
    match x.running with
    | some p => (p.step respond x.state r).map fun (p', s') => ⟨s', some p'⟩
    | none => none
  | .finish =>
    match x.running with
    | some (.ret _) => some { x with running := none }
    | _ => none

def system (init : Process Op Ret α σ → Prop) : Transition (Process Op Ret α σ) (Label Op Ret ε) where
  init := init
  step := step respond dispatch

end

/-- Between programs `Inv` holds; a running program keeps to the rules and ends with `Inv`. -/
def Follows (R : Rules Op Ret σ) (Inv : σ → Prop) (x : Process Op Ret α σ) : Prop :=
  match x.running with
  | none => Inv x.state
  | some p => R.Always (fun s _ => Inv s) p x.state

/-- A process that follows the rules makes only calls that they allow, and is stuck only where they say. -/
theorem Follows.may {R : Rules Op Ret σ} {Inv : σ → Prop} {x : Process Op Ret α σ} (h : x.Follows R Inv)
    {o : Op} {k : Ret o → Prog Op Ret α} (hx : x.running = some (.call o k)) : R.may x.state o := by
  have hall : R.Always (fun s _ => Inv s) (.call o k) x.state := by simpa [Follows, hx] using h
  exact hall.1

theorem Follows.stuck {R : Rules Op Ret σ} {Inv : σ → Prop} {x : Process Op Ret α σ} (h : x.Follows R Inv)
    (hx : x.running = some .stuck) : R.stuck x.state := by
  simpa [Follows, hx] using h

variable [DecidableEq Op] {respond : σ → (o : Op) → Ret o → Option σ}
  {dispatch : σ → ε → Option (Prog Op Ret α)} {init : Process Op Ret α σ → Prop}
  {x y : Process Op Ret α σ} {l : Label Op Ret ε}

/-- Everything a step can do. -/
theorem step_cases (h : step respond dispatch x l = some y) :
    (∃ s e p, l = .start e ∧ x = ⟨s, none⟩ ∧ dispatch s e = some p ∧ y = ⟨s, some p⟩) ∨
    (∃ s r k s', l = .answer r ∧ x = ⟨s, some (.call r.1 k)⟩ ∧ respond s r.1 r.2 = some s' ∧
      y = ⟨s', some (k r.2)⟩) ∨
    (∃ s a, l = .finish ∧ x = ⟨s, some (.ret a)⟩ ∧ y = ⟨s, none⟩) := by
  obtain ⟨s, running⟩ := x
  cases l with
  | start e =>
    cases running with
    | none =>
      obtain ⟨p, hp, rfl⟩ := Option.map_eq_some_iff.mp h
      exact .inl ⟨s, e, p, rfl, rfl, hp, rfl⟩
    | some p => cases h
  | answer r =>
    cases running with
    | none => cases h
    | some p =>
      obtain ⟨⟨p', s'⟩, hstep, rfl⟩ := Option.map_eq_some_iff.mp h
      obtain ⟨k, rfl, hr, rfl⟩ := Prog.step_cases hstep
      exact .inr (.inl ⟨s, r, k, s', rfl, rfl, hr, rfl⟩)
  | finish =>
    cases running with
    | none => cases h
    | some p =>
      cases p with
      | ret a =>
        obtain rfl := Option.some.inj h
        exact .inr (.inr ⟨s, a, rfl, rfl, rfl⟩)
      | call o k => cases h
      | stuck => cases h

/-- The invariant rule: a process whose programs keep to the rules does so in every state reached, and
what every allowed call keeps holds at every moment. -/
theorem follows_of_reachable {R : Rules Op Ret σ} {Inv Safe : σ → Prop}
    {ok : Process Op Ret α σ → Label Op Ret ε → Prop}
    (hanswer : ∀ x r s', ok x (.answer r) → respond x.state r.1 r.2 = some s' → R.after x.state r.1 r.2 s')
    (hstart : ∀ x e p, Inv x.state → ok x (.start e) → dispatch x.state e = some p →
      R.Always (fun s _ => Inv s) p x.state)
    (hsafe : ∀ s o r s', Safe s → R.may s o → R.after s o r s' → Safe s')
    (hinit : ∀ x, init x → Safe x.state ∧ x.Follows R Inv)
    (h : (system respond dispatch init).Reachable ok x) : Safe x.state ∧ x.Follows R Inv := by
  refine h.invariant hinit fun x l y ⟨hs, hf⟩ hok hstep => ?_
  obtain ⟨s, e, p, rfl, rfl, hp, rfl⟩ | ⟨s, r, k, s', rfl, rfl, hr, rfl⟩ | ⟨s, a, rfl, rfl, rfl⟩ :=
    step_cases hstep
  · exact ⟨hs, hstart ⟨s, none⟩ e p hf hok hp⟩
  · have hall : R.Always (fun s _ => Inv s) (.call r.1 k) s := hf
    have hafter := hanswer _ r s' hok hr
    exact ⟨hsafe s r.1 r.2 s' hs hall.1 hafter, hall.step hafter⟩
  · exact ⟨hs, hf⟩

/-- The invariant rule with an auxiliary variable, which the rules and the invariants may speak of. -/
theorem follows_of_instrumented {G : Type} {start : G} {after : G → Process Op Ret α σ → Label Op Ret ε → G}
    {R : Rules Op Ret (σ × G)} {Inv Safe : σ × G → Prop} {ok : Process Op Ret α σ → Label Op Ret ε → Prop}
    (hanswer : ∀ x g r s', ok x (.answer r) → respond x.state r.1 r.2 = some s' →
      R.after (x.state, g) r.1 r.2 (s', after g x (.answer r)))
    (hstart : ∀ x g e p, Safe (x.state, g) → Inv (x.state, g) → ok x (.start e) → dispatch x.state e = some p →
      Safe (x.state, after g x (.start e)) ∧
        R.Always (fun s _ => Inv s) p (x.state, after g x (.start e)))
    (hfinish : ∀ x g, after g x .finish = g)
    (hsafe : ∀ s o r s', Safe s → R.may s o → R.after s o r s' → Safe s')
    (hinit : ∀ x, init x → x.running = none ∧ Safe (x.state, start) ∧ Inv (x.state, start))
    {x : Process Op Ret α σ × G}
    (h : ((system respond dispatch init).instrument start after).Reachable (fun x l => ok x.1 l) x) :
    Safe (x.1.state, x.2) ∧ (⟨(x.1.state, x.2), x.1.running⟩ : Process Op Ret α (σ × G)).Follows R Inv := by
  apply h.invariant
  · rintro ⟨x, g⟩ ⟨hx, rfl⟩
    obtain ⟨hrun, hs, hi⟩ := hinit x hx
    exact ⟨hs, by simpa only [Follows, hrun] using hi⟩
  · rintro ⟨x, g⟩ l ⟨y, g'⟩ ⟨hs, hf⟩ hok hstep
    obtain ⟨hstep, rfl⟩ := Transition.instrument_step hstep
    obtain ⟨s, e, p, rfl, rfl, hp, rfl⟩ | ⟨s, r, k, s', rfl, rfl, hr, rfl⟩ | ⟨s, a, rfl, rfl, rfl⟩ :=
      step_cases hstep
    · exact hstart ⟨s, none⟩ g e p hs hf hok hp
    · have hall : R.Always (fun s _ => Inv s) (.call r.1 k) (s, g) := hf
      have hafter := hanswer _ g r s' hok hr
      exact ⟨hsafe (s, g) r.1 r.2 _ hs hall.1 hafter, hall.step hafter⟩
    · simp only [hfinish]
      exact ⟨hs, hf⟩

omit [DecidableEq Op] in
/-- A program that can be brought to `post` has a run that does so in every system that takes its steps. -/
theorem exists_run_of_can {S L : Type} (T : Transition S L) (place : Prog Op Ret α → σ → S)
    (answer : (o : Op) × Ret o → L) {outcome : (o : Op) → Ret o → Prop} {post : σ → α → Prop}
    (hT : ∀ o k s r s', respond s o r = some s' → T.step (place (.call o k) s) (answer ⟨o, r⟩) = some (place (k r) s'))
    {p : Prog Op Ret α} {s : σ} (h : p.Can respond outcome post s) :
    ∃ tr s' a, T.Run (place p s) tr (place (.ret a) s') ∧ post s' a ∧
      ∀ t ∈ tr, ∃ r, t.2 = answer r ∧ outcome r.1 r.2 := by
  induction p generalizing s with
  | ret a => exact ⟨[], s, a, .start, h, by simp⟩
  | call o k ih =>
    obtain ⟨r, s₁, hout, hr, hrest⟩ := h
    obtain ⟨tr, s', a, hrun, hpost, hall⟩ := ih r hrest
    have hfirst : T.Run (place (.call o k) s) [(place (.call o k) s, answer ⟨o, r⟩)] (place (k r) s₁) := by
      simpa using Transition.Run.start.next (hT o k s r s₁ hr)
    refine ⟨_, s', a, hfirst.append hrun, hpost, fun t ht => ?_⟩
    obtain ht | ht := List.mem_append.mp ht
    · obtain rfl := List.mem_singleton.mp ht
      exact ⟨⟨o, r⟩, rfl, hout⟩
    · exact hall t ht
  | stuck => exact h.elim

variable (dispatch init) in
theorem run_of_can {outcome : (o : Op) → Ret o → Prop} {post : σ → α → Prop} {p : Prog Op Ret α} {s : σ}
    (h : p.Can respond outcome post s) :
    ∃ tr s' a, (system respond dispatch init).Run ⟨s, some p⟩ tr ⟨s', some (.ret a)⟩ ∧ post s' a ∧
      ∀ t ∈ tr, ∃ r, t.2 = .answer r ∧ outcome r.1 r.2 := by
  refine exists_run_of_can (system respond dispatch init) (fun p s => ⟨s, some p⟩) .answer (fun o k s r s' hr => ?_) h
  simp [system, step, Prog.step, hr]

variable (dispatch init) in
/-- Such a run with an auxiliary variable that follows the answers. -/
theorem instrumented_run_of_can {G : Type} (start : G) (after : G → Process Op Ret α σ → Label Op Ret ε → G)
    (count : G → (o : Op) → Ret o → G) (hcount : ∀ x g r, after g x (.answer r) = count g r.1 r.2)
    {outcome : (o : Op) → Ret o → Prop} {post : σ × G → α → Prop} {p : Prog Op Ret α} {s : σ} {g : G}
    (h : p.Can (fun x o r => (respond x.1 o r).map fun s' => (s', count x.2 o r)) outcome post (s, g)) :
    ∃ tr s' g' a, ((system respond dispatch init).instrument start after).Run (⟨s, some p⟩, g) tr
        (⟨s', some (.ret a)⟩, g') ∧ post (s', g') a ∧ ∀ t ∈ tr, ∃ r, t.2 = .answer r ∧ outcome r.1 r.2 := by
  obtain ⟨tr, ⟨s', g'⟩, a, hrun⟩ := exists_run_of_can ((system respond dispatch init).instrument start after)
    (fun p x => (⟨x.1, some p⟩, x.2)) .answer (fun o k x r x' hr => by
      obtain ⟨s₁, hanswer, rfl⟩ := Option.map_eq_some_iff.mp hr
      simp [Transition.instrument, system, step, Prog.step, hanswer, hcount]) h
  exact ⟨tr, s', g', a, hrun⟩

end Process
end TinyosGraphics.Lib
