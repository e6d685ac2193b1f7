import Mathlib.Logic.Basic

/-! Labelled transition systems with an executable step, their finite runs, and the invariant rule.
All nondeterminism is in the labels, so one definition serves proofs and replays. -/
namespace TinyosGraphics.Lib

/-- A transition system: initial states, and the state a label leads to where it is enabled. -/
structure Transition (S L : Type*) where
  init : S → Prop
  step : S → L → Option S

namespace Transition
variable {S L : Type*} (T : Transition S L)

/-- A finite run. Each step is recorded with the state it was taken in, the latest step last. -/
inductive Run (s : S) : List (S × L) → S → Prop
  | start : Run s [] s
  | next {tr t l u} : Run s tr t → T.step t l = some u → Run s (tr ++ [(t, l)]) u

/-- The states reached from an initial state by steps that all meet `ok`. -/
def Reachable (ok : S → L → Prop) (s : S) : Prop :=
  ∃ s₀ tr, T.init s₀ ∧ T.Run s₀ tr s ∧ ∀ p ∈ tr, ok p.1 p.2

def replay (s : S) (ls : List L) : Option S :=
  ls.foldlM T.step s

/-- Replay with labels that are worked out on the way, all of them good. -/
def guided {M : Type*} (choose : S → M → Option L) (ok : S → L → Prop) [∀ s l, Decidable (ok s l)] (s : S) :
    List M → Option S
  | [] => some s
  | m :: ms => (choose s m).bind fun l => if ok s l then (T.step s l).bind (guided choose ok · ms) else none

def trail (s : S) : List L → List (S × L)
  | [] => []
  | l :: ls =>
    (s, l) ::
      match T.step s l with
      | some u => trail u ls
      | none => []

variable {T}

theorem Run.append {s t u : S} {tr tr' : List (S × L)} (h : T.Run s tr t) (h' : T.Run t tr' u) :
    T.Run s (tr ++ tr') u := by
  induction h' with
  | start => simpa using h
  | next _ hs ih => rw [← List.append_assoc]; exact ih.next hs

/-- What one good step preserves, a run of good steps preserves. -/
theorem Run.preserves {ok : S → L → Prop} {P : S → Prop}
    (hstep : ∀ s l s', P s → ok s l → T.step s l = some s' → P s') {s t : S} {tr : List (S × L)}
    (h : T.Run s tr t) (hok : ∀ p ∈ tr, ok p.1 p.2) (hs : P s) : P t := by
  induction h with
  | start => exact hs
  | next _ hlast ih =>
    have hmid := ih fun p hp => hok p (by simp [hp])
    exact hstep _ _ _ hmid (hok (_, _) (by simp)) hlast

theorem Reachable.init {ok : S → L → Prop} {s : S} (h : T.init s) : T.Reachable ok s :=
  ⟨s, [], h, .start, by simp⟩

theorem Reachable.next {ok : S → L → Prop} {s t : S} {l : L} (h : T.Reachable ok s) (hok : ok s l)
    (hs : T.step s l = some t) : T.Reachable ok t := by
  obtain ⟨s₀, tr, hi, hr, hall⟩ := h
  refine ⟨s₀, _, hi, hr.next hs, ?_⟩
  intro p hp
  rcases List.mem_append.mp hp with hp | hp
  · exact hall p hp
  · obtain rfl := List.mem_singleton.mp hp
    exact hok

theorem Reachable.run {ok : S → L → Prop} {s t : S} {tr : List (S × L)} (h : T.Reachable ok s)
    (hr : T.Run s tr t) (hok : ∀ p ∈ tr, ok p.1 p.2) : T.Reachable ok t := by
  obtain ⟨s₀, tr', hi, hr', hall⟩ := h
  refine ⟨s₀, _, hi, hr'.append hr, fun p hp => ?_⟩
  exact (List.mem_append.mp hp).elim (hall p) (hok p)

theorem Reachable.mono {ok ok' : S → L → Prop} {s : S} (h : T.Reachable ok s)
    (hok : ∀ s l, ok s l → ok' s l) : T.Reachable ok' s := by
  obtain ⟨s₀, tr, hi, hr, hall⟩ := h
  exact ⟨s₀, tr, hi, hr, fun p hp => hok _ _ (hall p hp)⟩

/-- The invariant rule: an initial fact kept by every good step holds in every state reached. -/
theorem Reachable.invariant {ok : S → L → Prop} {P : S → Prop} (hinit : ∀ s, T.init s → P s)
    (hstep : ∀ s l s', P s → ok s l → T.step s l = some s' → P s') {s : S} (h : T.Reachable ok s) :
    P s := by
  obtain ⟨s₀, tr, hi, hr, hall⟩ := h
  exact hr.preserves hstep hall (hinit s₀ hi)

/-- The invariant rule on top of what is known of reached states. -/
theorem Reachable.invariant_of {ok : S → L → Prop} {P : S → Prop} (hinit : ∀ s, T.init s → P s)
    (hstep : ∀ s l s', T.Reachable ok s → P s → ok s l → T.step s l = some s' → P s') {s : S}
    (h : T.Reachable ok s) : P s := by
  have hboth : T.Reachable ok s ∧ P s := by
    apply h.invariant (P := fun s => T.Reachable ok s ∧ P s)
    · exact fun s hs => ⟨.init hs, hinit s hs⟩
    · intro s l s' ⟨hr, hP⟩ hok hs
      exact ⟨hr.next hok hs, hstep s l s' hr hP hok hs⟩
  exact hboth.2

/-- Forward simulation: a system whose steps are steps of another one, or change nothing there, reaches
only what the other one reaches. -/
theorem Reachable.simulates {S' L' : Type*} {T' : Transition S' L'} {ok : S → L → Prop}
    {ok' : S' → L' → Prop} {R : S → S' → Prop} (hinit : ∀ s, T.init s → ∃ s', T'.init s' ∧ R s s')
    (hstep : ∀ s l t s', R s s' → T'.Reachable ok' s' → ok s l → T.step s l = some t →
      R t s' ∨ ∃ l' t', ok' s' l' ∧ T'.step s' l' = some t' ∧ R t t') {s : S} (h : T.Reachable ok s) :
    ∃ s', T'.Reachable ok' s' ∧ R s s' := by
  apply h.invariant
  · intro s hs
    obtain ⟨s', hs', hR⟩ := hinit s hs
    exact ⟨s', .init hs', hR⟩
  · rintro s l t ⟨s', hr, hR⟩ hok hs
    obtain hsame | ⟨l', t', hok', hs', hR'⟩ := hstep s l t s' hR hr hok hs
    · exact ⟨s', hr, hsame⟩
    · exact ⟨t', hr.next hok' hs', hR'⟩

/-- The system with an auxiliary variable that starts as `start` and follows the steps. -/
def instrument {G : Type*} (T : Transition S L) (start : G) (after : G → S → L → G) :
    Transition (S × G) L where
  init x := T.init x.1 ∧ x.2 = start
  step x l := (T.step x.1 l).map fun s => (s, after x.2 x.1 l)

/-- An auxiliary variable does not take part: every state reached is reached with some value of it. -/
theorem Reachable.instrument {G : Type*} {ok : S → L → Prop} {s : S} (h : T.Reachable ok s) (start : G)
    (after : G → S → L → G) :
    ∃ g, (T.instrument start after).Reachable (fun x l => ok x.1 l) (s, g) := by
  apply h.invariant
  · exact fun s hs => ⟨start, .init ⟨hs, rfl⟩⟩
  · rintro s l s' ⟨g, hg⟩ hok hs
    exact ⟨after g s l, hg.next hok (by simp [Transition.instrument, hs])⟩

theorem instrument_step {G : Type*} {start : G} {after : G → S → L → G} {x y : S × G} {l : L}
    (h : (T.instrument start after).step x l = some y) :
    T.step x.1 l = some y.1 ∧ y.2 = after x.2 x.1 l := by
  obtain ⟨s, hs, rfl⟩ := Option.map_eq_some_iff.mp h
  exact ⟨hs, rfl⟩

/-- A replayed list of labels is a run. -/
theorem run_of_replay (ls : List L) {s t : S} (h : T.replay s ls = some t) :
    T.Run s (T.trail s ls) t := by
  induction ls generalizing s with
  | nil =>
    obtain rfl : s = t := by simpa [replay] using h
    exact .start
  | cons l ls ih =>
    obtain ⟨u, hu, hrest⟩ := Option.bind_eq_some_iff.mp (by simpa [replay] using h)
    have hfirst : T.Run s [(s, l)] u := by simpa using (Run.start (T := T) (s := s)).next hu
    simpa [trail, hu] using hfirst.append (ih hrest)

theorem replay_getD {s : S} {ls : List L} (h : (T.replay s ls).isSome) (d : S) :
    T.replay s ls = some ((T.replay s ls).getD d) := by
  obtain ⟨t, ht⟩ := Option.isSome_iff_exists.mp h
  rw [ht]
  rfl

theorem mem_trail {s : S} {ls : List L} {p : S × L} (h : p ∈ T.trail s ls) : p.2 ∈ ls := by
  induction ls generalizing s with
  | nil => cases h
  | cons l ls ih =>
    simp only [trail, List.mem_cons] at h
    obtain rfl | h := h
    · exact List.mem_cons_self
    · split at h
      · exact List.mem_cons_of_mem _ (ih h)
      · cases h

theorem Reachable.of_good_replay {ok : S → L → Prop} {s t : S} (hi : T.init s) (ls : List L)
    (h : T.replay s ls = some t) (hok : ∀ l ∈ ls, ∀ u, ok u l) : T.Reachable ok t :=
  ⟨s, _, hi, run_of_replay ls h, fun p hp => hok p.2 (mem_trail hp) p.1⟩

theorem Reachable.of_replay {s t : S} (hi : T.init s) (ls : List L) (h : T.replay s ls = some t) :
    T.Reachable (fun _ _ => True) t :=
  ⟨s, _, hi, run_of_replay ls h, fun _ _ => trivial⟩

theorem Reachable.of_guided {M : Type*} {choose : S → M → Option L} {ok : S → L → Prop}
    [∀ s l, Decidable (ok s l)] (ms : List M) {s t : S} (h : T.Reachable ok s)
    (ht : T.guided choose ok s ms = some t) : T.Reachable ok t := by
  induction ms generalizing s with
  | nil =>
    obtain rfl := Option.some.inj ht
    exact h
  | cons m ms ih =>
    obtain ⟨l, -, ht⟩ := Option.bind_eq_some_iff.mp ht
    split at ht
    · rename_i hok
      obtain ⟨u, hu, hrest⟩ := Option.bind_eq_some_iff.mp ht
      exact ih (h.next hok hu) hrest
    · cases ht

end Transition
end TinyosGraphics.Lib
