import Mathlib.Data.List.Perm.Basic
import Mathlib.Data.List.Count
import Mathlib.Tactic.Tauto
import Mathlib.Data.List.Nodup

/-! A family of threads as the list of their program counters, of which one moves at a time: what is counted or held
over the family changes by what the moving thread contributes. A ledger lists items with the events each of them has
had; it agrees with the log that the items share when these are the item's own events, in their order. -/
namespace TinyosGraphics.Lib.Threads

variable {P α : Type*} {pcs : List P} {i : Nat} {pc : P}

/-- The moving thread and the others. -/
theorem split (h : pcs[i]? = some pc) :
    ∃ rest, pcs.Perm (pc :: rest) ∧ ∀ pc', (pcs.set i pc').Perm (pc' :: rest) := by
  obtain ⟨hi, rfl⟩ := List.getElem?_eq_some_iff.mp h
  exact ⟨pcs.eraseIdx i, (List.getElem_cons_eraseIdx_perm hi).symm, List.set_perm_cons_eraseIdx hi⟩

theorem countP_set (h : pcs[i]? = some pc) (p : P → Bool) (pc' : P) :
    (pcs.set i pc').countP p + (if p pc then 1 else 0) = pcs.countP p + (if p pc' then 1 else 0) := by
  obtain ⟨rest, hall, hset⟩ := split h
  rw [(hset pc').countP_eq, hall.countP_eq, List.countP_cons, List.countP_cons]
  omega

theorem held_split (h : pcs[i]? = some pc) (f : P → Option α) :
    ∃ rest, (pcs.filterMap f).Perm ((f pc).toList ++ rest) ∧
      ∀ pc', ((pcs.set i pc').filterMap f).Perm ((f pc').toList ++ rest) := by
  obtain ⟨rest, hall, hset⟩ := split h
  have hcons : ∀ q : P, (q :: rest).filterMap f = (f q).toList ++ rest.filterMap f := fun q => by
    cases hq : f q <;> simp [hq]
  refine ⟨rest.filterMap f, ?_, fun pc' => ?_⟩
  · rw [← hcons]
    exact hall.filterMap f
  · rw [← hcons]
    exact (hset pc').filterMap f

theorem held_set_of_eq (h : pcs[i]? = some pc) {f : P → Option α} {pc' : P} (hf : f pc' = f pc) :
    ((pcs.set i pc').filterMap f).Perm (pcs.filterMap f) := by
  obtain ⟨rest, hall, hset⟩ := held_split h f
  exact (hset pc').trans (hf ▸ hall.symm)

theorem mem_of_getElem? (h : pcs[i]? = some pc) : pc ∈ pcs :=
  List.mem_of_getElem? h

/-- A property of every thread survives the move of one that keeps it. -/
theorem forall_set {Q : P → Prop} (hall : ∀ q ∈ pcs, Q q) {pc' : P} (h : Q pc') :
    ∀ q ∈ pcs.set i pc', Q q := by
  intro q hq
  rcases List.mem_or_eq_of_mem_set hq with hq | rfl
  · exact hall q hq
  · exact h

theorem forall_set_iff {Q : P → Prop} (h : pcs[i]? = some pc) (hpc : Q pc) (pc' : P) :
    (∀ q ∈ pcs.set i pc', Q q) ↔ (∀ q ∈ pcs, Q q) ∧ Q pc' := by
  obtain ⟨rest, hall, hset⟩ := split h
  simp only [(hset pc').mem_iff, hall.mem_iff, List.forall_mem_cons]
  tauto

end TinyosGraphics.Lib.Threads

namespace TinyosGraphics.Lib.Ledger

variable {α ε κ : Type*} [DecidableEq κ] (key : α → κ) (ekey : ε → κ)

def own (log : List ε) (k : κ) : List ε :=
  log.filter fun e => decide (ekey e = k)

structure Agrees (entries : List (α × List ε)) (log : List ε) : Prop where
  nodup : (entries.map fun p => key p.1).Nodup
  own : ∀ p ∈ entries, own ekey log (key p.1) = p.2

variable {key ekey} {entries entries' : List (α × List ε)} {log : List ε} {a : α} {es : List ε} {e : ε}

@[simp] theorem own_append (log log' : List ε) (k : κ) :
    own ekey (log ++ log') k = own ekey log k ++ own ekey log' k := by
  simp [own]

theorem own_singleton (e : ε) (k : κ) : own ekey [e] k = if ekey e = k then [e] else [] := by
  by_cases h : ekey e = k <;> simp [own, h]

theorem own_eq_nil {k : κ} (h : ∀ e ∈ log, ekey e ≠ k) : own ekey log k = [] := by
  simpa [own] using h

theorem Agrees.perm (h : Agrees key ekey entries log) (hp : entries'.Perm entries) :
    Agrees key ekey entries' log :=
  ⟨(hp.map _).nodup_iff.mpr h.nodup, fun p hp' => h.own p (hp.mem_iff.mp hp')⟩

theorem Agrees.event (h : Agrees key ekey ((a, es) :: entries) log) (he : ekey e = key a) :
    Agrees key ekey ((a, es ++ [e]) :: entries) (log ++ [e]) := by
  have hnodup := h.nodup
  rw [List.map_cons, List.nodup_cons] at hnodup
  refine ⟨by simpa using h.nodup, fun p hp => ?_⟩
  rw [own_append, own_singleton]
  rcases List.mem_cons.mp hp with rfl | hp
  · rw [if_pos he, h.own (a, es) (by simp)]
  · have hne : ekey e ≠ key p.1 := by
      rintro heq
      exact hnodup.1 (List.mem_map.mpr ⟨p, hp, heq.symm.trans he⟩)
    rw [if_neg hne, List.append_nil]
    exact h.own p (List.mem_cons_of_mem _ hp)

/-- A new item begins without events. -/
theorem Agrees.add (h : Agrees key ekey entries log) (hnew : ∀ p ∈ entries, key p.1 ≠ key a)
    (hlog : ∀ e ∈ log, ekey e ≠ key a) : Agrees key ekey ((a, []) :: entries) log := by
  refine ⟨?_, fun p hp => ?_⟩
  · rw [List.map_cons, List.nodup_cons]
    refine ⟨fun hmem => ?_, h.nodup⟩
    obtain ⟨p, hp, hk⟩ := List.mem_map.mp hmem
    exact hnew p hp hk
  · rcases List.mem_cons.mp hp with rfl | hp
    · exact own_eq_nil hlog
    · exact h.own p hp

end TinyosGraphics.Lib.Ledger
