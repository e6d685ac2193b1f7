import Mathlib.Algebra.BigOperators.Group.Finset.Piecewise
import Mathlib.Algebra.Order.Group.Multiset
import Mathlib.Data.List.Nodup
import Mathlib.Tactic.Abel

/-! Items that are made, handed around and disposed of: each is in a queue, in somebody's hands, or disposed of, and
in one of these places only. -/
namespace TinyosGraphics.Lib

variable {T α : Type*} [Fintype T]

/-- Of `all` items made so far some are `queued`, some in the hands of a `T`, and the others disposed of, as the list
of keys says. The next key is `next`. -/
structure Custody (key : α → Nat) (all queued : List α) (held : T → Multiset α) (disposed : List Nat) (next : Nat) :
    Prop where
  nodup : (all.map key).Nodup
  fresh : ∀ a ∈ all, key a < next
  parts : ∃ done : List α, done.map key = disposed ∧
    (all : Multiset α) = (queued : Multiset α) + ∑ t, held t + (done : Multiset α)

namespace Custody
variable {key : α → Nat} {all queued : List α} {held : T → Multiset α} {disposed : List Nat} {next : Nat} {a : α}

theorem empty (key : α → Nat) (next : Nat) : Custody key [] [] (fun _ : T => 0) [] next where
  nodup := List.nodup_nil
  fresh := List.forall_mem_nil _
  parts := ⟨[], rfl, by simp⟩

section
variable [DecidableEq T]

/-- What one has, and what all the others have. -/
theorem split (held : T → Multiset α) (t : T) :
    ∃ others, ∑ t, held t = held t + others ∧ ∀ m, ∑ t', Function.update held t m t' = m + others := by
  refine ⟨∑ t' ∈ Finset.univ \ {t}, held t', ?_, fun m => ?_⟩
  · rw [Finset.sdiff_singleton_eq_erase, Finset.add_sum_erase _ _ (Finset.mem_univ t)]
  · exact Finset.sum_update_of_mem (Finset.mem_univ t) held m

/-- An item is made. -/
theorem make (h : Custody key all queued held disposed next) (t : T) (ha : key a = next) :
    Custody key (all ++ [a]) queued (Function.update held t (a ::ₘ held t)) disposed (next + 1) where
  nodup := by
    rw [List.map_append, List.map_singleton, List.nodup_append]
    refine ⟨h.nodup, List.nodup_singleton _, ?_⟩
    rintro _ hk _ hk' rfl
    obtain ⟨b, hb, hbk⟩ := List.mem_map.mp hk
    have hlt := h.fresh b hb
    rw [hbk, List.mem_singleton.mp hk', ha] at hlt
    exact lt_irrefl _ hlt
  fresh b hb := by
    rcases List.mem_append.mp hb with hb | hb
    · exact (h.fresh b hb).trans (Nat.lt_succ_self _)
    · rw [List.mem_singleton.mp hb, ha]
      exact Nat.lt_succ_self _
  parts := by
    obtain ⟨done, hdone, hparts⟩ := h.parts
    obtain ⟨others, hsum, hupdate⟩ := split held t
    refine ⟨done, hdone, ?_⟩
    rw [hsum] at hparts
    rw [hupdate, ← Multiset.coe_add, hparts, ← Multiset.singleton_add, Multiset.coe_singleton]
    abel

/-- One changes the queue and what he has, and disposes of what is neither in the one nor in the other then. -/
theorem move (h : Custody key all queued held disposed next) {t : T} {queued' gone : List α} {m : Multiset α}
    (hmove : (queued : Multiset α) + held t = queued' + m + (gone : Multiset α)) :
    Custody key all queued' (Function.update held t m) (disposed ++ gone.map key) next where
  nodup := h.nodup
  fresh := h.fresh
  parts := by
    obtain ⟨done, hdone, hparts⟩ := h.parts
    obtain ⟨others, hsum, hupdate⟩ := split held t
    refine ⟨done ++ gone, by rw [List.map_append, hdone], ?_⟩
    calc (all : Multiset α) = queued + held t + others + (done : Multiset α) := by rw [hparts, hsum]; abel
      _ = queued' + (m + others) + ((done ++ gone : List α) : Multiset α) := by rw [hmove, ← Multiset.coe_add]; abel
      _ = _ := by rw [hupdate]

theorem put (h : Custody key all queued held disposed next) {t : T} {rest : Multiset α} (ht : held t = a ::ₘ rest) :
    Custody key all (queued ++ [a]) (Function.update held t rest) disposed next := by
  have hmove : (queued : Multiset α) + held t = (queued ++ [a] : List α) + rest + (([] : List α) : Multiset α) := by
    rw [ht, ← Multiset.coe_add, ← Multiset.singleton_add, Multiset.coe_singleton, Multiset.coe_nil]
    abel
  simpa only [List.map_nil, List.append_nil] using h.move hmove

theorem take (h : Custody key all (a :: queued) held disposed next) (t : T) :
    Custody key all queued (Function.update held t (a ::ₘ held t)) disposed next := by
  have hmove : ((a :: queued : List α) : Multiset α) + held t =
      queued + (a ::ₘ held t) + (([] : List α) : Multiset α) := by
    rw [← Multiset.cons_coe, ← Multiset.singleton_add, ← Multiset.singleton_add a (held t), Multiset.coe_nil]
    abel
  simpa only [List.map_nil, List.append_nil] using h.move hmove

/-- An item in one's hands is disposed of. -/
theorem dispose (h : Custody key all queued held disposed next) {t : T} {rest : Multiset α} (ht : held t = a ::ₘ rest) :
    Custody key all queued (Function.update held t rest) (disposed ++ [key a]) next := by
  have hmove : (queued : Multiset α) + held t = queued + rest + (([a] : List α) : Multiset α) := by
    rw [ht, ← Multiset.singleton_add, Multiset.coe_singleton]
    abel
  exact h.move hmove

end

/-- An item is in the queue, in somebody's hands, or disposed of once. -/
theorem disposed_once (h : Custody key all queued held disposed next) (ha : a ∈ all) (hqueued : a ∉ queued)
    (hheld : ∀ t, a ∉ held t) : disposed.count (key a) = 1 := by
  obtain ⟨done, rfl, hparts⟩ := h.parts
  have hdone : a ∈ done := by
    have hmem : a ∈ (queued : Multiset α) + ∑ t, held t + (done : Multiset α) := hparts ▸ Multiset.mem_coe.mpr ha
    rcases Multiset.mem_add.mp hmem with hmem | hmem
    · rcases Multiset.mem_add.mp hmem with hmem | hmem
      · exact absurd (Multiset.mem_coe.mp hmem) hqueued
      · obtain ⟨t, -, ht⟩ := Multiset.mem_sum.mp hmem
        exact absurd ht (hheld t)
    · exact Multiset.mem_coe.mp hmem
  have hle : (done : Multiset α) ≤ all := hparts ▸ Multiset.le_add_left _ _
  have hnodup : (done.map key).Nodup := by
    have hall : Multiset.Nodup ((all : Multiset α).map key) := Multiset.coe_nodup.mpr h.nodup
    exact Multiset.coe_nodup.mp (Multiset.nodup_of_le (Multiset.map_le_map hle) hall)
  exact List.count_eq_one_of_mem hnodup (List.mem_map_of_mem hdone)

end Custody
end TinyosGraphics.Lib
