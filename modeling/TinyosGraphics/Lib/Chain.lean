import Mathlib.Data.List.Nodup
import Mathlib.Logic.Function.Basic

/-! Chains of nodes in memory, each with a link to the next. Memory is seen through `next`: `none` where
there is no node, otherwise the link that the node holds. -/
namespace TinyosGraphics.Lib

variable {A : Type*}

/-- Following the links from `l` visits these nodes and comes to the null link. -/
def Chain (next : A → Option (Option A)) : Option A → List A → Prop
  | l, [] => l = none
  | l, a :: as => l = some a ∧ ∃ l', next a = some l' ∧ Chain next l' as

/-- The nodes met when the links are followed, also where memory has no node for a link. -/
inductive Reaches (next : A → Option (Option A)) : Option A → A → Prop
  | here (a) : Reaches next (some a) a
  | there {a l b} : next a = some l → Reaches next l b → Reaches next (some a) b

namespace Chain
variable {next next' : A → Option (Option A)} {l : Option A} {as bs : List A} {a b : A}

theorem unique (h : Chain next l as) (h' : Chain next l bs) : as = bs := by
  induction as generalizing l bs with
  | nil =>
    cases bs with
    | nil => rfl
    | cons b bs =>
      obtain rfl : l = none := h
      cases h'.1
  | cons a as ih =>
    obtain ⟨rfl, l', hnext, hrest⟩ := h
    cases bs with
    | nil => cases h'
    | cons b bs =>
      obtain ⟨heq, m, hnext', hrest'⟩ := h'
      obtain rfl := Option.some.inj heq
      obtain rfl := Option.some.inj (hnext.symm.trans hnext')
      rw [ih hrest hrest']

theorem drop_to (h : Chain next l (as ++ a :: bs)) : Chain next (some a) (a :: bs) := by
  induction as generalizing l with
  | nil =>
    obtain ⟨rfl, -⟩ := id h
    exact h
  | cons c as ih =>
    obtain ⟨-, l', -, hrest⟩ := h
    exact ih hrest

/-- A chain does not come back to a node. -/
theorem nodup (h : Chain next l as) : as.Nodup := by
  induction as generalizing l with
  | nil => exact List.nodup_nil
  | cons a as ih =>
    obtain ⟨rfl, l', hnext, hrest⟩ := id h
    refine List.nodup_cons.mpr ⟨?_, ih hrest⟩
    intro hmem
    obtain ⟨front, back, rfl⟩ := List.append_of_mem hmem
    have hlen := congrArg List.length (unique h (drop_to hrest))
    simp only [List.length_cons, List.length_append] at hlen
    omega

theorem ne_of_mem_front (h : Chain next l (as ++ a :: bs)) (hb : b ∈ as) : b ≠ a := by
  rintro rfl
  exact (List.nodup_append.mp h.nodup).2.2 b hb b (by simp) rfl

theorem isSome (h : Chain next l as) (ha : a ∈ as) : (next a).isSome := by
  induction as generalizing l with
  | nil => cases ha
  | cons b as ih =>
    obtain ⟨rfl, l', hnext, hrest⟩ := h
    rcases List.mem_cons.mp ha with rfl | ha
    · simp [hnext]
    · exact ih hrest ha

theorem reaches_iff (h : Chain next l as) : Reaches next l a ↔ a ∈ as := by
  induction as generalizing l with
  | nil =>
    obtain rfl : l = none := h
    refine ⟨fun hr => ?_, fun ha => by cases ha⟩
    cases hr
  | cons b as ih =>
    obtain ⟨rfl, l', hnext, hrest⟩ := h
    rw [List.mem_cons, ← ih hrest]
    constructor
    · rintro (_ | ⟨hnext', hr⟩)
      · exact .inl rfl
      · obtain rfl := Option.some.inj (hnext.symm.trans hnext')
        exact .inr hr
    · rintro (rfl | hr)
      · exact .here a
      · exact .there hnext hr

theorem nil_iff (h : Chain next l as) : l = none ↔ as = [] := by
  cases as with
  | nil => exact iff_of_true h rfl
  | cons a as =>
    obtain ⟨rfl, -⟩ := h
    simp

theorem eq_head? (h : Chain next l as) : l = as.head? := by
  cases as with
  | nil => exact h
  | cons a as => exact h.1

/-- The links of other nodes do not matter. -/
theorem congr (h : Chain next l as) (heq : ∀ a ∈ as, next' a = next a) : Chain next' l as := by
  induction as generalizing l with
  | nil => exact h
  | cons a as ih =>
    obtain ⟨rfl, l', hnext, hrest⟩ := h
    exact ⟨rfl, l', (heq a (by simp)).trans hnext, ih hrest fun b hb => heq b (by simp [hb])⟩

theorem last (h : Chain next l (as ++ [a])) : next a = some none := by
  obtain ⟨-, l', hnext, rfl⟩ := drop_to h
  exact hnext

/-- A node is hung in behind the last one. -/
theorem snoc (h : Chain next l (as ++ [a])) (hlast : next' a = some (some b)) (hb : next' b = some none)
    (hrest : ∀ c ∈ as, next' c = next c) : Chain next' l (as ++ [a, b]) := by
  induction as generalizing l with
  | nil =>
    obtain ⟨rfl, -⟩ := h
    exact ⟨rfl, _, hlast, rfl, _, hb, rfl⟩
  | cons c as ih =>
    obtain ⟨rfl, l', hnext, hchain⟩ := h
    exact ⟨rfl, l', (hrest c (by simp)).trans hnext, ih hchain fun d hd => hrest d (by simp [hd])⟩

/-- A node is still reached when the links of the nodes in front of it are as they were. -/
theorem reaches_of_links (h : Chain next l (as ++ a :: bs)) (heq : ∀ c ∈ as, next' c = next c) :
    Reaches next' l a := by
  induction as generalizing l with
  | nil =>
    obtain ⟨rfl, -⟩ := h
    exact .here a
  | cons c as ih =>
    obtain ⟨rfl, l', hnext, hrest⟩ := h
    exact .there ((heq c (by simp)).trans hnext) (ih hrest fun d hd => heq d (by simp [hd]))

end Chain
end TinyosGraphics.Lib
