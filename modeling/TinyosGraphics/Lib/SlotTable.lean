import Mathlib.Data.Fintype.Card
import Mathlib.Data.List.FinRange

/-! A fixed array of optional entries, each with a key, read by scanning. While no two entries
share a key the array is a finite map, wherever its entries lie. -/
namespace TinyosGraphics.Lib.SlotTable

variable {n : Nat} {α κ : Type*} (key : α → κ)

abbrev Slots (n : Nat) (α : Type*) := Fin n → Option α

def find [DecidableEq κ] (slots : Slots n α) (k : κ) : Option (Fin n) :=
  (List.finRange n).find? fun i => (slots i).any fun a => decide (key a = k)

def firstFree (slots : Slots n α) : Option (Fin n) :=
  (List.finRange n).find? fun i => (slots i).isNone

def get [DecidableEq κ] (slots : Slots n α) (k : κ) : Option α :=
  (find key slots k).bind slots

/-- The number of slots in use. -/
def used (slots : Slots n α) : Nat :=
  (Finset.univ.filter fun i => (slots i).isSome).card

/-- No two slots hold entries with one key. -/
def Unique (slots : Slots n α) : Prop :=
  ∀ i j a b, slots i = some a → slots j = some b → key a = key b → i = j

variable {key} {slots : Slots n α}

theorem find_some [DecidableEq κ] {k : κ} {i : Fin n} (h : find key slots k = some i) :
    ∃ a, slots i = some a ∧ key a = k := by
  have := List.find?_some h
  simpa [Option.any_eq_true] using this

theorem find_none [DecidableEq κ] {k : κ} (h : find key slots k = none) {i : Fin n} {a : α} (ha : slots i = some a) :
    key a ≠ k := by
  have := List.find?_eq_none.mp h i (List.mem_finRange i)
  simpa [ha] using this

theorem find_eq_some [DecidableEq κ] (hu : Unique key slots) {i : Fin n} {a : α} (ha : slots i = some a) :
    find key slots (key a) = some i := by
  cases hf : find key slots (key a) with
  | none => exact absurd rfl (find_none hf ha)
  | some j =>
    obtain ⟨b, hb, hk⟩ := find_some hf
    rw [hu j i b a hb ha hk]

theorem firstFree_some {i : Fin n} (h : firstFree slots = some i) : slots i = none := by
  simpa using List.find?_some h

theorem firstFree_none (h : firstFree slots = none) (i : Fin n) : (slots i).isSome := by
  have := List.find?_eq_none.mp h i (List.mem_finRange i)
  simpa [Option.isSome_iff_ne_none] using this

theorem firstFree_isSome_iff : (firstFree slots).isSome ↔ ∃ i, slots i = none := by
  constructor
  · intro h
    obtain ⟨i, hi⟩ := Option.isSome_iff_exists.mp h
    exact ⟨i, firstFree_some hi⟩
  · rintro ⟨i, hi⟩
    by_contra hn
    have := firstFree_none (Option.not_isSome_iff_eq_none.mp hn) i
    simp [hi] at this

theorem get_eq_some_iff [DecidableEq κ] (hu : Unique key slots) {k : κ} {a : α} :
    get key slots k = some a ↔ ∃ i, slots i = some a ∧ key a = k := by
  constructor
  · intro h
    obtain ⟨i, hi, ha⟩ := Option.bind_eq_some_iff.mp h
    obtain ⟨b, hb, hk⟩ := find_some hi
    obtain rfl : b = a := Option.some.inj (hb.symm.trans ha)
    exact ⟨i, ha, hk⟩
  · rintro ⟨i, ha, rfl⟩
    rw [get, find_eq_some hu ha]
    exact ha

theorem get_key [DecidableEq κ] {k : κ} {a : α} (h : get key slots k = some a) : key a = k := by
  obtain ⟨i, hi, ha⟩ := Option.bind_eq_some_iff.mp h
  obtain ⟨b, hb, hk⟩ := find_some hi
  obtain rfl : b = a := Option.some.inj (hb.symm.trans ha)
  exact hk

theorem get_eq_none_iff [DecidableEq κ] {k : κ} : get key slots k = none ↔ ∀ i a, slots i = some a → key a ≠ k := by
  constructor
  · intro h i a ha
    cases hf : find key slots k with
    | none => exact find_none hf ha
    | some j =>
      obtain ⟨b, hb, -⟩ := find_some hf
      simp [get, hf, hb] at h
  · intro h
    cases hf : find key slots k with
    | none => simp [get, hf]
    | some j =>
      obtain ⟨b, hb, hk⟩ := find_some hf
      exact absurd hk (h j b hb)

/-- Filling or replacing slot `i` keeps keys unique when no other slot has the new key. -/
theorem Unique.put (hu : Unique key slots) {i : Fin n} {a : α}
    (hnew : ∀ j b, j ≠ i → slots j = some b → key b ≠ key a) :
    Unique key (Function.update slots i (some a)) := by
  intro j l b c hb hc hk
  by_cases hj : j = i <;> by_cases hl : l = i
  · rw [hj, hl]
  · rw [Function.update_of_ne hl] at hc
    rw [hj, Function.update_self] at hb
    exact absurd (Option.some.inj hb ▸ hk.symm) (hnew l c hl hc)
  · rw [Function.update_of_ne hj] at hb
    rw [hl, Function.update_self] at hc
    exact absurd (Option.some.inj hc ▸ hk) (hnew j b hj hb)
  · rw [Function.update_of_ne hj] at hb
    rw [Function.update_of_ne hl] at hc
    exact hu j l b c hb hc hk

theorem Unique.clear (hu : Unique key slots) (i : Fin n) :
    Unique key (Function.update slots i none) := by
  intro j l b c hb hc hk
  rcases eq_or_ne j i with rfl | hj
  · simp at hb
  rcases eq_or_ne l i with rfl | hl
  · simp at hc
  rw [Function.update_of_ne hj] at hb
  rw [Function.update_of_ne hl] at hc
  exact hu j l b c hb hc hk

/-- Writing an entry changes what is stored under its own key and nothing else, when the slot was
empty or held an entry of that key. -/
theorem get_put [DecidableEq κ] (hu : Unique key slots) {i : Fin n} {a : α}
    (hold : ∀ b, slots i = some b → key b = key a)
    (hnew : ∀ j b, j ≠ i → slots j = some b → key b ≠ key a) (k : κ) :
    get key (Function.update slots i (some a)) k = if k = key a then some a else get key slots k := by
  have hu' := hu.put hnew
  split
  · rename_i hk
    exact (get_eq_some_iff hu').mpr ⟨i, by simp, hk.symm⟩
  · rename_i hk
    ext b
    rw [get_eq_some_iff hu', get_eq_some_iff hu]
    constructor
    · rintro ⟨j, hj, hb⟩
      rcases eq_or_ne j i with rfl | hji
      · simp only [Function.update_self, Option.some.injEq] at hj
        exact absurd (hj ▸ hb).symm hk
      · rw [Function.update_of_ne hji] at hj
        exact ⟨j, hj, hb⟩
    · rintro ⟨j, hj, hb⟩
      have hji : j ≠ i := by
        rintro rfl
        exact hk (hb.symm.trans (hold b hj))
      exact ⟨j, by rw [Function.update_of_ne hji]; exact hj, hb⟩

theorem get_clear [DecidableEq κ] (hu : Unique key slots) {i : Fin n} {a : α} (ha : slots i = some a) (k : κ) :
    get key (Function.update slots i none) k = if k = key a then none else get key slots k := by
  have hu' := hu.clear i
  split
  · rename_i hk
    refine get_eq_none_iff.mpr fun j b hj hb => ?_
    rcases eq_or_ne j i with rfl | hji
    · simp at hj
    · rw [Function.update_of_ne hji] at hj
      exact hji (hu j i b a hj ha (hb.trans hk))
  · rename_i hk
    ext b
    rw [get_eq_some_iff hu', get_eq_some_iff hu]
    constructor
    · rintro ⟨j, hj, hb⟩
      rcases eq_or_ne j i with rfl | hji
      · simp at hj
      · rw [Function.update_of_ne hji] at hj
        exact ⟨j, hj, hb⟩
    · rintro ⟨j, hj, hb⟩
      have hji : j ≠ i := by
        rintro rfl
        rw [ha] at hj
        exact hk (Option.some.inj hj ▸ hb).symm
      exact ⟨j, by rw [Function.update_of_ne hji]; exact hj, hb⟩

theorem used_fill {i : Fin n} (hi : slots i = none) (a : α) :
    used (Function.update slots i (some a)) = used slots + 1 := by
  have hset : (Finset.univ.filter fun j => (Function.update slots i (some a) j).isSome) =
      insert i (Finset.univ.filter fun j => (slots j).isSome) := by
    ext j
    rcases eq_or_ne j i with rfl | hj <;> simp [*]
  rw [used, hset, Finset.card_insert_of_notMem (by simp [hi]), used]

theorem used_replace {i : Fin n} {b : α} (hi : slots i = some b) (a : α) :
    used (Function.update slots i (some a)) = used slots := by
  have hset : (Finset.univ.filter fun j => (Function.update slots i (some a) j).isSome) =
      Finset.univ.filter fun j => (slots j).isSome := by
    ext j
    rcases eq_or_ne j i with rfl | hj <;> simp [*]
  rw [used, hset, used]

theorem used_clear {i : Fin n} {a : α} (hi : slots i = some a) :
    used (Function.update slots i none) + 1 = used slots := by
  have hnone : Function.update slots i none i = none := by simp
  have h := used_fill hnone a
  rw [Function.update_idem, ← hi, Function.update_eq_self] at h
  exact h.symm

theorem exists_free (h : used slots < n) : ∃ i, slots i = none := by
  by_contra hn
  have hall : (Finset.univ.filter fun i => (slots i).isSome) = Finset.univ := by
    refine Finset.filter_true_of_mem fun i _ => ?_
    exact Option.isSome_iff_ne_none.mpr fun hi => hn ⟨i, hi⟩
  rw [used, hall, Finset.card_univ, Fintype.card_fin] at h
  exact lt_irrefl n h

theorem used_empty : used (fun _ : Fin n => (none : Option α)) = 0 := by
  simp [used]

end TinyosGraphics.Lib.SlotTable
