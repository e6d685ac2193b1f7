import Mathlib.Data.List.Basic

/-! Names that get a number when they are first seen, as tables with an automatic key give it. A name
keeps its number, and two names never have the same one. -/
namespace TinyosGraphics.Lib

variable {N : Type} [DecidableEq N]

/-- The number of a name, after adding it where it is new and the numbers have not run out. -/
def intern (capacity : Nat) (names : List N) (name : N) : Option (List N × Nat) :=
  match names.idxOf? name with
  | some i => some (names, i)
  | none => if names.length < capacity then some (names ++ [name], names.length) else none

/-- The name has a number, or there is one left for it. -/
def HasRoom (capacity : Nat) (names : List N) (name : N) : Prop :=
  name ∈ names ∨ names.length < capacity

theorem idxOf?_append (names more : List N) (name : N) :
    (names ++ more).idxOf? name = (names.idxOf? name).or ((more.idxOf? name).map (· + names.length)) := by
  exact List.findIdx?_append

theorem idxOf?_inj {names : List N} {a b : N} {i : Nat} (ha : names.idxOf? a = some i)
    (hb : names.idxOf? b = some i) : a = b := by
  obtain ⟨_, ha, -⟩ := List.idxOf?_eq_some_iff.mp ha
  obtain ⟨_, hb, -⟩ := List.idxOf?_eq_some_iff.mp hb
  exact ha.symm.trans hb

variable {capacity : Nat} {names names' : List N} {name : N} {i : Nat}

theorem intern_isSome_iff : (intern capacity names name).isSome ↔ HasRoom capacity names name := by
  rw [HasRoom, ← List.isSome_idxOf?, intern]
  cases names.idxOf? name with
  | some i => simp
  | none => by_cases h : names.length < capacity <;> simp [h]

theorem intern_eq_none_iff : intern capacity names name = none ↔ ¬ HasRoom capacity names name := by
  rw [← intern_isSome_iff, Option.not_isSome_iff_eq_none]

/-- A name that is there changes nothing. -/
theorem intern_of_idxOf? (h : names.idxOf? name = some i) : intern capacity names name = some (names, i) := by
  rw [intern, h]

theorem intern_of_new (hname : name ∉ names) (h : intern capacity names name = some (names', i)) :
    names' = names ++ [name] ∧ i = names.length := by
  rw [intern, List.idxOf?_eq_none_iff.mpr hname] at h
  dsimp only at h
  split at h
  · obtain ⟨rfl, rfl⟩ := Prod.mk.inj (Option.some.inj h)
    exact ⟨rfl, rfl⟩
  · cases h

/-- The number given is the name's from then on. -/
theorem idxOf?_intern (h : intern capacity names name = some (names', i)) : names'.idxOf? name = some i := by
  cases hfound : names.idxOf? name with
  | some j =>
    rw [intern_of_idxOf? hfound] at h
    obtain ⟨rfl, rfl⟩ := Prod.mk.inj (Option.some.inj h)
    exact hfound
  | none =>
    obtain ⟨rfl, rfl⟩ := intern_of_new (List.idxOf?_eq_none_iff.mp hfound) h
    rw [idxOf?_append, hfound]
    simp

/-- Other names keep theirs, and get none. -/
theorem idxOf?_intern_of_ne {other : N} (hne : other ≠ name) (h : intern capacity names name = some (names', i)) :
    names'.idxOf? other = names.idxOf? other := by
  cases hfound : names.idxOf? name with
  | some j =>
    rw [intern_of_idxOf? hfound] at h
    rw [(Prod.mk.inj (Option.some.inj h)).1]
  | none =>
    obtain ⟨rfl, -⟩ := intern_of_new (List.idxOf?_eq_none_iff.mp hfound) h
    rw [idxOf?_append, List.idxOf?_singleton, if_neg (by simpa using hne.symm), Option.map_none, Option.or_none]

/-- What is kept under the numbers given so far is found under the same names. -/
theorem bind_idxOf?_intern {β : Type} {f : Nat → Option β} (h : intern capacity names name = some (names', i))
    (hf : f names.length = none) (other : N) : (names'.idxOf? other).bind f = (names.idxOf? other).bind f := by
  by_cases hne : other = name
  · subst hne
    cases hfound : names.idxOf? other with
    | some j =>
      rw [intern_of_idxOf? hfound] at h
      rw [← (Prod.mk.inj (Option.some.inj h)).1, hfound]
    | none =>
      obtain ⟨-, hi⟩ := intern_of_new (List.idxOf?_eq_none_iff.mp hfound) h
      rw [idxOf?_intern h, hi, Option.bind_some, hf, Option.bind_none]
  · rw [idxOf?_intern_of_ne hne h]

/-- Of the numbers given so far, the one a name gets is the one it has. -/
theorem idxOf?_eq_some_iff_intern (h : intern capacity names name = some (names', i)) {j : Nat}
    (hj : j < names.length) : names.idxOf? name = some j ↔ j = i := by
  cases hfound : names.idxOf? name with
  | some k =>
    rw [intern_of_idxOf? hfound] at h
    obtain ⟨-, rfl⟩ := Prod.mk.inj (Option.some.inj h)
    rw [Option.some.injEq]
    exact eq_comm
  | none =>
    obtain ⟨-, rfl⟩ := intern_of_new (List.idxOf?_eq_none_iff.mp hfound) h
    exact iff_of_false (by simp) (Nat.ne_of_lt hj)

theorem length_le_intern (h : intern capacity names name = some (names', i)) : names.length ≤ names'.length := by
  cases hfound : names.idxOf? name with
  | some j =>
    rw [intern_of_idxOf? hfound] at h
    exact Nat.le_of_eq (congrArg List.length (Prod.mk.inj (Option.some.inj h)).1)
  | none =>
    obtain ⟨rfl, -⟩ := intern_of_new (List.idxOf?_eq_none_iff.mp hfound) h
    simp

theorem lt_length_of_idxOf? (h : names.idxOf? name = some i) : i < names.length :=
  (List.idxOf?_eq_some_iff.mp h).1

theorem mem_intern (h : intern capacity names name = some (names', i)) : name ∈ names' :=
  List.isSome_idxOf?.mp (by rw [idxOf?_intern h]; rfl)

end TinyosGraphics.Lib
