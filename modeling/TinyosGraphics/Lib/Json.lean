import Mathlib.Data.List.Induction

/-! JSON values, as json-c builds them: an object keeps its members, and an array its items, in the order in
which they are added. Texts are byte strings, and numbers with a fraction are of any type. Arrays are built by loops
over lists with a function that can fail. -/
namespace TinyosGraphics.Lib

inductive Json (D : Type)
  | null
  | int (n : Int)
  | double (x : D)
  | string (text : List UInt8)
  | array (items : List (Json D))
  | object (members : List (List UInt8 × Json D))

namespace Json
variable {D : Type}

/-- `json_object_object_add` of a key that the object does not have; `none` on what is no object. -/
def objectAdd (key : List UInt8) (value : Json D) : Json D → Option (Json D)
  | object members => some (object (members ++ [(key, value)]))
  | _ => none

/-- `json_object_array_add`. -/
def arrayAdd (item : Json D) : Json D → Option (Json D)
  | array items => some (array (items ++ [item]))
  | _ => none

/-- `json_object_object_get`. -/
def objectGet (key : List UInt8) : Json D → Option (Json D)
  | object members => (members.find? fun m => m.1 == key).map (·.2)
  | _ => none

end Json

theorem length_of_mapM {α β : Type} {f : α → Option β} {xs : List α} {ys : List β} (h : xs.mapM f = some ys) :
    ys.length = xs.length := by
  induction xs generalizing ys with
  | nil =>
    obtain rfl := Option.some.inj h
    rfl
  | cons x xs ih =>
    rw [List.mapM_cons] at h
    obtain ⟨y, -, h⟩ := Option.bind_eq_some_iff.mp h
    obtain ⟨ys', hys, h⟩ := Option.bind_eq_some_iff.mp h
    obtain rfl := Option.some.inj h
    rw [List.length_cons, List.length_cons, ih hys]

theorem mem_of_mapM {α β : Type} {f : α → Option β} {xs : List α} {ys : List β} (h : xs.mapM f = some ys) {y : β}
    (hy : y ∈ ys) : ∃ x ∈ xs, f x = some y := by
  induction xs generalizing ys with
  | nil =>
    obtain rfl := Option.some.inj h
    cases hy
  | cons x xs ih =>
    rw [List.mapM_cons] at h
    obtain ⟨z, hz, h⟩ := Option.bind_eq_some_iff.mp h
    obtain ⟨zs, hzs, h⟩ := Option.bind_eq_some_iff.mp h
    obtain rfl := Option.some.inj h
    obtain rfl | hy := List.mem_cons.mp hy
    · exact ⟨x, .head _, hz⟩
    · obtain ⟨x', hx', hfx⟩ := ih hzs hy
      exact ⟨x', .tail _ hx', hfx⟩

theorem mapM_isSome_iff {α β : Type} {f : α → Option β} {xs : List α} :
    (xs.mapM f).isSome ↔ ∀ x ∈ xs, (f x).isSome := by
  induction xs with
  | nil => simp
  | cons x xs ih =>
    rw [List.mapM_cons, List.forall_mem_cons, ← ih]
    cases f x with
    | none => simp
    | some y => cases xs.mapM f <;> simp

theorem mapM_optionMap {α β γ : Type} (f : α → Option β) (g : β → γ) (xs : List α) :
    (xs.mapM fun x => (f x).map g) = (xs.mapM f).map (List.map g) := by
  induction xs with
  | nil => rfl
  | cons x xs ih =>
    rw [List.mapM_cons, List.mapM_cons, ih]
    cases f x with
    | none => rfl
    | some y => cases xs.mapM f <;> rfl

/-- A loop over indices that finds each item of `ys` in its turn. -/
theorem mapM_range {m : Type → Type} [Monad m] [LawfulMonad m] {β : Type} {f : Nat → m β} {ys : List β}
    (h : ∀ i y, ys[i]? = some y → f i = pure y) : (List.range ys.length).mapM f = pure ys := by
  induction ys using List.reverseRecOn with
  | nil => rfl
  | append_singleton ys y ih =>
    have hfront : (List.range ys.length).mapM f = pure ys := by
      refine ih fun i z hz => h i z ?_
      rwa [List.getElem?_append_left (List.getElem?_eq_some_iff.mp hz).1]
    have hlast : f ys.length = pure y := h ys.length y (by simp)
    rw [List.length_append, List.length_singleton, List.range_succ, List.mapM_append, hfront, List.mapM_cons, hlast]
    simp

end TinyosGraphics.Lib
