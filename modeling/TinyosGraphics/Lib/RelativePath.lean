import Mathlib.Data.List.Infix

/-! Relative paths, resolved component by component from left to right. -/
namespace TinyosGraphics.Lib

/-- What a component of a path does to the place that the ones before it lead to. -/
inductive Component
  | stay
  | up
  | down
  deriving DecidableEq

namespace Component

/-- How far below its start a path leads that is `depth` below already; `none` when a component climbs
above the start. -/
def resolve : Nat → List Component → Option Nat
  | depth, [] => some depth
  | depth, .stay :: rest => resolve depth rest
  | depth, .down :: rest => resolve (depth + 1) rest
  | 0, .up :: _ => none
  | depth + 1, .up :: rest => resolve depth rest

@[simp] theorem resolve_stay (depth : Nat) (rest : List Component) :
    resolve depth (.stay :: rest) = resolve depth rest := by
  cases depth <;> rfl

@[simp] theorem resolve_down (depth : Nat) (rest : List Component) :
    resolve depth (.down :: rest) = resolve (depth + 1) rest := by
  cases depth <;> rfl

theorem resolve_append (depth : Nat) (before rest : List Component) :
    resolve depth (before ++ rest) = (resolve depth before).bind fun d => resolve d rest := by
  induction before generalizing depth with
  | nil => cases depth <;> rfl
  | cons c before ih =>
    cases c with
    | stay => simpa using ih depth
    | down => simpa using ih (depth + 1)
    | up =>
      cases depth with
      | zero => rfl
      | succ depth => exact ih depth

/-- A path stays below its start when in no beginning of it more components go up than down. -/
theorem resolve_isSome_iff (depth : Nat) (cs : List Component) :
    (resolve depth cs).isSome ↔ ∀ before, before <+: cs → before.count .up ≤ depth + before.count .down := by
  induction cs generalizing depth with
  | nil =>
    have hsome : resolve depth [] = some depth := by cases depth <;> rfl
    simp [hsome]
  | cons c cs ih =>
    have hsplit : (∀ before, before <+: c :: cs → before.count .up ≤ depth + before.count .down) ↔
        ∀ before, before <+: cs → (c :: before).count .up ≤ depth + (c :: before).count .down := by
      constructor
      · intro h before hb
        exact h (c :: before) (List.prefix_cons_inj c |>.mpr hb)
      · intro h before hb
        obtain rfl | ⟨t, rfl, ht⟩ := List.prefix_cons_iff.mp hb
        · simp
        · exact h t ht
    rw [hsplit]
    cases c with
    | stay => simpa using ih depth
    | down =>
      rw [resolve_down, ih]
      refine forall₂_congr fun before _ => ?_
      rw [List.count_cons_self, List.count_cons_of_ne (by decide)]
      omega
    | up =>
      cases depth with
      | zero =>
        refine ⟨fun h => absurd h (by simp [resolve]), fun h => ?_⟩
        have hup := h [] (List.nil_prefix)
        simp at hup
      | succ depth =>
        rw [resolve, ih]
        refine forall₂_congr fun before _ => ?_
        rw [List.count_cons_self, List.count_cons_of_ne (by decide)]
        omega

def ofName (name : List UInt8) : Component :=
  if name = [] ∨ name = [46] then .stay else if name = [46, 46] then .up else .down

end Component

/-- The components of a path: what stands between its `/`. -/
def components (path : List UInt8) : List Component :=
  (path.splitOn 47).map Component.ofName

theorem components_append (path rest : List UInt8) :
    components (path ++ 47 :: rest) = components path ++ components rest := by
  rw [components, List.splitOn_append_cons_self, List.map_append]
  rfl

theorem components_name {name : List UInt8} (h : 47 ∉ name) : components name = [Component.ofName name] := by
  rw [components, List.splitOn_eq_singleton h, List.map_singleton]

end TinyosGraphics.Lib
