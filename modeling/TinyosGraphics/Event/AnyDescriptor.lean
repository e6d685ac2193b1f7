import TinyosGraphics.Event.RefusedCalls

/-! The schedule table under any descriptor the kernel may return. The table keeps an entry wherever
there is room, but four of its five functions subscript it with the descriptor first. -/
namespace TinyosGraphics.Event
open Lib TgxEvent

variable {H C : Type}

/-- One descriptor's way through the table: it is stored, found, given another handler and removed
again, and every access on the way is inside the array. -/
structure Carries (te : TgxEvent H C) (fd : Int) (h h' : H) (context : Option C) : Prop where
  stored : ∃ te₁, tgxEventScheduleRegister te fd (some h) context true = some (0, te₁) ∧
    (∃ i, te₁.schedArray i = some ⟨fd, some h, context⟩) ∧
    tgxEventGetHandler te₁ fd = some (some h) ∧ tgxEventGetContext te₁ fd = some context ∧
    tgxEventScheduleUnregister te₁ fd = some (0, te) ∧
    ∃ te₂, tgxEventSetHandler te₁ fd (some h') none = some (0, te₂) ∧
      tgxEventGetHandler te₂ fd = some (some h') ∧ tgxEventGetContext te₂ fd = some context ∧
      tgxEventScheduleUnregister te₂ fd = some (0, te)

variable {te : TgxEvent H C} {fd : Int}

private theorem setSlot_bump_clear {i : Fin te.maxfds} (hi : te.schedArray i = none)
    (s : Option (Schedule H C)) :
    { (te.bump.setSlot i s).setSlot i none with usedfds := (te.bump.setSlot i s).usedfds - 1 } = te := by
  have harray : Function.update (Function.update te.schedArray i s) i none = te.schedArray := by
    rw [Function.update_idem, ← hi, Function.update_eq_self]
  show ({ te with
    schedArray := Function.update (Function.update te.schedArray i s) i none
    usedfds := te.usedfds + 1 - 1 } : TgxEvent H C) = te
  rw [harray, Nat.add_sub_cancel]

private theorem unregister_stored (hw : te.WellFormed) (hr : te.InRange fd) {i : Fin te.maxfds}
    {s : Schedule H C} (hs : te.schedArray i = some s) (hfd : s.fd = fd) :
    tgxEventScheduleUnregister te fd =
      some (0, { te.setSlot i none with usedfds := te.usedfds - 1 }) := by
  have hfind : tgxFindScheduleIndex te fd = some (some i) := by
    rw [find_spec hw hr, ← hfd, SlotTable.find_eq_some hw hs]
  have h0 : ¬ fd < 0 := not_lt.mpr hr.1
  have hmax : ¬ (fd > te.maxfds - 1 ∨ fd < 0) := by
    have := hr.2
    omega
  rw [tgxEventScheduleUnregister, if_neg h0, if_neg hmax, hfind]
  rfl

/-- A descriptor inside the array is carried by every table that counts room for it. -/
private theorem carries_of_inRange (hw : te.WellFormed) (hl : te.lookup fd = none) (hr : te.InRange fd)
    (hroom : te.usedfds + 1 < te.maxfds) {i₀ : Fin te.maxfds} (hi₀ : te.schedArray i₀ = none) (h h' : H)
    (context : Option C) : Carries te fd h h' context := by
  obtain ⟨te₁, hreg⟩ : ∃ te', tgxEventScheduleRegister te fd (some h) context true = some (0, te') :=
    register_succeeds rfl hr hroom hi₀
  obtain ⟨hw₁, hmax₁, ⟨-, -, hlook₁⟩ | ⟨hneg, -⟩⟩ := register_spec hw hl hreg
  swap
  · cases hneg
  obtain ⟨-, hneg, -⟩ | ⟨-, -, hneg, -⟩ | ⟨-, -, -, -, i, hi, -, rfl⟩ := register_cases hreg
  · cases hneg
  · cases hneg
  have hslot : (te.bump.setSlot i (some ⟨fd, some h, context⟩)).schedArray i =
      some ⟨fd, some h, context⟩ := by
    exact Function.update_self i _ _
  have hr₁ : (te.bump.setSlot i (some ⟨fd, some h, context⟩)).InRange fd := hr
  have hentry : (te.bump.setSlot i (some ⟨fd, some h, context⟩)).lookup fd =
      some ⟨fd, some h, context⟩ := by
    rw [hlook₁, if_pos rfl]
  have hback := unregister_stored hw₁ hr₁ hslot rfl
  rw [setSlot_bump_clear hi] at hback
  obtain ⟨te₂, hset⟩ : ∃ te', tgxEventSetHandler _ fd (some h') none = some (0, te') :=
    setHandler_registered hw₁ hr₁ hentry rfl
  obtain ⟨hw₂, hmax₂, ⟨-, hneg⟩ | ⟨s, hs, -, -, hlook₂⟩⟩ := setHandler_spec hw₁ hset
  · cases hneg
  obtain rfl := Option.some.inj (hentry.symm.trans hs)
  obtain ⟨hneg, -⟩ | ⟨j, s, hfind, hj, hfd, -, -, rfl⟩ := setHandler_cases hset
  · cases hneg
  obtain rfl : i = j := by
    rw [find_spec hw₁ hr₁] at hfind
    exact Option.some.inj ((SlotTable.find_eq_some hw₁ hslot).symm.trans (Option.some.inj hfind))
  refine ⟨⟨_, hreg, ⟨i, hslot⟩, ?_, ?_, hback, _, hset, ?_, ?_, ?_⟩⟩
  · rw [getHandler_spec hw₁ hr₁, hentry, Option.bind_some]
  · rw [getContext_spec hw₁ hr₁, hentry, Option.bind_some]
  · rw [getHandler_spec hw₂ hr₁, hlook₂, if_pos rfl, Option.bind_some]
  · rw [getContext_spec hw₂ hr₁, hlook₂, if_pos rfl, Option.bind_some]
  · rw [unregister_stored hw₂ hr₁ (i := i) (s := { s with handler := some h' })
      (Function.update_self i _ _) hfd]
    have htwice := setSlot_bump_clear hi (some { s with handler := some h' })
    simpa [setSlot, bump] using htwice

/-- A table with a spare slot and fewer than `maxfds - 1` entries carries exactly the descriptors
that are inside the array, as long as it counts room for one more. -/
theorem carries_iff (hw : te.WellFormed) (h0 : 0 ≤ fd) (hnew : ∀ i s, te.schedArray i = some s → s.fd ≠ fd)
    (hfew : SlotTable.used te.schedArray < te.maxfds - 1) (h h' : H) (context : Option C) :
    Carries te fd h h' context ↔ fd < te.maxfds ∧ te.usedfds + 1 < te.maxfds := by
  constructor
  · rintro ⟨te₁, hreg, -⟩
    obtain ⟨-, hneg, -⟩ | ⟨-, -, hneg, -⟩ | ⟨-, hin, hroom, -⟩ := register_cases hreg
    · cases hneg
    · cases hneg
    · exact ⟨hin.2, hroom⟩
  · rintro ⟨hin, hroom⟩
    obtain ⟨i, hi⟩ := SlotTable.exists_free (show SlotTable.used te.schedArray < te.maxfds by omega)
    exact carries_of_inRange hw (SlotTable.get_eq_none_iff.mpr hnew) ⟨h0, hin⟩ hroom hi h h' context

def crowdedTable : TgxEvent Bool Unit where
  maxfds := 5
  maxfds_pos := by decide
  schedArray i :=
    if i.val = 0 then some ⟨3, some true, none⟩
    else if i.val = 2 then some ⟨0, some false, some ()⟩
    else none
  usedfds := 2
  epollFd := 3
  epollEvents _ := ⟨0, 0⟩
  engine := some .linuxEpoll

private theorem crowdedTable_wellFormed : crowdedTable.WellFormed := by
  have hall : ∀ i j, ∀ a ∈ crowdedTable.schedArray i, ∀ b ∈ crowdedTable.schedArray j, a.fd = b.fd → i = j := by
    decide
  exact fun i j a b ha hb => hall i j a ha b hb

theorem carries_crowded : Carries crowdedTable 2 true false (some ()) := by
  have hnew : ∀ i, ∀ s ∈ crowdedTable.schedArray i, s.fd ≠ 2 := by
    decide
  exact (carries_iff crowdedTable_wellFormed (by decide) hnew (by decide) true false (some ())).mpr
    ⟨by decide, by decide⟩

/-- An empty table of four slots, and descriptor 7: the registration reads `sched_array[7]`. -/
theorem descriptor_outside_table :
    ¬ ∀ (te : TgxEvent Bool Unit) (fd : Int), te.WellFormed → 0 ≤ fd →
      (∀ i s, te.schedArray i = some s → s.fd ≠ fd) → SlotTable.used te.schedArray < te.maxfds - 1 →
      Carries te fd true false (some ()) := by
  intro h
  obtain ⟨te₁, hreg, -⟩ := (h (tgxEventInit 4 3) 7 (fun _ _ _ _ h => by cases h) (by decide)
    (fun _ _ h => by cases h) (by decide)).stored
  have hnone : tgxEventScheduleRegister (tgxEventInit 4 3 : TgxEvent Bool Unit) 7 (some true) (some ())
      true = none := rfl
  rw [hnone] at hreg
  cases hreg

end TinyosGraphics.Event
