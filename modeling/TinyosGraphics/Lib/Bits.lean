import Mathlib.Data.Nat.Bitwise
import Mathlib.Data.List.GetD
import Mathlib.Tactic.Common
import Mathlib.Data.List.Basic

/-! Bit fields in blocks of bytes: numbers whose bits lie at given places of a stream of bits, with the first bit of a
byte at its top or at its bottom; the bits of machine words; and blocks whose parts are read and written one at a
time. -/
namespace TinyosGraphics.Lib.Bits

theorem testBit_or (x y : UInt64) (k : Nat) : (x ||| y).toNat.testBit k = (x.toNat.testBit k || y.toNat.testBit k) := by
  rw [UInt64.toNat_or, Nat.testBit_or]

theorem testBit_and (x y : UInt64) (k : Nat) :
    (x &&& y).toNat.testBit k = (x.toNat.testBit k && y.toNat.testBit k) := by
  rw [UInt64.toNat_and, Nat.testBit_and]

theorem toNat_ofNat_mod {n : Nat} (hn : n < 64) : (UInt64.ofNat n).toNat % 64 = n := by
  rw [UInt64.toNat_ofNat']
  omega

theorem testBit_shiftLeft (x : UInt64) {n : Nat} (hn : n < 64) (k : Nat) :
    (x <<< UInt64.ofNat n).toNat.testBit k = (decide (n ≤ k ∧ k < 64) && x.toNat.testBit (k - n)) := by
  rw [UInt64.toNat_shiftLeft, toNat_ofNat_mod hn, Nat.testBit_mod_two_pow, Nat.testBit_shiftLeft]
  by_cases hk : k < 64 <;> by_cases hle : n ≤ k <;> simp [hk, hle]

theorem testBit_shiftRight (x : UInt64) {n : Nat} (hn : n < 64) (k : Nat) :
    (x >>> UInt64.ofNat n).toNat.testBit k = x.toNat.testBit (n + k) := by
  rw [UInt64.toNat_shiftRight, toNat_ofNat_mod hn, Nat.testBit_shiftRight]

theorem testBit_byte_ge (b : UInt8) {k : Nat} (hk : 8 ≤ k) : b.toNat.testBit k = false :=
  Nat.testBit_eq_false_of_lt (b.toNat_lt.trans_le (Nat.pow_le_pow_right (by decide) hk))

theorem testBit_not (x : UInt64) (k : Nat) : (~~~x).toNat.testBit k = (decide (k < 64) && !x.toNat.testBit k) := by
  have hsub : (~~~x).toNat = 2 ^ 64 - (x.toNat + 1) := by
    rw [UInt64.toNat_not, Nat.sub_sub, Nat.add_comm]
    rfl
  rw [hsub, Nat.testBit_two_pow_sub_succ x.toNat_lt]

/-- The lowest `n` bits. -/
theorem testBit_low {n : Nat} (hn : n < 64) (k : Nat) :
    ((1 : UInt64) <<< UInt64.ofNat n - 1).toNat.testBit k = decide (k < n) := by
  have hpow : ((1 : UInt64) <<< UInt64.ofNat n).toNat = 2 ^ n := by
    rw [UInt64.toNat_shiftLeft, toNat_ofNat_mod hn, UInt64.toNat_one, Nat.one_shiftLeft]
    exact Nat.mod_eq_of_lt (Nat.pow_lt_pow_right (by decide) hn)
  have hle : (1 : UInt64) ≤ 1 <<< UInt64.ofNat n := by
    rw [UInt64.le_iff_toNat_le, hpow]
    exact Nat.two_pow_pos n
  rw [UInt64.toNat_sub_of_le _ _ hle, hpow]
  exact Nat.testBit_two_pow_sub_one n k

theorem testBit_toUInt8 (x : UInt64) (k : Nat) :
    x.toUInt8.toNat.testBit k = (decide (k < 8) && x.toNat.testBit k) := by
  rw [UInt64.toNat_toUInt8, Nat.testBit_mod_two_pow]

theorem testBit_toUInt64 (b : UInt8) (k : Nat) : b.toUInt64.toNat.testBit k = b.toNat.testBit k := by
  rw [UInt8.toNat_toUInt64]

/-- The bits of a block, where bit `pos r` of a byte is the `r`-th that is counted. -/
def bitAt (pos : Nat → Nat) (data : List UInt8) (i : Nat) : Bool :=
  (data.getD (i / 8) 0).toNat.testBit (pos (i % 8))

def beBit : List UInt8 → Nat → Bool :=
  bitAt (7 - ·)

def leBit : List UInt8 → Nat → Bool :=
  bitAt id

variable {pos : Nat → Nat} {data data' : List UInt8} {b r i : Nat}

theorem bitAt_byte (b : Nat) (hr : r < 8) : bitAt pos data (8 * b + r) = (data.getD b 0).toNat.testBit (pos r) := by
  have hdiv : (8 * b + r) / 8 = b := by omega
  have hmod : (8 * b + r) % 8 = r := by omega
  rw [bitAt, hdiv, hmod]

theorem getD_set (hb : b < data.length) (v : UInt8) (j : Nat) :
    (data.set b v).getD j 0 = if j = b then v else data.getD j 0 := by
  rw [List.getD_eq_getElem?_getD, List.getD_eq_getElem?_getD, List.getElem?_set]
  by_cases hj : j = b
  · rw [if_pos hj, if_pos hj.symm, if_pos hb]
    rfl
  · rw [if_neg hj, if_neg (Ne.symm hj)]

theorem bitAt_set (hb : b < data.length) (v : UInt8) (i : Nat) :
    bitAt pos (data.set b v) i = if i / 8 = b then v.toNat.testBit (pos (i % 8)) else bitAt pos data i := by
  rw [bitAt, getD_set hb]
  split <;> rfl

/-- A block that has been given new bits up to a place. -/
structure Overwritten (pos : Nat → Nat) (data : List UInt8) (new : Nat → Bool) (done : Nat) (data' : List UInt8) :
    Prop where
  length : data'.length = data.length
  bits : ∀ i, bitAt pos data' i = if i < done then new i else bitAt pos data i

/-- Nothing changes in front of the first byte that has a new bit. -/
theorem Overwritten.start {new : Nat → Bool} (h : ∀ i < 8 * b, new i = bitAt pos data i) :
    Overwritten pos data new (8 * b) data where
  length := rfl
  bits i := by
    split
    · exact (h i ‹_›).symm
    · rfl

/-- A byte that is still to be overwritten. -/
theorem Overwritten.byte {new : Nat → Bool} (h : Overwritten pos data new (8 * b) data') (hr : r < 8) :
    (data'.getD b 0).toNat.testBit (pos r) = bitAt pos data (8 * b + r) := by
  rw [← bitAt_byte b hr, h.bits, if_neg (by omega)]

/-- One byte more. -/
theorem Overwritten.next {new : Nat → Bool} (h : Overwritten pos data new (8 * b) data') (hb : b < data'.length)
    {v : UInt8} (hv : ∀ r < 8, v.toNat.testBit (pos r) = new (8 * b + r)) :
    Overwritten pos data new (8 * (b + 1)) (data'.set b v) where
  length := by rw [List.length_set, h.length]
  bits i := by
    rw [bitAt_set hb, h.bits]
    by_cases hi : i / 8 = b
    · have hsplit : i = 8 * b + i % 8 := by omega
      rw [if_pos hi, if_pos (by omega), hv _ (Nat.mod_lt _ (by decide)), ← hsplit]
    · rw [if_neg hi]
      by_cases hlt : i < 8 * b
      · rw [if_pos hlt, if_pos (by omega)]
      · rw [if_neg hlt, if_neg (by omega)]

/-- The whole block, once no new bit is left. -/
theorem Overwritten.all {new : Nat → Bool} {done : Nat} (h : Overwritten pos data new done data')
    (hrest : ∀ i, done ≤ i → new i = bitAt pos data i) : bitAt pos data' = new := by
  funext i
  rw [h.bits]
  split
  · rfl
  · exact (hrest i (Nat.le_of_not_lt ‹_›)).symm

/-- The number of `length` bits whose bit `j` is found in place `place j`. -/
def field (bits : Nat → Bool) (place : Nat → Nat) (length : Nat) : Nat :=
  Nat.ofBits fun j : Fin length => bits (place j)

variable {bits bits' : Nat → Bool} {place : Nat → Nat} {length : Nat}

theorem testBit_field (j : Nat) :
    (field bits place length).testBit j = (decide (j < length) && bits (place j)) := by
  by_cases hj : j < length
  · simp [field, hj, Nat.testBit_ofBits_lt]
  · simp [field, hj, Nat.testBit_ofBits_ge _ _ (Nat.le_of_not_lt hj)]

/-- A field holds what was put into its places. -/
theorem field_written {x : Nat} (h : ∀ j < length, bits (place j) = x.testBit j) :
    field bits place length = x % 2 ^ length := by
  refine Nat.eq_of_testBit_eq fun j => ?_
  rw [testBit_field, Nat.testBit_mod_two_pow]
  by_cases hj : j < length
  · rw [h j hj]
  · simp [hj]

theorem field_kept (h : ∀ j < length, bits' (place j) = bits (place j)) :
    field bits' place length = field bits place length := by
  refine Nat.eq_of_testBit_eq fun j => ?_
  rw [testBit_field, testBit_field]
  by_cases hj : j < length
  · rw [h j hj]
  · simp [hj]

/-- A word that has the bits from `lo` to `hi` of a field, and no others. -/
def Got (bits : Nat → Bool) (place : Nat → Nat) (lo hi : Nat) (x : UInt64) : Prop :=
  ∀ k, x.toNat.testBit k = (decide (lo ≤ k ∧ k < hi) && bits (place k))

theorem got_nothing (n : Nat) : Got bits place n n 0 := by
  intro k
  have hnot : ¬ (n ≤ k ∧ k < n) := by omega
  rw [decide_eq_false hnot]
  exact Nat.zero_testBit k

/-- Two parts of a field that meet. -/
theorem Got.or {lo mid hi : Nat} {x y : UInt64} (h : Got bits place lo mid x) (h' : Got bits place mid hi y)
    (hlo : lo ≤ mid) (hhi : mid ≤ hi) : Got bits place lo hi (x ||| y) := by
  intro k
  rw [testBit_or, h k, h' k]
  by_cases hmid : k < mid
  · have hin : (lo ≤ k ∧ k < hi) ↔ (lo ≤ k ∧ k < mid) := by omega
    have hout : ¬ (mid ≤ k ∧ k < hi) := by omega
    simp [hin, hout]
  · have hin : (lo ≤ k ∧ k < hi) ↔ (mid ≤ k ∧ k < hi) := by omega
    have hout : ¬ (lo ≤ k ∧ k < mid) := by omega
    simp [hin, hout]

/-- All of it. -/
theorem Got.field {x : UInt64} (h : Got bits place 0 length x) : x.toNat = Bits.field bits place length := by
  refine Nat.eq_of_testBit_eq fun k => ?_
  rw [h k, testBit_field]
  simp

end TinyosGraphics.Lib.Bits

namespace TinyosGraphics.Lib

/-- The parts of a block. A part lies in a block or not, a value fits into a part or not, and two parts may be kept
apart. -/
structure Parts (S F V : Type*) where
  get : S → F → Option V
  put : S → F → V → Option S
  Within : S → F → Prop
  Fits : F → V → Prop
  Apart : F → F → Prop

namespace Parts
variable {S F V : Type*}

/-- Write and read laws, for values that fit. -/
structure Lawful (P : Parts S F V) : Prop where
  apart_symm : ∀ {f g}, P.Apart f g → P.Apart g f
  put_within : ∀ {s f} v, P.Within s f → ∃ s', P.put s f v = some s' ∧ ∀ g, P.Within s g → P.Within s' g
  get_put : ∀ {s s' f v}, P.Within s f → P.Fits f v → P.put s f v = some s' → P.get s' f = some v
  get_other : ∀ {s s' f g v}, P.Within s f → P.Within s g → P.Fits f v → P.Apart f g → P.put s f v = some s' →
    P.get s' g = P.get s g

def putAll (P : Parts S F V) (s : S) (ws : List (F × V)) : Option S :=
  ws.foldlM (fun s w => P.put s w.1 w.2) s

variable {P : Parts S F V}

theorem putAll_cons {s s' : S} {w : F × V} {ws : List (F × V)} (h : P.put s w.1 w.2 = some s') :
    P.putAll s (w :: ws) = P.putAll s' ws := by
  rw [putAll, List.foldlM_cons, h]
  rfl

/-- Writes to parts that are kept apart: each part holds what was written to it, and every part apart from them what it
held. -/
theorem Lawful.putAll (hP : P.Lawful) {s : S} {ws : List (F × V)} (hin : ∀ w ∈ ws, P.Within s w.1)
    (hfit : ∀ w ∈ ws, P.Fits w.1 w.2) (hapart : ws.Pairwise fun w w' => P.Apart w.1 w'.1) :
    ∃ s', P.putAll s ws = some s' ∧ (∀ w ∈ ws, P.get s' w.1 = some w.2) ∧
      ∀ g, P.Within s g → (∀ w ∈ ws, P.Apart w.1 g) → P.get s' g = P.get s g := by
  induction ws generalizing s with
  | nil => exact ⟨s, rfl, nofun, fun _ _ _ => rfl⟩
  | cons w ws ih =>
    rw [List.forall_mem_cons] at hin hfit
    rw [List.pairwise_cons] at hapart
    obtain ⟨s₁, hput, hkeep⟩ := hP.put_within w.2 hin.1
    have hin₁ : ∀ v ∈ ws, P.Within s₁ v.1 := fun v hv => hkeep _ (hin.2 v hv)
    obtain ⟨s', hall, hget, hother⟩ := ih hin₁ hfit.2 hapart.2
    refine ⟨s', (putAll_cons hput).trans hall, ?_, fun g hg hg' => ?_⟩
    · rw [List.forall_mem_cons]
      refine ⟨?_, hget⟩
      -- the later writes are to other parts
      rw [hother w.1 (hkeep _ hin.1) fun v hv => hP.apart_symm (hapart.1 v hv)]
      exact hP.get_put hin.1 hfit.1 hput
    · rw [List.forall_mem_cons] at hg'
      rw [hother g (hkeep g hg) hg'.2]
      exact hP.get_other hin.1 hg hfit.1 hg'.1 hput

end Parts
end TinyosGraphics.Lib
