import Mathlib.Algebra.CharP.Two
import Mathlib.Algebra.Field.ZMod
import Mathlib.Algebra.Polynomial.Div
import Mathlib.RingTheory.AdjoinRoot
import Mathlib.RingTheory.PrincipalIdealDomain

/-! Cyclic redundancy checks: a shift register with feedback divides polynomials over GF(2), and the
words it accepts are the multiples of its generator. -/
namespace TinyosGraphics.Lib.CyclicCode
open Polynomial

variable {w : Nat}

def bit (b : Bool) : ZMod 2 :=
  if b then 1 else 0

@[simp] theorem bit_false : bit false = 0 := rfl
@[simp] theorem bit_true : bit true = 1 := rfl

theorem bit_xor (a b : Bool) : bit (a ^^ b) = bit a + bit b := by
  revert a b
  decide

theorem bit_injective : Function.Injective bit := by
  intro a b
  revert a b
  decide

/-- A word as a polynomial, bit `i` being the coefficient of `X ^ i`. -/
noncomputable def poly (v : BitVec w) : (ZMod 2)[X] :=
  ∑ i ∈ Finset.range w, C (bit (v.getLsbD i)) * X ^ i

@[simp] theorem coeff_poly (v : BitVec w) (i : Nat) : (poly v).coeff i = bit (v.getLsbD i) := by
  simp only [poly, finsetSum_coeff, coeff_C_mul_X_pow, Finset.sum_ite_eq, Finset.mem_range]
  split
  · rfl
  · rename_i hi
    rw [BitVec.getLsbD_of_ge v i (not_lt.mp hi), bit_false]

theorem poly_injective : Function.Injective (poly : BitVec w → (ZMod 2)[X]) := by
  intro a b h
  apply BitVec.eq_of_getLsbD_eq
  intro i _
  have hi := congrArg (fun p : (ZMod 2)[X] => p.coeff i) h
  simp only [coeff_poly] at hi
  exact bit_injective hi

theorem poly_xor (a b : BitVec w) : poly (a ^^^ b) = poly a + poly b := by
  ext i
  simp [bit_xor]

theorem degree_poly_lt (v : BitVec w) : (poly v).degree < w := by
  rw [degree_lt_iff_coeff_zero]
  intro i hi
  rw [coeff_poly, BitVec.getLsbD_of_ge v i hi, bit_false]

/-- Multiplying by `X` moves the top bit out of the word. -/
theorem X_mul_poly (v : BitVec w) : X * poly v = poly (v <<< 1) + C (bit v.msb) * X ^ w := by
  ext i
  rw [coeff_add, coeff_C_mul_X_pow, coeff_poly, BitVec.getLsbD_shiftLeft]
  cases i with
  | zero =>
    rw [coeff_X_mul_zero]
    rcases Nat.eq_zero_or_pos w with rfl | hw
    · simp [BitVec.msb_eq_getLsbD_last]
    · simp [hw.ne]
  | succ i =>
    rw [coeff_X_mul, coeff_poly]
    by_cases hi : i + 1 < w
    · simp [hi, hi.ne]
    · by_cases htop : i + 1 = w
      · subst htop
        simp [BitVec.msb_eq_getLsbD_last]
      · simp [hi, htop, BitVec.getLsbD_of_ge v i (by omega)]

/-- A byte at the top of a word. -/
theorem poly_top (hw : 8 ≤ w) (b : BitVec 8) :
    poly (b.setWidth w <<< (w - 8)) = X ^ (w - 8) * poly b := by
  ext i
  rw [coeff_poly, BitVec.getLsbD_shiftLeft, coeff_X_pow_mul', BitVec.getLsbD_setWidth]
  by_cases hlow : i < w - 8
  · simp [hlow, show ¬ w - 8 ≤ i by omega]
  · by_cases hi : i < w
    · simp [hlow, hi, show w - 8 ≤ i by omega, show i - (w - 8) < w by omega]
    · simp [hlow, hi, show w - 8 ≤ i by omega, BitVec.getLsbD_of_ge b (i - (w - 8)) (by omega)]

theorem poly_append (a : BitVec w) (b : BitVec 8) : poly (a ++ b) = X ^ 8 * poly a + poly b := by
  ext i
  rw [coeff_add, coeff_poly, coeff_poly, coeff_X_pow_mul', BitVec.getLsbD_append]
  by_cases hi : i < 8
  · simp [hi]
  · simp [hi, BitVec.getLsbD_of_ge b i (not_lt.mp hi)]

/-- The polynomial that the feedback `g` divides by. -/
noncomputable def generator (g : BitVec w) : (ZMod 2)[X] :=
  X ^ w + poly g

theorem degree_generator (g : BitVec w) : (generator g).degree = w := by
  rw [generator, degree_add_eq_left_of_degree_lt] <;> rw [degree_X_pow]
  exact degree_poly_lt g

def shift (g v : BitVec w) : BitVec w :=
  if v.msb then (v <<< 1) ^^^ g else v <<< 1

def shifts (g : BitVec w) : Nat → BitVec w → BitVec w
  | 0, v => v
  | k + 1, v => shifts g k (shift g v)

def feed (g v : BitVec w) (b : BitVec 8) : BitVec w :=
  shifts g 8 (v ^^^ (b.setWidth w <<< (w - 8)))

/-- The register after a message. -/
def check (g v : BitVec w) (bs : List (BitVec 8)) : BitVec w :=
  bs.foldl (feed g) v

noncomputable def residue (g : BitVec w) : (ZMod 2)[X] →+* AdjoinRoot (generator g) :=
  AdjoinRoot.mk (generator g)

theorem residue_eq_zero_iff {g : BitVec w} {p : (ZMod 2)[X]} :
    residue g p = 0 ↔ generator g ∣ p :=
  AdjoinRoot.mk_eq_zero

theorem residue_eq_iff {g : BitVec w} {p q : (ZMod 2)[X]} :
    residue g p = residue g q ↔ generator g ∣ p + q := by
  rw [← sub_eq_zero, ← map_sub, CharTwo.sub_eq_add, residue_eq_zero_iff]

/-- A word is determined by what it leaves. -/
theorem residue_poly_injective {g a b : BitVec w} (h : residue g (poly a) = residue g (poly b)) :
    a = b := by
  have hzero : poly a + poly b = 0 := by
    apply eq_zero_of_dvd_of_degree_lt (residue_eq_iff.mp h)
    rw [degree_generator, ← poly_xor]
    exact degree_poly_lt _
  exact poly_injective (CharTwo.add_eq_zero.mp hzero)

theorem poly_shift (g v : BitVec w) :
    poly (shift g v) = X * poly v + C (bit v.msb) * generator g := by
  rw [X_mul_poly, generator, shift]
  cases v.msb with
  | false => simp
  | true =>
    have htwice : (X ^ w + X ^ w : (ZMod 2)[X]) = 0 := CharTwo.add_self_eq_zero _
    simp only [if_true, poly_xor, bit_true, map_one, one_mul]
    linear_combination -htwice

theorem residue_shift (g v : BitVec w) :
    residue g (poly (shift g v)) = residue g X * residue g (poly v) := by
  have hself : residue g (generator g) = 0 := AdjoinRoot.mk_self
  rw [poly_shift, map_add, map_mul, map_mul, hself, mul_zero, add_zero]

theorem residue_shifts (g : BitVec w) (k : Nat) (v : BitVec w) :
    residue g (poly (shifts g k v)) = residue g X ^ k * residue g (poly v) := by
  induction k generalizing v with
  | zero => rw [shifts, pow_zero, one_mul]
  | succ k ih => rw [shifts, ih, residue_shift, pow_succ, mul_assoc]

theorem residue_feed (hw : 8 ≤ w) (g v : BitVec w) (b : BitVec 8) :
    residue g (poly (feed g v b)) =
      residue g X ^ 8 * residue g (poly v) + residue g X ^ w * residue g (poly b) := by
  have hpow : residue g X ^ 8 * residue g X ^ (w - 8) = residue g X ^ w := by
    rw [← pow_add, Nat.add_sub_cancel' hw]
  rw [feed, residue_shifts, poly_xor, poly_top hw, map_add, map_mul, map_pow, mul_add, ← mul_assoc, hpow]

/-- A message as a polynomial, its first bit being the leading one. -/
noncomputable def message : List (BitVec 8) → (ZMod 2)[X]
  | [] => 0
  | b :: bs => X ^ (8 * bs.length) * poly b + message bs

theorem message_append (as bs : List (BitVec 8)) :
    message (as ++ bs) = X ^ (8 * bs.length) * message as + message bs := by
  induction as with
  | nil => simp [message]
  | cons a as ih =>
    rw [List.cons_append, message, message, ih, List.length_append]
    ring

theorem message_xor (as bs : List (BitVec 8)) (h : as.length = bs.length) :
    message (List.zipWith (· ^^^ ·) as bs) = message as + message bs := by
  induction as generalizing bs with
  | nil =>
    obtain rfl := List.eq_nil_of_length_eq_zero h.symm
    simp [message]
  | cons a as ih =>
    cases bs with
    | nil => cases h
    | cons b bs =>
      have hlen : as.length = bs.length := by simpa using h
      rw [List.zipWith_cons_cons, message, message, message, ih bs hlen, poly_xor, List.length_zipWith, hlen,
        Nat.min_self]
      ring

/-- The register divides. -/
theorem residue_check (hw : 8 ≤ w) (g v : BitVec w) (bs : List (BitVec 8)) :
    residue g (poly (check g v bs)) =
      residue g X ^ (8 * bs.length) * residue g (poly v) + residue g X ^ w * residue g (message bs) := by
  induction bs generalizing v with
  | nil => simp [check, message]
  | cons b bs ih =>
    rw [check, List.foldl_cons, ← check, ih, residue_feed hw, message, map_add, map_mul, map_pow,
      List.length_cons]
    ring

/-- The check word of a message is the one that makes the two a multiple of the generator. -/
theorem check_eq_iff (hw : 8 ≤ w) {g c : BitVec w} {bs : List (BitVec 8)} :
    check g 0 bs = c ↔ generator g ∣ X ^ w * message bs + poly c := by
  have hzero : poly (0 : BitVec w) = 0 := by
    ext i
    simp
  have hcheck : residue g (poly (check g 0 bs)) = residue g (X ^ w * message bs) := by
    rw [residue_check hw, hzero, map_zero, mul_zero, zero_add, map_mul, map_pow]
  rw [← residue_eq_iff, ← hcheck]
  constructor
  · rintro rfl
    rfl
  · exact residue_poly_injective

theorem monic_generator (g : BitVec w) : (generator g).Monic :=
  monic_X_pow_add (degree_poly_lt g)

/-- The check word is the remainder of the message, moved up by the length of the word. -/
theorem poly_check (hw : 8 ≤ w) (g : BitVec w) (bs : List (BitVec 8)) :
    poly (check g 0 bs) = (X ^ w * message bs) %ₘ generator g := by
  have hdvd : generator g ∣ X ^ w * message bs + poly (check g 0 bs) := (check_eq_iff hw).mp rfl
  obtain ⟨q, hq⟩ := hdvd
  have htwice : poly (check g 0 bs) + poly (check g 0 bs) = 0 := CharTwo.add_self_eq_zero _
  have hsplit : poly (check g 0 bs) + generator g * q = X ^ w * message bs := by
    rw [← hq]
    linear_combination htwice
  refine (div_modByMonic_unique q _ (monic_generator g) ⟨hsplit, ?_⟩).2.symm
  rw [degree_generator]
  exact degree_poly_lt _

/-- Bit `k` of a message, the most significant bit of its first byte being bit 0. -/
def bitAt (bs : List (BitVec 8)) (k : Nat) : Bool :=
  (bs.getD (k / 8) 0).getLsbD (7 - k % 8)

def flips (bs : List (BitVec 8)) : Finset Nat :=
  (Finset.range (8 * bs.length)).filter fun k => bitAt bs k = true

theorem coeff_message (bs : List (BitVec 8)) (j : Nat) :
    (message bs).coeff j = if j < 8 * bs.length then bit (bitAt bs (8 * bs.length - 1 - j)) else 0 := by
  induction bs with
  | nil => simp [message]
  | cons b bs ih =>
    rw [message, coeff_add, ih, coeff_X_pow_mul', coeff_poly, List.length_cons]
    rcases lt_or_ge j (8 * bs.length) with hj | hj
    · have hk : 8 * (bs.length + 1) - 1 - j = (8 * bs.length - 1 - j) + 8 := by omega
      have hdiv : ((8 * bs.length - 1 - j) + 8) / 8 = (8 * bs.length - 1 - j) / 8 + 1 := by omega
      have hmod : ((8 * bs.length - 1 - j) + 8) % 8 = (8 * bs.length - 1 - j) % 8 := by omega
      simp [bitAt, hk, hdiv, hmod, hj, show ¬ 8 * bs.length ≤ j by omega,
        show j < 8 * (bs.length + 1) by omega]
    · rcases lt_or_ge j (8 * (bs.length + 1)) with hj' | hj'
      · have hdiv : (8 * (bs.length + 1) - 1 - j) / 8 = 0 := by omega
        have hmod : 7 - (8 * (bs.length + 1) - 1 - j) % 8 = j - 8 * bs.length := by omega
        simp [bitAt, hdiv, hmod, hj, hj', show ¬ j < 8 * bs.length by omega]
      · simp [hj, show ¬ j < 8 * bs.length by omega, show ¬ j < 8 * (bs.length + 1) by omega,
          BitVec.getLsbD_of_ge b (j - 8 * bs.length) (by omega)]

theorem mem_flips {bs : List (BitVec 8)} {k : Nat} :
    k ∈ flips bs ↔ k < 8 * bs.length ∧ bitAt bs k = true := by
  simp [flips]

theorem flips_nonempty {bs : List (BitVec 8)} (h : ∃ b ∈ bs, b ≠ 0) : (flips bs).Nonempty := by
  obtain ⟨b, hb, hne⟩ := h
  obtain ⟨i, hi, rfl⟩ := List.getElem_of_mem hb
  obtain ⟨j, hj, hbit⟩ : ∃ j < 8, bs[i].getLsbD j = true := by
    by_contra hnone
    refine hne (BitVec.eq_of_getLsbD_eq fun j hj => ?_)
    rw [Bool.eq_false_iff.mpr fun hbit => hnone ⟨j, hj, hbit⟩]
    exact BitVec.getLsbD_zero.symm
  have hdiv : (8 * i + (7 - j)) / 8 = i := by omega
  have hmod : 7 - (8 * i + (7 - j)) % 8 = j := by omega
  refine ⟨8 * i + (7 - j), mem_flips.mpr ⟨by omega, ?_⟩⟩
  rw [bitAt, hdiv, hmod, ← List.getElem_eq_getD (h := hi), hbit]

theorem coeff_message_eq_zero {bs : List (BitVec 8)} {j : Nat}
    (h : j < 8 * bs.length → 8 * bs.length - 1 - j ∉ flips bs) : (message bs).coeff j = 0 := by
  rw [coeff_message]
  split
  · rename_i hj
    cases hbit : bitAt bs (8 * bs.length - 1 - j) with
    | false => rfl
    | true => exact absurd (mem_flips.mpr ⟨by omega, hbit⟩) (h hj)
  · rfl

theorem natDegree_message_le (bs : List (BitVec 8)) : (message bs).natDegree ≤ 8 * bs.length := by
  rw [natDegree_le_iff_coeff_eq_zero]
  intro j hj
  rw [coeff_message, if_neg (not_lt.mpr hj.le)]

theorem eval_one_message (bs : List (BitVec 8)) : (message bs).eval 1 = ((flips bs).card : ZMod 2) := by
  rw [eval_eq_sum_range' (Nat.lt_succ_of_le (natDegree_message_le bs)), Finset.sum_range_succ]
  have hcoeff : ∀ j ∈ Finset.range (8 * bs.length), (message bs).coeff j * 1 ^ j =
      bit (bitAt bs (8 * bs.length - 1 - j)) := by
    intro j hj
    rw [coeff_message, if_pos (Finset.mem_range.mp hj), one_pow, mul_one]
  have hlast : (message bs).coeff (8 * bs.length) = 0 := by
    rw [coeff_message, if_neg (lt_irrefl _)]
  rw [Finset.sum_congr rfl hcoeff, hlast, zero_mul, add_zero,
    Finset.sum_range_reflect (fun k => bit (bitAt bs k)) (8 * bs.length)]
  exact Finset.sum_boole _ _

/-- A generator with an even number of terms detects every odd number of flipped bits. -/
theorem detects_odd {g : BitVec w} (hg : (generator g).eval 1 = 0) {e : List (BitVec 8)}
    (hodd : Odd (flips e).card) : ¬ generator g ∣ message e := by
  rintro ⟨q, hq⟩
  have heven : ((flips e).card : ZMod 2) = 0 := by
    rw [← eval_one_message, hq, eval_mul, hg, zero_mul]
  have hone : ((flips e).card : ZMod 2) = 1 := by
    rw [CharTwo.natCast_eq_ite, if_neg (Nat.not_even_iff_odd.mpr hodd)]
  exact zero_ne_one (heven.symm.trans hone)

/-- A generator with a constant term detects every burst that is no longer than the register. -/
theorem detects_burst {g : BitVec w} (hg : (generator g).coeff 0 ≠ 0) {e : List (BitVec 8)}
    (hne : (flips e).Nonempty) {s : Nat} (hburst : ∀ k ∈ flips e, s ≤ k ∧ k < s + w) :
    ¬ generator g ∣ message e := by
  intro hdvd
  -- the burst is a polynomial of lower degree than the generator, times a power of `X`
  obtain ⟨q, hq⟩ : X ^ (8 * e.length - (s + w)) ∣ message e := by
    refine X_pow_dvd_iff.mpr fun j hj => coeff_message_eq_zero fun _ hmem => ?_
    have := (hburst _ hmem).2
    omega
  have hcoprime : IsCoprime (generator g) (X ^ (8 * e.length - (s + w))) := by
    refine IsCoprime.pow_right (IsCoprime.symm ?_)
    rw [irreducible_X.coprime_iff_not_dvd, X_dvd_iff]
    exact hg
  have hqdvd : generator g ∣ q := by
    rw [hq] at hdvd
    exact hcoprime.dvd_of_dvd_mul_left hdvd
  have hqzero : q = 0 := by
    apply eq_zero_of_dvd_of_degree_lt hqdvd
    rw [degree_generator, degree_lt_iff_coeff_zero]
    intro j hj
    rw [← coeff_X_pow_mul q (8 * e.length - (s + w)) j, ← hq]
    refine coeff_message_eq_zero fun _ hmem => ?_
    have := (hburst _ hmem).1
    omega
  obtain ⟨k, hk⟩ := hne
  obtain ⟨hlt, hbit⟩ := mem_flips.mp hk
  have hcoeff := coeff_message e (8 * e.length - 1 - k)
  have hback : 8 * e.length - 1 - (8 * e.length - 1 - k) = k := by omega
  rw [hq, hqzero, mul_zero, coeff_zero, if_pos (by omega), hback, hbit, bit_true] at hcoeff
  exact zero_ne_one hcoeff

end TinyosGraphics.Lib.CyclicCode
