import Mathlib.Data.Nat.Digits.Lemmas
import Mathlib.Data.List.Infix
import Mathlib.Data.List.TakeWhile

/-! Blocks of memory and the C strings in them, with the functions of `string.h` and `stdlib.h`
that programs apply to them. A text is the bytes before the terminating NUL. -/
namespace TinyosGraphics.Lib

/-- Whether all bytes of a text are so is checked on the text, not on all bytes there are. -/
instance (priority := high) decidableForallBytes (p : UInt8 → Prop) [DecidablePred p] (bs : List UInt8) :
    Decidable (∀ b ∈ bs, p b) :=
  List.decidableBAll p bs

instance (priority := high) decidableForallByte (p : UInt8 → Prop) [DecidablePred p] (b : Option UInt8) :
    Decidable (∀ x ∈ b, p x) :=
  Option.decidableForallMem b

def ascii (s : String) : List UInt8 :=
  s.toList.map fun c => UInt8.ofNat c.toNat

/-- The value of an `int` after a conversion from a wider type or an overflow. -/
def toInt32 (x : Int) : Int :=
  x.bmod (2 ^ 32)

/-- The value of a `size_t` after a conversion from a signed type. -/
def toSizeT (x : Int) : Nat :=
  (x % 2 ^ 64).toNat

/-- A block of memory of fixed size, as `calloc` gives it; the bytes past the list are 0. -/
structure Block where
  size : Nat
  bytes : List UInt8
  deriving DecidableEq

namespace Block

def calloc (size : Nat) : Block :=
  ⟨size, []⟩

/-- The block with `bs` copied to it from position `pos` on. -/
def write (b : Block) (pos : Nat) (bs : List UInt8) : Block :=
  { b with
    bytes := (b.bytes ++ List.replicate (pos - b.bytes.length) 0).take pos ++ bs ++
      b.bytes.drop (pos + bs.length) }

def cString (b : Block) : List UInt8 :=
  b.bytes.takeWhile (· != 0)

/-- `strncat` of the bytes `bs`: those in front of a NUL go behind the text, and a NUL behind them.
`none` where that does not fit. -/
def strncat (b : Block) (bs : List UInt8) : Option Block :=
  let text := bs.takeWhile (· != 0)
  if b.cString.length + text.length < b.size then some (b.write b.cString.length (text ++ [0])) else none

/-- `strncpy` of the `n` bytes `bs`: from a NUL on, the rest is filled up with NULs. -/
def strncpy (b : Block) (bs : List UInt8) : Option Block :=
  let text := bs.takeWhile (· != 0)
  if bs.length ≤ b.size then some (b.write 0 (text ++ List.replicate (bs.length - text.length) 0)) else none

end Block

/-- The position of the first occurrence of `needle`. -/
def strstr (text needle : List UInt8) : Option Nat :=
  (List.range (text.length + 1)).find? fun i => needle.isPrefixOf (text.drop i)

/-- `strncmp(text, start, strlen(start)) == 0`. -/
def startsWith (text start : List UInt8) : Bool :=
  start.isPrefixOf text

def isDigit (b : UInt8) : Bool :=
  48 ≤ b && b ≤ 57

def isSpace (b : UInt8) : Bool :=
  b == 32 || (9 ≤ b && b ≤ 13)

def isBlank (b : UInt8) : Bool :=
  b == 32 || b == 9

/-- The number a list of digits denotes. -/
def digitsValue (ds : List UInt8) : Nat :=
  ds.foldl (fun v b => 10 * v + (b.toNat - 48)) 0

/-- `strtol` in base 10, with its results at the ends of a 64-bit `long`. -/
def strtol (text : List UInt8) : Int :=
  let text := text.dropWhile isSpace
  let (negative, text) :=
    match text with
    | 45 :: rest => (true, rest)
    | 43 :: rest => (false, rest)
    | _ => (false, text)
  let v : Int := digitsValue (text.takeWhile isDigit)
  if negative then max (-v) (-2 ^ 63) else min v (2 ^ 63 - 1)

/-- `atoi`, the `long` cut down to an `int`. -/
def atoi (text : List UInt8) : Int :=
  toInt32 (strtol text)

/-- The digits that `printf` writes for a number that is not negative. -/
def decimal (n : Nat) : List UInt8 :=
  if n = 0 then [48] else (Nat.digits 10 n).reverse.map fun d => UInt8.ofNat (48 + d)

/-- The text that `printf` writes for an integer. -/
def decimalInt (x : Int) : List UInt8 :=
  if x < 0 then 45 :: decimal x.natAbs else decimal x.toNat

/-- `while (go(*p)) p++` over the bytes from position `pos` on: where it stops, unless it leaves the block. -/
def scan (go : UInt8 → Bool) : List UInt8 → Nat → Option Nat
  | [], _ => none
  | b :: bs, pos => if go b then scan go bs (pos + 1) else some pos

/-- `while (go(*p)) p--` from position `p` on. -/
def scanBack (go : UInt8 → Bool) (mem : List UInt8) : Nat → Option Nat
  | 0 => mem[0]?.bind fun b => if go b then none else some 0
  | p + 1 => mem[p + 1]?.bind fun b => if go b then scanBack go mem p else some (p + 1)

/-! The string at the start of the bytes `mem`. A result of `none` is a read behind them. -/

def strlen (mem : List UInt8) : Option Nat :=
  scan (· != 0) mem 0

/-- `strchr` for a byte other than NUL: its first position. -/
def strchr (mem : List UInt8) (c : UInt8) : Option (Option Nat) := do
  let p ← scan (fun b => b != 0 && b != c) mem 0
  return if mem[p]? = some c then some p else none

/-- `strrchr` for a byte other than NUL: its last position. -/
def strrchr (mem : List UInt8) (c : UInt8) : Option (Option Nat) := do
  let len ← strlen mem
  return (List.range len).reverse.find? fun p => mem[p]? == some c

/-- `snprintf(buf, n, "%s", text)`, for a positive `n`; `none` where that does not fit in `buf`. -/
def snprintf (buf : List UInt8) (n : Nat) (text : List UInt8) : Option (List UInt8) :=
  let out := (text.takeWhile (· != 0)).take (n - 1) ++ [0]
  if out.length ≤ buf.length then some (out ++ buf.drop out.length) else none

/-- `strcpy` to an array of `size` bytes. -/
def strcpy (size : Nat) (text : List UInt8) : Option (List UInt8) :=
  if text.length < size then some text else none

namespace Block

/-- A write over the terminating byte leaves what is before it. -/
theorem write_over {b : Block} {text bs rest : List UInt8} (h : b.bytes = text ++ rest)
    (hlen : rest.length ≤ bs.length) : (b.write text.length bs).bytes = text ++ bs := by
  have hdrop : (text ++ rest).drop (text.length + bs.length) = [] :=
    List.drop_eq_nil_of_le (by simp only [List.length_append]; omega)
  simp [write, h, hdrop]

/-- A block that `strncat` writes to: a text at its start, and nothing behind its NUL. -/
structure Holds (b : Block) (text : List UInt8) : Prop where
  inside : text.length < b.size
  bytes : b.bytes = text ∨ b.bytes = text ++ [0]
  noNul : ∀ x ∈ text, x ≠ 0

theorem holds_calloc {size : Nat} (h : 0 < size) : (calloc size).Holds [] :=
  ⟨h, .inl rfl, List.forall_mem_nil _⟩

theorem Holds.cString {b : Block} {text : List UInt8} (h : b.Holds text) : b.cString = text := by
  have hnul : ∀ x ∈ text, (x != 0) = true := by simpa using h.noNul
  rw [Block.cString]
  rcases h.bytes with hb | hb
  · rw [hb, List.takeWhile_eq_self_iff.mpr hnul]
  · rw [hb, List.takeWhile_append_of_pos hnul]
    simp

/-- Fragments that are appended one after the other make up the text. -/
theorem Holds.strncat {b : Block} {text bs : List UInt8} (h : b.Holds text)
    (hfit : (text ++ bs.takeWhile (· != 0)).length < b.size) :
    ∃ b', b.strncat bs = some b' ∧ b'.size = b.size ∧ b'.Holds (text ++ bs.takeWhile (· != 0)) := by
  have hnul : ∀ x ∈ bs.takeWhile (· != 0), x ≠ 0 := fun x hx => by simpa using List.mem_takeWhile_imp hx
  obtain ⟨rest, hrest, hlen⟩ : ∃ rest, b.bytes = text ++ rest ∧ rest.length ≤ 1 := by
    rcases h.bytes with hb | hb
    · exact ⟨[], by simpa using hb, by simp⟩
    · exact ⟨[0], hb, by simp⟩
  rw [Block.strncat, h.cString, if_pos (by simpa using hfit)]
  refine ⟨_, rfl, rfl, hfit, .inr ?_, ?_⟩
  · rw [write_over hrest (by simp; omega), List.append_assoc]
  · intro x hx
    exact (List.mem_append.mp hx).elim (h.noNul x) (hnul x)

theorem Holds.strncat_none {b : Block} {text bs : List UInt8} (h : b.Holds text)
    (hlong : b.size ≤ (text ++ bs.takeWhile (· != 0)).length) : b.strncat bs = none := by
  rw [Block.strncat, h.cString, if_neg (by simpa using hlong)]

theorem strncpy_calloc {bs : List UInt8} {size : Nat} (h : bs.length ≤ size) :
    ∃ b, (calloc size).strncpy bs = some b ∧ b.size = size ∧ b.cString = bs.takeWhile (· != 0) := by
  refine ⟨_, if_pos h, rfl, ?_⟩
  have hnul : ∀ x ∈ bs.takeWhile (· != 0), (x != 0) = true := fun _ hx =>
    List.mem_takeWhile_imp (p := (· != 0)) hx
  simp only [cString, write, calloc, List.length_nil, Nat.sub_zero, List.replicate_zero, List.take_zero,
    List.append_nil, List.nil_append, List.drop_nil]
  rw [List.takeWhile_append_of_pos hnul, List.takeWhile_replicate]
  simp

theorem cString_of_bytes {b : Block} {text rest : List UInt8} (h : b.bytes = text ++ 0 :: rest)
    (hnul : ∀ x ∈ text, x ≠ 0) : b.cString = text := by
  rw [cString, h, List.takeWhile_append_of_pos (by simpa using hnul)]
  simp

end Block

theorem strstr_eq_some {text needle : List UInt8} {i : Nat} :
    strstr text needle = some i ↔
      needle <+: text.drop i ∧ i ≤ text.length ∧ ∀ j < i, ¬ needle <+: text.drop j := by
  rw [strstr, List.find?_range_eq_some]
  simp only [List.isPrefixOf_iff_prefix, List.mem_range, Bool.not_eq_true', Nat.lt_add_one_iff]
  constructor
  · rintro ⟨hp, hi, hj⟩
    refine ⟨hp, hi, fun j hlt hpj => ?_⟩
    have := hj j hlt
    simp [List.isPrefixOf_iff_prefix.mpr hpj] at this
  · rintro ⟨hp, hi, hj⟩
    refine ⟨hp, hi, fun j hlt => ?_⟩
    have := hj j hlt
    simpa [← List.isPrefixOf_iff_prefix] using this

theorem strstr_eq_none {text needle : List UInt8} :
    strstr text needle = none ↔ ∀ i ≤ text.length, ¬ needle <+: text.drop i := by
  simp only [strstr, List.find?_range_eq_none, Nat.lt_add_one_iff]
  constructor
  · intro h i hi hp
    have := h i hi
    simp [List.isPrefixOf_iff_prefix.mpr hp] at this
  · intro h i hi
    simpa [← List.isPrefixOf_iff_prefix] using h i hi

/-- A text is found exactly where it is contained. -/
theorem strstr_isSome {text needle : List UInt8} : (strstr text needle).isSome = true ↔ needle <:+: text := by
  constructor
  · intro h
    obtain ⟨i, hi⟩ := Option.isSome_iff_exists.mp h
    exact (strstr_eq_some.mp hi).1.isInfix.trans (List.drop_suffix i text).isInfix
  · rintro ⟨before, rest, rfl⟩
    rw [Option.isSome_iff_ne_none]
    intro hnone
    refine strstr_eq_none.mp hnone before.length (by simp only [List.length_append]; omega) ?_
    rw [List.append_assoc, List.drop_left]
    exact List.prefix_append needle rest

theorem prefix_drop_take {text needle : List UInt8} {i k : Nat} :
    needle <+: (text.take k).drop i ↔ needle <+: text.drop i ∧ needle.length ≤ (text.take k).length - i := by
  rw [List.drop_take, List.prefix_take_iff]
  refine and_congr_right fun h => ?_
  have hlen := h.length_le
  simp only [List.length_drop, List.length_take] at hlen ⊢
  omega

/-- Of a text that is still arriving, the search sees an occurrence once it is there in full. -/
theorem strstr_take {text needle : List UInt8} {i : Nat} (h : strstr text needle = some i)
    (hne : needle ≠ []) (k : Nat) :
    strstr (text.take k) needle = if i + needle.length ≤ k then some i else none := by
  obtain ⟨hp, hi, hfirst⟩ := strstr_eq_some.mp h
  have hpos : 0 < needle.length := List.length_pos_iff.mpr hne
  have hle := hp.length_le
  simp only [List.length_drop] at hle
  split
  · rename_i hk
    have hin : i ≤ (text.take k).length := by simp only [List.length_take]; omega
    refine strstr_eq_some.mpr ⟨prefix_drop_take.mpr ⟨hp, ?_⟩, hin, fun j hj hpj => ?_⟩
    · simp only [List.length_take]
      omega
    · exact hfirst j hj (prefix_drop_take.mp hpj).1
  · rename_i hk
    refine strstr_eq_none.mpr fun j hj hpj => ?_
    obtain ⟨hpj, hlen⟩ := prefix_drop_take.mp hpj
    have hij : i ≤ j := by
      by_contra hlt
      exact hfirst j (by omega) hpj
    simp only [List.length_take] at hlen
    omega

theorem strstr_singleton {before : List UInt8} {x : UInt8} (h : x ∉ before) (rest : List UInt8) :
    strstr (before ++ x :: rest) [x] = some before.length := by
  refine strstr_eq_some.mpr ⟨by simp, by simp, fun j hj hp => ?_⟩
  rw [List.drop_append_of_le_length hj.le, List.drop_eq_getElem_cons hj, List.cons_append,
    List.cons_prefix_cons] at hp
  exact h (hp.1 ▸ List.getElem_mem hj)

theorem strstr_singleton_none {text : List UInt8} {x : UInt8} (h : x ∉ text) : strstr text [x] = none := by
  rw [← Option.not_isSome_iff_eq_none, strstr_isSome]
  exact fun hmem => h (hmem.subset (List.mem_singleton_self x))

theorem scan_eq (go : UInt8 → Bool) (bs : List UInt8) (pos : Nat) :
    scan go bs pos = if bs.dropWhile go = [] then none else some (pos + (bs.takeWhile go).length) := by
  induction bs generalizing pos with
  | nil => rfl
  | cons b bs ih =>
    cases hb : go b
    · simp [scan, hb]
    · simp only [scan, hb, if_true, ih, List.dropWhile_cons_of_pos hb, List.takeWhile_cons_of_pos hb,
        List.length_cons]
      congr 2
      omega

theorem drop_takeWhile (go : UInt8 → Bool) (bs : List UInt8) :
    bs.drop (bs.takeWhile go).length = bs.dropWhile go := by
  have hsplit := congrArg (List.drop (bs.takeWhile go).length) (List.takeWhile_append_dropWhile (p := go) (l := bs))
  rw [List.drop_left] at hsplit
  exact hsplit.symm

theorem take_takeWhile (go : UInt8 → Bool) (bs : List UInt8) :
    bs.take (bs.takeWhile go).length = bs.takeWhile go :=
  (List.prefix_iff_eq_take.mp (List.takeWhile_prefix go)).symm

theorem scan_append {go : UInt8 → Bool} {taken : List UInt8} {b : UInt8} (h : ∀ x ∈ taken, go x = true)
    (hb : go b = false) (rest : List UInt8) (pos : Nat) :
    scan go (taken ++ b :: rest) pos = some (pos + taken.length) := by
  rw [scan_eq, List.dropWhile_append_of_pos h, List.takeWhile_append_of_pos h,
    List.dropWhile_cons_of_neg (by simp [hb]), List.takeWhile_cons_of_neg (by simp [hb])]
  simp

theorem scanBack_append {go : UInt8 → Bool} {before taken : List UInt8} {b : UInt8}
    (h : ∀ x ∈ taken, go x = true) (hb : go b = false) (rest : List UInt8) :
    scanBack go (before ++ b :: taken ++ rest) (before.length + taken.length) = some before.length := by
  induction taken using List.reverseRecOn generalizing rest with
  | nil =>
    have hget : (before ++ [b] ++ rest)[before.length]? = some b := by simp
    cases hlen : before.length <;> simp_all [scanBack]
  | append_singleton taken x ih =>
    have hget : (before ++ b :: (taken ++ [x]) ++ rest)[before.length + taken.length + 1]? = some x := by
      rw [show before ++ b :: (taken ++ [x]) ++ rest = (before ++ b :: taken) ++ x :: rest by simp]
      rw [List.getElem?_append_right (by simp; omega)]
      simp [Nat.add_assoc]
    rw [List.length_append, List.length_singleton, ← Nat.add_assoc, scanBack, hget, Option.bind_some,
      if_pos (h x (by simp))]
    rw [show before ++ b :: (taken ++ [x]) ++ rest = before ++ b :: taken ++ (x :: rest) by simp]
    exact ih (fun y hy => h y (by simp [hy])) _

section
variable {text before rest : List UInt8} {b c : UInt8}

theorem strlen_text (h : ∀ x ∈ text, x ≠ 0) (rest : List UInt8) : strlen (text ++ 0 :: rest) = some text.length := by
  rw [strlen, scan_append (by simpa using h) (by simp), Nat.zero_add]

theorem strlen_concat (h : ∀ x ∈ before, x ≠ 0) (hb : b ≠ 0) (rest : List UInt8) :
    strlen (before ++ b :: 0 :: rest) = some (before.length + 1) := by
  have htext : ∀ x ∈ before ++ [b], x ≠ 0 := by simpa [or_imp, forall_and] using ⟨h, hb⟩
  simpa using strlen_text htext rest

/-- The search ends at the byte it is for, or at the NUL. -/
theorem strchr_stop (h : ∀ x ∈ text, x ≠ 0) (hnone : c ∉ text) (hb : b = 0 ∨ b = c) (rest : List UInt8) :
    strchr (text ++ b :: rest) c = some (if b = c then some text.length else none) := by
  have hgo : ∀ x ∈ text, (x != 0 && x != c) = true := by
    intro x hx
    have hne : x ≠ c := fun heq => hnone (heq ▸ hx)
    simp [h x hx, hne]
  have hstop : (b != 0 && b != c) = false := by
    obtain rfl | rfl := hb
    · rfl
    · simp
  rw [strchr, scan_append hgo hstop]
  simp

theorem strchr_first (h : ∀ x ∈ before, x ≠ 0) (hfirst : c ∉ before) (rest : List UInt8) :
    strchr (before ++ c :: rest) c = some (some before.length) := by
  rw [strchr_stop h hfirst (.inr rfl), if_pos rfl]

theorem strchr_none (h : ∀ x ∈ text, x ≠ 0) (hnone : c ∉ text) (hc : c ≠ 0) (rest : List UInt8) :
    strchr (text ++ 0 :: rest) c = some none := by
  rw [strchr_stop h hnone (.inl rfl), if_neg hc.symm]

theorem strrchr_nil (c : UInt8) (rest : List UInt8) : strrchr (0 :: rest) c = some none := by
  simp [strrchr, strlen, scan]

theorem strrchr_last (h : ∀ x ∈ before, x ≠ 0) (hc : c ≠ 0) (rest : List UInt8) :
    strrchr (before ++ c :: 0 :: rest) c = some (some before.length) := by
  rw [strrchr, strlen_concat h hc]
  simp [List.range_succ]

/-- Where the text ends with another byte, the last position is in front of it. -/
theorem strrchr_before (h : ∀ x ∈ before, x ≠ 0) (hb : b ≠ 0) (hne : b ≠ c) (rest : List UInt8) :
    ∃ p, strrchr (before ++ b :: 0 :: rest) c = some p ∧ ∀ i ∈ p, i < before.length := by
  refine ⟨_, by rw [strrchr, strlen_concat h hb]; rfl, fun i hi => ?_⟩
  have hlt := List.mem_of_find?_eq_some hi
  have hat := List.find?_some hi
  have hlast : i ≠ before.length := by
    rintro rfl
    simp [hne] at hat
  simp only [List.mem_reverse, List.mem_range] at hlt
  omega

/-- The first bytes of a text are copied to a buffer that has room for them. -/
theorem snprintf_take {buf more : List UInt8} (h : ∀ x ∈ text, x ≠ 0) (hroom : text.length < buf.length) :
    snprintf buf (text.length + 1) (text ++ more) = some (text ++ 0 :: buf.drop (text.length + 1)) := by
  have htake : ((text ++ more).takeWhile (· != 0)).take text.length = text := by
    rw [List.takeWhile_append_of_pos (by simpa using h), List.take_left]
  simp only [snprintf, Nat.add_sub_cancel, htake, List.length_append, List.length_singleton]
  rw [if_pos (Nat.succ_le_of_lt hroom), List.append_assoc, List.singleton_append]

end

theorem toInt32_bounds (x : Int) : -2 ^ 31 ≤ toInt32 x ∧ toInt32 x < 2 ^ 31 := by
  have h := Int.le_bmod (x := x) (show 0 < 2 ^ 32 by decide)
  have h' := Int.bmod_lt (x := x) (show 0 < 2 ^ 32 by decide)
  simp only [toInt32]
  omega

theorem toInt32_of_bounds {x : Int} (h : -2 ^ 31 ≤ x) (h' : x < 2 ^ 31) : toInt32 x = x := by
  rw [toInt32, Int.bmod_eq_of_le] <;> omega

theorem digitsValue_concat (ds : List UInt8) (b : UInt8) :
    digitsValue (ds ++ [b]) = 10 * digitsValue ds + (b.toNat - 48) := by
  simp [digitsValue]

private theorem digit_toNat {d : Nat} (h : d < 10) : (UInt8.ofNat (48 + d)).toNat = 48 + d := by
  rw [UInt8.toNat_ofNat']
  omega

theorem digitsValue_reverse_map {ds : List Nat} (h : ∀ d ∈ ds, d < 10) :
    digitsValue (ds.reverse.map fun d => UInt8.ofNat (48 + d)) = Nat.ofDigits 10 ds := by
  induction ds with
  | nil => rfl
  | cons d ds ih =>
    have hd := digit_toNat (h d (by simp))
    rw [List.reverse_cons, List.map_append, List.map_singleton, digitsValue_concat,
      ih fun x hx => h x (by simp [hx]), Nat.ofDigits_cons, hd]
    omega

theorem digitsValue_decimal (n : Nat) : digitsValue (decimal n) = n := by
  unfold decimal
  split
  · rename_i h0
    simp [h0, digitsValue]
  · rw [digitsValue_reverse_map fun d hd => Nat.digits_lt_base (by omega) hd, Nat.ofDigits_digits]

/-- A number that does not begin with a 0 is written as it was read. -/
theorem decimal_digitsValue {ds : List UInt8} (h : ∀ b ∈ ds, isDigit b = true) (hne : ds ≠ [])
    (hhead : ds.head? ≠ some 48) : decimal (digitsValue ds) = ds := by
  have hdigit : ∀ b ∈ ds, 48 ≤ b.toNat ∧ b.toNat ≤ 57 := by
    intro b hb
    simpa [isDigit, UInt8.le_iff_toNat_le] using h b hb
  have hback : ((ds.map fun b => b.toNat - 48).reverse.reverse.map fun d => UInt8.ofNat (48 + d)) = ds := by
    rw [List.reverse_reverse, List.map_map]
    refine (List.map_congr_left fun b hb => ?_).trans (List.map_id ds)
    have hb := hdigit b hb
    rw [Function.comp_apply, show 48 + (b.toNat - 48) = b.toNat by omega, UInt8.ofNat_toNat]
    rfl
  have hlt : ∀ d ∈ (ds.map fun b => b.toNat - 48).reverse, d < 10 := by
    intro d hd
    obtain ⟨b, hb, rfl⟩ := List.mem_map.mp (List.mem_reverse.mp hd)
    have hb := hdigit b hb
    omega
  have hlast : ∀ hne : (ds.map fun b => b.toNat - 48).reverse ≠ [],
      (ds.map fun b => b.toNat - 48).reverse.getLast hne ≠ 0 := by
    obtain ⟨b, rest, rfl⟩ := List.exists_cons_of_ne_nil hne
    intro _ hzero
    have hb := hdigit b List.mem_cons_self
    simp only [List.map_cons, List.reverse_cons, List.getLast_concat] at hzero
    exact hhead (congrArg some (UInt8.toNat_inj.mp (show b.toNat = 48 by omega)))
  have hvalue := digitsValue_reverse_map hlt
  rw [hback] at hvalue
  have hdigits := Nat.digits_ofDigits 10 (by omega) _ hlt hlast
  rw [← hvalue] at hdigits
  have hpos : digitsValue ds ≠ 0 := by
    intro hzero
    rw [hzero, Nat.digits_zero] at hdigits
    exact hne (by simpa using hdigits.symm)
  rw [decimal, if_neg hpos, hdigits, hback]

theorem isDigit_decimal {n : Nat} {b : UInt8} (h : b ∈ decimal n) : isDigit b = true := by
  unfold decimal at h
  split at h
  · rw [List.mem_singleton.mp h]
    decide
  · obtain ⟨d, hd, rfl⟩ := List.mem_map.mp h
    have hlt : d < 10 := Nat.digits_lt_base (by omega) (List.mem_reverse.mp hd)
    have hle : ∀ x : Fin 10, isDigit (UInt8.ofNat (48 + x.val)) = true := by decide
    exact hle ⟨d, hlt⟩

theorem decimal_ne_nil (n : Nat) : decimal n ≠ [] := by
  unfold decimal
  split
  · simp
  · rename_i h0
    simpa [Nat.digits_ne_nil_iff_ne_zero] using h0

theorem length_decimal_le {n k : Nat} (h : n < 10 ^ k) (hk : 0 < k) : (decimal n).length ≤ k := by
  unfold decimal
  split
  · exact hk
  · rw [List.length_map, List.length_reverse]
    exact Nat.digits_length_le_iff (by omega) n |>.mpr h

theorem isDigit_not_space {b : UInt8} (h : isDigit b = true) : isSpace b = false ∧ b ≠ 45 ∧ b ≠ 43 := by
  simp only [isDigit, Bool.and_eq_true, decide_eq_true_eq, UInt8.le_iff_toNat_le] at h
  obtain ⟨hlow, hhigh⟩ := h
  refine ⟨?_, ?_, ?_⟩
  · simp only [isSpace, Bool.or_eq_false_iff, beq_eq_false_iff_ne, ne_eq, ← UInt8.toNat_inj,
      Bool.and_eq_false_iff, decide_eq_false_iff_not, UInt8.le_iff_toNat_le]
    simp at hlow hhigh ⊢
    omega
  · rintro rfl
    simp at hlow
  · rintro rfl
    simp at hlow

/-- `strtol` skips blanks and reads digits up to the first other character. -/
theorem strtol_digits {blanks digits rest : List UInt8} (hblanks : ∀ b ∈ blanks, isSpace b = true)
    (hdigits : ∀ b ∈ digits, isDigit b = true) (hne : digits ≠ [])
    (hrest : ∀ b ∈ rest.head?, isDigit b = false) :
    strtol (blanks ++ digits ++ rest) = min (digitsValue digits : Int) (2 ^ 63 - 1) := by
  obtain ⟨b, ds, hb⟩ := List.exists_cons_of_ne_nil hne
  obtain ⟨hspace, hminus, hplus⟩ := isDigit_not_space (hdigits b (hb ▸ List.mem_cons_self))
  have htake : (digits ++ rest).takeWhile isDigit = digits := by
    rw [List.takeWhile_append_of_pos hdigits]
    cases rest with
    | nil => simp
    | cons c rest => simp [hrest c (by simp)]
  have hdrop : (blanks ++ digits ++ rest).dropWhile isSpace = digits ++ rest := by
    rw [List.append_assoc, List.dropWhile_append_of_pos hblanks, hb, List.cons_append,
      List.dropWhile_cons_of_neg (by simp [hspace])]
  have hmatch : (match digits ++ rest with
      | 45 :: rest => (true, rest)
      | 43 :: rest => (false, rest)
      | _ => (false, digits ++ rest)) = (false, digits ++ rest) := by
    rw [hb, List.cons_append]
    split
    · rename_i heq
      exact absurd (List.cons.inj heq).1 hminus
    · rename_i heq
      exact absurd (List.cons.inj heq).1 hplus
    · rfl
  simp only [strtol, hdrop, hmatch, htake, Bool.false_eq_true, if_false]

theorem atoi_digits {blanks digits rest : List UInt8} (hblanks : ∀ b ∈ blanks, isSpace b = true)
    (hdigits : ∀ b ∈ digits, isDigit b = true) (hne : digits ≠ [])
    (hrest : ∀ b ∈ rest.head?, isDigit b = false) (h : digitsValue digits < 2 ^ 31) :
    atoi (blanks ++ digits ++ rest) = digitsValue digits := by
  rw [atoi, strtol_digits hblanks hdigits hne hrest, toInt32, Int.bmod_eq_of_le] <;> omega

/-- `atoi` reads back what `printf` wrote, up to the largest `int`. -/
theorem atoi_decimal {n : Nat} (h : n < 2 ^ 31) {rest : List UInt8}
    (hrest : ∀ b ∈ rest.head?, isDigit b = false) : atoi (decimal n ++ rest) = n := by
  have hread := atoi_digits (List.forall_mem_nil _) (fun b hb => isDigit_decimal hb) (decimal_ne_nil n) hrest
    (by rwa [digitsValue_decimal])
  rwa [digitsValue_decimal] at hread

end TinyosGraphics.Lib
