import Mathlib.Data.List.TakeWhile
import TinyosGraphics.Core.Handlers

/-! The block of `tgx_connection_handler_read` that takes the length of a body from the text of a
request: which bytes it reads and stores, and when its number is the one a header line gives. -/
namespace TinyosGraphics.Core
open Lib

inductive ContentLength
  /-- no `Content-Length:`, and the connection is closed -/
  | missing
  /-- a loop leaves the block -/
  | outside
  /-- the position of the last byte read, and what is stored in `num` in front of the NUL -/
  | found (last : Nat) (num : List UInt8)
  deriving DecidableEq

/-- From the first `strstr` to the copy into `num`. -/
def contentLength (bytes text : List UInt8) : ContentLength :=
  match strstr text (ascii "Content-Length:") with
  | none => .missing
  | some p =>
    match scan (· == 32) (bytes.drop (p + 15)) (p + 15) with
    | none => .outside
    | some start =>
      match scan (· != 13) (bytes.drop start) start with
      | none => .outside
      | some stop => .found stop ((bytes.take stop).drop start)

private theorem dropWhile_ne_eq_nil {bs : List UInt8} {x : UInt8} : bs.dropWhile (· != x) = [] ↔ x ∉ bs := by
  rw [List.dropWhile_eq_nil_iff]
  simp only [bne_iff_ne]
  exact ⟨fun h hx => h x hx rfl, fun h y hy hxy => h (hxy ▸ hy)⟩

/-- What is read and stored behind the text that was found at `p`. -/
theorem contentLength_eq {bytes text rest : List UInt8} {p : Nat}
    (hp : strstr text (ascii "Content-Length:") = some p)
    (hrest : (bytes.drop (p + 15)).dropWhile (· == 32) = rest) :
    contentLength bytes text =
      if 13 ∈ rest then
        .found (p + 15 + ((bytes.drop (p + 15)).takeWhile (· == 32)).length + (rest.takeWhile (· != 13)).length)
          (rest.takeWhile (· != 13))
      else .outside := by
  have hdrop : bytes.drop (p + 15 + ((bytes.drop (p + 15)).takeWhile (· == 32)).length) = rest := by
    rw [← List.drop_drop, drop_takeWhile, hrest]
  simp only [contentLength, hp, scan_eq, hrest]
  by_cases hnil : rest = []
  · simp [hnil]
  · simp only [if_neg hnil, hdrop]
    by_cases hcr : 13 ∈ rest
    · rw [if_neg (mt dropWhile_ne_eq_nil.mp (not_not.mpr hcr)), if_pos hcr]
      simp only
      rw [List.drop_take, Nat.add_sub_cancel_left, hdrop, take_takeWhile]
    · rw [if_pos (dropWhile_ne_eq_nil.mpr hcr), if_neg hcr]

/-- The handler as a whole, by what the block has read and stored. -/
theorem inspectPost_eq (bytes text : List UInt8) (rwPos : Int) :
    inspectPost bytes text rwPos =
      match contentLength bytes text with
      | .missing => .refused
      | .outside => .undefined
      | .found _ num =>
        if num.length > 127 then .undefined
        else
          match strstr text (ascii "\r\n\r\n") with
          | none => .refused
          | some p =>
            if rwPos > toInt32 (atoi (num.takeWhile (· != 0)) + (p + 4 : Nat)) then .incomplete else .complete := by
  cases hp : strstr text (ascii "Content-Length:") with
  | none => simp [inspectPost, contentLength, hp]
  | some p =>
    rw [contentLength_eq hp rfl]
    by_cases hcr : (13 : UInt8) ∈ (bytes.drop (p + 15)).dropWhile (· == 32)
    · rw [if_pos hcr, inspectPost, hp]
      exact if_pos (List.contains_iff_mem.mpr hcr)
    · simp [inspectPost, hp, hcr]

/-- `LOWER` on the bytes of a header's name. -/
def lower (b : UInt8) : UInt8 :=
  if 65 ≤ b ∧ b ≤ 90 then b + 32 else b

/-- The texts in which `http_parser` finds the number `n` behind the colon: digits, with blanks before
them and spaces among and behind them. -/
def FieldValue (value : List UInt8) (n : Nat) : Prop :=
  ∃ blanks d ds, value = blanks ++ d :: ds ∧ blanks.all isBlank = true ∧ isDigit d = true ∧
    ds.all (fun b => isDigit b || b == 32) = true ∧ digitsValue (d :: ds.filter isDigit) = n

/-- A header line at `start` that gives the length `n`: it stands behind a line feed and in front of the empty line, its
name is in any case, and it is not folded. -/
def HeaderLine (text : List UInt8) (start : Nat) (value : List UInt8) (n : Nat) : Prop :=
  ∃ before name eol after p,
    text = before ++ name ++ 58 :: value ++ eol ++ after ∧ before.length = start ∧ before.getLast? = some 10 ∧
    ¬ ascii "\n\n" <:+: before ∧ ¬ ascii "\n\r" <:+: before ∧ name.map lower = ascii "content-length" ∧
    FieldValue value n ∧ (eol = [13, 10] ∨ eol = [10]) ∧ (∀ b ∈ after.head?, isBlank b = false) ∧
    strstr text (ascii "\r\n\r\n") = some p ∧ (before ++ name ++ 58 :: value).length ≤ p

/-- What the block is for: it stays before the NUL and within `num[128]`, and its number is that of a
header line, or there is none and the connection is closed. -/
def ContentLength.Meets (text : List UInt8) : ContentLength → Prop
  | .missing => ∀ start value n, ¬ HeaderLine text start value n
  | .outside => False
  | .found last num =>
    last ≤ text.length ∧ num.length ≤ 127 ∧
      ∃ start value n, HeaderLine text start value n ∧ atoi (num.takeWhile (· != 0)) = (n : Int)

section
variable {text : List UInt8} {p : Nat} (beyond : List UInt8)

end

end TinyosGraphics.Core
