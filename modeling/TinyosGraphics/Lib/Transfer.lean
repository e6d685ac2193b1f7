import Mathlib.Data.List.Basic

/-! Loops around `read` and `write`, which may move fewer bytes than were asked for, be interrupted, or fail.
The answers that the calls get are a list; behind its end a call moves all that it was asked for. -/
namespace TinyosGraphics.Lib.Transfer

variable {α : Type*}

inductive Answer
  | count (n : Nat)
  | intr
  | failed
  deriving DecidableEq

/-- None of the calls fails. -/
def Sound (answers : List Answer) : Prop :=
  .failed ∉ answers

instance (answers : List Answer) : Decidable (Sound answers) :=
  inferInstanceAs (Decidable (.failed ∉ answers))

/-- `write` until everything is written: what was written, whether that is everything, and the answers left. -/
def writeLoop : List Answer → List α → List α × Bool × List Answer
  | answers, [] => ([], true, answers)
  | [], bs => (bs, true, [])
  | .intr :: answers, bs => writeLoop answers bs
  | .failed :: answers, _ => ([], false, answers)
  | .count n :: answers, bs =>
    let rest := writeLoop answers (bs.drop n)
    (bs.take n ++ rest.1, rest.2)

/-- `read` until `count` bytes are there, from a stream that ends where the other side closed it: what was read, or
nothing after a failure; what is left of the stream, and of the answers. A call that does not fail moves at least one
byte, except at the end of the stream. -/
def readLoop : List Answer → Nat → List α → Option (List α) × List α × List Answer
  | answers, 0, stream => (some [], stream, answers)
  | [], count, stream => (some (stream.take count), stream.drop count, [])
  | .intr :: answers, count, stream => readLoop answers count stream
  | .failed :: answers, _, stream => (none, stream, answers)
  | .count _ :: answers, _ + 1, [] => (some [], [], answers)
  | .count n :: answers, count + 1, stream =>
    let moved := min (n + 1) (count + 1)
    let rest := readLoop answers (count + 1 - moved) (stream.drop moved)
    (rest.1.map (stream.take moved ++ ·), rest.2)

theorem Sound.of_suffix {answers answers' : List Answer} (h : Sound answers) (hs : answers' <:+ answers) :
    Sound answers' :=
  fun hmem => h (hs.subset hmem)

theorem writeLoop_answers (answers : List Answer) (bs : List α) : (writeLoop answers bs).2.2 <:+ answers := by
  fun_induction writeLoop answers bs with
  | case1 => exact List.suffix_rfl
  | case2 => exact List.suffix_rfl
  | case3 answers bs _ ih => exact ih.trans (List.suffix_cons _ _)
  | case4 answers => exact List.suffix_cons _ _
  | case5 answers bs _ n rest ih => exact ih.trans (List.suffix_cons _ _)

theorem writeLoop_begins (answers : List Answer) (bs : List α) : (writeLoop answers bs).1 <+: bs := by
  fun_induction writeLoop answers bs with
  | case1 => exact List.prefix_rfl
  | case2 => exact List.prefix_rfl
  | case3 answers bs _ ih => exact ih
  | case4 => exact List.nil_prefix
  | case5 answers bs _ n rest ih =>
    obtain ⟨back, hback⟩ := ih
    exact ⟨back, by rw [List.append_assoc, hback, List.take_append_drop]⟩

theorem writeLoop_all {answers : List Answer} {bs : List α} (h : (writeLoop answers bs).2.1 = true) :
    (writeLoop answers bs).1 = bs := by
  fun_induction writeLoop answers bs with
  | case1 => rfl
  | case2 => rfl
  | case3 answers bs _ ih => exact ih h
  | case4 => cases h
  | case5 answers bs _ n rest ih => rw [ih h, List.take_append_drop]

theorem writeLoop_sound {answers : List Answer} (h : Sound answers) (bs : List α) :
    (writeLoop answers bs).2.1 = true := by
  fun_induction writeLoop answers bs with
  | case1 => rfl
  | case2 => rfl
  | case3 answers bs _ ih => exact ih (h.of_suffix (List.suffix_cons _ _))
  | case4 => exact absurd List.mem_cons_self h
  | case5 answers bs _ n rest ih => exact ih (h.of_suffix (List.suffix_cons _ _))

theorem readLoop_answers (answers : List Answer) (count : Nat) (stream : List α) :
    (readLoop answers count stream).2.2 <:+ answers := by
  fun_induction readLoop answers count stream with
  | case1 => exact List.suffix_rfl
  | case2 => exact List.suffix_rfl
  | case3 answers count stream _ ih => exact ih.trans (List.suffix_cons _ _)
  | case4 => exact List.suffix_cons _ _
  | case5 => exact List.suffix_cons _ _
  | case6 answers n count stream _ moved rest ih => exact ih.trans (List.suffix_cons _ _)

theorem readLoop_suffix (answers : List Answer) (count : Nat) (stream : List α) :
    (readLoop answers count stream).2.1 <:+ stream := by
  fun_induction readLoop answers count stream with
  | case1 => exact List.suffix_rfl
  | case2 => exact List.drop_suffix _ _
  | case3 answers count stream _ ih => exact ih
  | case4 => exact List.suffix_rfl
  | case5 => exact List.suffix_rfl
  | case6 answers n count stream hne moved rest ih => exact ih.trans (List.drop_suffix _ _)

/-- However the stream is cut into reads, the loop gets the bytes that were asked for, or all that there are. -/
theorem readLoop_some {answers : List Answer} {count : Nat} {stream : List α}
    (h : (readLoop answers count stream).1 ≠ none) :
    (readLoop answers count stream).1 = some (stream.take count) ∧
      (readLoop answers count stream).2.1 = stream.drop count := by
  fun_induction readLoop answers count stream with
  | case1 => exact ⟨rfl, rfl⟩
  | case2 => exact ⟨rfl, rfl⟩
  | case3 answers count stream _ ih => exact ih h
  | case4 => exact absurd rfl h
  | case5 => exact ⟨rfl, rfl⟩
  | case6 answers n count stream hne moved rest ih =>
    obtain ⟨hread, hleft⟩ := ih fun hnone => h (congrArg (Option.map _) hnone)
    have hle : moved ≤ count + 1 := Nat.min_le_right _ _
    have htake : stream.take moved ++ (stream.drop moved).take (count + 1 - moved) = stream.take (count + 1) := by
      rw [← List.take_add, Nat.add_sub_cancel' hle]
    have hdrop : (stream.drop moved).drop (count + 1 - moved) = stream.drop (count + 1) := by
      rw [List.drop_drop, Nat.add_sub_cancel' hle]
    exact ⟨by rw [hread, Option.map_some, htake], by rw [hleft, hdrop]⟩

theorem readLoop_sound {answers : List Answer} (h : Sound answers) (count : Nat) (stream : List α) :
    (readLoop answers count stream).1 ≠ none := by
  fun_induction readLoop answers count stream with
  | case1 => nofun
  | case2 => nofun
  | case3 answers count stream _ ih => exact ih (h.of_suffix (List.suffix_cons _ _))
  | case4 => exact absurd List.mem_cons_self h
  | case5 => nofun
  | case6 answers n count stream hne moved rest ih =>
    intro hnone
    exact ih (h.of_suffix (List.suffix_cons _ _)) (Option.map_eq_none_iff.mp hnone)

end TinyosGraphics.Lib.Transfer
