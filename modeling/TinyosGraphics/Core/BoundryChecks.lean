import TinyosGraphics.Core.Handlers

/-! `_string_check_boundry` called again and again on one string, whatever `calloc` and `realloc` return. -/
namespace TinyosGraphics.Core
open Lib

/-- A call of `_string_check_boundry`, with what `calloc` and `realloc` return when it comes to them. -/
structure BoundryCheck where
  boundry : Int
  calloc : Bool
  realloc : Bool

namespace BoundryCheck
variable {q : BoundryCheck} {c : ConnId} {f : StringField} {d : Conn} {s : TgxString}

def answer (q : BoundryCheck) (d : Conn) : (o : Op) → Option (Ret o × Conn)
  | .load _ => some (d, d)
  | .store _ d' => some ((), d')
  | .calloc _ => some (q.calloc, d)
  | .realloc => some (q.realloc, d)
  | _ => none

def call (q : BoundryCheck) (c : ConnId) (f : StringField) (d : Conn) : Option (Int × Conn) :=
  (stringCheckBoundry c f q.boundry).exec q.answer d

def grow (q : BoundryCheck) (s : TgxString) : Int × TgxString :=
  if q.boundry > s.size - BUFFER_NEARLY_BOUNDRY ∧ s.size < MAX_BUFFER_SIZE then
    let size := s.size + INCR_FACTOR * INCR_LENGTH
    if q.realloc then (0, ⟨size, some ⟨size.toNat, (s.data.map Block.bytes).getD []⟩⟩)
    else (-1, { s with size := size })
  else (0, s)

def check (q : BoundryCheck) (s : TgxString) : Int × TgxString :=
  if s.size = 0 then
    if q.calloc then q.grow ⟨MAX_BUFFER_SIZE, some (.calloc MAX_BUFFER_SIZE)⟩ else (-1, ⟨MAX_BUFFER_SIZE, none⟩)
  else q.grow s

private theorem string_setString (d : Conn) (f : StringField) (s : TgxString) : (d.setString f s).string f = s := by
  cases f
  all_goals rfl

private theorem setString_setString (d : Conn) (f : StringField) (s s' : TgxString) :
    (d.setString f s).setString f s' = d.setString f s' := by
  cases f
  all_goals rfl

private theorem setString_string (d : Conn) (f : StringField) : d.setString f (d.string f) = d := by
  cases f
  all_goals rfl

private theorem exec_stringGrow (q : BoundryCheck) (c : ConnId) (f : StringField) (d : Conn) :
    (stringGrow c f q.boundry).exec q.answer d =
      some ((q.grow (d.string f)).1, d.setString f (q.grow (d.string f)).2) := by
  simp only [stringGrow, grow, Core.setString, load, store, Core.realloc, Core.call, bind_assoc, Prog.exec_op_bind,
    answer, Option.bind_some]
  split
  · simp only [Prog.exec_op_bind, answer, Option.bind_some]
    cases q.realloc with
    | true => simp [answer, setString_setString]
    | false => simp
  · simp [setString_string]

private theorem call_eq (c : ConnId) (f : StringField) (d : Conn) (h : 0 ≤ q.boundry) :
    q.call c f d = some ((q.check (d.string f)).1, d.setString f (q.check (d.string f)).2) := by
  simp only [call, stringCheckBoundry, check, if_neg (not_lt.mpr h), load, Core.calloc, Core.call, Prog.exec_op_bind,
    answer, Option.bind_some]
  split
  · cases hcalloc : q.calloc with
    | true =>
      simp only [hcalloc, if_true, Core.setString, load, store, Core.call, bind_assoc, Prog.exec_op_bind, answer,
        Option.bind_some]
      rw [exec_stringGrow, string_setString, setString_setString]
    | false => simp [hcalloc, Core.setString, load, store, Core.call, answer]
  · exact exec_stringGrow q c f d

end BoundryCheck

/-- Where the size is more than 0, `data` points to a block of exactly that size. -/
def TgxString.Backed (s : TgxString) : Prop :=
  0 < s.size → ∃ b, s.data = some b ∧ (b.size : Int) = s.size

namespace BoundryCheck
variable {q : BoundryCheck} {c : ConnId} {f : StringField} {d : Conn} {s : TgxString} {qs : List BoundryCheck}

/-- What the result of a call says of the string before and after it. -/
structure Answers (boundry : Int) (s : TgxString) (ret : Int) (s' : TgxString) : Prop where
  refused : ret = -1 → s' = s
  granted : ret = 0 → boundry < s'.size

/-- The string is backed before, between and behind the calls, and each of them answers truly. -/
def Sound (c : ConnId) (f : StringField) : Conn → List BoundryCheck → Prop
  | d, [] => (d.string f).Backed
  | d, q :: qs =>
    (d.string f).Backed ∧
      ∃ ret d', q.call c f d = some (ret, d') ∧ Answers q.boundry (d.string f) ret (d'.string f) ∧ Sound c f d' qs

private theorem Sound.backed (h : Sound c f d qs) : (d.string f).Backed := by
  cases qs with
  | nil => exact h
  | cons q qs => exact h.1

private theorem sound_cons (h : 0 ≤ q.boundry) (hb : (d.string f).Backed) :
    Sound c f d (q :: qs) ↔
      Answers q.boundry (d.string f) (q.check (d.string f)).1 (q.check (d.string f)).2 ∧
        Sound c f (d.setString f (q.check (d.string f)).2) qs := by
  constructor
  · rintro ⟨-, ret, d', hcall, hanswers, hrest⟩
    rw [call_eq c f d h] at hcall
    obtain ⟨rfl, rfl⟩ := Prod.mk.inj (Option.some.inj hcall)
    rw [string_setString] at hanswers
    exact ⟨hanswers, hrest⟩
  · rintro ⟨hanswers, hrest⟩
    refine ⟨hb, _, _, call_eq c f d h, ?_, hrest⟩
    rwa [string_setString]

private theorem answers_granted {boundry : Int} {s' : TgxString} : Answers boundry s 0 s' ↔ boundry < s'.size :=
  ⟨fun h => h.granted rfl, fun h => ⟨nofun, fun _ => h⟩⟩

private theorem answers_refused {boundry : Int} {s' : TgxString} : Answers boundry s (-1) s' ↔ s' = s :=
  ⟨fun h => h.refused rfl, fun h => ⟨fun _ => h, nofun⟩⟩

private theorem grow_keeps_iff (hsize : 0 < s.size) (hb : s.Backed) :
    ((q.grow s).2.Backed ∧ Answers q.boundry s (q.grow s).1 (q.grow s).2) ↔
      if q.boundry > s.size - BUFFER_NEARLY_BOUNDRY ∧ s.size < MAX_BUFFER_SIZE then
        q.realloc = true ∧ q.boundry < s.size + INCR_FACTOR * INCR_LENGTH
      else q.boundry < s.size := by
  have hgrown : 0 ≤ s.size + INCR_FACTOR * INCR_LENGTH := by
    simp only [INCR_FACTOR, INCR_LENGTH]
    omega
  rw [grow]
  split
  · cases q.realloc with
    | true =>
      have hback : TgxString.Backed ⟨s.size + INCR_FACTOR * INCR_LENGTH,
          some ⟨(s.size + INCR_FACTOR * INCR_LENGTH).toNat, (s.data.map Block.bytes).getD []⟩⟩ :=
        fun _ => ⟨_, rfl, Int.toNat_of_nonneg hgrown⟩
      simp only [if_true, answers_granted]
      exact ⟨fun h => ⟨trivial, h.2⟩, fun h => ⟨hback, h.2⟩⟩
    | false =>
      -- the size has grown, the block has not
      have hne : ({ s with size := s.size + INCR_FACTOR * INCR_LENGTH } : TgxString) ≠ s := by
        intro heq
        have hsame := congrArg TgxString.size heq
        simp only [INCR_FACTOR, INCR_LENGTH] at hsame
        omega
      simp only [Bool.false_eq_true, if_false, answers_refused, hne, and_false, false_and]
  · simp only [answers_granted]
    exact ⟨fun h => h.2, fun h => ⟨hb, h⟩⟩

/-- A string of the largest size is accepted as it is, with a block or without one. -/
private theorem grow_full (q : BoundryCheck) (hs : s.size = MAX_BUFFER_SIZE) : q.grow s = (0, s) := by
  rw [grow, if_neg]
  rw [hs]
  exact fun h => lt_irrefl _ h.2

private theorem check_full (q : BoundryCheck) (hs : s.size = MAX_BUFFER_SIZE) : q.check s = (0, s) := by
  have hne : s.size ≠ 0 := by
    rw [hs]
    decide
  rw [check, if_neg hne, grow_full q hs]

/-- What a call needs for its promises, whatever the size is. The size is changed before `calloc` or `realloc` is
called, and stays so when that fails. -/
private theorem check_keeps_iff (hsize : 0 ≤ s.size) (hb : s.Backed) :
    ((q.check s).2.Backed ∧ Answers q.boundry s (q.check s).1 (q.check s).2) ↔
      if s.size = 0 then q.calloc = true ∧ q.boundry < MAX_BUFFER_SIZE
      else if q.boundry > s.size - BUFFER_NEARLY_BOUNDRY ∧ s.size < MAX_BUFFER_SIZE then
        q.realloc = true ∧ q.boundry < s.size + INCR_FACTOR * INCR_LENGTH
      else q.boundry < s.size := by
  by_cases h0 : s.size = 0
  · rw [check, if_pos h0, if_pos h0]
    cases q.calloc with
    | true =>
      have hback : TgxString.Backed ⟨MAX_BUFFER_SIZE, some (.calloc MAX_BUFFER_SIZE)⟩ := fun _ => ⟨_, rfl, rfl⟩
      simp only [if_true, grow_full, answers_granted]
      exact ⟨fun h => ⟨trivial, h.2⟩, fun h => ⟨hback, h.2⟩⟩
    | false =>
      have hback : ¬ TgxString.Backed ⟨MAX_BUFFER_SIZE, none⟩ := by
        intro h
        obtain ⟨b, hb, -⟩ := h (by decide)
        cases hb
      simp only [Bool.false_eq_true, if_false, hback, false_and]
  · rw [check, if_neg h0, if_neg h0]
    exact grow_keeps_iff (lt_of_le_of_ne hsize (Ne.symm h0)) hb

private theorem sound_full (hs : (d.string f).size = MAX_BUFFER_SIZE) (hb : (d.string f).Backed)
    (hrange : ∀ q ∈ qs, 0 ≤ q.boundry ∧ q.boundry ≤ 65534) : Sound c f d qs := by
  induction qs with
  | nil => exact hb
  | cons q qs ih =>
    obtain ⟨⟨h0, hmax⟩, hrest⟩ := List.forall_mem_cons.mp hrange
    rw [sound_cons h0 hb, check_full q hs, setString_string]
    refine ⟨⟨nofun, fun _ => ?_⟩, ih hrest⟩
    rw [hs]
    simp only [MAX_BUFFER_SIZE]
    omega

/-- Calls on an empty string keep their promises exactly when the first of them gets its block. -/
theorem sound_iff (c : ConnId) (f : StringField) {d : Conn} (hd : d.string f = ⟨0, none⟩)
    {qs : List BoundryCheck} (hrange : ∀ q ∈ qs, 0 ≤ q.boundry ∧ q.boundry ≤ 65534) :
    Sound c f d qs ↔ ∀ q ∈ qs.head?, q.calloc = true := by
  have hempty : (d.string f).Backed := by
    intro hpos
    rw [hd] at hpos
    cases hpos
  cases qs with
  | nil => simpa [Sound] using hempty
  | cons q qs =>
    obtain ⟨⟨h0, hmax⟩, hrest⟩ := List.forall_mem_cons.mp hrange
    have hkeeps : ((q.check (d.string f)).2.Backed ∧
        Answers q.boundry (d.string f) (q.check (d.string f)).1 (q.check (d.string f)).2) ↔
        q.calloc = true ∧ q.boundry < MAX_BUFFER_SIZE := by
      rw [check_keeps_iff (by rw [hd]) hempty, if_pos (by rw [hd])]
    rw [sound_cons h0 hempty]
    constructor
    · rintro ⟨hanswers, hsound⟩ q' hq'
      obtain rfl := Option.some.inj hq'
      have hback := hsound.backed
      rw [string_setString] at hback
      exact (hkeeps.mp ⟨hback, hanswers⟩).1
    · intro hcalloc
      have hq := hcalloc q rfl
      obtain ⟨hback, hanswers⟩ := hkeeps.mpr ⟨hq, by simp only [MAX_BUFFER_SIZE]; omega⟩
      refine ⟨hanswers, sound_full ?_ (by rwa [string_setString]) hrest⟩
      rw [string_setString, hd]
      simp [check, hq, grow_full]

/-- Two calls, both with memory at hand. -/
theorem sound_two : Sound 0 .httpReqBuf (newConn 5) [⟨0, true, true⟩, ⟨65534, true, true⟩] :=
  (sound_iff 0 .httpReqBuf rfl (by decide)).mpr (by simp)

/-- The first `calloc` fails; the second call finds a size of 65535 and returns 0. -/
theorem lost_block : ¬ Sound 0 .httpReqBuf (newConn 5) [⟨0, false, true⟩, ⟨0, true, true⟩] ∧
    (BoundryCheck.mk 0 false true).call 0 .httpReqBuf (newConn 5) =
      some (-1, { newConn 5 with httpReqBuf := ⟨65535, none⟩ }) ∧
    (BoundryCheck.mk 0 true true).call 0 .httpReqBuf { newConn 5 with httpReqBuf := ⟨65535, none⟩ } =
      some (0, { newConn 5 with httpReqBuf := ⟨65535, none⟩ }) := by
  have hfirst : (BoundryCheck.mk 0 false true).call 0 .httpReqBuf (newConn 5) =
      some (-1, { newConn 5 with httpReqBuf := ⟨65535, none⟩ }) := by decide
  refine ⟨?_, hfirst, by decide⟩
  rintro ⟨-, ret, d', hcall, -, hrest⟩
  obtain ⟨rfl, rfl⟩ := Prod.mk.inj (Option.some.inj (hfirst.symm.trans hcall))
  obtain ⟨b, hb, -⟩ := hrest.backed (by decide)
  cases hb

end BoundryCheck
end TinyosGraphics.Core
