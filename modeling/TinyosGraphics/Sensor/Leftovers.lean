import TinyosGraphics.Sensor.Ingest

/-! The sensor server's child reads into one buffer again and again. What it stores of a short read can
depend on the bytes that an earlier read left in the buffer. -/
namespace TinyosGraphics.Sensor
open Lib Motes

variable {T : Type}

/-- Field `k` of the message in a buffer of which `len` bytes were read: the bound of the getter is that of
the data with its header, which the data does not have. -/
def field (msg : List UInt8) (len k : Nat) : UInt16 :=
  if 2 * k + 2 ≤ len then beWord (msg.getD (2 * k + 8) 0) (msg.getD (2 * k + 9) 0) else 0

/-- The database calls for a message with these fields. -/
def updates (celsius : UInt16 → T) (netname : List UInt8) (f : Nat → UInt16) : List (DbCall T) :=
  [.updateNodeInfo ⟨netname, f 0, f 1, ⟨f 2, f 3⟩⟩] ++
    (if f 0 = 0 then []
      else [.insertSenseRecord ⟨netname, f 0, celsius (f 4), f 5, f 6, f 7, f 8, f 9, f 10⟩]) ++
    [.updateNetwork ⟨netname, f 0, f 1⟩]

private theorem sensorMsgGet_field {msg : List UInt8} (hmsg : 32 ≤ msg.length) (len : Nat) {k : Nat} (hk : k < 12) :
    sensorMsgGet (16 * k) (newTmsg (msg.drop 8) len) = some (field msg len k) := by
  have hbyte : ∀ i < 24, (msg.drop 8)[i]? = some (msg.getD (i + 8) 0) := by
    intro i hi
    have hin : 8 + i < msg.length := by omega
    rw [List.getElem?_drop, List.getElem?_eq_getElem hin, Nat.add_comm i 8, ← List.getElem_eq_getD (h := hin)]
  have hoffset : 16 * k = 8 * (2 * k) := by omega
  by_cases hlen : 2 * k + 2 ≤ len
  · rw [field, if_pos hlen, hoffset]
    exact sensorMsgGet_spec hlen (hbyte (2 * k) (by omega)) (hbyte (2 * k + 1) (by omega))
  · have hout : boundsp (newTmsg (msg.drop 8) len) (16 * k) 16 = false :=
      decide_eq_false (show ¬ 16 * k + 16 ≤ len * 8 by omega)
    rw [field, if_neg hlen, sensorMsgGet, tmsgReadUbe, hout]
    rfl

private theorem insertMesgToDb_field (celsius : UInt16 → T) (netname : List UInt8) {msg : List UInt8}
    (hmsg : 32 ≤ msg.length) (len : Nat) :
    insertMesgToDb celsius msg len netname = some (updates celsius netname (field msg len)) := by
  have hget : ∀ k < 12, sensorMsgGet (16 * k) (newTmsg (msg.drop 8) len) = some (field msg len k) :=
    fun k hk => sensorMsgGet_field hmsg len hk
  have h0 : sensorMsgNodeIdGet _ = _ := hget 0 (by decide)
  have h1 : sensorMsgParentIdGet _ = _ := hget 1 (by decide)
  have h2 : sensorMsgPositionXGet _ = _ := hget 2 (by decide)
  have h3 : sensorMsgPositionYGet _ = _ := hget 3 (by decide)
  have h4 : sensorMsgSensorTempGet _ = _ := hget 4 (by decide)
  have h5 : sensorMsgSensorPhotoGet _ = _ := hget 5 (by decide)
  have h6 : sensorMsgSensorSoundGet _ = _ := hget 6 (by decide)
  have h7 : sensorMsgSensorXAccGet _ = _ := hget 7 (by decide)
  have h8 : sensorMsgSensorYAccGet _ = _ := hget 8 (by decide)
  have h9 : sensorMsgSensorXMagGet _ = _ := hget 9 (by decide)
  have h10 : sensorMsgSensorYMagGet _ = _ := hget 10 (by decide)
  simp [insertMesgToDb, h0, h1, h2, h3, h4, h5, h6, h7, h8, h9, h10, updates]

private theorem updates_congr (celsius : UInt16 → T) (netname : List UInt8) {f g : Nat → UInt16}
    (h : ∀ k ≤ 10, f k = g k) : updates celsius netname f = updates celsius netname g := by
  simp only [updates, h 0 (by decide), h 1 (by decide), h 2 (by decide), h 3 (by decide), h 4 (by decide),
    h 5 (by decide), h 6 (by decide), h 7 (by decide), h 8 (by decide), h 9 (by decide), h 10 (by decide)]

/-- The calls show the fields of a node that is not the root; of the temperature they show what `celsius`
makes of it. -/
private theorem updates_injective {celsius : UInt16 → T} {netname : List UInt8} {f g : Nat → UInt16}
    (h : updates celsius netname f = updates celsius netname g) :
    (∀ k ≤ 3, f k = g k) ∧ (f 0 ≠ 0 → ∀ k ≤ 10, k ≠ 4 → f k = g k) := by
  have hhead := congrArg List.head? h
  simp only [updates, List.cons_append, List.nil_append, List.head?_cons, Option.some.injEq,
    DbCall.updateNodeInfo.injEq, NodeInfo.mk.injEq, NodePosition.mk.injEq, true_and] at hhead
  obtain ⟨h0, h1, h2, h3⟩ := hhead
  have hlow : ∀ k ≤ 3, f k = g k := by
    intro k hk
    interval_cases k <;> assumption
  refine ⟨hlow, fun hroot k hk htemp => ?_⟩
  rw [updates, updates, if_neg hroot, if_neg (h0 ▸ hroot)] at h
  simp only [List.cons_append, List.nil_append, List.cons.injEq, DbCall.insertSenseRecord.injEq,
    SenseRecord.mk.injEq, true_and] at h
  obtain ⟨-, ⟨-, -, h5, h6, h7, h8, h9, h10⟩, -⟩ := h
  interval_cases k
  all_goals first | assumption | exact absurd rfl htemp

/-- What earlier reads leave in the buffer. -/
def leftover (reads : List (List UInt8)) : List UInt8 :=
  reads.foldl readInto (List.replicate MAX_BUFF_LENGTH 0)

private theorem zeros_large : 32 ≤ (List.replicate MAX_BUFF_LENGTH (0 : UInt8)).length := by
  rw [List.length_replicate]
  decide

private theorem readInto_length {msg bs : List UInt8} (h : bs.length ≤ msg.length) :
    (readInto msg bs).length = msg.length := by
  simp [readInto]
  omega

private theorem foldl_readInto_length {reads : List (List UInt8)} {msg : List UInt8}
    (h : ∀ r ∈ reads, r.length ≤ msg.length) :
    (reads.foldl readInto msg).length = msg.length := by
  induction reads generalizing msg with
  | nil => rfl
  | cons r reads ih =>
    have hlen := readInto_length (h r List.mem_cons_self)
    rw [List.foldl_cons, ih fun x hx => hlen ▸ h x (List.mem_cons_of_mem _ hx), hlen]

private theorem leftover_length {reads : List (List UInt8)} (h : ∀ r ∈ reads, r.length ≤ MAX_BUFF_LENGTH) :
    (leftover reads).length = MAX_BUFF_LENGTH := by
  have hlen := @foldl_readInto_length reads (List.replicate MAX_BUFF_LENGTH 0) (by simpa using h)
  rw [leftover, hlen, List.length_replicate]

/-- The loop's last calls are those for the last read, into what the others have left. -/
private theorem childLoop_last (celsius : UInt16 → T) (netname : List UInt8) {reads : List (List UInt8)}
    {msg bs : List UInt8}
    (hmsg : 32 ≤ msg.length) (h : ∀ r ∈ reads, r.length ≤ msg.length) :
    (childLoop celsius netname msg (reads ++ [bs])).map List.getLast? =
      (insertMesgToDb celsius (readInto (reads.foldl readInto msg) bs) bs.length netname).map some := by
  induction reads generalizing msg with
  | nil =>
    rw [List.nil_append, childLoop, List.foldl_nil]
    cases insertMesgToDb celsius (readInto msg bs) bs.length netname <;> rfl
  | cons r reads ih =>
    have hlen := readInto_length (h r List.mem_cons_self)
    have hrest := ih (hlen ▸ hmsg) fun x hx => hlen ▸ h x (List.mem_cons_of_mem _ hx)
    rw [List.cons_append, childLoop, insertMesgToDb_field celsius netname (hlen ▸ hmsg), List.foldl_cons, ← hrest]
    cases hloop : childLoop celsius netname (readInto msg r) (reads ++ [bs]) with
    | none => rfl
    | some groups =>
      cases groups with
      | nil =>
        have hne := childLoop_length hloop
        simp at hne
      | cons g groups => rfl

/-- Buffers that agree on the bytes of the current read give the same updates. -/
def BufferIndependent (celsius : UInt16 → T) (netname : List UInt8) (nread : Nat) : Prop :=
  ∀ msg msg' : List UInt8, msg.length = MAX_BUFF_LENGTH → msg'.length = MAX_BUFF_LENGTH →
    msg.take nread = msg'.take nread →
    insertMesgToDb celsius msg nread netname = insertMesgToDb celsius msg' nread netname

/-- Runs of the child that differ in their earlier reads give the same updates for the current one. -/
def RunIndependent (celsius : UInt16 → T) (netname : List UInt8) (nread : Nat) : Prop :=
  ∀ (bs : List UInt8) (reads reads' : List (List UInt8)), bs.length = nread →
    (∀ r ∈ reads ++ reads', 1 ≤ r.length ∧ r.length ≤ MAX_BUFF_LENGTH) →
    (childLoop celsius netname (List.replicate MAX_BUFF_LENGTH 0) (reads ++ [bs])).map List.getLast? =
      (childLoop celsius netname (List.replicate MAX_BUFF_LENGTH 0) (reads' ++ [bs])).map List.getLast?

variable {celsius : UInt16 → T} {netname : List UInt8} {nread : Nat}

private theorem runIndependent_of_buffer (hle : nread ≤ MAX_BUFF_LENGTH) (h : BufferIndependent celsius netname nread) :
    RunIndependent celsius netname nread := by
  intro bs reads reads' hlen hreads
  have hleft := leftover_length fun r hr => (hreads r (List.mem_append_left _ hr)).2
  have hleft' := leftover_length fun r hr => (hreads r (List.mem_append_right _ hr)).2
  have hfit : ∀ r ∈ reads ++ reads', r.length ≤ (List.replicate MAX_BUFF_LENGTH (0 : UInt8)).length := by
    intro r hr
    rw [List.length_replicate]
    exact (hreads r hr).2
  rw [childLoop_last celsius netname zeros_large fun r hr => hfit r (List.mem_append_left _ hr),
    childLoop_last celsius netname zeros_large fun r hr => hfit r (List.mem_append_right _ hr), hlen]
  refine congrArg (Option.map some) (h _ _ ?_ ?_ ?_)
  · rw [readInto_length (by rw [← leftover, hleft, hlen]; exact hle), ← leftover, hleft]
  · rw [readInto_length (by rw [← leftover, hleft', hlen]; exact hle), ← leftover, hleft']
  · rw [readInto, readInto, ← hlen, List.take_left, List.take_left]

/-- Fields that lie within the current read, or are out of the getter's bound, are all there are. -/
private theorem bufferIndependent_of (h : nread = 1 ∨ 30 ≤ nread) : BufferIndependent celsius netname nread := by
  intro msg msg' hmsg hmsg' hagree
  have hlarge : 32 ≤ MAX_BUFF_LENGTH := show 32 ≤ 1024 by decide
  have hbyte : ∀ i < nread, msg.getD i 0 = msg'.getD i 0 := by
    intro i hi
    rw [List.getD_eq_getElem?_getD, List.getD_eq_getElem?_getD, ← List.getElem?_take_of_lt hi, hagree,
      List.getElem?_take_of_lt hi]
  rw [insertMesgToDb_field celsius netname (hmsg ▸ hlarge), insertMesgToDb_field celsius netname (hmsg' ▸ hlarge)]
  refine congrArg some (updates_congr celsius netname fun k hk => ?_)
  rw [field, field]
  obtain rfl | hlong := h
  · rw [if_neg (by omega), if_neg (by omega)]
  · rw [hbyte (2 * k + 8) (by omega), hbyte (2 * k + 9) (by omega)]

/-- The first run starts with zeros in the buffer, in the other one the first read has filled it. -/
private theorem getD_fresh (bs : List UInt8) (i : Nat) :
    (readInto (leftover []) bs).getD i 0 = bs.getD i 0 := by
  rw [List.getD_eq_getElem?_getD, List.getD_eq_getElem?_getD, readInto_get]
  split
  · rfl
  · rename_i hbehind
    rw [List.getElem?_eq_none (l := bs) (Nat.le_of_not_lt hbehind), leftover, List.foldl_nil]
    by_cases hi : i < MAX_BUFF_LENGTH
    · rw [List.getElem?_replicate_of_lt hi]
      rfl
    · rw [List.getElem?_eq_none (by rw [List.length_replicate]; exact Nat.le_of_not_lt hi)]

private theorem getD_filled {i : Nat} (hi : i < MAX_BUFF_LENGTH) :
    (readInto (leftover [List.replicate MAX_BUFF_LENGTH 1]) (List.replicate nread 1)).getD i 0 = 1 := by
  have hleft : leftover [List.replicate MAX_BUFF_LENGTH 1] = List.replicate MAX_BUFF_LENGTH 1 := by
    simp [leftover, readInto]
  rw [hleft, List.getD_eq_getElem?_getD, readInto_get, List.length_replicate]
  split
  · rw [List.getElem?_replicate_of_lt ‹_›]
    rfl
  · rw [List.getElem?_replicate_of_lt hi]
    rfl

/-- A field that the getter lets through and that ends behind the current read shows what was there. -/
private theorem field_leftover {k : Nat} (hk : k ≤ 10) (hin : 2 * k + 2 ≤ nread)
    (hout : nread ≤ 2 * k + 9) :
    field (readInto (leftover []) (List.replicate nread 1)) nread k ≠
      field (readInto (leftover [List.replicate MAX_BUFF_LENGTH 1]) (List.replicate nread 1)) nread k := by
  have hmax : MAX_BUFF_LENGTH = 1024 := rfl
  have hlow : (List.replicate nread (1 : UInt8)).getD (2 * k + 9) 0 = 0 := by
    rw [List.getD_eq_getElem?_getD, List.getElem?_eq_none (by rw [List.length_replicate]; exact hout)]
    rfl
  rw [field, field, if_pos hin, if_pos hin, getD_filled (by omega), getD_filled (by omega), getD_fresh,
    getD_fresh, hlow]
  intro heq
  have := congrArg UInt16.toNat heq
  rw [beWord_toNat, beWord_toNat] at this
  simp at this
  omega

private theorem field_filled (hin : 2 ≤ nread) :
    field (readInto (leftover [List.replicate MAX_BUFF_LENGTH 1]) (List.replicate nread 1)) nread 0 ≠ 0 := by
  have hmax : MAX_BUFF_LENGTH = 1024 := rfl
  rw [field, if_pos (by omega), getD_filled (by omega), getD_filled (by omega)]
  decide

private theorem not_runIndependent (hle : nread ≤ MAX_BUFF_LENGTH) (h : 2 ≤ nread ∧ nread ≤ 29) :
    ¬ RunIndependent celsius netname nread := by
  intro hsame
  have hmax : MAX_BUFF_LENGTH = 1024 := rfl
  have hrun := hsame (List.replicate nread 1) [List.replicate MAX_BUFF_LENGTH 1] [] List.length_replicate (by
    intro r hr
    rw [List.append_nil, List.mem_singleton] at hr
    rw [hr, List.length_replicate]
    decide)
  rw [childLoop_last celsius netname zeros_large (by simp),
    childLoop_last celsius netname zeros_large (by simp), ← leftover,
    ← leftover, List.length_replicate] at hrun
  have hfresh : 32 ≤ (readInto (leftover []) (List.replicate nread 1)).length := by
    rw [readInto_length (by simpa [leftover] using hle)]
    exact zeros_large
  have hfilled : 32 ≤
      (readInto (leftover [List.replicate MAX_BUFF_LENGTH 1]) (List.replicate nread 1)).length := by
    rw [readInto_length (by simpa [leftover, readInto] using hle), leftover_length (by simp)]
    exact show 32 ≤ 1024 by decide
  rw [insertMesgToDb_field celsius netname hfilled, insertMesgToDb_field celsius netname hfresh] at hrun
  obtain ⟨hnode, hsense⟩ := updates_injective (Option.some.inj (Option.some.inj hrun))
  have hfields := hsense (field_filled h.1)
  have hbad : ∀ k ≤ 10, k ≠ 4 → 2 * k + 2 ≤ nread → ¬ nread ≤ 2 * k + 9 := fun k hk htemp hin hout =>
    field_leftover hk hin hout (hfields k hk htemp).symm
  -- four fields are enough to cover the lengths
  have := hbad 0 (by decide) (by decide)
  have := hbad 3 (by decide) (by decide)
  have := hbad 7 (by decide) (by decide)
  have := hbad 10 (by decide) (by decide)
  omega

/-- What is stored of a read of `nread` bytes is independent of everything outside it exactly when no field
lies partly or wholly behind the read and yet within the getter's bound. -/
theorem independent_iff (celsius : UInt16 → T) (netname : List UInt8) {nread : Nat} (hpos : 1 ≤ nread)
    (hle : nread ≤ MAX_BUFF_LENGTH) :
    (BufferIndependent celsius netname nread ↔ nread = 1 ∨ 30 ≤ nread) ∧
      (RunIndependent celsius netname nread ↔ nread = 1 ∨ 30 ≤ nread) := by
  have hrun : RunIndependent celsius netname nread → nread = 1 ∨ 30 ≤ nread := by
    intro hsame
    by_contra hshort
    exact not_runIndependent hle (by omega) hsame
  constructor
  · exact ⟨fun h => hrun (runIndependent_of_buffer hle h), bufferIndependent_of⟩
  · exact ⟨hrun, fun h => runIndependent_of_buffer hle (bufferIndependent_of h)⟩

theorem independent_packet : BufferIndependent id [] 32 :=
  (independent_iff id [] (by decide) (by decide)).1.mpr (.inr (by decide))

/-- Of two bytes that belong to a header, the node of an earlier message is stored again. -/
theorem stored_leftovers :
    ¬ ∀ nread, 1 ≤ nread → nread ≤ MAX_BUFF_LENGTH → RunIndependent id [] nread := fun h =>
  not_runIndependent (by decide) ⟨by decide, by decide⟩ (h 2 (by decide) (by decide))

end TinyosGraphics.Sensor
