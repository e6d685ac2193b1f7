import TinyosGraphics.Sensor.Crc

/-! The client's main loop: every packet that the serial forwarder sends goes through `dataCorrupt`, however
short it is. A result of `none` is a read outside the packet. -/
namespace TinyosGraphics.Sensor

/-- `saferead`: as many of the bytes that the other end sends as were asked for, fewer when it closes. -/
def saferead (stream : List UInt8) (count : Nat) : List UInt8 × List UInt8 :=
  (stream.take count, stream.drop count)

/-- `read_sf_packet`: a byte with the length, and the packet; and what is left of the stream. -/
def readSfPacket (stream : List UInt8) : Option (List UInt8 × List UInt8) :=
  match saferead stream 1 with
  | ([l], stream) =>
    let (packet, rest) := saferead stream l.toNat
    if packet.length = l.toNat then some (packet, rest) else none
  | _ => none

def checkPacket (packet : List UInt8) : Option Int :=
  dataCorrupt ((⟨packet, 0⟩ : Ptr).add 8) (packet.length - 8)

theorem readSfPacket_cases {stream packet rest : List UInt8} (h : readSfPacket stream = some (packet, rest)) :
    packet.length ≤ 255 ∧ stream = UInt8.ofNat packet.length :: (packet ++ rest) := by
  cases stream with
  | nil => cases h
  | cons l stream =>
    change (if (stream.take l.toNat).length = l.toNat then some (stream.take l.toNat, stream.drop l.toNat)
      else none) = some (packet, rest) at h
    rw [Option.ite_none_right_eq_some, Option.some.injEq, Prod.mk.injEq] at h
    obtain ⟨hlen, rfl, rfl⟩ := h
    rw [hlen]
    refine ⟨Nat.le_of_lt_succ l.toNat_lt, ?_⟩
    rw [List.take_append_drop, UInt8.ofNat_toNat]

/-- The main loop's `while (running)`, until there is no further packet: the packets that are written to the
server. -/
def forwardLoop (stream : List UInt8) : Option (List (List UInt8)) :=
  match _h : readSfPacket stream with
  | none => some []
  | some (packet, rest) => do
    let ret ← checkPacket packet
    let forwarded ← forwardLoop rest
    return if ret < 0 then forwarded else packet :: forwarded
termination_by stream.length
decreasing_by
  have := congrArg List.length (readSfPacket_cases _h).2
  simp only [List.length_cons, List.length_append] at this
  omega

private theorem crcLoop_outside (block : List UInt8) {offset len : Nat} (crc : UInt16) (hlen : 0 < len)
    (h : block.length < offset + len) : crcLoop ⟨block, offset⟩ len crc = none := by
  induction len generalizing offset crc with
  | zero => cases hlen
  | succ len ih =>
    have hget : (⟨block, offset⟩ : Ptr).get 0 = block[offset]? := by
      simp [Ptr.get]
    rw [crcLoop, hget]
    by_cases hin : offset < block.length
    · rw [List.getElem?_eq_getElem hin]
      exact @ih (offset + 1) _ (by omega) (by omega)
    · rw [List.getElem?_eq_none (Nat.le_of_not_lt hin)]
      rfl

private theorem ofInt_short {n : Nat} (h : n < 10) : (UInt8.ofInt (n - 8 - 2)).toNat = 246 + n := by
  revert n
  decide

private theorem checkPacket_short {packet : List UInt8} (h : packet.length < 10) : checkPacket packet = none := by
  have hout : crcLoop ((⟨packet, 0⟩ : Ptr).add 8) (246 + packet.length) 0 = none :=
    crcLoop_outside packet 0 (by omega) (show packet.length < 8 + (246 + packet.length) by omega)
  rw [checkPacket, dataCorrupt, crc16, ofInt_short h, hout]
  rfl

private theorem checkPacket_long {packet : List UInt8} (h : 10 ≤ packet.length) (hle : packet.length ≤ 255) :
    checkPacket packet = some 0 ∨ checkPacket packet = some (-1) := by
  have hptr : (⟨packet, 0⟩ : Ptr).add 8 =
      ⟨packet.take 8 ++ (packet.drop 8 ++ []), (packet.take 8).length⟩ := by
    simp only [Ptr.add, List.append_nil, List.take_append_drop, List.length_take]
    congr 1
    omega
  have hlen : (packet.length : Int) - 8 = (packet.drop 8).length := by
    rw [List.length_drop]
    omega
  rw [checkPacket, hptr, hlen]
  have hdrop : (packet.drop 8).length = packet.length - 8 := List.length_drop
  obtain ⟨-, hret⟩ | ⟨-, hret⟩ := dataCorrupt_packet (packet.take 8) (packet.drop 8) [] (by omega) (by omega)
  · exact .inl hret
  · exact .inr hret

/-- The call reads only bytes of the packet, and discards a packet without room for a header and a check. -/
def Checked (packet : List UInt8) : Prop :=
  ∃ ret, checkPacket packet = some ret ∧ (packet.length < 10 → ret = -1)

/-- A packet that arrives is checked properly exactly when it has room for a header and a check. -/
theorem checked_iff {stream packet rest : List UInt8} (h : readSfPacket stream = some (packet, rest)) :
    Checked packet ↔ 10 ≤ packet.length := by
  constructor
  · rintro ⟨ret, hret, -⟩
    by_contra hshort
    rw [checkPacket_short (Nat.lt_of_not_le hshort)] at hret
    cases hret
  · intro hlong
    obtain hret | hret := checkPacket_long hlong (readSfPacket_cases h).1
    · exact ⟨0, hret, fun hshort => absurd hlong (Nat.not_le.mpr hshort)⟩
    · exact ⟨-1, hret, fun _ => rfl⟩

theorem checked_ten : Checked [0, 0, 0, 0, 0, 0, 0, 0, 0, 0] :=
  (@checked_iff [10, 0, 0, 0, 0, 0, 0, 0, 0, 0, 0] _ [] rfl).mpr (by decide)

/-- Of a packet of one byte, 247 bytes from the ninth on are read. -/
theorem short_not_checked : ¬ ∀ stream packet rest, readSfPacket stream = some (packet, rest) → Checked packet := by
  intro h
  obtain ⟨ret, hret, -⟩ := h [1, 0] [0] [] rfl
  rw [checkPacket_short (by decide)] at hret
  cases hret

def packets (stream : List UInt8) : List (List UInt8) :=
  match _h : readSfPacket stream with
  | none => []
  | some (packet, rest) => packet :: packets rest
termination_by stream.length
decreasing_by
  have := congrArg List.length (readSfPacket_cases _h).2
  simp only [List.length_cons, List.length_append] at this
  omega

/-- One short packet is enough to spoil the run; without one, the packets that pass are written. -/
theorem forwardLoop_spec (stream : List UInt8) :
    forwardLoop stream =
      if ∀ p ∈ packets stream, 10 ≤ p.length then
        some ((packets stream).filter fun p => checkPacket p = some 0)
      else none := by
  induction stream using packets.induct with
  | case1 stream h =>
    rw [forwardLoop, packets]
    split
    · simp
    · rename_i heq
      cases h.symm.trans heq
  | case2 stream packet rest h ih =>
    have hpackets : packets stream = packet :: packets rest := by
      rw [packets]
      split
      · rename_i heq
        cases h.symm.trans heq
      · rename_i heq
        obtain ⟨rfl, rfl⟩ := Prod.mk.inj (Option.some.inj (h.symm.trans heq))
        rfl
    have hloop : forwardLoop stream = (checkPacket packet).bind fun ret =>
        (forwardLoop rest).bind fun forwarded => some (if ret < 0 then forwarded else packet :: forwarded) := by
      rw [forwardLoop]
      split
      · rename_i heq
        cases h.symm.trans heq
      · rename_i heq
        obtain ⟨rfl, rfl⟩ := Prod.mk.inj (Option.some.inj (h.symm.trans heq))
        rfl
    rw [hloop, hpackets, ih]
    by_cases hlong : 10 ≤ packet.length
    · by_cases hrest : ∀ p ∈ packets rest, 10 ≤ p.length
      · have hall : ∀ p ∈ packet :: packets rest, 10 ≤ p.length := List.forall_mem_cons.mpr ⟨hlong, hrest⟩
        rw [if_pos hrest, if_pos hall]
        obtain hret | hret := checkPacket_long hlong (readSfPacket_cases h).1
        · simp [hret]
        · simp [hret]
      · have hall : ¬ ∀ p ∈ packet :: packets rest, 10 ≤ p.length := fun hall =>
          hrest fun p hp => hall p (List.mem_cons_of_mem _ hp)
        rw [if_neg hrest, if_neg hall]
        cases checkPacket packet <;> rfl
    · have hall : ¬ ∀ p ∈ packet :: packets rest, 10 ≤ p.length := fun hall => hlong (hall _ List.mem_cons_self)
      rw [checkPacket_short (Nat.lt_of_not_le hlong), if_neg hall]
      rfl

end TinyosGraphics.Sensor
