import TinyosGraphics.Serial.Link

/-! What two programs can rely on that exchange packets over a line: order, no loss, no duplicates, and what a
successful write says about the other end. -/
namespace TinyosGraphics.Serial
open Lib Stuffing

private theorem acks_length {bodies : List (List UInt8)} : ∀ body ∈ acks bodies, ∃ number, body = [P_ACK, number] := by
  intro body hbody
  obtain ⟨a, -, ha⟩ := List.mem_filterMap.mp hbody
  split at ha
  · exact ⟨_, (Option.some.inj ha).symm⟩
  · cases ha

private theorem filter_fits_acks (bodies : List (List UInt8)) : (acks bodies).filter (Fits ·) = acks bodies := by
  refine List.filter_eq_self.mpr fun body hbody => ?_
  obtain ⟨number, rfl⟩ := acks_length body hbody
  exact decide_eq_true (show (2 + 2 : Nat) < MTU by decide)

private theorem filter_comm (p q : List UInt8 → Prop) [DecidablePred p] [DecidablePred q] (bs : List (List UInt8)) :
    (bs.filter (p ·)).filter (q ·) = (bs.filter (q ·)).filter (p ·) := by
  rw [List.filter_filter, List.filter_filter]
  congr 1
  funext b
  exact Bool.and_comm _ _

section
variable {a b : Station} {gotA gotB seenA seenB : List UInt8} {tookA tookB : UInt8 → List (List UInt8)}

/-- What an end has found is the front of what the other end sent, as far as it fits. -/
theorem found (ha : a.Kept gotA seenA tookA) (hb : b.Kept gotB seenB tookB) (hline : gotB <+: a.port.sent) :
    ∃ out : List (List UInt8), bodies .lost seenB <+: out.filter (Fits ·) ∧
      (gotB = a.port.sent → b.port.incoming = [] → bodies .lost seenB = out.filter (Fits ·)) ∧
      out.filter (IsAck ·) = acks (bodies .lost seenA) ∧ out.filter (¬ IsAck ·) = a.written.zipIdx.map dataBody := by
  obtain ⟨out, hsent, hacks, hdata⟩ := ha.sent
  have hlong : ∀ body ∈ out, 2 ≤ body.length := by
    intro body hbody
    by_cases hack : IsAck body
    · have hmem : body ∈ acks (bodies .lost seenA) := by
        rw [← hacks]
        exact List.mem_filter.mpr ⟨hbody, by simpa using hack⟩
      obtain ⟨number, rfl⟩ := acks_length body hmem
      exact Nat.le_refl _
    · have hmem : body ∈ a.written.zipIdx.map dataBody := by
        rw [← hdata]
        exact List.mem_filter.mpr ⟨hbody, by simpa using hack⟩
      obtain ⟨x, -, rfl⟩ := List.mem_map.mp hmem
      exact Nat.le_add_left _ _
  have hframes := bodies_frames (r := .lost) (.inl rfl) hlong
  rw [← hsent] at hframes
  have hseen : seenB <+: gotB := by
    rw [hb.received]
    exact List.prefix_append _ _
  refine ⟨out, ?_, fun hall hnone => ?_, hacks, hdata⟩
  · rw [← hframes]
    exact bodies_begins _ (hseen.trans hline)
  · have hwhole : seenB = a.port.sent := by
      rw [← hall, hb.received, hnone, List.append_nil]
    rw [hwhole, hframes]

/-- The packets that reached an end are the first of those that the other end wrote, apart from those that do not
fit. -/
private theorem packets_exchanged (ha : a.Kept gotA seenA tookA) (hb : b.Kept gotB seenB tookB)
    (hline : gotB <+: a.port.sent) :
    b.delivered ++ b.port.queue P_PACKET_NO_ACK <+: (passing a.written).map (·.1) ∧
      (gotB = a.port.sent → b.port.incoming = [] →
        b.delivered ++ b.port.queue P_PACKET_NO_ACK = (passing a.written).map (·.1)) := by
  obtain ⟨out, hbegins, hwhole, -, hdata⟩ := found ha hb hline
  have hentries : entries P_PACKET_NO_ACK (out.filter (Fits ·)) = (passing a.written).map (·.1) := by
    rw [entries_packets, filter_comm, hdata, filter_dataBody, entries_dataBody]
    rfl
  rw [← hb.delivered, ← hb.queue, ← hentries]
  exact ⟨hbegins.filterMap _, fun hall hnone => by rw [hwhole hall hnone]⟩

/-- The acknowledgements that an end sent are for the first packets that got through to it. -/
private theorem acks_exchanged (ha : a.Kept gotA seenA tookA) (hb : b.Kept gotB seenB tookB)
    (hline : gotB <+: a.port.sent) :
    acks (bodies .lost seenB) <+: (passing a.written).map fun x => [P_ACK, numberOf x.2] := by
  obtain ⟨out, hbegins, -, -, hdata⟩ := found ha hb hline
  have hacks : acks (out.filter (Fits ·)) = (passing a.written).map fun x => [P_ACK, numberOf x.2] := by
    rw [acks_packets, filter_comm, hdata, filter_dataBody, acks_dataBody]
    rfl
  rw [← hacks]
  exact hbegins.filterMap _

/-- The acknowledgements that came back carry the numbers of the first packets that got through, and there are no more
of them than packets that reached the other end. -/
private theorem numbers_exchanged (ha : a.Kept gotA seenA tookA) (hb : b.Kept gotB seenB tookB)
    (hline : gotB <+: a.port.sent)
    (hback : gotA <+: b.port.sent) :
    tookA P_ACK ++ a.port.queue P_ACK <+: (passing a.written).map (fun x => [numberOf x.2]) ∧
      (tookA P_ACK ++ a.port.queue P_ACK).length ≤ (b.delivered ++ b.port.queue P_PACKET_NO_ACK).length := by
  obtain ⟨out, hbegins, -, hacks, -⟩ := found hb ha hback
  have hentries : entries P_ACK (out.filter (Fits ·)) = (acks (bodies .lost seenB)).map (·.drop 1) := by
    rw [entries_ack, filter_comm, hacks, filter_fits_acks]
  have hqueue : tookA P_ACK ++ a.port.queue P_ACK <+: (acks (bodies .lost seenB)).map (·.drop 1) := by
    rw [← ha.queue, ← hentries]
    exact hbegins.filterMap _
  constructor
  · have hmap := (acks_exchanged ha hb hline).map (·.drop 1)
    rw [List.map_map] at hmap
    exact hqueue.trans hmap
  · have hpackets := acks_length_le (bodies .lost seenB)
    have hle := hqueue.length_le
    rw [List.length_map] at hle
    rw [← hb.delivered, ← hb.queue]
    exact hle.trans hpackets

end

/-- Every write that succeeded took an acknowledgement, in the order of the line, with its own number. -/
def Station.Acked (s : Station) (taken : Nat) : Prop :=
  ∀ j, s.results[j]? = some 0 → ∃ m x, m < taken ∧ (s.results.take (j + 1)).count 0 ≤ m + 1 ∧
    (passing s.written)[m]? = some x ∧ x.2 ≤ j ∧ numberOf x.2 = numberOf j

private theorem passing_append (written more : List (List UInt8)) : passing written <+: passing (written ++ more) := by
  rw [passing, passing, List.zipIdx_append, List.filter_append]
  exact List.prefix_append _ _

private theorem passing_lt {written : List (List UInt8)} {x : List UInt8 × Nat} (h : x ∈ passing written) :
    x.2 < written.length := by
  have := List.mem_zipIdx (List.mem_of_mem_filter h)
  omega

private theorem getElem?_of_begins {α : Type} {xs ys : List α} (h : xs <+: ys) {i : Nat} {x : α}
    (hx : xs[i]? = some x) :
    ys[i]? = some x := by
  obtain ⟨hi, -⟩ := List.getElem?_eq_some_iff.mp hx
  obtain ⟨rest, rfl⟩ := h
  rw [List.getElem?_append_left hi, hx]

theorem Station.Acked.mono {s s' : Station} {taken taken' : Nat} (h : s.Acked taken) (hresults : s'.results = s.results)
    (hwritten : passing s.written <+: passing s'.written) (hle : taken ≤ taken') : s'.Acked taken' := by
  intro j hj
  rw [hresults] at hj ⊢
  obtain ⟨m, x, hm, hcount, hx, hle', hnumber⟩ := h j hj
  exact ⟨m, x, Nat.lt_of_lt_of_le hm hle, hcount, getElem?_of_begins hwritten hx, hle', hnumber⟩

/-- A result is added. -/
theorem Station.Acked.snoc {s s' : Station} {taken taken' : Nat} {r : Int} (h : s.Acked taken)
    (hresults : s'.results = s.results ++ [r]) (hwritten : passing s.written <+: passing s'.written)
    (hle : taken ≤ taken')
    (hlast : r = 0 → ∃ m x, m < taken' ∧ s'.results.count 0 ≤ m + 1 ∧ (passing s'.written)[m]? = some x ∧
      x.2 ≤ s.results.length ∧ numberOf x.2 = numberOf s.results.length) : s'.Acked taken' := by
  intro j hj
  rw [hresults] at hj
  obtain hlt | ⟨rfl, hr⟩ : j < s.results.length ∨ (j = s.results.length ∧ r = 0) := by
    obtain hlt | hge := Nat.lt_or_ge j s.results.length
    · exact .inl hlt
    · rw [List.getElem?_append_right hge] at hj
      obtain ⟨hzero, hr⟩ := List.getElem?_eq_some_iff.mp hj
      have hzero : j - s.results.length = 0 := by simpa using hzero
      simp only [hzero, List.getElem_cons_zero] at hr
      exact .inr ⟨by omega, hr⟩
  · rw [List.getElem?_append_left hlt] at hj
    obtain ⟨m, x, hm, hcount, hx, hle', hnumber⟩ := h j hj
    refine ⟨m, x, Nat.lt_of_lt_of_le hm hle, ?_, getElem?_of_begins hwritten hx, hle', hnumber⟩
    rw [hresults, List.take_append_of_le_length hlt]
    exact hcount
  · obtain ⟨m, x, hm, hcount, hx, hle', hnumber⟩ := hlast hr
    refine ⟨m, x, hm, ?_, hx, hle', hnumber⟩
    rw [List.take_of_length_le (by simp [hresults])]
    exact hcount

/-- Each end has kept its history, and what its writes returned is right. -/
def Link.Kept (s : Link) : Prop :=
  ∀ i, s.arrived i ≤ (s.station !i).port.sent.length ∧
    ∃ seen took, (s.station i).Kept (s.received i) seen took ∧ (s.station i).Acked (took P_ACK).length

private theorem Link.received_begins (s : Link) (i : Bool) : s.received i <+: (s.station !i).port.sent :=
  List.take_prefix _ _

private theorem Link.received_of_begins {s : Link} (hs : s.Kept) {i j : Bool} {t : Station}
    (hsent : (s.station i).port.sent <+: t.port.sent) : (s.put i t).received j = s.received j := by
  have hle := (hs j).1
  unfold received put
  by_cases hj : (!j) = i
  · subst hj
    simp only [Function.update_self]
    obtain ⟨rest, hrest⟩ := hsent
    rw [← hrest, List.take_append_of_le_length hle]
  · simp only [Function.update_of_ne hj]

private theorem Link.put_kept {s : Link} (hs : s.Kept) {i : Bool} {t : Station} {seen : List UInt8}
    {took : UInt8 → List (List UInt8)} (hsent : (s.station i).port.sent <+: t.port.sent)
    (ht : t.Kept (s.received i) seen took) (hacked : t.Acked (took P_ACK).length) : (s.put i t).Kept := by
  intro j
  obtain ⟨hle, hkept⟩ := hs j
  constructor
  · show s.arrived j ≤ (Function.update s.station i t !j).port.sent.length
    by_cases hj : (!j) = i
    · subst hj
      rw [Function.update_self]
      exact hle.trans hsent.length_le
    · rwa [Function.update_of_ne hj]
  · rw [received_of_begins hs hsent]
    show ∃ seen took, (Function.update s.station i t j).Kept _ seen took ∧ _
    by_cases hj : j = i
    · subst hj
      simp only [put, Function.update_self]
      exact ⟨seen, took, ht, hacked⟩
    · simp only [put, Function.update_of_ne hj]
      exact hkept

theorem Link.arrive_kept {s : Link} (hs : s.Kept) (i : Bool) (answers : List ReadAnswer)
    (hflight : answers.flatMap ReadAnswer.bytes <+: s.inFlight i) :
    (⟨(s.put i ((s.station i).arrive answers)).station,
      Function.update s.arrived i (s.arrived i + (answers.flatMap ReadAnswer.bytes).length)⟩ : Link).Kept := by
  have hreceived : (s.station !i).port.sent.take (s.arrived i + (answers.flatMap ReadAnswer.bytes).length) =
      s.received i ++ answers.flatMap ReadAnswer.bytes := by
    rw [List.take_add]
    exact congrArg (s.received i ++ ·) (List.prefix_iff_eq_take.mp hflight).symm
  intro j
  obtain ⟨hle, seen, took, hkept, hacked⟩ := hs j
  by_cases hj : j = i
  · subst hj
    have hroom : (answers.flatMap ReadAnswer.bytes).length ≤ (s.station !j).port.sent.length - s.arrived j := by
      rw [← List.length_drop]
      exact hflight.length_le
    refine ⟨?_, seen, took, ?_, ?_⟩
    · simp only [put, Function.update_self, Function.update_of_ne (Bool.not_ne_self j)]
      omega
    · simp only [received, put, Function.update_self, Function.update_of_ne (Bool.not_ne_self j)]
      rw [hreceived]
      exact Station.arrive_kept hkept answers
    · simp only [put, Function.update_self]
      exact hacked.mono rfl List.prefix_rfl (Nat.le_refl _)
  · have hi : (!j) = i := by revert hj; cases i <;> cases j <;> simp
    subst hi
    simp only [received, put, Function.update_of_ne hj, Function.update_self]
    exact ⟨hle, seen, took, hkept, hacked⟩

private theorem Link.step_kept {s s' : Link} {l : Bool × Action} (hs : s.Kept) (h : s.step l = some s') : s'.Kept := by
  obtain ⟨i, action⟩ := l
  obtain ⟨-, seen, took, hkept, hacked⟩ := hs i
  cases action with
  | write packet =>
    obtain ⟨t, ht, rfl⟩ := Option.map_eq_some_iff.mp h
    obtain ⟨hkept', hwritten, hresults, hsent⟩ := Station.write_kept hkept ht
    refine put_kept hs hsent hkept' (hacked.mono hresults ?_ (Nat.le_refl _))
    rw [hwritten]
    exact passing_append _ _
  | turn selects =>
    obtain ⟨t, ht, rfl⟩ := Option.map_eq_some_iff.mp h
    obtain ⟨hwaiting, hwritten, hsent, seen', took', taken, hkept', htook, hresults⟩ := Station.turn_kept hkept ht
    have hpassing : passing (s.station i).written <+: passing t.written := by rw [hwritten]
    have hle : (took P_ACK).length ≤ (took' P_ACK).length := by simp [htook]
    refine put_kept hs hsent hkept' ?_
    obtain hresults | ⟨r, hresults, hzero⟩ := hresults
    · exact hacked.mono hresults hpassing hle
    · refine hacked.snoc hresults hpassing hle fun hr => ?_
      obtain ⟨ack, rfl, hack⟩ := hzero hr
      obtain ⟨-, seenB, tookB, hother, -⟩ := hs !i
      have hline : s.received (!i) <+: t.port.sent := by
        have hbegins := s.received_begins !i
        rw [Bool.not_not] at hbegins
        exact hbegins.trans hsent
      obtain ⟨hnumbers, -⟩ := numbers_exchanged hkept' hother hline (s.received_begins i)
      have htaken : (took' P_ACK ++ t.port.queue P_ACK)[(took P_ACK).length]? = some ack := by
        refine getElem?_of_begins (List.prefix_append _ _) ?_
        rw [htook]
        exact List.getElem?_concat_length
      have hnumber := getElem?_of_begins hnumbers htaken
      rw [List.getElem?_map] at hnumber
      obtain ⟨x, hx, rfl⟩ := Option.map_eq_some_iff.mp hnumber
      have hfinished := hkept.finished
      rw [if_pos hwaiting] at hfinished
      have hcount := hkept'.taken
      rw [htook, List.length_append, List.length_singleton] at hcount
      have hlt := passing_lt (List.mem_of_getElem? hx)
      rw [hwritten, hfinished] at hlt
      refine ⟨(took P_ACK).length, x, by simp [htook], hcount, hx, Nat.le_of_lt_succ hlt, ?_⟩
      rw [List.getD_cons_zero] at hack
      rw [hack, hkept.seqno, hfinished, numberOf]
      congr 1
      omega
  | read =>
    obtain ⟨t, ht, rfl⟩ := Option.map_eq_some_iff.mp h
    obtain ⟨⟨seen', took', hkept', htook⟩, hwritten, hresults, hsent⟩ := Station.read_kept hkept ht
    exact put_kept hs hsent hkept' (hacked.mono hresults (by rw [hwritten]) htook.length_le)
  | arrive answers =>
    simp only [step] at h
    split at h
    · obtain rfl := Option.some.inj h
      exact arrive_kept hs i answers ‹_›
    · cases h

theorem init_kept {s : Link} (h : serialLine.init s) : s.Kept := by
  obtain ⟨writes, hsound, rfl⟩ := h
  intro i
  have hnil : (⟨fun i => .opened (writes i), fun _ => 0⟩ : Link).received i = [] := rfl
  rw [hnil]
  exact ⟨Nat.le_refl _, [], _, Station.opened_kept (hsound i), fun j hj => by cases hj⟩

theorem reachable_kept {s : Link} (h : serialLine.Reachable (fun _ _ => True) s) : s.Kept :=
  h.invariant (fun _ => init_kept) fun _ _ _ hs _ => Link.step_kept hs

private theorem passing_packets (written : List (List UInt8)) :
    (passing written).map (·.1) = written.filter (PacketFits ·) := by
  have hfilter := List.filter_map (f := (·.1)) (p := fun packet => decide (PacketFits packet)) (l := written.zipIdx)
  rw [List.zipIdx_map_fst] at hfilter
  exact hfilter.symm

/-- A packet that gets through has its place behind the ones that got through before it. -/
private theorem passing_get {written : List (List UInt8)} {k m : Nat} {x : List UInt8 × Nat}
    (h : ((written.zipIdx k).filter fun y => PacketFits y.1)[m]? = some x) :
    k + m ≤ x.2 ∧ ((written.zipIdx k).filter fun y => PacketFits y.1).take (m + 1) =
      (((written.take (x.2 - k + 1)).zipIdx k).filter fun y => PacketFits y.1) := by
  induction written generalizing k m with
  | nil => simp at h
  | cons packet written ih =>
    rw [List.zipIdx_cons] at h ⊢
    by_cases hfits : PacketFits packet
    · rw [List.filter_cons_of_pos (by simpa using hfits)] at h ⊢
      cases m with
      | zero =>
        obtain rfl := Option.some.inj h
        simp [hfits]
      | succ m =>
        rw [List.getElem?_cons_succ] at h
        obtain ⟨hle, htake⟩ := ih h
        have hplace : x.2 - k + 1 = x.2 - (k + 1) + 1 + 1 := by omega
        refine ⟨by omega, ?_⟩
        rw [List.take_succ_cons, htake, hplace, List.take_succ_cons, List.zipIdx_cons,
          List.filter_cons_of_pos (by simpa using hfits)]
    · rw [List.filter_cons_of_neg (by simpa using hfits)] at h ⊢
      obtain ⟨hle, htake⟩ := ih h
      have hplace : x.2 - k + 1 = x.2 - (k + 1) + 1 + 1 := by omega
      refine ⟨by omega, ?_⟩
      rw [htake, hplace, List.take_succ_cons, List.zipIdx_cons, List.filter_cons_of_neg (by simpa using hfits)]

private theorem eq_of_numberOf {i j : Nat} (h : numberOf i = numberOf j) (hle : i ≤ j) (hlt : j < i + 256) : i = j := by
  have hmod := congrArg UInt8.toNat h
  simp only [numberOf, UInt8.toNat_ofNat'] at hmod
  omega

namespace Link

/-- In every state that is reached, the packets that were handed out at an end and those that wait there are the first
of those that the other end wrote, apart from those that are too long: none is lost, doubled, changed or overtaken.
They are all of them when nothing is on its way. -/
theorem exchanged {s : Link} (h : serialLine.Reachable (fun _ _ => True) s) (i : Bool) :
    (s.station i).delivered ++ (s.station i).port.queue P_PACKET_NO_ACK <+:
        (s.station !i).written.filter (PacketFits ·) ∧
      (s.inFlight i = [] → (s.station i).port.incoming = [] →
        (s.station i).delivered ++ (s.station i).port.queue P_PACKET_NO_ACK =
          (s.station !i).written.filter (PacketFits ·)) := by
  obtain ⟨-, seen, took, hkept, -⟩ := reachable_kept h i
  obtain ⟨-, seen', took', hkept', -⟩ := reachable_kept h !i
  obtain ⟨hbegins, hwhole⟩ := packets_exchanged hkept' hkept (s.received_begins i)
  rw [passing_packets] at hbegins hwhole
  refine ⟨hbegins, fun hflight hnone => hwhole ?_ hnone⟩
  exact List.take_of_length_le (List.drop_eq_nil_iff.mp hflight)

def quiet : Link :=
  ⟨fun _ => .opened [], fun _ => 0⟩

def conversation : List (Bool × Action) :=
  [(false, .write [5, 126]), (false, .turn [.ready]),
    (true, .arrive [.data ((frameOf [68, 38, 5, 126]).take 5), .again]), (true, .read),
    (true, .arrive [.data ((frameOf [68, 38, 5, 126]).drop 5)]), (true, .read),
    (false, .arrive [.data (frameOf [67, 38])]), (false, .turn [])]

def conversed : Link :=
  (serialLine.replay quiet conversation).getD quiet

private theorem conversation_replayed :
    (serialLine.replay quiet conversation).isSome ∧ conversed.inFlight true = [] ∧
      (conversed.station true).port.incoming = [] ∧ (conversed.station true).port.queue P_PACKET_NO_ACK = [] ∧
      (conversed.station !true).written.filter (PacketFits ·) = [[5, 126]] ∧
      (conversed.station false).results[0]? = some 0 ∧
      ((conversed.station false).written.take (0 + 1)).filter (PacketFits ·) = [[5, 126]] := by
  refine ⟨?_, ?_, ?_, ?_, ?_, ?_, ?_⟩ <;> decide +kernel

private theorem conversed_reachable : serialLine.Reachable (fun _ _ => True) conversed :=
  .of_replay ⟨fun _ => [], fun _ => List.not_mem_nil, rfl⟩ conversation
    (Transition.replay_getD conversation_replayed.1 quiet)

theorem exchanged_conversed : (conversed.station true).delivered = [[5, 126]] := by
  obtain ⟨-, hflight, hincoming, hqueue, hwritten, -⟩ := conversation_replayed
  have hwhole := (exchanged conversed_reachable true).2 hflight hincoming
  calc
    _ = (conversed.station true).delivered ++ (conversed.station true).port.queue P_PACKET_NO_ACK := by
      simp only [hqueue, List.append_nil]
    _ = [[5, 126]] := hwhole.trans hwritten

/-- A write that succeeded has reached the other end, with all that was written before it and is not too long, provided
that fewer than 256 writes before it failed. -/
theorem acknowledged {s : Link} (h : serialLine.Reachable (fun _ _ => True) s) (i : Bool) (j : Nat)
    (hresult : (s.station i).results[j]? = some 0)
    (hfew : ((s.station i).results.take j).countP (· ≠ 0) < 256) :
    (∃ packet, (s.station i).written[j]? = some packet ∧ PacketFits packet) ∧
      ((s.station i).written.take (j + 1)).filter (PacketFits ·) <+:
        (s.station !i).delivered ++ (s.station !i).port.queue P_PACKET_NO_ACK := by
  obtain ⟨-, seen, took, hkept, hacked⟩ := reachable_kept h i
  obtain ⟨-, seen', took', hkept', -⟩ := reachable_kept h !i
  obtain ⟨m, x, hm, hcount, hx, hle, hnumber⟩ := hacked j hresult
  have hforth : s.received (!i) <+: (s.station i).port.sent := by
    have hbegins := s.received_begins !i
    rwa [Bool.not_not] at hbegins
  obtain ⟨hbegins, -⟩ := packets_exchanged hkept hkept' hforth
  obtain ⟨-, hlength⟩ := numbers_exchanged hkept hkept' hforth (s.received_begins i)
  obtain ⟨hplace, htake⟩ := passing_get hx
  have hearly : j ≤ m + 255 := by
    have hlast : (s.station i).results.take (j + 1) = (s.station i).results.take j ++ [0] := by
      rw [List.take_add_one, hresult]
      rfl
    have hlength := List.length_take_of_le (List.getElem?_eq_some_iff.mp hresult).1.le
    have hsplit := List.length_eq_countP_add_countP (fun r : Int => r ≠ 0) (l := (s.station i).results.take j)
    have hzeros : ((s.station i).results.take j).countP (fun r => decide ¬decide (r ≠ 0) = true) =
        ((s.station i).results.take j).count 0 := List.countP_congr fun r _ => by simp
    rw [hlast, List.count_append, List.count_singleton_self] at hcount
    omega
  obtain rfl : x.2 = j := eq_of_numberOf hnumber hle (by omega)
  have hmem := List.mem_of_getElem? hx
  refine ⟨⟨x.1, ?_, by simpa using (List.mem_filter.mp hmem).2⟩, ?_⟩
  · obtain ⟨-, hlt, hpacket⟩ := List.mem_zipIdx (List.mem_of_mem_filter hmem)
    rw [hpacket]
    exact List.getElem?_eq_getElem _
  · have htaken : (passing (s.station i).written).take (m + 1) = passing ((s.station i).written.take (x.2 + 1)) := htake
    rw [← passing_packets, ← htaken, List.map_take]
    have hfront := List.take_prefix (m + 1) ((passing (s.station i).written).map (·.1))
    refine List.prefix_of_prefix_length_le hfront hbegins ?_
    rw [List.length_take]
    simp only [List.length_append] at hlength
    simp only [List.length_append]
    omega

theorem acknowledged_conversed : [[5, 126]] <+:
    (conversed.station !false).delivered ++ (conversed.station !false).port.queue P_PACKET_NO_ACK := by
  obtain ⟨-, -, -, -, -, hresult, hwritten⟩ := conversation_replayed
  have hfew : ((conversed.station false).results.take 0).countP (· ≠ 0) < 256 := by
    rw [List.take_zero]
    decide
  have hreached := (acknowledged conversed_reachable false 0 hresult hfew).2
  rwa [hwritten] at hreached

end Link
end TinyosGraphics.Serial
