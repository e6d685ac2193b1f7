import TinyosGraphics.Motes.TgxC

/-! The root's way from `SerialMsgQueue` to the serial stack. -/
namespace TinyosGraphics.Motes
open Lib

/-- The claim on the root's queue: what the serial stack has accepted is, in order, what the queue has
accepted first; the rest is still queued; `m_serial` is as it was when the send under way was accepted. -/
structure Forwards (m : Mote) : Prop where
  order : m.accepted <+: m.enqueued
  kept : m.enqueued.length = m.accepted.length + m.serialMsgQueue.length
  unwritten : ∀ b ∈ m.serialSending, m.app.mSerial = b

def SendGranted (m : Mote) : Happening → Prop
  | .sendSerialMsg accepted =>
    m.serialMsgQueue ≠ [] ∧ m.app.bRoot = true ∧ m.app.serialBusy = false → accepted = true
  | _ => True

/-- The root with `lost` messages taken out of the queue in vain. -/
structure Forwarding (lost : Nat) (m : Mote) : Prop where
  root : m.app.bRoot = true
  busy : m.serialSending = if m.app.serialBusy then [m.app.mSerial] else []
  count : m.enqueued.length = m.accepted.length + m.serialMsgQueue.length + lost
  order : lost = 0 → m.enqueued = m.accepted ++ m.serialMsgQueue

private theorem Forwarding.forwards_iff {lost : Nat} {m : Mote} (h : Forwarding lost m) :
    Forwards m ↔ lost = 0 := by
  constructor
  · intro hf
    have hkept := hf.kept
    have hcount := h.count
    omega
  · intro hlost
    constructor
    · rw [h.order hlost]
      exact List.prefix_append _ _
    · have hcount := h.count
      omega
    · intro b hb
      rw [h.busy] at hb
      split at hb
      · exact (List.mem_singleton.mp hb).symm
      · cases hb

def Mote.serialPart (m : Mote) :=
  (m.app.bRoot, m.app.serialBusy, m.app.mSerial, m.serialSending, m.serialMsgQueue, m.enqueued, m.accepted)

section Steps
variable {lost : Nat} {m : Mote}

theorem Forwarding.congr {m' : Mote} (h : Forwarding lost m) (hpart : m'.serialPart = m.serialPart) :
    Forwarding lost m' := by
  simp only [Mote.serialPart, Prod.mk.injEq] at hpart
  obtain ⟨hroot, hbusy, hserial, hsending, hqueue, henqueued, haccepted⟩ := hpart
  constructor
  · exact hroot.trans h.root
  · rw [hsending, hbusy, hserial]
    exact h.busy
  · rw [henqueued, haccepted, hqueue]
    exact h.count
  · rw [henqueued, haccepted, hqueue]
    exact h.order

theorem Forwarding.enqueue (h : Forwarding lost m) (msg : SensorMsg) : Forwarding lost (m.enqueue msg) := by
  rw [Mote.enqueue]
  split
  · constructor
    · exact h.root
    · exact h.busy
    · have hcount := h.count
      simp only [List.length_append]
      omega
    · intro hlost
      dsimp only
      rw [h.order hlost, List.append_assoc]
  · exact h

/-- The task loses the head of the queue exactly if it gets as far as the send and that is refused. -/
theorem Forwarding.sendSerialMsg (h : Forwarding lost m) (accepted : Bool) :
    ∃ lost', Forwarding lost' (m.sendSerialMsg accepted) ∧
      (lost' = 0 ↔ lost = 0 ∧ SendGranted m (.sendSerialMsg accepted)) := by
  have hcount := h.count
  cases hqueue : m.serialMsgQueue with
  | nil =>
    refine ⟨lost, h.congr ?_, by simp [SendGranted, hqueue]⟩
    simp [Mote.sendSerialMsg, Mote.serialPart, hqueue]
  | cons sensorData queue =>
    cases hbusy : m.app.serialBusy with
    | true =>
      refine ⟨lost, h.congr ?_, by simp [SendGranted, hbusy]⟩
      simp [Mote.sendSerialMsg, Mote.serialPart, hqueue, hbusy]
    | false =>
      have hidle : m.serialSending = [] := by simp [h.busy, hbusy]
      rw [hqueue, List.length_cons] at hcount
      cases accepted with
      | true =>
        refine ⟨lost, ?_, by simp [SendGranted]⟩
        simp only [Mote.sendSerialMsg, hqueue, h.root, hbusy, Mote.serialSend, hidle]
        constructor
        · rfl
        · rfl
        · simp [Message.write]
          omega
        · intro hlost
          simp [h.order hlost, hqueue, Message.write]
      | false =>
        refine ⟨lost + 1, ?_, by simp [SendGranted, hqueue, h.root, hbusy]⟩
        simp only [Mote.sendSerialMsg, hqueue, h.root, hbusy, Mote.serialSend]
        constructor
        · rfl
        · exact hidle
        · dsimp
          omega
        · intro hlost
          cases hlost

theorem Forwarding.serialSendDone (h : Forwarding lost m) :
    Forwarding lost (Mote.serialSendDone { m with serialSending := m.serialSending.tail }) := by
  constructor
  · exact h.root
  · have hbusy := h.busy
    simp only [Mote.serialSendDone, Mote.postSendSerialMsg, hbusy]
    split <;> rfl
  · exact h.count
  · exact h.order

end Steps

theorem read_serialPart (m : Mote) (r : Reader) (accepted : Bool) :
    (m.read r accepted).serialPart = m.serialPart := by
  cases accepted <;> rfl

private theorem magYReadDone_serialPart (m : Mote) (error : Bool) (val parentId : UInt16) (accepted : Bool) :
    (m.magYReadDone error val parentId accepted).serialPart = m.serialPart := by
  simp only [Mote.magYReadDone]
  split
  · cases accepted <;> rfl
  · rfl

theorem readDone_serialPart (m : Mote) (error : Bool) (val parentId : UInt16) (accepted : Bool)
    (r : Reader) : (m.readDone error val parentId accepted r).serialPart = m.serialPart := by
  cases r with
  | magY => exact magYReadDone_serialPart m error val parentId accepted
  | _ => exact read_serialPart _ _ accepted

theorem Forwarding.step {lost : Nat} {m m' : Mote} {e : Happening} (h : Forwarding lost m)
    (hs : m.step e = some m') :
    ∃ lost', Forwarding lost' m' ∧ (lost' = 0 ↔ lost = 0 ∧ SendGranted m e) := by
  have same {m'' : Mote} {e : Happening} (hm : Forwarding lost m'') (he : SendGranted m e) :
      ∃ lost', Forwarding lost' m'' ∧ (lost' = 0 ↔ lost = 0 ∧ SendGranted m e) :=
    ⟨lost, hm, by simp [he]⟩
  cases e with
  | radioStartDone error radioStarts =>
    obtain ⟨-, rfl⟩ := guarded hs
    exact same (h.congr (by cases error <;> rfl)) trivial
  | serialStartDone =>
    obtain rfl := Option.some.inj hs
    exact same (h.congr rfl) trivial
  | sensorReadTimerFired accepted =>
    obtain ⟨-, rfl⟩ := guarded hs
    exact same (h.congr (read_serialPart _ _ accepted)) trivial
  | readDone r error val parentId accepted =>
    obtain ⟨-, rfl⟩ := guarded hs
    exact same (h.congr (readDone_serialPart _ error val parentId accepted r)) trivial
  | collectionSendDone =>
    obtain ⟨-, rfl⟩ := guarded hs
    exact same (h.congr rfl) trivial
  | baseStationTimerFired parentId crc =>
    obtain ⟨-, rfl⟩ := guarded hs
    rw [Mote.baseStationTimerFired, if_pos h.root]
    exact same (h.enqueue _) trivial
  | checkDogTimerFired =>
    obtain ⟨-, rfl⟩ := guarded hs
    exact same (h.congr rfl) trivial
  | sendSerialMsg accepted =>
    obtain ⟨-, rfl⟩ := guarded hs
    have hposted : Forwarding lost { m with sendSerialMsgPosted := false } := h.congr rfl
    exact hposted.sendSerialMsg accepted
  | receive payload len =>
    obtain rfl := Option.some.inj hs
    rw [Mote.receive]
    split
    · exact same (h.enqueue payload) trivial
    · exact same h trivial
  | serialSendDone =>
    obtain ⟨-, rfl⟩ := guarded hs
    exact same h.serialSendDone trivial

private theorem booted_forwarding {m : Mote} (h : (moteSystem 0).init m) : Forwarding 0 m := by
  obtain ⟨sensor, serial, x, y, radioStarts, rfl⟩ := h
  constructor
  · rfl
  · rfl
  · rfl
  · intro _
    rfl

theorem run_forwarding {m₀ m : Mote} {tr : List (Mote × Happening)} (hinit : (moteSystem 0).init m₀)
    (hrun : (moteSystem 0).Run m₀ tr m) :
    ∃ lost, Forwarding lost m ∧ (lost = 0 ↔ ∀ p ∈ tr, SendGranted p.1 p.2) := by
  induction hrun with
  | start => exact ⟨0, booted_forwarding hinit, by simp⟩
  | next _ hs ih =>
    obtain ⟨lost, hlost, hiff⟩ := ih
    obtain ⟨lost', hlost', hiff'⟩ := hlost.step hs
    refine ⟨lost', hlost', ?_⟩
    rw [hiff', hiff]
    simp [or_imp, forall_and]

/-- The root forwards its queue exactly in the runs whose serial sends have all been accepted: the
message of a refused one is gone. -/
theorem root_forwards_iff {m₀ m : Mote} {tr : List (Mote × Happening)} (hinit : (moteSystem 0).init m₀)
    (hrun : (moteSystem 0).Run m₀ tr m) : Forwards m ↔ ∀ p ∈ tr, SendGranted p.1 p.2 := by
  obtain ⟨lost, hlost, hiff⟩ := run_forwarding hinit hrun
  rw [hlost.forwards_iff, hiff]

/-- The root after `Boot.booted`. -/
def moteRoot : Mote :=
  (Mote.fresh 0 (msgFrom 0) (msgFrom 0)).booted 3 4 true

theorem moteRoot_init : (moteSystem 0).init moteRoot :=
  ⟨msgFrom 0, msgFrom 0, 3, 4, true, rfl⟩

def twoMessages (accepted : Bool) : List Happening :=
  [.serialStartDone, .receive (msgFrom 1) 24, .sendSerialMsg accepted, .receive (msgFrom 2) 24,
    .checkDogTimerFired, .sendSerialMsg true]

def moteForwarding (accepted : Bool) : Mote :=
  ((moteSystem 0).replay moteRoot (twoMessages accepted)).getD moteRoot

theorem moteForwarding_replay (accepted : Bool) :
    (moteSystem 0).replay moteRoot (twoMessages accepted) = some (moteForwarding accepted) := by
  cases accepted <;> rfl

theorem forwards_two :
    Forwards (moteForwarding true) ↔
      ∀ p ∈ (moteSystem 0).trail moteRoot (twoMessages true), SendGranted p.1 p.2 :=
  root_forwards_iff moteRoot_init (Transition.run_of_replay (twoMessages true) (moteForwarding_replay true))

theorem first_message_lost :
    ¬ ∀ m, (moteSystem 0).Reachable (fun _ _ => True) m → m.accepted <+: m.enqueued := by
  intro hall
  have hprefix := hall (moteForwarding false)
    (.of_replay moteRoot_init (twoMessages false) (moteForwarding_replay false))
  have hfalse : ¬ [msgFrom 2] <+: [msgFrom 1, msgFrom 2] := by decide
  exact hfalse hprefix

end TinyosGraphics.Motes
