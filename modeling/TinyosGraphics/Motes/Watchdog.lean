import TinyosGraphics.Motes.Forwarding

/-! What keeps the root forwarding: from `SerialControl.startDone` on, the task `sendSerialMsg` is posted or
`CheckDogTimer` will post it. -/
namespace TinyosGraphics.Motes
open Lib

def Awake (m : Mote) : Prop :=
  m.sendSerialMsgPosted = true ∨ m.checkDogTimer = true

def Happening.IsTask : Happening → Prop
  | .sendSerialMsg _ => True
  | _ => False

/-- A run of the task takes `msg` from the head of the queue, writes it to `m_serial` and calls
`SerialSend.send`, with this result. -/
structure Offers (msg : SensorMsg) (accepted : Bool) (m m' : Mote) : Prop where
  dequeued : m.serialMsgQueue = msg :: m'.serialMsgQueue
  written : m'.app.mSerial = m.app.mSerial.write msg
  sending : m'.serialSending = if accepted then [m'.app.mSerial] else []
  busy : m'.app.serialBusy = accepted
  record : m'.accepted = if accepted then m.accepted ++ [msg] else m.accepted

def Mote.watchdog (m : Mote) : Bool × Bool :=
  (m.sendSerialMsgPosted, m.checkDogTimer)

theorem Awake.congr {m m' : Mote} (h : Awake m) (hsame : m'.watchdog = m.watchdog) : Awake m' := by
  obtain ⟨hposted, htimer⟩ := Prod.mk.inj hsame
  rwa [Awake, hposted, htimer]

private theorem enqueue_watchdog (m : Mote) (msg : SensorMsg) : (m.enqueue msg).watchdog = m.watchdog := by
  unfold Mote.enqueue
  split <;> rfl

private theorem read_watchdog (m : Mote) (r : Reader) (accepted : Bool) :
    (m.read r accepted).watchdog = m.watchdog := by
  cases accepted <;> rfl

private theorem readDone_watchdog (m : Mote) (error : Bool) (val parentId : UInt16) (accepted : Bool) (r : Reader) :
    (m.readDone error val parentId accepted r).watchdog = m.watchdog := by
  cases r with
  | magY =>
    simp only [Mote.readDone, Mote.magYReadDone]
    split
    · cases accepted <;> rfl
    · rfl
  | _ => exact read_watchdog _ _ accepted

private theorem awake_step {m m' : Mote} {e : Happening} (h : Awake m) (hs : m.step e = some m') : Awake m' := by
  cases e with
  | radioStartDone error radioStarts =>
    obtain ⟨-, rfl⟩ := guarded hs
    exact h.congr (by cases error <;> rfl)
  | serialStartDone =>
    obtain rfl := Option.some.inj hs
    exact .inl rfl
  | sensorReadTimerFired accepted =>
    obtain ⟨-, rfl⟩ := guarded hs
    exact h.congr (read_watchdog _ _ accepted)
  | readDone r error val parentId accepted =>
    obtain ⟨-, rfl⟩ := guarded hs
    exact h.congr (readDone_watchdog _ error val parentId accepted r)
  | collectionSendDone =>
    obtain ⟨-, rfl⟩ := guarded hs
    exact h.congr rfl
  | baseStationTimerFired parentId crc =>
    obtain ⟨-, rfl⟩ := guarded hs
    unfold Mote.baseStationTimerFired
    split
    · exact h.congr (enqueue_watchdog _ _)
    · exact h
  | checkDogTimerFired =>
    obtain ⟨-, rfl⟩ := guarded hs
    exact .inl rfl
  | sendSerialMsg accepted =>
    obtain ⟨-, rfl⟩ := guarded hs
    exact .inr rfl
  | receive payload len =>
    obtain rfl := Option.some.inj hs
    unfold Mote.receive
    split
    · exact h.congr (enqueue_watchdog _ _)
    · exact h
  | serialSendDone =>
    obtain ⟨-, rfl⟩ := guarded hs
    exact .inl rfl

private theorem awake_of_started {m₀ m : Mote} {tr : List (Mote × Happening)} (hrun : (moteSystem 0).Run m₀ tr m)
    (hstart : ∃ p ∈ tr, p.2 = .serialStartDone) : Awake m := by
  induction hrun with
  | start =>
    obtain ⟨p, hp, -⟩ := hstart
    cases hp
  | next _ hs ih =>
    obtain ⟨p, hp, hstarted⟩ := hstart
    rcases List.mem_append.mp hp with hp | hp
    · exact awake_step (ih ⟨p, hp, hstarted⟩) hs
    · obtain rfl := List.mem_singleton.mp hp
      obtain rfl := hstarted
      obtain rfl := Option.some.inj hs
      exact .inl rfl

/-- The root is not sending, and this message is next. -/
structure Next (msg : SensorMsg) (m : Mote) : Prop where
  root : m.app.bRoot = true
  idle : m.app.serialBusy = false
  sending : m.serialSending = []
  head : ∃ rest, m.serialMsgQueue = msg :: rest

theorem Next.congr {msg : SensorMsg} {m m' : Mote} (h : Next msg m) (hsame : m'.serialPart = m.serialPart) :
    Next msg m' := by
  simp only [Mote.serialPart, Prod.mk.injEq] at hsame
  obtain ⟨hroot, hbusy, -, hsending, hqueue, -, -⟩ := hsame
  exact ⟨hroot.trans h.root, hbusy.trans h.idle, hsending.trans h.sending, hqueue ▸ h.head⟩

theorem Next.enqueue {msg : SensorMsg} {m : Mote} (h : Next msg m) (msg' : SensorMsg) : Next msg (m.enqueue msg') := by
  unfold Mote.enqueue
  split
  · obtain ⟨rest, hrest⟩ := h.head
    exact ⟨h.root, h.idle, h.sending, rest ++ [msg'], by simp [hrest]⟩
  · exact h

private theorem next_step {msg : SensorMsg} {m m' : Mote} {e : Happening} (h : Next msg m) (he : ¬ e.IsTask)
    (hs : m.step e = some m') : Next msg m' := by
  cases e with
  | radioStartDone error radioStarts =>
    obtain ⟨-, rfl⟩ := guarded hs
    exact h.congr (by cases error <;> rfl)
  | serialStartDone =>
    obtain rfl := Option.some.inj hs
    exact h.congr rfl
  | sensorReadTimerFired accepted =>
    obtain ⟨-, rfl⟩ := guarded hs
    exact h.congr (read_serialPart _ _ accepted)
  | readDone r error val parentId accepted =>
    obtain ⟨-, rfl⟩ := guarded hs
    exact h.congr (readDone_serialPart _ error val parentId accepted r)
  | collectionSendDone =>
    obtain ⟨-, rfl⟩ := guarded hs
    exact h.congr rfl
  | baseStationTimerFired parentId crc =>
    obtain ⟨-, rfl⟩ := guarded hs
    rw [Mote.baseStationTimerFired, if_pos h.root]
    exact h.enqueue _
  | checkDogTimerFired =>
    obtain ⟨-, rfl⟩ := guarded hs
    exact h.congr rfl
  | sendSerialMsg accepted => exact absurd trivial he
  | receive payload len =>
    obtain rfl := Option.some.inj hs
    unfold Mote.receive
    split
    · exact h.enqueue payload
    · exact h
  | serialSendDone =>
    obtain ⟨hsending, -⟩ := guarded hs
    exact absurd h.sending hsending

private theorem next_run {msg : SensorMsg} {m m' : Mote} {tr : List (Mote × Happening)} (h : Next msg m)
    (hrun : (moteSystem 0).Run m tr m') (htr : ∀ p ∈ tr, ¬ p.2.IsTask) : Next msg m' :=
  hrun.preserves (P := Next msg) (fun _ _ _ h he hs => next_step h he hs) htr h

theorem Next.offered {msg : SensorMsg} {m m' : Mote} {accepted : Bool} (h : Next msg m)
    (hs : m.step (.sendSerialMsg accepted) = some m') : Offers msg accepted m m' := by
  obtain ⟨rest, hrest⟩ := h.head
  obtain ⟨-, rfl⟩ := guarded hs
  cases accepted with
  | true =>
    simp only [Mote.sendSerialMsg, hrest, h.root, h.idle, Mote.serialSend, h.sending]
    exact ⟨hrest, rfl, rfl, rfl, rfl⟩
  | false =>
    simp only [Mote.sendSerialMsg, hrest, h.root, h.idle, Mote.serialSend]
    exact ⟨hrest, rfl, h.sending, rfl, rfl⟩

/-- The base station never falls asleep, `serialBusy` tells whether a send is under way, and a message at the
head of the queue is offered by the next run of the task, whatever happens before. -/
theorem base_station_awake {m₀ m : Mote} {tr : List (Mote × Happening)} (hinit : (moteSystem 0).init m₀)
    (hrun : (moteSystem 0).Run m₀ tr m) (hstart : ∃ p ∈ tr, p.2 = .serialStartDone) :
    Awake m ∧ (m.app.serialBusy = true ↔ m.serialSending ≠ []) ∧
      ∀ msg rest, m.app.serialBusy = false → m.serialMsgQueue = msg :: rest →
        ∀ tr' m₁ accepted m₂, (moteSystem 0).Run m tr' m₁ → (∀ p ∈ tr', ¬ p.2.IsTask) →
          m₁.step (.sendSerialMsg accepted) = some m₂ → Offers msg accepted m₁ m₂ := by
  obtain ⟨lost, hforwarding, -⟩ := run_forwarding hinit hrun
  refine ⟨awake_of_started hrun hstart, ?_, ?_⟩
  · rw [hforwarding.busy]
    cases m.app.serialBusy <;> simp
  · intro msg rest hidle hqueue tr' m₁ accepted m₂ hrun' htr' hs
    have hsending : m.serialSending = [] := by rw [hforwarding.busy, hidle]; rfl
    have hnext : Next msg m := ⟨hforwarding.root, hidle, hsending, rest, hqueue⟩
    exact (next_run hnext hrun' htr').offered hs

theorem base_station_awake_one : Awake (moteForwarding true) :=
  (base_station_awake moteRoot_init (Transition.run_of_replay (twoMessages true) (moteForwarding_replay true))
    ⟨(moteRoot, .serialStartDone), List.mem_cons_self, rfl⟩).1

end TinyosGraphics.Motes
