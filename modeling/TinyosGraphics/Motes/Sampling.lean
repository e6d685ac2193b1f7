import TinyosGraphics.Motes.TgxC

/-! The sampling loop of a mote that is not the root. The timer, the seven reads and the send pass one
token on; a refused command drops it. -/
namespace TinyosGraphics.Motes
open Lib Sensor

/-- Where the token of the loop is. -/
inductive Token
  | timer
  | reading (r : Reader)
  | sending
  | lost
  deriving DecidableEq

namespace Token

def reads : Token → List Reader
  | reading r => [r]
  | _ => []

/-- The sends of `m_sensor` under way. -/
def sends (b : Message) : Token → List Message
  | sending => [b]
  | _ => []

end Token

/-- The value that a pass has put aside. -/
def TgxC.data (a : TgxC) : Reader → UInt16
  | .temp => a.tempData
  | .light => a.lightData
  | .microphone => a.microphoneData
  | .accelX => a.accelXData
  | .accelY => a.accelYData
  | .magX => a.magXData
  | .magY => 0

/-- The readers that a pass has been through before it reads `r`. -/
def before (r : Reader) : List Reader :=
  chain.takeWhile (· ≠ r)

/-- The values in a message are those of the pass, in its order, and the check is the message's own. -/
def FromOnePass (p : SensorMsg × List (Reader × UInt16)) : Prop :=
  p.2 = chain.zip
      [p.1.sensor.temp, p.1.sensor.photo, p.1.sensor.sound, p.1.sensor.xAcc, p.1.sensor.yAcc,
        p.1.sensor.xMag, p.1.sensor.yMag] ∧
    crc16 ⟨p.1.bytes, 0⟩ 22 = some p.1.crc

/-- The mote with its token at `t`. -/
structure Sampling (t : Token) (m : Mote) : Prop where
  root : m.app.bRoot = false
  timer : m.sensorReadTimer = decide (t = .timer)
  reading : m.reading = t.reads
  sending : m.sending = t.sends m.app.mSensor
  busy : m.app.radioBusy = decide (t = .sending)
  pass : ∀ r, t = .reading r → m.pass = (before r).map fun s => (s, m.app.data s)
  handed : ∀ p ∈ m.handed, FromOnePass p

def Mote.samplingPart (m : Mote) :=
  (m.app.bRoot, m.sensorReadTimer, m.reading, m.sending, m.app.mSensor, m.app.radioBusy, m.pass,
    m.app.data, m.handed)

theorem Sampling.congr {t : Token} {m m' : Mote} (h : Sampling t m)
    (hpart : m'.samplingPart = m.samplingPart) : Sampling t m' := by
  simp only [Mote.samplingPart, Prod.mk.injEq] at hpart
  obtain ⟨hroot, htimer, hreading, hsending, hsensor, hbusy, hpass, hdata, hhanded⟩ := hpart
  constructor
  · exact hroot.trans h.root
  · exact htimer.trans h.timer
  · exact hreading.trans h.reading
  · rw [hsending, hsensor]
    exact h.sending
  · exact hbusy.trans h.busy
  · intro r hr
    rw [hpass, hdata]
    exact h.pass r hr
  · rw [hhanded]
    exact h.handed

/-- Sampling goes on: something is armed or under way that leads to the next sample. -/
def Mote.SamplingAlive (m : Mote) : Prop :=
  m.sensorReadTimer = true ∨ m.reading ≠ [] ∨ m.sending ≠ []

private theorem Sampling.alive_iff {t : Token} {m : Mote} (h : Sampling t m) :
    m.SamplingAlive ↔ t ≠ .lost := by
  rw [Mote.SamplingAlive, h.timer, h.reading, h.sending]
  cases t <;> simp [Token.reads, Token.sends]

section Steps
variable {m : Mote}

/-- The token after the command that passes it on to `t`. -/
def Token.passed (t : Token) (accepted : Bool) : Token :=
  if accepted then t else .lost

/-- Everything but the token's place, once it has been taken out of it. -/
structure Between (m : Mote) : Prop where
  root : m.app.bRoot = false
  timer : m.sensorReadTimer = false
  reading : m.reading = []
  sending : m.sending = []
  busy : m.app.radioBusy = false
  handed : ∀ p ∈ m.handed, FromOnePass p

theorem Between.read (h : Between m) {r : Reader} (accepted : Bool)
    (hpass : m.pass = (before r).map fun s => (s, m.app.data s)) :
    Sampling ((Token.reading r).passed accepted) (m.read r accepted) := by
  cases accepted with
  | false =>
    constructor
    · exact h.root
    · exact h.timer
    · exact h.reading
    · exact h.sending
    · exact h.busy
    · intro r hr
      cases hr
    · exact h.handed
  | true =>
    constructor
    · exact h.root
    · exact h.timer
    · simp [Mote.read, h.reading, Token.passed, Token.reads]
    · exact h.sending
    · exact h.busy
    · intro r' hr
      obtain rfl : r = r' := by simpa [Token.passed] using hr
      exact hpass
    · exact h.handed

theorem Between.collectionSend (h : Between m) (accepted : Bool)
    (hfrom : FromOnePass (m.app.mSensor.payload, m.pass)) :
    Sampling (Token.sending.passed accepted)
      (if accepted then
        { m.collectionSend accepted with app := { (m.collectionSend accepted).app with radioBusy := true } }
      else m.collectionSend accepted) := by
  have hhanded : ∀ p ∈ (m.collectionSend accepted).handed, FromOnePass p := by
    intro p hp
    rcases List.mem_append.mp hp with hp | hp
    · exact h.handed p hp
    · obtain rfl := List.mem_singleton.mp hp
      exact hfrom
  cases accepted with
  | false =>
    constructor
    · exact h.root
    · exact h.timer
    · exact h.reading
    · exact h.sending
    · exact h.busy
    · intro r hr
      cases hr
    · exact hhanded
  | true =>
    constructor
    · exact h.root
    · exact h.timer
    · exact h.reading
    · simp [Mote.collectionSend, h.sending, Token.passed, Token.sends]
    · rfl
    · intro r hr
      cases hr
    · exact hhanded

private theorem Sampling.readTaken {r : Reader} (h : Sampling (.reading r) m) (p : List (Reader × UInt16)) :
    Between { m with reading := m.reading.erase r, pass := p } := by
  constructor
  · exact h.root
  · exact h.timer
  · simp [h.reading, Token.reads]
  · exact h.sending
  · exact h.busy
  · exact h.handed

private theorem chainReadDone_sampling {store : TgxC → UInt16 → TgxC} {next : Reader} (h : Between m)
    (error : Bool) (val : UInt16) (accepted : Bool)
    (hstore : ∀ v, (store m.app v).bRoot = m.app.bRoot ∧ (store m.app v).radioBusy = m.app.radioBusy)
    (hpass : m.pass =
      (before next).map fun s => (s, (store m.app (if error then 0 else val)).data s)) :
    Sampling ((Token.reading next).passed accepted) (m.chainReadDone store next error val accepted) := by
  apply Between.read _ accepted hpass
  constructor
  · exact (hstore _).1.trans h.root
  · exact h.timer
  · exact h.reading
  · exact h.sending
  · exact (hstore _).2.trans h.busy
  · exact h.handed

private theorem calcMsgCrc_holds (msg : SensorMsg) :
    crc16 ⟨(calcMsgCrc msg).bytes, 0⟩ 22 = some (calcMsgCrc msg).crc := by
  have hlen : UInt8.ofNat (calcMsgCrc msg).bytes.length - 2 = 22 := by
    rw [SensorMsg.bytes_length]
    decide
  rw [calcMsgCrc_crc, ← hlen]
  exact crc16_bytes (calcMsgCrc msg)

private theorem magYReadDone_sampling (h : Between m) (error : Bool) (val parentId : UInt16) (accepted : Bool)
    (hpass : m.pass = ((before .magY).map fun s => (s, m.app.data s)) ++ [(.magY, if error then 0 else val)]) :
    Sampling (Token.sending.passed accepted) (m.magYReadDone error val parentId accepted) := by
  have hguard : (!m.app.bRoot && !m.app.radioBusy) = true := by
    rw [h.root, h.busy]
    rfl
  simp only [Mote.magYReadDone, hguard, if_true]
  apply Between.collectionSend
  · constructor
    · exact h.root
    · exact h.timer
    · exact h.reading
    · exact h.sending
    · exact h.busy
    · exact h.handed
  · constructor
    · rw [hpass]
      rfl
    · exact calcMsgCrc_holds _

/-- What follows the read of `r`. -/
def Reader.next : Reader → Token
  | .temp => .reading .light
  | .light => .reading .microphone
  | .microphone => .reading .accelX
  | .accelX => .reading .accelY
  | .accelY => .reading .magX
  | .magX => .reading .magY
  | .magY => .sending

theorem Sampling.readDone {r : Reader} (h : Sampling (.reading r) m) (error : Bool)
    (val parentId : UInt16) (accepted : Bool) :
    Sampling (r.next.passed accepted)
      (Mote.readDone
        { m with reading := m.reading.erase r, pass := m.pass ++ [(r, if error then 0 else val)] }
        error val parentId accepted r) := by
  have hb := h.readTaken (m.pass ++ [(r, if error then 0 else val)])
  have hpass := h.pass r rfl
  cases r with
  | magY =>
    apply magYReadDone_sampling hb
    rw [hpass]
  | _ =>
    dsimp only [Mote.readDone, Mote.tempReadDone, Mote.lightReadDone, Mote.microphoneReadDone,
      Mote.accelXReadDone, Mote.accelYReadDone, Mote.magXReadDone, Reader.next]
    apply chainReadDone_sampling hb error val accepted fun _ => ⟨rfl, rfl⟩
    rw [hpass]
    rfl

private theorem Sampling.timerFired (h : Sampling .timer m) (accepted : Bool) :
    Sampling ((Token.reading .temp).passed accepted)
      (Mote.sensorReadTimerFired { m with sensorReadTimer := false, pass := [] } accepted) := by
  apply Between.read _ accepted rfl
  constructor
  · exact h.root
  · rfl
  · exact h.reading
  · exact h.sending
  · exact h.busy
  · exact h.handed

/-- The send is done. -/
theorem Sampling.sendDone (h : Sampling .sending m) :
    Sampling .timer (Mote.collectionSendDone { m with sending := m.sending.tail }) := by
  constructor
  · exact h.root
  · rfl
  · exact h.reading
  · simp [Mote.collectionSendDone, h.sending, Token.sends]
  · rfl
  · intro r hr
    cases hr
  · exact h.handed

end Steps

/-- The events that are not the loop's. -/
def Happening.Apart : Happening → Prop
  | .sensorReadTimerFired _ | .readDone .. | .collectionSendDone => False
  | _ => True

private theorem enqueue_samplingPart (m : Mote) (msg : SensorMsg) :
    (m.enqueue msg).samplingPart = m.samplingPart := by
  rw [Mote.enqueue]
  split <;> rfl

private theorem sendSerialMsg_samplingPart (m : Mote) (accepted : Bool) :
    (m.sendSerialMsg accepted).samplingPart = m.samplingPart := by
  rw [Mote.sendSerialMsg]
  cases m.serialMsgQueue with
  | nil => rfl
  | cons sensorData queue => cases accepted <;> dsimp only <;> split <;> rfl

private theorem step_samplingPart {m m' : Mote} {e : Happening} (hs : m.step e = some m') (he : e.Apart) :
    m'.samplingPart = m.samplingPart := by
  cases e with
  | radioStartDone error radioStarts =>
    obtain ⟨-, rfl⟩ := guarded hs
    cases error <;> rfl
  | serialStartDone =>
    obtain rfl := Option.some.inj hs
    rfl
  | baseStationTimerFired parentId crc =>
    obtain ⟨-, rfl⟩ := guarded hs
    rw [Mote.baseStationTimerFired]
    split
    · exact enqueue_samplingPart m _
    · rfl
  | checkDogTimerFired =>
    obtain ⟨-, rfl⟩ := guarded hs
    rfl
  | sendSerialMsg accepted =>
    obtain ⟨-, rfl⟩ := guarded hs
    exact sendSerialMsg_samplingPart _ accepted
  | receive payload len =>
    obtain rfl := Option.some.inj hs
    rw [Mote.receive]
    split
    · exact enqueue_samplingPart m payload
    · rfl
  | serialSendDone =>
    obtain ⟨-, rfl⟩ := guarded hs
    rfl
  | _ => exact he.elim

/-- The `Read.read` or `CollectionSend.send` that the handler calls, if it calls one, is accepted. -/
def Granted (m : Mote) : Happening → Prop
  | .sensorReadTimerFired accepted => accepted = true
  | .readDone .magY _ _ _ accepted => m.app.bRoot = false ∧ m.app.radioBusy = false → accepted = true
  | .readDone _ _ _ _ accepted => accepted = true
  | _ => True

private theorem Token.passed_ne_lost {t : Token} (ht : t ≠ .lost) (accepted : Bool) :
    t.passed accepted ≠ .lost ↔ accepted = true := by
  cases accepted <;> simp [passed, ht]

/-- An event of the loop moves the token, and loses it exactly if its command is refused; every other
leaves the loop alone. -/
theorem Sampling.step {t : Token} {m m' : Mote} {e : Happening} (h : Sampling t m)
    (hs : m.step e = some m') :
    ∃ t', Sampling t' m' ∧ (t' ≠ .lost ↔ t ≠ .lost ∧ Granted m e) := by
  cases e with
  | sensorReadTimerFired accepted =>
    obtain ⟨harmed, rfl⟩ := guarded hs
    obtain rfl : t = .timer := by simpa [h.timer] using harmed
    refine ⟨_, h.timerFired accepted, ?_⟩
    simp [Token.passed_ne_lost, Granted]
  | readDone r error val parentId accepted =>
    obtain ⟨hmem, rfl⟩ := guarded hs
    obtain rfl : t = .reading r := by
      rw [h.reading] at hmem
      cases t <;> simp_all [Token.reads]
    refine ⟨_, h.readDone error val parentId accepted, ?_⟩
    rw [Token.passed_ne_lost (by cases r <;> simp [Reader.next])]
    cases r <;> simp [Granted, h.root, h.busy]
  | collectionSendDone =>
    obtain ⟨hmem, rfl⟩ := guarded hs
    obtain rfl : t = .sending := by
      rw [h.sending] at hmem
      cases t <;> simp_all [Token.sends]
    exact ⟨_, h.sendDone, by simp [Granted]⟩
  | _ =>
    refine ⟨t, h.congr (step_samplingPart hs trivial), ?_⟩
    simp [Granted]

private theorem booted_sampling {nodeId : UInt16} (hnode : nodeId ≠ 0) {m : Mote}
    (h : (moteSystem nodeId).init m) : Sampling .timer m := by
  obtain ⟨sensor, serial, x, y, radioStarts, rfl⟩ := h
  have hbranch : (Mote.fresh nodeId sensor serial).nodeId ≠ 0 := hnode
  simp only [Mote.booted, if_neg hbranch]
  constructor
  · rfl
  · rfl
  · rfl
  · rfl
  · rfl
  · intro r hr
    cases hr
  · intro p hp
    cases hp

private theorem run_sampling {nodeId : UInt16} (hnode : nodeId ≠ 0) {m₀ m : Mote} {tr : List (Mote × Happening)}
    (hinit : (moteSystem nodeId).init m₀) (hrun : (moteSystem nodeId).Run m₀ tr m) :
    ∃ t, Sampling t m ∧ (t ≠ .lost ↔ ∀ p ∈ tr, Granted p.1 p.2) := by
  induction hrun with
  | start => exact ⟨.timer, booted_sampling hnode hinit, by simp⟩
  | next _ hs ih =>
    obtain ⟨t, ht, hiff⟩ := ih
    obtain ⟨t', ht', hiff'⟩ := ht.step hs
    refine ⟨t', ht', ?_⟩
    rw [hiff', hiff]
    simp [or_imp, forall_and]

/-- Sampling goes on exactly in the runs whose reads and sends have all been accepted: a refused one
stops it for good. -/
theorem sampling_alive_iff {nodeId : UInt16} (hnode : nodeId ≠ 0) {m₀ m : Mote}
    {tr : List (Mote × Happening)} (hinit : (moteSystem nodeId).init m₀)
    (hrun : (moteSystem nodeId).Run m₀ tr m) :
    m.SamplingAlive ↔ ∀ p ∈ tr, Granted p.1 p.2 := by
  obtain ⟨t, ht, hiff⟩ := run_sampling hnode hinit hrun
  rw [ht.alive_iff, hiff]

def Mote.pending (m : Mote) : Nat :=
  (if m.sensorReadTimer then 1 else 0) + m.reading.length + m.sending.length

private theorem Sampling.pending_le {t : Token} {m : Mote} (h : Sampling t m) : m.pending ≤ 1 := by
  rw [Mote.pending, h.timer, h.reading, h.sending]
  cases t <;> simp [Token.reads, Token.sends]

/-- There is one token, so `m_sensor` is what it was when the send under way was accepted, and every
packet handed over carries one pass. -/
theorem sampling_one_token {nodeId : UInt16} (hnode : nodeId ≠ 0) {m : Mote}
    (h : (moteSystem nodeId).Reachable (fun _ _ => True) m) :
    m.pending ≤ 1 ∧ (∀ b ∈ m.sending, m.app.mSensor = b) ∧ ∀ p ∈ m.handed, FromOnePass p := by
  obtain ⟨m₀, tr, hinit, hrun, -⟩ := h
  obtain ⟨t, ht, -⟩ := run_sampling hnode hinit hrun
  refine ⟨ht.pending_le, ?_, ht.handed⟩
  intro b hb
  rw [ht.sending] at hb
  cases t <;> simp_all [Token.sends]

/-- Mote 1 after `Boot.booted`. -/
def moteOne : Mote :=
  (Mote.fresh 1 (msgFrom 0) (msgFrom 0)).booted 3 4 true

def onePass : List Happening :=
  [.sensorReadTimerFired true, .readDone .temp false 10 0 true, .readDone .light false 11 0 true,
    .readDone .microphone true 12 0 true, .readDone .accelX false 13 0 true,
    .readDone .accelY false 14 0 true, .readDone .magX false 15 0 true,
    .readDone .magY false 16 2 true]

private theorem moteOne_init : (moteSystem 1).init moteOne :=
  ⟨msgFrom 0, msgFrom 0, 3, 4, true, rfl⟩

def moteSending : Mote :=
  ((moteSystem 1).replay moteOne onePass).getD moteOne

private theorem moteSending_replay : (moteSystem 1).replay moteOne onePass = some moteSending := rfl

theorem sampling_alive_sending :
    moteSending.SamplingAlive ↔ ∀ p ∈ (moteSystem 1).trail moteOne onePass, Granted p.1 p.2 :=
  sampling_alive_iff (by decide) moteOne_init (Transition.run_of_replay onePass moteSending_replay)

theorem sampling_one_token_sending :
    moteSending.pending ≤ 1 ∧ (∀ b ∈ moteSending.sending, moteSending.app.mSensor = b) ∧
      ∀ p ∈ moteSending.handed, FromOnePass p :=
  sampling_one_token (show (1 : UInt16) ≠ 0 by decide)
    (.of_replay moteOne_init onePass moteSending_replay)

/-- The first read is refused, and nothing will ever start another. -/
theorem sampling_lost_at_first_read :
    ¬ ∀ m, (moteSystem 1).Reachable (fun _ _ => True) m → m.SamplingAlive := by
  intro hall
  obtain htimer | hreading | hsending :=
    hall (Mote.sensorReadTimerFired { moteOne with sensorReadTimer := false } false)
      (.of_replay moteOne_init [.sensorReadTimerFired false] rfl)
  · cases htimer
  · exact hreading rfl
  · exact hsending rfl

end TinyosGraphics.Motes
