import TinyosGraphics.Lib.Transition
import TinyosGraphics.Motes.SensorMsg

/-! The component `TgxC` of `TgxC.nc` on one mote: its variables, the commands it has under way, and
its event handlers. Radio, serial stack and sensors answer a command as the event says. -/
namespace TinyosGraphics.Motes
open Lib Sensor

/-- The seven `Read` interfaces. -/
inductive Reader
  | temp
  | light
  | microphone
  | accelX
  | accelY
  | magX
  | magY
  deriving DecidableEq

/-- The readers in the order of the chain. -/
def chain : List Reader :=
  [.temp, .light, .microphone, .accelX, .accelY, .magX, .magY]

/-- `message_t`: the payload, and how often it has been written. -/
structure Message where
  payload : SensorMsg
  writes : Nat
  deriving DecidableEq

def Message.write (b : Message) (payload : SensorMsg) : Message :=
  ⟨payload, b.writes + 1⟩

/-- The variables of `TgxC`. `MagY_data` is never used. -/
structure TgxC where
  bRoot : Bool
  radioBusy : Bool
  serialBusy : Bool
  mSensor : Message
  mSerial : Message
  positionX : UInt16
  positionY : UInt16
  tempData : UInt16
  lightData : UInt16
  microphoneData : UInt16
  accelXData : UInt16
  accelYData : UInt16
  magXData : UInt16

/-- A mote: the component, and what the rest of the mote keeps for it. A send under way is recorded
with the buffer as it was when the send was accepted. The last four fields are history. -/
structure Mote where
  nodeId : UInt16
  app : TgxC
  sensorReadTimer : Bool
  baseStationTimer : Bool
  checkDogTimer : Bool
  radioStarting : Bool
  reading : List Reader
  sending : List Message
  serialSending : List Message
  serialMsgQueue : List SensorMsg
  sendSerialMsgPosted : Bool
  pass : List (Reader × UInt16)
  handed : List (SensorMsg × List (Reader × UInt16))
  enqueued : List SensorMsg
  accepted : List SensorMsg

namespace Mote

/-- A mote before `Boot.booted`, with whatever lies in its two buffers. -/
def fresh (nodeId : UInt16) (sensor serial : SensorMsg) : Mote where
  nodeId := nodeId
  app :=
    { bRoot := false, radioBusy := false, serialBusy := false, mSensor := ⟨sensor, 0⟩
      mSerial := ⟨serial, 0⟩, positionX := 0, positionY := 0, tempData := 0, lightData := 0
      microphoneData := 0, accelXData := 0, accelYData := 0, magXData := 0 }
  sensorReadTimer := false
  baseStationTimer := false
  checkDogTimer := false
  radioStarting := false
  reading := []
  sending := []
  serialSending := []
  serialMsgQueue := []
  sendSerialMsgPosted := false
  pass := []
  handed := []
  enqueued := []
  accepted := []

def read (m : Mote) (r : Reader) (accepted : Bool) : Mote :=
  if accepted then { m with reading := m.reading ++ [r] } else m

/-- `CollectionSend.send(&m_sensor, ...)`. -/
def collectionSend (m : Mote) (accepted : Bool) : Mote :=
  { m with
    sending := if accepted then m.sending ++ [m.app.mSensor] else m.sending
    handed := m.handed ++ [(m.app.mSensor.payload, m.pass)] }

/-- `SerialSend.send(AM_BROADCAST_ADDR, &m_serial, ...)`. -/
def serialSend (m : Mote) (accepted : Bool) : Mote :=
  if accepted then
    { m with
      serialSending := m.serialSending ++ [m.app.mSerial]
      accepted := m.accepted ++ [m.app.mSerial.payload] }
  else m

/-- `SerialMsgQueue.enqueue`, which refuses a message when 20 are there. -/
def enqueue (m : Mote) (msg : SensorMsg) : Mote :=
  if m.serialMsgQueue.length < 20 then
    { m with serialMsgQueue := m.serialMsgQueue ++ [msg], enqueued := m.enqueued ++ [msg] }
  else m

/-- `post sendSerialMsg()`, refused without effect while it is posted. -/
def postSendSerialMsg (m : Mote) : Mote :=
  { m with sendSerialMsgPosted := true }

/-- `Boot.booted`; the position is drawn at random. -/
def booted (m : Mote) (x y : UInt16) (radioStarts : Bool) : Mote :=
  let m := { m with app := { m.app with positionX := x, positionY := y } }
  let m :=
    if m.nodeId = 0 then { m with app := { m.app with bRoot := true } }
    else if !m.app.bRoot then { m with sensorReadTimer := true }
    else m
  { m with radioStarting := radioStarts }

/-- `RadioControl.startDone`. What `CollectionControl` and `RootControl` are told is not kept here. -/
def radioStartDone (m : Mote) (error : Bool) (radioStarts : Bool) : Mote :=
  if error then { m with radioStarting := radioStarts } else m

/-- `SerialControl.startDone`. -/
def serialStartDone (m : Mote) : Mote :=
  { m with baseStationTimer := true }.postSendSerialMsg

/-- `SensorReadTimer.fired`. -/
def sensorReadTimerFired (m : Mote) (accepted : Bool) : Mote :=
  m.read .temp accepted

/-- The first six `readDone` handlers: keep the value, or 0 for a failed read, and start the next. -/
def chainReadDone (store : TgxC → UInt16 → TgxC) (next : Reader) (m : Mote) (error : Bool)
    (val : UInt16) (accepted : Bool) : Mote :=
  { m with app := store m.app (if error then 0 else val) }.read next accepted

def tempReadDone := chainReadDone (fun a v => { a with tempData := v }) .light
def lightReadDone := chainReadDone (fun a v => { a with lightData := v }) .microphone
def microphoneReadDone := chainReadDone (fun a v => { a with microphoneData := v }) .accelX
def accelXReadDone := chainReadDone (fun a v => { a with accelXData := v }) .accelY
def accelYReadDone := chainReadDone (fun a v => { a with accelYData := v }) .magX
def magXReadDone := chainReadDone (fun a v => { a with magXData := v }) .magY

/-- What `MagY.readDone` puts together. -/
def sensorData (m : Mote) (parentId val : UInt16) : SensorMsg :=
  calcMsgCrc
    { nodeId := m.nodeId
      parentId := parentId
      position := ⟨m.app.positionX, m.app.positionY⟩
      sensor := ⟨m.app.tempData, m.app.lightData, m.app.microphoneData, m.app.accelXData,
        m.app.accelYData, m.app.magXData, val⟩
      crc := m.app.mSensor.payload.crc }

/-- `MagY.readDone`; `parentId` is what `getParent` leaves, 0 when it fails. -/
def magYReadDone (m : Mote) (error : Bool) (val parentId : UInt16) (accepted : Bool) : Mote :=
  let val := if error then 0 else val
  let m := { m with app := { m.app with mSensor := m.app.mSensor.write (m.sensorData parentId val) } }
  if !m.app.bRoot && !m.app.radioBusy then
    let m := m.collectionSend accepted
    if accepted then { m with app := { m.app with radioBusy := true } } else m
  else m

/-- `readDone` of each reader. -/
def readDone (m : Mote) (error : Bool) (val parentId : UInt16) (accepted : Bool) : Reader → Mote
  | .temp => m.tempReadDone error val accepted
  | .light => m.lightReadDone error val accepted
  | .microphone => m.microphoneReadDone error val accepted
  | .accelX => m.accelXReadDone error val accepted
  | .accelY => m.accelYReadDone error val accepted
  | .magX => m.magXReadDone error val accepted
  | .magY => m.magYReadDone error val parentId accepted

/-- `CollectionSend.sendDone`, which is signalled for `m_sensor` only. -/
def collectionSendDone (m : Mote) : Mote :=
  { m with app := { m.app with radioBusy := false }, sensorReadTimer := true }

/-- `BaseStationTimer.fired`; `parentId` and `crc` are not set when the message is declared. -/
def baseStationTimerFired (m : Mote) (parentId crc : UInt16) : Mote :=
  if m.app.bRoot then
    m.enqueue (calcMsgCrc
      { nodeId := m.nodeId, parentId := parentId, position := ⟨m.app.positionX, m.app.positionY⟩
        sensor := ⟨0, 0, 0, 0, 0, 0, 0⟩, crc := crc })
  else m

/-- `CheckDogTimer.fired`. -/
def checkDogTimerFired (m : Mote) : Mote :=
  m.postSendSerialMsg

/-- The task `sendSerialMsg`. -/
def sendSerialMsg (m : Mote) (accepted : Bool) : Mote :=
  let m :=
    match m.serialMsgQueue with
    | sensorData :: queue =>
      if m.app.bRoot && !m.app.serialBusy then
        let m :=
          { m with
            serialMsgQueue := queue
            app := { m.app with mSerial := m.app.mSerial.write sensorData } }
        let m := m.serialSend accepted
        if accepted then { m with app := { m.app with serialBusy := true } } else m
      else m
    | [] => m
  { m with checkDogTimer := true }

def receive (m : Mote) (payload : SensorMsg) (len : UInt8) : Mote :=
  if len.toNat = payload.bytes.length ∧ m.app.bRoot then m.enqueue payload else m

/-- `SerialSend.sendDone`, which is signalled for `m_serial` only. -/
def serialSendDone (m : Mote) : Mote :=
  { m with app := { m.app with serialBusy := false } }.postSendSerialMsg

end Mote

/-- What happens to a mote after `Boot.booted`, with the results of the commands that the handler
calls. -/
inductive Happening
  | radioStartDone (error radioStarts : Bool)
  | serialStartDone
  | sensorReadTimerFired (accepted : Bool)
  | readDone (r : Reader) (error : Bool) (val parentId : UInt16) (accepted : Bool)
  | collectionSendDone
  | baseStationTimerFired (parentId crc : UInt16)
  | checkDogTimerFired
  | sendSerialMsg (accepted : Bool)
  | receive (payload : SensorMsg) (len : UInt8)
  | serialSendDone

namespace Mote

/-- One event or task run. A command that returned `SUCCESS` is completed by one event, a one-shot
timer fires once; another component starts the serial stack as well. -/
def step (m : Mote) : Happening → Option Mote
  | .radioStartDone error radioStarts => do
    guard m.radioStarting
    return { m with radioStarting := false }.radioStartDone error radioStarts
  | .serialStartDone => return m.serialStartDone
  | .sensorReadTimerFired accepted => do
    guard m.sensorReadTimer
    return { m with sensorReadTimer := false, pass := [] }.sensorReadTimerFired accepted
  | .readDone r error val parentId accepted => do
    guard (r ∈ m.reading)
    let m :=
      { m with
        reading := m.reading.erase r
        pass := m.pass ++ [(r, if error then 0 else val)] }
    return m.readDone error val parentId accepted r
  | .collectionSendDone => do
    guard (m.sending ≠ [])
    return { m with sending := m.sending.tail }.collectionSendDone
  | .baseStationTimerFired parentId crc => do
    guard m.baseStationTimer
    return m.baseStationTimerFired parentId crc
  | .checkDogTimerFired => do
    guard m.checkDogTimer
    return { m with checkDogTimer := false }.checkDogTimerFired
  | .sendSerialMsg accepted => do
    guard m.sendSerialMsgPosted
    return { m with sendSerialMsgPosted := false }.sendSerialMsg accepted
  | .receive payload len => return m.receive payload len
  | .serialSendDone => do
    guard (m.serialSending ≠ [])
    return { m with serialSending := m.serialSending.tail }.serialSendDone

end Mote

theorem guarded {p : Prop} [Decidable p] {m m' : Mote}
    (h : (do guard p; return m : Option Mote) = some m') : p ∧ m = m' := by
  simpa [guard, Option.bind_eq_some_iff] using h

/-- A message of mote `nodeId`, for the closed runs. -/
def msgFrom (nodeId : UInt16) : SensorMsg where
  nodeId := nodeId
  parentId := 0
  position := ⟨0, 0⟩
  sensor := ⟨0, 0, 0, 0, 0, 0, 0⟩
  crc := 0

/-- All that can happen to the mote `nodeId` from `Boot.booted` on. -/
def moteSystem (nodeId : UInt16) : Transition Mote Happening where
  init m := ∃ sensor serial x y radioStarts, m = (Mote.fresh nodeId sensor serial).booted x y radioStarts
  step := Mote.step

end TinyosGraphics.Motes
