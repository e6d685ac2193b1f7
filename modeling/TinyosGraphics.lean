import TinyosGraphics.Lib.Transition
import TinyosGraphics.Lib.SlotTable
import TinyosGraphics.Lib.Threads
import TinyosGraphics.Event.Schedule
import TinyosGraphics.Event.RefusedCalls
import TinyosGraphics.Event.Descriptors
import TinyosGraphics.Event.LinuxEpoll
import TinyosGraphics.Event.BatchWalk
import TinyosGraphics.Task.Scheduler
import TinyosGraphics.Task.Accounting
import TinyosGraphics.Task.Conservation
import TinyosGraphics.Task.Startup
import TinyosGraphics.Lib.CString
import TinyosGraphics.Lib.Process
import TinyosGraphics.Core.ReadRequest
import TinyosGraphics.Core.WriteResponse
import TinyosGraphics.Core.SendFile
import TinyosGraphics.Lib.CyclicCode
import TinyosGraphics.Event.AnyDescriptor
import TinyosGraphics.Sensor.Ingest
import TinyosGraphics.Motes.Sampling
import TinyosGraphics.Motes.Forwarding
import TinyosGraphics.Server.Accepting
import TinyosGraphics.Server.Shutdown
import TinyosGraphics.Task.Emptying
import TinyosGraphics.Task.PostLock
import TinyosGraphics.Core.ContentLength
import TinyosGraphics.Core.ReadBounds
import TinyosGraphics.Core.ScanConfig
import TinyosGraphics.Core.ConfigLines
import TinyosGraphics.Core.Settings
import TinyosGraphics.Core.ShrinkingFile
import TinyosGraphics.Server.TaskMemory
import TinyosGraphics.Core.ConfigText
import TinyosGraphics.Core.ConfigBuffers
import TinyosGraphics.Http.ParserExecute
import TinyosGraphics.Http.BodyCallback
import TinyosGraphics.Http.Endings
import TinyosGraphics.Db.Records
import TinyosGraphics.Db.Topology
import TinyosGraphics.Db.Freshness
import TinyosGraphics.Sensor.Remainder
import TinyosGraphics.Sensor.ShortPackets
import TinyosGraphics.Sensor.Leftovers
import TinyosGraphics.Modules.NodeInfo
import TinyosGraphics.Modules.RealTime
import TinyosGraphics.Core.Supervisor
import TinyosGraphics.Motes.Watchdog
import TinyosGraphics.Sensor.Arguments
import TinyosGraphics.Sensor.PidVector
import TinyosGraphics.Http.PathCleaning
import TinyosGraphics.Core.BoundryChecks
import TinyosGraphics.Lib.Transfer
import TinyosGraphics.Serial.Exchange
import TinyosGraphics.Serial.Forwarder
import TinyosGraphics.Sensor.Pipeline
import TinyosGraphics.Sensor.MessageFields
import TinyosGraphics.Motes.SerialSend
import TinyosGraphics.Motes.SerialFrames
import TinyosGraphics.Motes.SerialOrder
import TinyosGraphics.Motes.SerialRuns
import TinyosGraphics.Sensor.BaseStation
