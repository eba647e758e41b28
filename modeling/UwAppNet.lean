import UwAppNet.Header
import UwAppNet.Module
import UwAppNet.Lib.RunningMax
import UwAppNet.Lib.Transition
import UwAppNet.Reception
import UwAppNet.DropMode
import UwAppNet.Sender
import UwAppNet.Streams
import UwAppNet.EndToEnd
import UwAppNet.Loss
import UwAppNet.ClientLoop
import UwAppNet.Framing
import UwAppNet.Lifecycle
import UwAppNet.Shutdown
import UwAppNet.Lib.SelfDelimiting
import UwAppNet.SendData
import UwAppNet.Intake
import UwAppNet.Figures
import UwAppNet.Rejection
import UwAppNet.Station
import UwAppNet.Lib.Truncation
import UwAppNet.TripTime
import UwAppNet.ErrorRate
import UwAppNet.HighestNumber
import UwAppNet.Throughput
import UwAppNet.Deviation
import UwAppNet.HexString
import UwAppNet.Relay
import UwAppNet.TableBounds
import UwAppNet.Network
import UwAppNet.Polling
import UwAppNet.Restart
import UwAppNet.Lib.Simulation
import UwAppNet.SampleSend
import UwAppNet.LiveIntake
import UwAppNet.SampleReceive
import UwAppNet.Handover
import UwAppNet.Exchange
import UwAppNet.Lib.Spacing
import UwAppNet.Pacing
import UwAppNet.ScriptToScript
import UwAppNet.Lossless
import UwAppNet.WindDown
import UwAppNet.Accounting
import UwAppNet.CatchUp
import UwAppNet.ReadTimeout
