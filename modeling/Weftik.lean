import Weftik.Admission
import Weftik.HotSwap
import Weftik.Il.Parser
import Weftik.Lib.Code
import Weftik.StraightLine
import Weftik.Il.Codegen
import Weftik.Il.Accumulator
import Weftik.Il.StraightLine
import Weftik.Il.ControlFlow
import Weftik.Il.Containment
import Weftik.Ld.Network
import Weftik.Ld.PowerFlow
import Weftik.Ld.Builders
import Weftik.Ld.SerialPower
import Weftik.Ld.ParallelPower
import Weftik.Ld.SpentEdges
import Weftik.Ld.Compiler
import Weftik.Ld.HandOff
import Weftik.Ld.Cycle
import Weftik.Ld.SingleRung
import Weftik.Ld.Rung
import Weftik.Ld.Scan
import Weftik.St.Syntax
import Weftik.St.Codegen
import Weftik.St.Expressions
import Weftik.St.Assignment
import Weftik.St.Growth
import Weftik.St.Condition
import Weftik.Engine
import Weftik.Ipc.Codec
import Weftik.RuntimeClient.Codec
import Weftik.Ipc.Server
import Weftik.Ipc.Pairing
import Weftik.Ipc.Connections
import Weftik.Ipc.Subscribers
import Weftik.Symbolic
import Weftik.AxisGroup.Emit
import Weftik.AxisGroup.Homing
import Weftik.AxisGroup.Limits
import Weftik.AxisGroup.Alarm
import Weftik.AxisGroup.Backlash
import Weftik.AxisGroup.Reversals
import Weftik.AxisGroup.Combined
import Weftik.Platform
import Weftik.Motion.Profile
import Weftik.GCode.Compiler
import Weftik.Real
import Weftik.GCode.Blocks
import Weftik.Motion.Exact
import Weftik.Motion.Loop
import Weftik.Motion.Travel
import Weftik.Motion.Target
import Weftik.Motion.Endless
import Weftik.Motion.OnePass
import Weftik.GCode.Interpreter
import Weftik.GCode.Stores
import Weftik.GCode.Positions
import Weftik.GCode.Safety
import Weftik.Debugger
import Weftik.Timers
import Weftik.HalCore.Encoding
import Weftik.Lib.Pacing
import Weftik.Lifecycle.Manager
import Weftik.Lifecycle.RateLimit
import Weftik.Lifecycle.Permanence
import Weftik.Amw.Stream
import Weftik.Ipc.Framing
import Weftik.RuntimeClient.Transfers
import Weftik.Lossy
import Weftik.RuntimeClient.Snapshot
import Weftik.Fbd.Compiler
import Weftik.Il.Calls
import Weftik.Fbd.HandOff
import Weftik.Fbd.Scan
import Weftik.Ld.Edges
import Weftik.Modbus.Adapter
import Weftik.Agent.Status
import Weftik.Ipc.Pushes
import Weftik.Amw.ConfigBarrier
import Weftik.GCode.Parser
import Weftik.GCode.ModalWords
import Weftik.GCode.ModalGroups
import Weftik.GCode.Effects
import Weftik.GCode.MixedBlocks
import Weftik.Il.Blocks
import Weftik.Breakpoints
import Weftik.St.Persistence
import Weftik.St.Lexer
import Weftik.St.Parser
import Weftik.St.Checks
import Weftik.St.Layout
import Weftik.St.Wiring
import Weftik.St.Parts
import Weftik.St.Statements
import Weftik.St.Closure
import Weftik.Modbus.VirtualDevice
import Weftik.Modbus.Agreement
import Weftik.RunControl
import Weftik.Dap.Adapter
import Weftik.Dap.Session
import Weftik.Editor.GModelState
import Weftik.FbdEditor.Model
import Weftik.Lib.DepthFirst
import Weftik.FbdEditor.Validation
import Weftik.FbdEditor.Operations
import Weftik.FbdEditor.Compile
import Weftik.FbdEditor.Sorted
import Weftik.FbdEditor.Accumulator
import Weftik.FbdEditor.Meaning
import Weftik.FbdEditor.Pipeline
import Weftik.Backend.Checks
import Weftik.Backend.Service
import Weftik.HmiLayout
import Weftik.St.Comparison
import Weftik.St.Branches
import Weftik.DapBridge.Protocol
import Weftik.Dap.MainLoop
import Weftik.DapBridge.Framing
import Weftik.DapBridge.Session
import Weftik.DapBridge.DebugChannel
import Weftik.DapBridge.Mirror
import Weftik.Instances
import Weftik.St.Emitted
import Weftik.St.Fields
import Weftik.Ld.Separation
import Weftik.Arithmetic
import Weftik.Arrays
import Weftik.Pulse
import Weftik.Counters
import Weftik.Trace
import Weftik.RuntimeClient.Prefixes
import Weftik.Ipc.Reauth
import Weftik.Lifecycle.Metrics
import Weftik.Amw.Backpressure
import Weftik.Lib.Json.Reader
import Weftik.Lib.Json.Strings
import Weftik.Lib.Json.Spelling
import Weftik.Ipc.PushFrames
import Weftik.Lib.Kahn
import Weftik.Lib.Machine
import Weftik.Motion.Cycles
import Weftik.Motion.Velocity
import Weftik.Il.Comments
import Weftik.Il.Trivia
import Weftik.Lib.Turns
import Weftik.GCode.Arcs
import Weftik.GCode.Circles
import Weftik.GCode.Inches
import Weftik.Simulation.Faults
import Weftik.Lib.Wildcard
import Weftik.Amw.Patterns
import Weftik.DebugText
import Weftik.Simulation.ParseText
import Weftik.Simulation.Scenes
import Weftik.Lib.Ieee
import Weftik.FieldBus
import Weftik.Modbus.ReadLoop
import Weftik.Modbus.Framing
import Weftik.Modbus.Writes
import Weftik.Backoff
import Weftik.LdLayout.Layout
import Weftik.LdLayout.Overlap
import Weftik.RingBuffer
import Weftik.Backend.RateLimits
import Weftik.Lib.GreyPath
import Weftik.FbdEditor.Feedback
import Weftik.FbdEditor.Canvas
import Weftik.Ipc.Panics
import Weftik.VarTable.Model
import Weftik.VarTable.RoundTrip
