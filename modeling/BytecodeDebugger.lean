import BytecodeDebugger.CommandLine.Desk
import BytecodeDebugger.Main
import BytecodeDebugger.Playback
import BytecodeDebugger.Proofs.Session.Calls
import BytecodeDebugger.Proofs.Session.Rest
import BytecodeDebugger.Session.Kept
import BytecodeDebugger.Proofs.Engine.Barriers
import BytecodeDebugger.Proofs.Machine.Visits
import BytecodeDebugger.Proofs.Session.Stops
import BytecodeDebugger.Proofs.Machine.Alone
import BytecodeDebugger.Proofs.Engine.Logging
import BytecodeDebugger.Proofs.Session.Transparency
import BytecodeDebugger.Proofs.Session.Notices
import BytecodeDebugger.Proofs.Session.Faults
import BytecodeDebugger.Proofs.Session.Depth
import BytecodeDebugger.Proofs.Machine.Traceback
import BytecodeDebugger.Proofs.Machine.Walk
import BytecodeDebugger.Proofs.Session.Reach
import BytecodeDebugger.Proofs.Session.Resumption
import BytecodeDebugger.Proofs.Session.Pace
import BytecodeDebugger.Proofs.Session.Polling
import BytecodeDebugger.Proofs.Session.Progress
import BytecodeDebugger.Proofs.Session.Subscribers
import BytecodeDebugger.Proofs.Session.AutoSteps
import BytecodeDebugger.Proofs.Session.Polls
import BytecodeDebugger.Proofs.Session.Pause
import BytecodeDebugger.Proofs.Session.Toggling
import BytecodeDebugger.Proofs.Message.Framing
import BytecodeDebugger.Proofs.Server.Transcript
import BytecodeDebugger.Proofs.Session.HostFailures
import BytecodeDebugger.Proofs.Session.Traces
import BytecodeDebugger.Proofs.Session.Positions
import BytecodeDebugger.Proofs.Store.Refinement
import BytecodeDebugger.Proofs.Machine.Safety
import BytecodeDebugger.Proofs.Machine.Calling
import BytecodeDebugger.Proofs.Message.Envelopes
import BytecodeDebugger.Proofs.Server.Refusals
import BytecodeDebugger.Proofs.Session.Entry
import BytecodeDebugger.Proofs.Machine.CallStack
import BytecodeDebugger.Proofs.Session.CallStacks
import BytecodeDebugger.Proofs.SourcePath
import BytecodeDebugger.Proofs.Chunk.Reading
import BytecodeDebugger.Proofs.Machine.Nesting
import BytecodeDebugger.Proofs.Session.NestedTraces
import BytecodeDebugger.Proofs.Locals
import BytecodeDebugger.Proofs.Message.Headway
