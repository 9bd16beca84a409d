import ScriptMachine.Compiler.Generation
import ScriptMachine.Main
import ScriptMachine.Program.Bytes
import ScriptMachine.Proofs.FrameParts
import ScriptMachine.Proofs.NodeInduction
import ScriptMachine.Proofs.CodeLayout
import ScriptMachine.Proofs.Declarations
import ScriptMachine.Proofs.Evaluation
import ScriptMachine.Proofs.StorageElements
import ScriptMachine.Proofs.Provenance
import ScriptMachine.Proofs.Instructions
import ScriptMachine.Proofs.FaultFree
import ScriptMachine.Proofs.Slots
import ScriptMachine.Proofs.StackUse
import ScriptMachine.Proofs.Steps
import ScriptMachine.Proofs.Simulation
import ScriptMachine.Proofs.ExpressionSimulation
import ScriptMachine.Proofs.StatementSimulation
import ScriptMachine.Proofs.CallSimulation
import ScriptMachine.Proofs.CompilerCorrectness
import ScriptMachine.Proofs.CodeRegions
import ScriptMachine.Proofs.FrameInvariants
import ScriptMachine.Proofs.Activations
import ScriptMachine.Proofs.Confinement
import ScriptMachine.Proofs.StackHeights
import ScriptMachine.Proofs.OperandCounts
import ScriptMachine.Proofs.StackSafety
import ScriptMachine.Proofs.FragmentChanges
import ScriptMachine.Proofs.StackCounters
import ScriptMachine.Proofs.Rearrangement
import ScriptMachine.Proofs.RecordedDepths
import ScriptMachine.Proofs.Accesses
import ScriptMachine.Proofs.LastAssignments
import ScriptMachine.Proofs.ListOperations
import ScriptMachine.Proofs.Bisimilarity
import ScriptMachine.Proofs.Rendering
import ScriptMachine.Proofs.TextRoundTrip
import ScriptMachine.Proofs.CompiledText
import ScriptMachine.Proofs.TextReloading
import ScriptMachine.Proofs.TextGrammar
import ScriptMachine.Proofs.ProgramListings
import ScriptMachine.Proofs.ByteRoundTrip
import ScriptMachine.Proofs.WorldAccess
import ScriptMachine.Proofs.LimitedRuns
import ScriptMachine.Proofs.Sessions
import ScriptMachine.Proofs.StepLimits
import ScriptMachine.Proofs.OpenCalls
import ScriptMachine.Proofs.GlobalBindings
import ScriptMachine.Proofs.ShapeHistories
import ScriptMachine.Proofs.NamespaceMaps
import ScriptMachine.Proofs.ExactArithmetic
import ScriptMachine.Proofs.GuardedExecution
import ScriptMachine.Proofs.IntactStates
import ScriptMachine.Proofs.FrameOperations
import ScriptMachine.Proofs.HostSafety
import ScriptMachine.Proofs.OperandUse
import ScriptMachine.Proofs.StackEffects
import ScriptMachine.Proofs.AtomicInstructions
import ScriptMachine.Compiler.Assembly
import ScriptMachine.Proofs.AssembledCode
import ScriptMachine.Proofs.FaultPositions
import ScriptMachine.Proofs.SlotAllocation
import ScriptMachine.Proofs.AssemblyCorrectness
