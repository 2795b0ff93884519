import RiteVm.Binary.Dump
import RiteVm.Binary.Load
import RiteVm.Bytecode.Assembler
import RiteVm.Bytecode.Listing
import RiteVm.Call.Binding
import RiteVm.Execution.Operators
import RiteVm.Execution.Unwinding
import RiteVm.Class.Definition
import RiteVm.Machine.Collector
import RiteVm.Execution.Step
import RiteVm.Execution.Program
import RiteVm.Fiber.Resume
import RiteVm.Core.Closures
import RiteVm.Core.Containers
import RiteVm.Core.Exceptions
import RiteVm.Core.Modules
import RiteVm.Core.Numbers
import RiteVm.Core.Boot
import RiteVm.Core.Natives
import RiteVm.Execution.Loop
import RiteVm.CommandLine.Options
import RiteVm.CommandLine.Report
import RiteVm.Host.Storage
import RiteVm.Main
import RiteVm.Proofs.Collector.Reachability
import RiteVm.Proofs.Evolution.Actions
import RiteVm.Proofs.Evolution.Values
import RiteVm.Proofs.Evolution.Classes
import RiteVm.Proofs.Evolution.Calls
import RiteVm.Proofs.Evolution.Execution
import RiteVm.Proofs.Evolution.Runs
import RiteVm.Proofs.Collector.Allocation
import RiteVm.Proofs.MethodCache.Lineage
import RiteVm.Proofs.MethodCache.Hierarchy
import RiteVm.Proofs.MethodCache.Coherence
import RiteVm.Proofs.MethodCache.Soundness
import RiteVm.Proofs.Evolution.Startup
import RiteVm.Proofs.MethodCache.Freshness
import RiteVm.Proofs.ClassGraph.Inclusion
import RiteVm.Proofs.ClassGraph.Failures
import RiteVm.Proofs.ClassGraph.Targets
import RiteVm.Proofs.ClassGraph.Scopes
import RiteVm.Proofs.ClassGraph.Creations
import RiteVm.Proofs.ClassGraph.ClassMethods
import RiteVm.Proofs.ClassGraph.SuperChains
import RiteVm.Proofs.Unwinding.Attempt
import RiteVm.Proofs.Unwinding.ClauseRuns
import RiteVm.Proofs.Unwinding.Exits
import RiteVm.Proofs.Binary.Fields
import RiteVm.Proofs.Binary.Layouts
import RiteVm.Proofs.Binary.Recognition
import RiteVm.Proofs.Binary.Runs
import RiteVm.Proofs.Binary.Termination
import RiteVm.Proofs.Symbols.Interning
import RiteVm.Proofs.Hashes.Histories
import RiteVm.Proofs.Fibers.Calls
import RiteVm.Proofs.Fibers.Execution
import RiteVm.Proofs.Fibers.InStep
import RiteVm.Proofs.Fibers.EntryPoints
import RiteVm.Proofs.Fibers.Asking
import RiteVm.Proofs.Fibers.HandingOver
import RiteVm.Proofs.Fibers.Yielding
import RiteVm.Proofs.Arguments.Arrival
import RiteVm.Proofs.Soundness.Limits
import RiteVm.Proofs.Soundness.Departures
import RiteVm.Proofs.Custody.Runs
import RiteVm.Proofs.Windows.Preservation
import RiteVm.Proofs.Wakeups.Waiters
import RiteVm.Proofs.Bytecode.Validation
import RiteVm.Proofs.Assembler.Labels
import RiteVm.Proofs.Assembler.Literals
import RiteVm.Proofs.Assembler.IntegerLoads
import RiteVm.Proofs.Numbers.Integers
import RiteVm.Proofs.Parameters.Outward
import RiteVm.Proofs.Parameters.Bodies
import RiteVm.Proofs.Parameters.BlockGiven
import RiteVm.Proofs.Parameters.Overwritten
import RiteVm.Proofs.Parameters.Destructuring
import RiteVm.Proofs.Unwinding.Jumps
import RiteVm.Proofs.Symbols.Attributes
import RiteVm.Proofs.Provenance.Renderings
