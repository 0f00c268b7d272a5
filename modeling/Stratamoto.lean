import Stratamoto.Library.Brackets
import Stratamoto.IR.Operation
import Stratamoto.IR.Builder
import Stratamoto.IR.Typing
import Stratamoto.IR.BuilderState
import Stratamoto.IR.Validation
import Stratamoto.IR.Compiler
import Stratamoto.IR.Lowering
import Stratamoto.IR.CompilerState
import Stratamoto.IR.Compilation
import Stratamoto.IR.Actions
import Stratamoto.IR.Violations
import Stratamoto.IR.Setups
import Stratamoto.IR.Removal
import Stratamoto.Library.Marks
import Stratamoto.IR.Thinning
import Stratamoto.IR.Concatenation
import Stratamoto.Library.Draws
import Stratamoto.IR.Generators
import Stratamoto.IR.Fragments
import Stratamoto.IR.Provenance
import Stratamoto.IR.Nesting
import Stratamoto.IR.Mutators
import Stratamoto.IR.Rewritten
import Stratamoto.IR.ThinnedValues
import Stratamoto.IR.ThinnedActions
import Stratamoto.IR.ThinnedCompilation
import Stratamoto.IR.Nops
import Stratamoto.Library.Fuel
import Stratamoto.Library.Proposals
import Stratamoto.IR.Minimizers
import Stratamoto.IR.Rewiring
import Stratamoto.IR.Minimization
import Stratamoto.IR.Splicing
import Stratamoto.IR.Insertion
import Stratamoto.IR.Appending
import Stratamoto.Fuzzer.Generating
import Stratamoto.Fuzzer.Stages
import Stratamoto.Fuzzer.Terminating
import Stratamoto.Harness.Events
import Stratamoto.Harness.Runner
import Stratamoto.Harness.Runs
import Stratamoto.Harness.Totality
import Stratamoto.Harness.Blocks
import Stratamoto.Harness.Links
import Stratamoto.Harness.Classification
import Stratamoto.Harness.Isolation
import Stratamoto.Harness.Oracle
import Stratamoto.Harness.Conformance
import Stratamoto.Harness.Verdicts
import Stratamoto.Harness.Records
import Stratamoto.Harness.Dominance
import Stratamoto.Harness.Frames
import Stratamoto.Harness.Orders
import Stratamoto.Harness.Unsent
import Stratamoto.IR.Nopping
import Stratamoto.Harness.Assembly
import Stratamoto.Harness.Noise
import Stratamoto.Fuzzer.Timeouts
import Stratamoto.IR.Panics
import Stratamoto.IR.Memory
import Stratamoto.Dst.Files
import Stratamoto.Dst.Clock
import Stratamoto.Dst.Timers
import Stratamoto.Fuzzer.Stability
import Stratamoto.Library.Regex
import Stratamoto.Fuzzer.Causes
import Stratamoto.IR.Display
import Stratamoto.IR.Numbering
import Stratamoto.Library.Pairs
import Stratamoto.IR.Dropping
import Stratamoto.Library.Machines
import Stratamoto.Dst.Nodes
import Stratamoto.Dst.Ready
import Stratamoto.Dst.Executor
import Stratamoto.Dst.Waking
import Stratamoto.Fuzzer.Mutating
import Stratamoto.Fuzzer.Reducing
import Stratamoto.Fuzzer.Instance
import Stratamoto.Fuzzer.Corpus
import Stratamoto.Harness.Statements
import Stratamoto.Harness.Exactness
import Stratamoto.Scenarios.PoolSetupConnection
import Stratamoto.Scenarios.Fuzzed
import Stratamoto.Dst.Datagrams
import Stratamoto.Harness.Duplex
import Stratamoto.Scenarios.Nyx
import Stratamoto.Scenarios.Campaign
import Stratamoto.Scenarios.CrashHandler
import Stratamoto.Dst.Disks
import Stratamoto.Fuzzer.Findings
