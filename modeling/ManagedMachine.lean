import ManagedMachine.Session.Members
import ManagedMachine.Session.Setup
import ManagedMachine.Proofs.FrameIsolation
import ManagedMachine.Proofs.CatchSelection
import ManagedMachine.Proofs.ClauseOrder
import ManagedMachine.Proofs.TokenCaching
import ManagedMachine.Proofs.TypeNames
import ManagedMachine.Proofs.ModuleLoading
import ManagedMachine.Proofs.TypeIdentity
import ManagedMachine.Proofs.Initialization
import ManagedMachine.Proofs.Literals
import ManagedMachine.Proofs.StructCopies
import ManagedMachine.Proofs.Locations
import ManagedMachine.Proofs.BindingTables
import ManagedMachine.Proofs.PoolAccounting
import ManagedMachine.Proofs.StackRegions
import ManagedMachine.Proofs.BlockOwnership
import ManagedMachine.Proofs.InterpreterReuse
import ManagedMachine.Proofs.CoreTypes
import ManagedMachine.Proofs.Spellings
import ManagedMachine.Proofs.SettledFields
import ManagedMachine.Proofs.TokenAnswers
import ManagedMachine.Proofs.ReturnedValues
import ManagedMachine.Proofs.DiscardedLoads
import ManagedMachine.Proofs.References
import ManagedMachine.Proofs.Resetting
import ManagedMachine.Proofs.PassedClauses
import ManagedMachine.Proofs.NullDereferences
import ManagedMachine.Proofs.BoundLoads
import ManagedMachine.Proofs.AcceptedArguments
import ManagedMachine.Proofs.LeastCandidate
import ManagedMachine.Proofs.ValidatedBodies
import ManagedMachine.Proofs.Traces
import ManagedMachine.Proofs.ActiveExceptions
import ManagedMachine.Proofs.VirtualDispatch
import ManagedMachine.Proofs.Renderings
import ManagedMachine.Proofs.MemberReferences
import ManagedMachine.Proofs.AdaptorTables
import ManagedMachine.Proofs.Assignability
import ManagedMachine.Proofs.Prewarming
import ManagedMachine.Proofs.FieldLayouts
import ManagedMachine.Proofs.SourceLines
import ManagedMachine.Proofs.IntegerArithmetic
import ManagedMachine.Proofs.RowTokens
import ManagedMachine.Proofs.WarmedTypes
