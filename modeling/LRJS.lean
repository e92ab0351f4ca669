import LRJS.Peephole
import LRJS.PropertyStore
import LRJS.ElementCache
import LRJS.Accessors
import LRJS.Proxies
import LRJS.NumberRepresentation
import LRJS.Atoms
import LRJS.StringPool
import LRJS.CompiledCache
import LRJS.BodyCache
import LRJS.EvalSandbox
import LRJS.TryStatements
import LRJS.GeneratorProtocol
import LRJS.DestructuringAgreement
import LRJS.LiveExports
import LRJS.NativeIdentity
import LRJS.AstSafety
import LRJS.MemberCache
import LRJS.Rewinds
import LRJS.CallDiscipline
import LRJS.IterationOrder
import LRJS.ArchiveRuns
import LRJS.PromisePropagation
import LRJS.RecordLifetimes
import LRJS.TaskLifetimes
import LRJS.TimerOrder
import LRJS.QueueDelivery
import LRJS.PoolTasks
import LRJS.WorkerMessages
import LRJS.SensitiveGlobals
import LRJS.GlobalRoundTrip
import LRJS.WarmRunEffects
import LRJS.Encoding
import LRJS.ArraySearch
import LRJS.CallbackResults
import LRJS.EventDispatch
import LRJS.Hoisting
import LRJS.ParameterBinding
import LRJS.SwitchClauses
import LRJS.Arguments
import LRJS.Increments
import LRJS.SelfUpdates
import LRJS.Bitwise
import LRJS.SourceSplits
import LRJS.UnboundAssignments
import LRJS.BigInts
import LRJS.RestrictedProductions
import LRJS.ArgumentReferences
import LRJS.PrototypeChains
import LRJS.ArrayStorage
