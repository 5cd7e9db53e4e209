import Dm20.Lib.Except
import Dm20.Lib.Run
import Dm20.Lib.Slots
import Dm20.Lib.Scan
import Dm20.Lib.Text
import Dm20.Lib.Separator
import Dm20.Lib.Placeholder
import Dm20.Lib.Descent
import Dm20.Lib.LookAhead
import Dm20.Lib.AssocList
import Dm20.Lib.Pairing
import Dm20.Lib.WaitCycle
import Dm20.Lib.Latest
import Dm20.Lib.Collect
import Dm20.Lib.Stateful
import Dm20.Lib.FlowTree
import Dm20.TupleLib.Any
import Dm20.TupleLib.Number
import Dm20.TupleLib.DataType
import Dm20.TupleLib.StringUtil
import Dm20.TupleLib.BracketGroups
import Dm20.TupleLib.Value
import Dm20.TupleLib.TupleSet
import Dm20.TupleLib.Tuple
import Dm20.TupleLib.Schema
import Dm20.Queue.State
import Dm20.Queue.Delete
import Dm20.Queue.AddTuple
import Dm20.Queue.Accounting
import Dm20.Queue.Retention
import Dm20.Queue.CountWindow
import Dm20.Queue.MasterWindow
import Dm20.Queue.RangeWindow
import Dm20.Queue.RangeDelivery
import Dm20.Queue.LockOrder
import Dm20.Query.Comparator
import Dm20.Query.Condition
import Dm20.Query.IntegerComparison
import Dm20.Query.ParseTree
import Dm20.Query.Tokenizer
import Dm20.Query.Parser
import Dm20.Query.Grammar
import Dm20.Query.FollowSets
import Dm20.Query.Recognition
import Dm20.Query.Sentence
import Dm20.Query.SQLString
import Dm20.Query.OperatorTree
import Dm20.Query.TreeShape
import Dm20.Query.AcceptedTrees
import Dm20.Query.GeneratorSafety
import Dm20.Query.NullNodes
import Dm20.Query.GraphGrowth
import Dm20.Query.TableInputs
import Dm20.Query.Routes
import Dm20.Query.Dataflow
import Dm20.Location.TaskStore
import Dm20.Location.TaskHistory
import Dm20.Operator.TwoInput
import Dm20.Operator.Join
import Dm20.Operator.JoinCalls
import Dm20.Operator.Union
import Dm20.Operator.UnionCalls
import Dm20.Manager.QueryManager
import Dm20.Manager.Cancellation
import Dm20.Operator.PartitionWindow
import Dm20.Operator.PartitionUpdates
import Dm20.CsLib.UnorderedMap
import Dm20.CsLib.SocketUtil
import Dm20.CsLib.Reassembly
import Dm20.CsLib.Arrivals
import Dm20.CsLib.AnyPacket
import Dm20.CsLib.Purge
import Dm20.Lib.Bytes
import Dm20.Lib.Interleaving
import Dm20.Protobuf.Header
import Dm20.Protobuf.Codec
import Dm20.Protobuf.Integration
import Dm20.Protobuf.Fragments
import Dm20.Protobuf.Reordering
import Dm20.Protobuf.AnyOrder
import Dm20.Protobuf.Leftover
import Dm20.Protobuf.InFlight
import Dm20.Protobuf.Loss
import Dm20.Transfer.IsHeader
import Dm20.Transfer.Lossless
import Dm20.Protobuf.ClientTraffic
import Dm20.Transfer.AnyPayload
import Dm20.Cs.ProcSender
import Dm20.Cs.ClearQueue
import Dm20.Cs.SidManagement
import Dm20.Cs.ProcRcvSettings
import Dm20.Cs.SidUpdate
import Dm20.Cs.StationTable
import Dm20.Cs.Alignment
import Dm20.Cs.TableUpdates
import Dm20.Manager.SessionManager
import Dm20.Lib.Memory
import Dm20.CsLib.SignedPacket
import Dm20.CsLib.SignedTransfer
import Dm20.Protobuf.Reflection
import Dm20.Protobuf.DynamicDecoder
import Dm20.Protobuf.DynamicSafety
import Dm20.Protobuf.DynamicEncoder
import Dm20.Protobuf.FieldNames
import Dm20.Protobuf.Descriptions
import Dm20.Protobuf.ColumnFields
import Dm20.Lib.Delimited
import Dm20.Lib.StackMachine
import Dm20.Lib.KeyRemoval
import Dm20.TupleLib.Kind
import Dm20.Query.TokenBoundaries
import Dm20.Query.LeafKinds
import Dm20.Query.CalcString
import Dm20.Query.CalcArrays
import Dm20.Query.FormulaValue
import Dm20.Query.FormulaSafety
import Dm20.Operator.PartitionPaths
import Dm20.Operator.PartitionKeys
import Dm20.Operator.Duplicates
import Dm20.Operator.HideColumn
import Dm20.Client.Connection
import Dm20.Lib.Strip
import Dm20.CsLib.Config
import Dm20.Protobuf.InfoSerializers
import Dm20.CsLib.FragmentSize
import Dm20.Queue.PullRequest
import Dm20.Operator.CostWindow
import Dm20.TupleLib.ValueRoundTrip
import Dm20.Lib.NameIndex
import Dm20.TupleLib.SchemaChanges
import Dm20.TupleLib.SchemaNames
import Dm20.Operator.Projection
import Dm20.Operator.NestedProjection
import Dm20.Lib.Carry
import Dm20.Operator.Eval
import Dm20.Operator.EvalRows
import Dm20.Lib.Assembly
import Dm20.Transfer.RecvUsingHeader
import Dm20.Transfer.Reception
import Dm20.Transfer.ReceptionBounds
import Dm20.Transfer.ReceptionCopies
import Dm20.Transfer.ReceptionExact
import Dm20.Lib.Population
import Dm20.Lib.Monitor
import Dm20.Queue.BufferQueue
import Dm20.Protobuf.UniqueNames
import Dm20.Protobuf.RoundTrip
import Dm20.Protobuf.SplitSize
import Dm20.Protobuf.TupleMessages
import Dm20.Query.WindowTokens
import Dm20.Query.WindowNumbers
import Dm20.Query.WindowCreation
import Dm20.Query.WindowMeaning
import Dm20.Query.QueryInputs
import Dm20.Query.WindowsKept
import Dm20.Lib.Joined
import Dm20.TupleLib.Quoted
import Dm20.Operator.Selection
import Dm20.Query.ColumnPredicate
import Dm20.Query.LiteralReading
import Dm20.Query.StatementReading
import Dm20.Query.PredicateReading
import Dm20.Query.PlainPredicates
import Dm20.Query.Filtering
import Dm20.Lib.EquiJoin
import Dm20.Lib.KeyText
import Dm20.Operator.JoinKeys
import Dm20.Operator.JoinAgreement
import Dm20.Lib.Transducer
import Dm20.Operator.Runtime
import Dm20.Operator.Delivery
import Dm20.Operator.WakeUps
import Dm20.Operator.Network
import Dm20.Operator.Composition
import Dm20.Query.FilteredRuns
import Dm20.Query.OperatorNetwork
