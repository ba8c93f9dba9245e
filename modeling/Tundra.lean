import Tundra.Lib.Transition
import Tundra.Lib.Ring
import Tundra.Lib.Bytes
import Tundra.Lib.Probing
import Tundra.Lib.Worklist
import Tundra.Lib.Checked
import Tundra.Lib.Region
import Tundra.Lib.Chunks
import Tundra.Lib.Mixing
import Tundra.Lib.Sha1
import Tundra.Hash.Memory
import Tundra.Hash.Sha1
import Tundra.Common
import Tundra.HashTable
import Tundra.HashTable.FiniteMap
import Tundra.Hash
import Tundra.DigestCache
import Tundra.DigestCacheFile
import Tundra.StatCache
import Tundra.PathUtil
import Tundra.Json
import Tundra.Json.Lexer
import Tundra.Json.Writer
import Tundra.Json.Parser
import Tundra.Json.Grammar
import Tundra.Json.RoundTrip
import Tundra.Json.Memory
import Tundra.Json.MemoryLexer
import Tundra.Json.MemorySafe
import Tundra.IncludeScanner
import Tundra.ScanCache
import Tundra.Scanner.Scan
import Tundra.Scanner.Closure
import Tundra.Scanner.Implicit
import Tundra.Scanner.CacheFile
import Tundra.Scanner.Merge
import Tundra.Scanner.History
import Tundra.Scanner.Directives
import Tundra.Scanner.NoFollow
import Tundra.Scanner.KeywordOrder
import Tundra.Dag
import Tundra.SortedArrayUtil
import Tundra.BinaryWriter
import Tundra.BinaryData
import Tundra.Segments
import Tundra.Relocation
import Tundra.Terminal.Lines
import Tundra.Terminal.Spec
import Tundra.Terminal.Exclusive
import Tundra.Terminal.Account
import Tundra.Terminal.Order
import Tundra.Queue.State
import Tundra.Queue.Step
import Tundra.Queue.Spec
import Tundra.Queue.NodeInv
import Tundra.Queue.Sched
import Tundra.Queue.Inv
import Tundra.Queue.Refine
import Tundra.Queue.Life
import Tundra.Queue.Safety
import Tundra.Queue.Expensive
import Tundra.Queue.Progress
import Tundra.Queue.Confluence
import Tundra.Queue.Failure
import Tundra.Signature
import Tundra.Hash.Spread
import Tundra.Signature.Stream
import Tundra.Signature.Glob
import Tundra.StateFile.Save
import Tundra.StateFile.Load
import Tundra.StateFile.Merge
import Tundra.StateFile.Sound
import Tundra.StateFile.History
import Tundra.DagGenerator.Document
import Tundra.DagGenerator.Remap
import Tundra.DagGenerator.WellFormed
import Tundra.DagGenerator.Write
import Tundra.DagGenerator.Load
import Tundra.DagGenerator.Fields
import Tundra.DagGenerator.Records
import Tundra.DagGenerator.ReadBack
import Tundra.DagGenerator.Encodes
import Tundra.DagGenerator.Compile
import Tundra.DagGenerator.ScannerGuid
import Tundra.DagGenerator.NodeGuid
import Tundra.Front.Acyclic
import Tundra.Front.Depgraph
import Tundra.Front.Dagsave
import Tundra.Front.Passes
import Tundra.Front.Producers
import Tundra.PathUtil.Ancestors
import Tundra.StaleOutputs
import Tundra.TargetSelect
import Tundra.TargetSelect.Selection
import Tundra.Driver.Select
import Tundra.Driver.Names
import Tundra.Driver.Prepare
import Tundra.Driver.PrepareDag
import Tundra.Lua.TwoStage
import Tundra.Lua.Undisturbed
import Tundra.ScanCache.FiniteMap
import Tundra.StatCache.Restat
import Tundra.PathUtil.MemorySafe
import Tundra.PathUtil.Device
import Tundra.PathUtil.Equality
import Tundra.Lua.Path
import Tundra.Lua.StringRuns
import Tundra.Lua.Quote
import Tundra.Lua.NameMemory
import Tundra.Lua.SubstitutionRefine
import Tundra.Lua.FilterList
import Tundra.Lua.Pattern
import Tundra.Lua.ConfigMatch
import Tundra.Lua.ScriptFilters
import Tundra.Lua.FGlob
import Tundra.Lua.GenericScanner
import Tundra.Lib.Census
import Tundra.ConditionVar
import Tundra.ReadWriteLock
import Tundra.ReadWriteLock.Moves
import Tundra.ReadWriteLock.Inv
import Tundra.ReadWriteLock.Drain
import Tundra.ExecUnix
import Tundra.ExecUnix.Moves
import Tundra.ExecUnix.Output
import Tundra.Terminal.Apart
import Tundra.Terminal.Calls
import Tundra.ExecUnix.Jobs
import Tundra.ExecUnix.Together
import Tundra.Lib.Aligned
import Tundra.Lib.Arena
import Tundra.MemAllocLinear
import Tundra.MemAllocLinear.Refine
import Tundra.Signature.Plain
import Tundra.Signature.Sessions
