import ProxySQL.Lib.Block
import ProxySQL.Lib.Access
import ProxySQL.Lib.Decoder
import ProxySQL.Lib.Frame
import ProxySQL.Lib.CString
import ProxySQL.Lib.PtrArray
import ProxySQL.Lib.Heap
import ProxySQL.Lib.Joined
import ProxySQL.Lib.Upsert
import ProxySQL.Lib.TimedMap
import ProxySQL.Lib.Run
import ProxySQL.Lib.LinkStack
import ProxySQL.Lib.Logged
import ProxySQL.Lib.While
import ProxySQL.Lib.Prog
import ProxySQL.Protocol.Packet
import ProxySQL.Protocol.Decode
import ProxySQL.Protocol.StatusFlags
import ProxySQL.Protocol.ResultSet
import ProxySQL.Protocol.EncodedStrings
import ProxySQL.Net.DataStream
import ProxySQL.Net.Input
import ProxySQL.Net.Output
import ProxySQL.Net.Memory
import ProxySQL.Session.State
import ProxySQL.Session.ConnPool
import ProxySQL.Session.Backend
import ProxySQL.Session.Auth
import ProxySQL.Session.BuiltPackets
import ProxySQL.Session.ClientPkts
import ProxySQL.Session.ParseBounds
import ProxySQL.Session.ServerPkts
import ProxySQL.Session.Handler
import ProxySQL.Session.Login
import ProxySQL.Session.Effects
import ProxySQL.Session.NetEffects
import ProxySQL.Session.Steps
import ProxySQL.Session.ChangeUser
import ProxySQL.Session.FinalErrors
import ProxySQL.Session.LongCommands
import ProxySQL.Session.CacheKey
import ProxySQL.Session.PoolSpec
import ProxySQL.Session.BackendSpec
import ProxySQL.Session.Relay
import ProxySQL.Session.EndOfResponse
import ProxySQL.Session.Release
import ProxySQL.Session.PoolTransaction
import ProxySQL.Session.Ownership
import ProxySQL.Session.Servers
import ProxySQL.Session.Wiring
import ProxySQL.Session.EntryUse
import ProxySQL.Session.Ledger
import ProxySQL.Session.PoolTarget
import ProxySQL.Session.Pooled
import ProxySQL.Session.PoolIdle
import ProxySQL.Session.Prepared
import ProxySQL.Session.RoutingEffects
import ProxySQL.Session.ActiveConnections
import ProxySQL.Session.ChangeUserPacket
import ProxySQL.Session.Destination
import ProxySQL.Session.Routing
import ProxySQL.Session.Forwarding
import ProxySQL.Session.Reload
import ProxySQL.Session.DefaultLookup
import ProxySQL.Session.Rewriting
import ProxySQL.Session.QueueBack
import ProxySQL.Cache.Hash
import ProxySQL.Cache.Sweep
import ProxySQL.Cache.Partition
import ProxySQL.Cache.Invariant
import ProxySQL.Cache.Operations
import ProxySQL.Cache.Runs
import ProxySQL.Cache.PurgeCycle
import ProxySQL.Cache.Readers
import ProxySQL.Session.CachedErrors
import ProxySQL.Admin.Commands
import ProxySQL.Admin.CreateTable
import ProxySQL.Admin.ResultSet
import ProxySQL.Admin.RowPackets
import ProxySQL.Admin.RuntimeDump
import ProxySQL.Alloc.Pool
import ProxySQL.Alloc.Slots
import ProxySQL.Alloc.Counters
import ProxySQL.Alloc.Compaction
import ProxySQL.Alloc.Windows
import ProxySQL.Alloc.PtrArray
import ProxySQL.Thread.RemoveServers
import ProxySQL.Thread.Poll
import ProxySQL.Thread.Reading
import ProxySQL.Thread.OfflineSoft
import ProxySQL.Thread.Loop
import ProxySQL.Stats.QueryStats
import ProxySQL.Stats.StatsKey
import ProxySQL.Digest.Tokenizer
import ProxySQL.Digest.Scan
import ProxySQL.Digest.Pieces
import ProxySQL.Digest.Spacing
import ProxySQL.Digest.Literals
