import MmsSvr.Bytes
import MmsSvr.JsonC.Tokener
import MmsSvr.JsonC.Errno
import MmsSvr.JsonC.Scan
import MmsSvr.JsonC.Budget
import MmsSvr.JsonC.Raw
import MmsSvr.Base64
import MmsSvr.Ssl
import MmsSvr.Protocol
import MmsSvr.StateMap
import MmsSvr.Server
import MmsSvr.Lib.DoWhile
import MmsSvr.Lib.Transition
import MmsSvr.Lib.Blocks
import MmsSvr.Lib.Overlay
import MmsSvr.Lib.Fold
import MmsSvr.MmsExec
import MmsSvr.CmdProc
import MmsSvr.Event
import MmsSvr.System
import MmsSvr.Fields
import MmsSvr.ReadBack
import MmsSvr.Framing
import MmsSvr.Envelope
import MmsSvr.DecodeBudget
import MmsSvr.Parsing
import MmsSvr.Malformed
import MmsSvr.Defaults
import MmsSvr.ThreadErrno
import MmsSvr.DecryptBounds
import MmsSvr.RoundTrip
import MmsSvr.JsonTurn
import MmsSvr.Unwrap
import MmsSvr.Termination
import MmsSvr.Handlers
import MmsSvr.IndexAgreement
import MmsSvr.Batching
import MmsSvr.Assertion
import MmsSvr.BufferCut
import MmsSvr.Segmentation
import MmsSvr.Management
import MmsSvr.SendBuffer
import MmsSvr.CrossTalk
import MmsSvr.StaleSession
import MmsSvr.History
import MmsSvr.Playback
import MmsSvr.Logger
import MmsSvr.LoginCheck
import MmsSvr.LoginAnswer
import MmsSvr.Sessions
import MmsSvr.ShellLink
import MmsSvr.OneShell
import MmsSvr.Lib.Mailbox
import MmsSvr.WorkThreads
import MmsSvr.WakeUps
import MmsSvr.ReadLoop
import MmsSvr.LibEvent
import MmsSvr.ConnTable
import MmsSvr.LoopRefines
import MmsSvr.CloseAfterReply
import MmsSvr.Lib.Memory
import MmsSvr.FastBuffer
import MmsSvr.MemStuff
import MmsSvr.StmtItem
import MmsSvr.YYRedis
import MmsSvr.RedisPairing
import MmsSvr.RedisThrottle
import MmsSvr.Lib.Words
import MmsSvr.RedisFormat
import MmsSvr.FailedSend
import MmsSvr.ArmedWrites
import MmsSvr.Base64Bounds
import MmsSvr.Transparency
import MmsSvr.WorkerErrno
import MmsSvr.StackResidue
import MmsSvr.Lib.Parser
import MmsSvr.RedisReader
import MmsSvr.RedisReply
import MmsSvr.ReaderRefines
import MmsSvr.ReplyStream
import MmsSvr.RedisCommand
import MmsSvr.Lib.Buckets
import MmsSvr.Dict
import MmsSvr.CommandKind
import MmsSvr.AsyncOutput
import MmsSvr.AsyncPairing
