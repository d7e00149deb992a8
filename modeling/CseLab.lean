import CseLab.Lib.Transition
import CseLab.FileSystem.Isolation
import CseLab.FileSystem.Ownership
import CseLab.FileSystem.Marks
import CseLab.FileSystem.OwnBits
import CseLab.FileSystem.Released
import CseLab.FileSystem.Exhaustion
import CseLab.FileSystem.Uninitialised
import CseLab.FileSystem.ConcurrentPut
import CseLab.FileSystem.Undisturbed
import CseLab.FileSystem.FileBounds
import CseLab.FileSystem.InodeNumbers
import CseLab.Rpc.RoundTrip
import CseLab.Rpc.DecodeBounds
import CseLab.Rpc.DecodeTarget
import CseLab.Rpc.Framing
import CseLab.Rpc.PduBuffer
import CseLab.Rpc.Freshness
import CseLab.Rpc.Reconnect
import CseLab.Rpc.PendingCalls
import CseLab.Rpc.References
import CseLab.Rpc.ReplyRoute
import CseLab.Rpc.Overload
import CseLab.Rpc.RetryLoop
import CseLab.Rpc.EPoll
import CseLab.Rpc.MarshallBounds
import CseLab.Rpc.ReplyBuffers
import CseLab.Rpc.BlockRemove
import CseLab.Rpc.RemoteStore
import CseLab.Rpc.WakePipe
import CseLab.Rpc.SendWake
import CseLab.Rpc.Shutdown
import CseLab.Rpc.Refconn
import CseLab.Rpc.PoolOrder
import CseLab.Rpc.Trimmed
import CseLab.Rpc.WriteCallback
