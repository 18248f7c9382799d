import Uvfs.Lib.Run
import Uvfs.Lib.Fair
import Uvfs.Lib.Bytes
import Uvfs.Lib.Width
import Uvfs.Lib.Struct
import Uvfs.Lib.Blind
import Uvfs.Lib.Table
import Uvfs.Lib.DirTree
import Uvfs.Lib.Board
import Uvfs.Lib.Cursor
import Uvfs.Lib.Dialogue
import Uvfs.Lib.Session
import Uvfs.Lib.Linear
import Uvfs.Protocol
import Uvfs.Driver.State
import Uvfs.Driver.Step
import Uvfs.Driver.Effect
import Uvfs.Driver.Files
import Uvfs.Driver.Queues
import Uvfs.Driver.Calls
import Uvfs.Driver.Frame
import Uvfs.Driver.Flags
import Uvfs.Driver.Server
import Uvfs.Driver.Lifetime
import Uvfs.Driver.Sleepers
import Uvfs.Driver.Discipline
import Uvfs.Driver.Exit
import Uvfs.Driver.Progress
import Uvfs.Driver.Delivery
import Uvfs.Driver.Intact
import Uvfs.Driver.Outcomes
import Uvfs.Driver.Tail
import Uvfs.Driver.Serials
import Uvfs.Driver.Wakeups
import Uvfs.Driver.Replies
import Uvfs.Driver.Errors
import Uvfs.Vfs.Inode
import Uvfs.Vfs.Page
import Uvfs.Vfs.Tiling
import Uvfs.Vfs.Positions
import Uvfs.Vfs.PageLock
import Uvfs.Vfs.WriteError
import Uvfs.Vfs.Revalidate
import Uvfs.Vfs.Coherence
import Uvfs.Vfs.ShortCopy
import Uvfs.Vfs.Request
import Uvfs.Vfs.Encoding
import Uvfs.Vfs.Cache
import Uvfs.Vfs.Dentry
import Uvfs.Vfs.Export
import Uvfs.Vfs.Decoders
import Uvfs.Vfs.Operations
import Uvfs.Vfs.Lookup
import Uvfs.Vfs.Attributes
import Uvfs.Vfs.RoundTrip
import Uvfs.Vfs.Bounds
import Uvfs.Vfs.Readdir
import Uvfs.Vfs.Changing
import Uvfs.Vfs.InodeNumbers
import Uvfs.Vfs.Links
import Uvfs.Vfs.Stale
import Uvfs.Vfs.SelfContained
import Uvfs.Vfs.Freshness
import Uvfs.Vfs.Names
import Uvfs.Vfs.Parents
import Uvfs.Vfs.OverDriver
import Uvfs.Vfs.Ends
import Uvfs.Vfs.Remote
