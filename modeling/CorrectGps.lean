import CorrectGps.Lib.Trans
import CorrectGps.Lib.Scan
import CorrectGps.Lib.Buf
import CorrectGps.Lib.Fds
import CorrectGps.Lib.CStr
import CorrectGps.Lib.Shelf
import CorrectGps.Lib.Printf
import CorrectGps.Lib.Double
import CorrectGps.Lib.SortedMap
import CorrectGps.Lib.Lines
import CorrectGps.Lib.Bits
import CorrectGps.Lib.EndAround
import CorrectGps.Lib.BlockCopy
import CorrectGps.Lib.Mutex
import CorrectGps.Lib.Edge
import CorrectGps.Tools
import CorrectGps.Config
import CorrectGps.Trim
import CorrectGps.Encoding
import CorrectGps.CXArray
import CorrectGps.Cdbdo
import CorrectGps.CClient
import CorrectGps.CClientReads
import CorrectGps.Copies
import CorrectGps.Log
import CorrectGps.Csender
import CorrectGps.Request
import CorrectGps.CarServer
import CorrectGps.Ccorrectit
import CorrectGps.CclientManager
import CorrectGps.Timeout
import CorrectGps.Server
import CorrectGps.EventLoop
import CorrectGps.Program
import CorrectGps.Locks
import CorrectGps.Watch
import CorrectGps.Session
import CorrectGps.Control
import CorrectGps.Ccfg
import CorrectGps.Cserver
import CorrectGps.Daemon
import CorrectGps.Proofs.Append
import CorrectGps.Proofs.Capacity
import CorrectGps.Proofs.Probe
import CorrectGps.Proofs.Duplicate
import CorrectGps.Proofs.Load
import CorrectGps.Proofs.Correct
import CorrectGps.Proofs.Defective
import CorrectGps.Proofs.Text
import CorrectGps.Proofs.Parse
import CorrectGps.Proofs.Stored
import CorrectGps.Proofs.Split
import CorrectGps.Proofs.Retain
import CorrectGps.Proofs.Log
import CorrectGps.Proofs.Complete
import CorrectGps.Proofs.Key
import CorrectGps.Proofs.Reads
import CorrectGps.Proofs.Feedback
import CorrectGps.Proofs.Answer
import CorrectGps.Proofs.CarServer
import CorrectGps.Proofs.Request
import CorrectGps.Proofs.Wake
import CorrectGps.Proofs.Server
import CorrectGps.Proofs.Pusher
import CorrectGps.Proofs.Forward
import CorrectGps.Proofs.Kill
import CorrectGps.Proofs.EventLoop
import CorrectGps.Proofs.Registered
import CorrectGps.Proofs.Closes
import CorrectGps.Proofs.Limit
import CorrectGps.Proofs.Config
import CorrectGps.Proofs.Framing
import CorrectGps.Proofs.Trim
import CorrectGps.Proofs.Timeout
import CorrectGps.Proofs.Copies
import CorrectGps.Proofs.Wire
import CorrectGps.Proofs.Utf8
import CorrectGps.Proofs.Checksum
import CorrectGps.Proofs.Locks
import CorrectGps.Proofs.Sections
import CorrectGps.Proofs.Shutdown
import CorrectGps.Proofs.Covered
import CorrectGps.Proofs.Watch
import CorrectGps.Proofs.Session
import CorrectGps.Proofs.Replies
import CorrectGps.Proofs.Program
import CorrectGps.Proofs.Refine
import CorrectGps.Proofs.Isolation
import CorrectGps.Proofs.Backlog
import CorrectGps.Proofs.Paging
import CorrectGps.Proofs.Control
import CorrectGps.Proofs.Settings
import CorrectGps.Proofs.Listener
import CorrectGps.Proofs.Daemon
