import HFile.Library.Program
import HFile.Library.CString
import HFile.Library.Decimal
import HFile.Library.HttpFormat
import HFile.Library.Utf8
import HFile.Library.Json
import HFile.Library.JsonValue
import HFile.Library.Percent
import HFile.Library.EventStream
import HFile.Library.Stream
import HFile.Library.Pool
import HFile.Library.Discipline
import HFile.Library.Monitor
import HFile.Library.Path
import HFile.Library.Split
import HFile.Library.Chain
import HFile.System.Syscall
import HFile.System.Files
import HFile.System.Wp
import HFile.Source.Net
import HFile.Source.Fs
import HFile.Source.Protocol
import HFile.Source.MessageStore
import HFile.Source.MessageLocks
import HFile.Source.TransferIo
import HFile.Source.AppService
import HFile.Source.Server
import HFile.Source.HttpText
import HFile.Source.HttpCursor
import HFile.Source.Http
import HFile.Source.Client
import HFile.Source.Cli
import HFile.Source.DaemonState
import HFile.Source.Daemon
import HFile.Source.StateWatcher
import HFile.Source.ConnTracker
import HFile.Source.Connections
import HFile.Theorems.Net
import HFile.Theorems.Codec
import HFile.Theorems.FileBody
import HFile.Theorems.Files
import HFile.Theorems.Transfer
import HFile.Theorems.Protocol
import HFile.Theorems.AllOrNothing
import HFile.Theorems.Upload
import HFile.Theorems.Download
import HFile.Theorems.ZeroCopy
import HFile.Theorems.Server
import HFile.Theorems.Sizes
import HFile.Theorems.Names
import HFile.Theorems.Replies
import HFile.Theorems.Client
import HFile.Theorems.Validators
import HFile.Theorems.Sessions
import HFile.Theorems.Fetch
import HFile.Theorems.Integrity
import HFile.Theorems.Store
import HFile.Theorems.Ownership
import HFile.Theorems.Linear
import HFile.Theorems.Paths
import HFile.Theorems.Closed
import HFile.Theorems.Touches
import HFile.Theorems.Confinement
import HFile.Theorems.Cli
import HFile.Theorems.ConnTracker
import HFile.Theorems.Connections
import HFile.Theorems.Daemon
import HFile.Theorems.Numerals
import HFile.Theorems.DaemonState
import HFile.Theorems.StateWatcher
import HFile.Theorems.Http
import HFile.Theorems.Streams
import HFile.Theorems.Wire
import HFile.Theorems.HttpRequest
import HFile.Theorems.Lengths
import HFile.Theorems.HttpUpload
import HFile.Theorems.HttpDownload
import HFile.Theorems.Json
import HFile.Theorems.JsonGrammar
import HFile.Theorems.Listing
import HFile.Theorems.Percent
import HFile.Theorems.Links
import HFile.Theorems.Query
import HFile.Theorems.HttpCursor
import HFile.Theorems.Messages
import HFile.Theorems.Trimming
import HFile.Theorems.EventStream
import HFile.Theorems.LinkedFiles
import HFile.Theorems.Symlinks
import HFile.Theorems.Unfailing
import HFile.Theorems.Retrieval
import HFile.Theorems.Segmentation
import HFile.Theorems.OpenFiles
import HFile.Theorems.Descriptors
import HFile.Theorems.Silent
import HFile.Theorems.HttpReplies
import HFile.Theorems.MessageLocks
import HFile.Theorems.Received
import HFile.Theorems.Changes
