import Stutter.Advertised
import Stutter.Alike
import Stutter.Bodiless
import Stutter.Body
import Stutter.Buffering
import Stutter.Bytes
import Stutter.Callbacks
import Stutter.Client
import Stutter.Closing
import Stutter.Connection
import Stutter.Conversation
import Stutter.Copies
import Stutter.Damage
import Stutter.Decimal
import Stutter.EventLoop
import Stutter.Exchange
import Stutter.Expecting
import Stutter.Finished
import Stutter.Forwarding
import Stutter.Found
import Stutter.Fragments
import Stutter.Framed
import Stutter.Heads
import Stutter.Incoming
import Stutter.Interim
import Stutter.Joyent.Asserts
import Stutter.Joyent.Body
import Stutter.Joyent.Bytewise
import Stutter.Joyent.Chars
import Stutter.Joyent.Content
import Stutter.Joyent.Cuts
import Stutter.Joyent.Entity
import Stutter.Joyent.Execute
import Stutter.Joyent.Feed
import Stutter.Joyent.Ghost
import Stutter.Joyent.Head
import Stutter.Joyent.HeadLine
import Stutter.Joyent.Keeps
import Stutter.Joyent.Keyword
import Stutter.Joyent.Line
import Stutter.Joyent.Marks
import Stutter.Joyent.Moves
import Stutter.Joyent.Plain
import Stutter.Joyent.Recut
import Stutter.Joyent.Related
import Stutter.Joyent.Sound
import Stutter.Joyent.StartLine
import Stutter.Joyent.StatusLine
import Stutter.Joyent.Stops
import Stutter.Joyent.Stride
import Stutter.Joyent.Trailer
import Stutter.Joyent.Types
import Stutter.Joyent.Upgrade
import Stutter.Joyent.Wire
import Stutter.Lib.SortedMap
import Stutter.Lib.Steps
import Stutter.Lifecycle
import Stutter.Message
import Stutter.Outgoing
import Stutter.Pool
import Stutter.Posix
import Stutter.Process
import Stutter.QueryString
import Stutter.Reads
import Stutter.Relay
import Stutter.Replies
import Stutter.Reply
import Stutter.Request
import Stutter.Resending
import Stutter.Responses
import Stutter.Returning
import Stutter.Reuse
import Stutter.Roundtrip
import Stutter.Routing
import Stutter.Sendfile
import Stutter.Sending
import Stutter.Serving
import Stutter.Session
import Stutter.SetFile
import Stutter.Sharing
import Stutter.Storage
import Stutter.Stored
import Stutter.Strategy
import Stutter.Surplus
import Stutter.Switching
import Stutter.Talks
import Stutter.Temporary
import Stutter.Trailers
import Stutter.Unread
import Stutter.Untouched
import Stutter.Uploads
import Stutter.Violations
import Stutter.Watch
import Stutter.WriteLoops
import Stutter.Written
