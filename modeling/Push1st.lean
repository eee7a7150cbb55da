import Push1st.Library.ByteText
import Push1st.Library.Cursor
import Push1st.Library.KeyMap
import Push1st.Library.Radix64
import Push1st.Library.Runs
import Push1st.Library.Json
import Push1st.Library.JsonText
import Push1st.Library.Endian
import Push1st.Library.Utf8
import Push1st.Library.Tally
import Push1st.Library.Fields
import Push1st.Library.Multimap
import Push1st.Http.Parse
import Push1st.Http.Connection
import Push1st.Http.ReadBounds
import Push1st.Http.RoundTrip
import Push1st.Http.Segmentation
import Push1st.Http.Chunked
import Push1st.Http.Response
import Push1st.Http.ResponseRead
import Push1st.Http.WatchTexts
import Push1st.Http.WatchStream
import Push1st.Http.WatchMarks
import Push1st.Http.ChunkSizes
import Push1st.Http.FirstObject
import Push1st.Http.WebSocket
import Push1st.Http.WsReceive
import Push1st.Http.Fragments
import Push1st.Http.Base64
import Push1st.Http.Router
import Push1st.Http.UriParts
import Push1st.Http.ApiRoutes
import Push1st.Inet.Transfer
import Push1st.Credentials.Application
import Push1st.Credentials.AccessToken
import Push1st.Credentials.TokenScope
import Push1st.Credentials.SessionToken
import Push1st.Credentials.DigestMatch
import Push1st.Credentials.Registry
import Push1st.Channels.Hub
import Push1st.Channels.Interleaving
import Push1st.Channels.Listing
import Push1st.Channels.Message
import Push1st.Channels.Contention
import Push1st.Broker.World
import Push1st.Broker.Push
import Push1st.Broker.Delivery
import Push1st.Broker.PushTexts
import Push1st.Broker.Sessions
import Push1st.Broker.Steps
import Push1st.Broker.Authorization
import Push1st.Broker.Closing
import Push1st.Broker.Faults
import Push1st.Broker.Publish
import Push1st.Broker.PushTypes
import Push1st.Broker.Collect
import Push1st.Broker.Identity
import Push1st.Broker.Presence
import Push1st.Broker.PresenceView
import Push1st.Broker.Ledger
import Push1st.Broker.Audit
import Push1st.Broker.Accounting
import Push1st.Broker.JoinReply
import Push1st.Broker.SessionIds
import Push1st.Broker.Upgrading
import Push1st.Broker.AllOrNothing
import Push1st.Cluster.Datagrams
import Push1st.Cluster.Peers
import Push1st.Cluster.Addressing
import Push1st.Cluster.Expiry
import Push1st.Cluster.Handlers
import Push1st.Cluster.Propagation
import Push1st.Smpp.Pdu
import Push1st.Smpp.Report
import Push1st.Smpp.Gateway
import Push1st.Smpp.Tables
import Push1st.Smpp.Service
import Push1st.Smpp.Replies
import Push1st.Smpp.Request
import Push1st.Smpp.Retransmission
import Push1st.Smpp.Correlation
import Push1st.Smpp.Custody
import Push1st.Smpp.Submit
import Push1st.Smpp.Concatenation
import Push1st.Smpp.Framing
import Push1st.Smpp.Truncation
import Push1st.Smpp.ReceiptText
import Push1st.Smpp.RateLimiter
import Push1st.Cluster.Watch
import Push1st.Cluster.WatchConnection
import Push1st.Smpp.RateQueue
import Push1st.Core.Spinlock
import Push1st.Core.AsyncQueue
import Push1st.Inet.Handles
import Push1st.Cluster.Upkeep
import Push1st.Cluster.Silence
import Push1st.Inet.Poll
import Push1st.Library.Watchdog
import Push1st.Smpp.KeepAlive
import Push1st.Cluster.Broadcast
import Push1st.Http.ResponseText
import Push1st.Http.WatchBreaks
import Push1st.Broker.ApiServer
import Push1st.Broker.Activity
import Push1st.Library.Pattern
import Push1st.Core.Dsn
import Push1st.Core.HookQueue
