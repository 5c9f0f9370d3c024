import YtWebsub.Base.Text
import YtWebsub.Base.Num
import YtWebsub.Base.FileSystem
import YtWebsub.Base.Machine
import YtWebsub.Base.Paging
import YtWebsub.Base.Recent
import YtWebsub.Base.Rewrite
import YtWebsub.Base.Markup
import YtWebsub.Base.Slice
import YtWebsub.Base.Form
import YtWebsub.Util
import YtWebsub.Config
import YtWebsub.Config.Written
import YtWebsub.Base.Monitor
import YtWebsub.TinyHttp.MessagesQueue
import YtWebsub.TinyHttp.TaskPool
import YtWebsub.TinyHttp.Connection
import YtWebsub.TinyHttp.Client
import YtWebsub.TinyHttp.Framing
import YtWebsub.TinyHttp.Response
import YtWebsub.Store.Event
import YtWebsub.Store.Model
import YtWebsub.Store.Log
import YtWebsub.Store.Operations
import YtWebsub.Store.Durability
import YtWebsub.Store.Compaction
import YtWebsub.Store.Delivery
import YtWebsub.Store.Sequence
import YtWebsub.Store.Restart
import YtWebsub.Store.Tearing
import YtWebsub.Store.Horizon
import YtWebsub.Store.Cursor
import YtWebsub.Store.Window
import YtWebsub.Store.Faults
import YtWebsub.Store.Dedup
import YtWebsub.Store.Arithmetic
import YtWebsub.Base.HashMap
import YtWebsub.Subs
import YtWebsub.Sig
import YtWebsub.Atom.Entities
import YtWebsub.Atom.Feed
import YtWebsub.Atom.Slices
import YtWebsub.Callback
import YtWebsub.Callback.Query
import YtWebsub.Callback.Notification
import YtWebsub.Store.Residue
import YtWebsub.Callback.Storing
import YtWebsub.Callback.Isolation
import YtWebsub.Callback.Attribution
import YtWebsub.Api
import YtWebsub.Api.ChannelsFile
import YtWebsub.Renew
import YtWebsub.Base.Url
import YtWebsub.Resolve.Allowlist
import YtWebsub.Resolve.Markers
import YtWebsub.Renew.Cache
import YtWebsub.Base.Json
import YtWebsub.Base.JsonReader
import YtWebsub.Api.RoundTrip
import YtWebsub.Api.Decoder
import YtWebsub.Api.Emission
import YtWebsub.Server
import YtWebsub.App
import YtWebsub.App.Effect
import YtWebsub.App.Poller
import YtWebsub.App.Delivery
import YtWebsub.App.Answer
import YtWebsub.App.Outsiders
import YtWebsub.Server.Effect
import YtWebsub.Server.History
import YtWebsub.Server.Reconcile
import YtWebsub.Server.Retry
import YtWebsub.Server.Tracking
import YtWebsub.Server.Confirmation
import YtWebsub.Server.Resend
import YtWebsub.Server.Cooldown
import YtWebsub.Server.Submission
import YtWebsub.Server.Diff
