import SravzBackend.Lib.Runs
import SravzBackend.Lib.BoundedQueue
import SravzBackend.Lib.OrdSet
import SravzBackend.Lib.EdgeLog
import SravzBackend.Lib.Backlog
import SravzBackend.Lib.Stages
import SravzBackend.Lib.Effects
import SravzBackend.Lib.Pieces
import SravzBackend.Lib.SqlLiterals
import SravzBackend.Lib.OriginForm
import SravzBackend.Lib.HashSwitch
import SravzBackend.Lib.DoWhile
import SravzBackend.Lib.Zlib
import SravzBackend.Lib.ThreadPool
import SravzBackend.Lib.Turns
import SravzBackend.Lib.Rate
import SravzBackend.Text
import SravzBackend.Json
import SravzBackend.Utils
import SravzBackend.CompressData
import SravzBackend.Backoff
import SravzBackend.Redis.Parse
import SravzBackend.Redis.Publish
import SravzBackend.Redis.Pipeline
import SravzBackend.Redis.Upload
import SravzBackend.Redis.Latency
import SravzBackend.WsVendor
import SravzBackend.BackgroundWorkers
import SravzBackend.Web.SharedState
import SravzBackend.Web.Sessions
import SravzBackend.Web.Requests
import SravzBackend.Web.Producers
import SravzBackend.Web.Progress
import SravzBackend.Web.Subscriptions
import SravzBackend.Web.EventStream
import SravzBackend.Web.Publisher
import SravzBackend.Web.Feed
import SravzBackend.Web.WriteQueue
import SravzBackend.Web.Wire
import SravzBackend.Web.Relay
import SravzBackend.Web.HttpSession
import SravzBackend.Web.Responses
import SravzBackend.Web.HttpLifetime
import SravzBackend.Web.Conversation
import SravzBackend.Models
import SravzBackend.Services.World
import SravzBackend.Services.Stores
import SravzBackend.Services.DataProvider
import SravzBackend.Services.Mongo
import SravzBackend.Services.DuckDB
import SravzBackend.Services.S3Select
import SravzBackend.Controllers.Fundamentals
import SravzBackend.Controllers.FundamentalsTurns
import SravzBackend.Controllers.EodTarget
import SravzBackend.Controllers.Passing
import SravzBackend.Router
import SravzBackend.Histories
import SravzBackend.Threads
import SravzBackend.Main
import SravzBackend.Vendor
