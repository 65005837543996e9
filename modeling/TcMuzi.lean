import TcMuzi.Api.Account
import TcMuzi.Api.Common
import TcMuzi.Api.DealSharefile
import TcMuzi.Api.Dealfile
import TcMuzi.Api.Md5
import TcMuzi.Base.Int32
import TcMuzi.Base.CString
import TcMuzi.Base.Json
import TcMuzi.Base.TcCommon
import TcMuzi.Lib.Decimal
import TcMuzi.Lib.Interleaving
import TcMuzi.Lib.Program
import TcMuzi.Lib.Table
import TcMuzi.Mysql.Statement
import TcMuzi.Mysql.Tables
import TcMuzi.Redis.CacheConn
import TcMuzi.Redis.Store
import TcMuzi.Server.Command
import TcMuzi.Api.Upload
import TcMuzi.Api.Myfiles
import TcMuzi.Api.SharePicture
import TcMuzi.Server.Sequential
import TcMuzi.Api.Sequential
import TcMuzi.Files.RefCount
import TcMuzi.Redis.Sequential
import TcMuzi.Files.Effects
import TcMuzi.Files.ShareFrame
import TcMuzi.Files.ShareMirror
import TcMuzi.Lib.Monitor
import TcMuzi.Pool.ConnPool
import TcMuzi.Pool.PoolSafe
import TcMuzi.Api.Uses
import TcMuzi.Pool.Nesting
import TcMuzi.Pool.Deadlock
import TcMuzi.Session.Failures
import TcMuzi.Session.Tokens
import TcMuzi.Session.Verify
import TcMuzi.Files.Concurrent
import TcMuzi.Files.InstantUpload
import TcMuzi.Files.InstantCounted
import TcMuzi.Files.SharePv
import TcMuzi.Files.DownloadCounts
import TcMuzi.Files.InstantFailures
import TcMuzi.Files.ShareCount
import TcMuzi.Files.ShareOnce
import TcMuzi.Files.MirrorRace
import TcMuzi.Session.TokenChecks
import TcMuzi.Base.JsonWriter
import TcMuzi.Base.StyledWriter
import TcMuzi.Http.Response
import TcMuzi.Http.Parser
import TcMuzi.Http.OnRead
import TcMuzi.Server.SingleFault
import TcMuzi.Files.WriteFailures
import TcMuzi.Lib.SqlText
import TcMuzi.Mysql.Format
import TcMuzi.Api.SqlText
import TcMuzi.Files.CountRace
import TcMuzi.Session.KeySpace
import TcMuzi.Files.Blobs
import TcMuzi.Api.UploadProcesses
import TcMuzi.Pool.OpenTransactions
import TcMuzi.Replies.Dealfile
import TcMuzi.Server.Patterns
import TcMuzi.Replies.Dealsharefile
import TcMuzi.Replies.Register
import TcMuzi.Server.Nulls
import TcMuzi.Replies.NullUse
import TcMuzi.Replies.Handlers
import TcMuzi.Replies.Endings
import TcMuzi.Base.Util
import TcMuzi.Api.Query
import TcMuzi.Api.Multipart
import TcMuzi.Api.RoundTrip
import TcMuzi.Redis.Connect
import TcMuzi.Http.Headers
import TcMuzi.Redis.Answers
import TcMuzi.Files.CacheRepair
import TcMuzi.Files.RankingPages
import TcMuzi.Base.Scans
import TcMuzi.Base.IdUrl
import TcMuzi.Base.MemFind
import TcMuzi.Base.Url
import TcMuzi.Lib.BigEndian
import TcMuzi.Pdu.ByteStream
import TcMuzi.Pdu.RoundTrip
import TcMuzi.Pdu.Bounds
import TcMuzi.Config.Reader
import TcMuzi.Config.RoundTrip
import TcMuzi.Redis.Hiredis
import TcMuzi.Redis.MGet
import TcMuzi.Api.Buffers
import TcMuzi.Api.BufferBounds
import TcMuzi.Api.BufferSafety
import TcMuzi.Base.ReplaceMark
import TcMuzi.Pdu.SimpleBuffer
import TcMuzi.Base.TrimSpace
import TcMuzi.Pool.ThreadPool
import TcMuzi.Lib.Consumer
import TcMuzi.Http.StateMachine
import TcMuzi.Http.Execute
import TcMuzi.Http.Sound
import TcMuzi.Http.Events
import TcMuzi.Http.Agreement
import TcMuzi.Http.ParserRuns
import TcMuzi.Http.Names
import TcMuzi.Http.Methods
import TcMuzi.Http.WellFormed
import TcMuzi.Http.Served
import TcMuzi.Http.Chunked
import TcMuzi.Lib.SortedMap
import TcMuzi.Lib.Numerals
import TcMuzi.Base.JsonReader
import TcMuzi.Base.JsonText
import TcMuzi.Base.JsonRuns
import TcMuzi.Base.JsonProgress
import TcMuzi.Base.JsonRoundTrip
import TcMuzi.Http.LoginServed
import TcMuzi.Lib.Reassembly
import TcMuzi.Redis.Read
import TcMuzi.Redis.ReadSteps
import TcMuzi.Redis.ReaderRuns
import TcMuzi.Redis.Context
import TcMuzi.Redis.Protocol
import TcMuzi.Redis.Commands
import TcMuzi.Redis.ReaderStack
