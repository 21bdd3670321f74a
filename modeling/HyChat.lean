import HyChat.Lib.Prog
import HyChat.Lib.Shape
import HyChat.Lib.Lts
import HyChat.Lib.Rely
import HyChat.Lib.Cell
import HyChat.Lib.Json
import HyChat.Lib.Sha2
import HyChat.Tracing.SafeJson
import HyChat.Tool.Model
import HyChat.Tool.Service
import HyChat.Tool.Footprint
import HyChat.Tool.Lifecycle
import HyChat.Tool.Invariant
import HyChat.Tool.Statements
import HyChat.Tool.Rules
import HyChat.Tool.Ensure
import HyChat.Tool.Approvals
import HyChat.Tool.Decisions
import HyChat.Tool.Claim
import HyChat.Tool.Sessions
import HyChat.Tool.AtMostOnce
import HyChat.Tool.Gating
import HyChat.Tool.Payload
import HyChat.Tool.Batch
import HyChat.Tool.Isolation
import HyChat.Cache.Digest
import HyChat.Cache.Service
import HyChat.Cache.SingleFlight
import HyChat.Chat.Stream
import HyChat.Chat.ReplyCache
import HyChat.Frontend.RunCancellation
import HyChat.Frontend.AuthAccounts
import HyChat.Admin.Users
import HyChat.Admin.Registration
import HyChat.Rag.Ingest
import HyChat.Rag.Settling
import HyChat.Memory.Extraction
import HyChat.Memory.Forgetting
import HyChat.Memory.Introductions
import HyChat.Rag.Deleted
import HyChat.Rag.SearchCache
import HyChat.Memory.Service
import HyChat.Cache.Carried
import HyChat.Rest.Endpoints
import HyChat.Rest.Answers
import HyChat.Rest.Ownership
import HyChat.Auth.ResetTokens
import HyChat.Auth.TokenVersion
import HyChat.Policies.Quota
import HyChat.Agents.ToolCall
import HyChat.Agents.HumanInTheLoop
import HyChat.Agents.RoundTrip
import HyChat.Agents.ImageFree
import HyChat.Agents.Pairing
import HyChat.Frontend.ThreadList
import HyChat.Frontend.ToolResponses
import HyChat.Memory.Order
import HyChat.Rag.Embeddings
import HyChat.Coding.Import
import HyChat.Coding.Quota
import HyChat.Files.Dangling
import HyChat.Agents.Replay
import HyChat.Agents.OneCall
import HyChat.Frontend.RunReconciler
import HyChat.Frontend.CancelRuns
import HyChat.Lib.Walk
import HyChat.Frontend.StreamErrors
import HyChat.Lib.Js
import HyChat.Frontend.ApprovalForm
import HyChat.Frontend.ImageBlocks
import HyChat.Frontend.FileUpload
import HyChat.Lib.Dict
import HyChat.Tracing.Redaction
import HyChat.Lib.JsonRead
import HyChat.Cache.RoundTrip
import HyChat.Lib.JsonOrder
import HyChat.Chat.CacheKey
import HyChat.Chat.CacheIdentity
import HyChat.Lib.FileTree
import HyChat.Lib.RealPath
import HyChat.Coding.FileTools
import HyChat.Coding.AgentRun
import HyChat.Coding.Progress
import HyChat.Coding.Trail
import HyChat.Coding.RecordedRuns
import HyChat.Lib.Base64
import HyChat.Agents.PdfSizes
import HyChat.Lib.Suite
import HyChat.Chat.ResponseLocks
import HyChat.Lib.FencedCode
import HyChat.Frontend.CodeFence
import HyChat.Lib.Log
import HyChat.Frontend.AutoApproval
import HyChat.Frontend.ThreadActions
import HyChat.Frontend.ReviewRuns
import HyChat.Frontend.AutoApprovalRuns
import HyChat.Agents.ReviewedBatch
import HyChat.Lib.Guarded
import HyChat.Lib.Traced
import HyChat.Chat.ModelCalls
import HyChat.Chat.SharedCache
import HyChat.Lib.EventStream
import HyChat.Lib.JsonLine
import HyChat.Chat.StreamWire
import HyChat.Lib.Calendar
import HyChat.Policies.RateLimit
import HyChat.Agents.Attachments
