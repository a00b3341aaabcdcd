import BaseWebService.Library.Run
import BaseWebService.CircuitBreaker.Recovery
import BaseWebService.RateLimit.Window
import BaseWebService.RateLimit.Identity
import BaseWebService.RateLimit.Enforced
import BaseWebService.Logging.Agreement
import BaseWebService.Logging.RequestLog
import BaseWebService.Idempotency.Release
import BaseWebService.Middleware.SizeFilter
import BaseWebService.Middleware.LogRequest
import BaseWebService.Database.Callbacks
import BaseWebService.Database.Dependencies
import BaseWebService.Database.Routing
import BaseWebService.Middleware.Response
import BaseWebService.CircuitBreaker.Liveness
import BaseWebService.Connector.Basic
import BaseWebService.Connector.Outcomes
import BaseWebService.CircuitBreaker.AdmissionRate
import BaseWebService.CircuitBreaker.FailureCount
import BaseWebService.RateLimit.Promises
import BaseWebService.RateLimit.Reset
import BaseWebService.RateLimit.Quota
import BaseWebService.RateLimit.Forwarded
import BaseWebService.Database.Ambient
import BaseWebService.Logging.Markers
import BaseWebService.Logging.Serialize
import BaseWebService.Logging.Graph
import BaseWebService.Logging.Recursion
import BaseWebService.Logging.NormalForm
import BaseWebService.Logging.KeySpelling
import BaseWebService.Logging.Truncation
import BaseWebService.Logging.Heap
import BaseWebService.Logging.Termination
import BaseWebService.Logging.HeapGraph
import BaseWebService.Middleware.RecordSize
import BaseWebService.Library.PyNumber
import BaseWebService.Library.PyReplace
import BaseWebService.Utils.Uuid
import BaseWebService.Utils.DbUuid
import BaseWebService.Library.Calendar
import BaseWebService.Library.PyDatetime
import BaseWebService.Models.DatetimeHelper
import BaseWebService.Library.Substitution
import BaseWebService.Database.SqlLog
import BaseWebService.Middleware.Extractors
import BaseWebService.Storage.S3FileUploader
import BaseWebService.Tools.PdfTool
import BaseWebService.Library.EventLoop
import BaseWebService.SystemLog.Mongo
import BaseWebService.SystemLog.Epochs
import BaseWebService.Library.PyRegex
import BaseWebService.Library.PyTemplate
import BaseWebService.Proto.FixProtoImports
import BaseWebService.Proto.Lines
import BaseWebService.Proto.Growth
import BaseWebService.Proto.Reruns
import BaseWebService.Proto.Files
import BaseWebService.Proto.Packages
import BaseWebService.Library.Discipline
import BaseWebService.Library.AsyncSemaphore
import BaseWebService.Connector.Concurrency
import BaseWebService.Connector.Permits
import BaseWebService.Connector.HttpClientManager
import BaseWebService.Library.Processes
import BaseWebService.Celery.Isolation
import BaseWebService.Middleware.LogTasks
import BaseWebService.Grpc.Shutdown
import BaseWebService.CircuitBreaker.Instances
