import MarkitdownServer.Lib.Concurrent
import MarkitdownServer.Lib.Contention
import MarkitdownServer.Lib.Driver
import MarkitdownServer.Lib.Files
import MarkitdownServer.Lib.Hoare
import MarkitdownServer.Lib.Json
import MarkitdownServer.Lib.Outcome
import MarkitdownServer.Lib.Program
import MarkitdownServer.Lib.Run
import MarkitdownServer.Lib.Table
import MarkitdownServer.Machine.Clients
import MarkitdownServer.Machine.Endpoints
import MarkitdownServer.Machine.Fleet
import MarkitdownServer.Machine.Handler
import MarkitdownServer.Machine.Producer
import MarkitdownServer.Model.Api
import MarkitdownServer.Model.Chunker
import MarkitdownServer.Model.Cluster
import MarkitdownServer.Model.Config
import MarkitdownServer.Model.Connection
import MarkitdownServer.Model.Consumer
import MarkitdownServer.Model.Conversion
import MarkitdownServer.Model.Converter
import MarkitdownServer.Model.Db
import MarkitdownServer.Model.Deployment
import MarkitdownServer.Model.Disk
import MarkitdownServer.Model.Endpoints
import MarkitdownServer.Model.Insertion
import MarkitdownServer.Model.Jobstore
import MarkitdownServer.Model.Migrations
import MarkitdownServer.Model.Pagination
import MarkitdownServer.Model.Services
import MarkitdownServer.Model.SourceCache
import MarkitdownServer.Model.Sql
import MarkitdownServer.Model.Startup
import MarkitdownServer.Model.Storage
import MarkitdownServer.Model.Taskqueue
import MarkitdownServer.Model.Text
import MarkitdownServer.Model.Url
import MarkitdownServer.Model.Wire
import MarkitdownServer.Model.Worker
import MarkitdownServer.Proofs.Acknowledgement
import MarkitdownServer.Proofs.Assembler
import MarkitdownServer.Proofs.Attempts
import MarkitdownServer.Proofs.Availability
import MarkitdownServer.Proofs.Backing
import MarkitdownServer.Proofs.Calm
import MarkitdownServer.Proofs.Cleanup
import MarkitdownServer.Proofs.Connection
import MarkitdownServer.Proofs.Consumption
import MarkitdownServer.Proofs.Conversion
import MarkitdownServer.Proofs.Counter
import MarkitdownServer.Proofs.Custody
import MarkitdownServer.Proofs.Document
import MarkitdownServer.Proofs.Download
import MarkitdownServer.Proofs.Drain
import MarkitdownServer.Proofs.Durability
import MarkitdownServer.Proofs.Eviction
import MarkitdownServer.Proofs.Exhaustion
import MarkitdownServer.Proofs.Fetching
import MarkitdownServer.Proofs.JobTable
import MarkitdownServer.Proofs.Keys
import MarkitdownServer.Proofs.Layout
import MarkitdownServer.Proofs.Ledger
import MarkitdownServer.Proofs.Lifecycle
import MarkitdownServer.Proofs.Linearization
import MarkitdownServer.Proofs.Outlook
import MarkitdownServer.Proofs.PageWalk
import MarkitdownServer.Proofs.Progress
import MarkitdownServer.Proofs.Publication
import MarkitdownServer.Proofs.Publishing
import MarkitdownServer.Proofs.Ranges
import MarkitdownServer.Proofs.Readiness
import MarkitdownServer.Proofs.Redelivery
import MarkitdownServer.Proofs.Reflection
import MarkitdownServer.Proofs.Retry
import MarkitdownServer.Proofs.Serving
import MarkitdownServer.Proofs.Splitter
import MarkitdownServer.Proofs.Startup
import MarkitdownServer.Proofs.Submission
import MarkitdownServer.Proofs.Tally
import MarkitdownServer.Proofs.Tearing
import MarkitdownServer.Proofs.Topology
import MarkitdownServer.Proofs.Undisturbed
import MarkitdownServer.Proofs.Wire
