import ReadThrough.Cache.Basic
import ReadThrough.Cache.Scalar
import ReadThrough.Cache.View
import ReadThrough.Cluster.Script
import ReadThrough.Error
import ReadThrough.Invalidation.Message
import ReadThrough.Metrics
import ReadThrough.Newsroom.Cluster
import ReadThrough.Newsroom.Tables
import ReadThrough.Paging.Cursor
import ReadThrough.Proofs.Service.Basic
import ReadThrough.Query.Request
import ReadThrough.Query.Selection
import ReadThrough.Random.Source
import ReadThrough.Settings.Load
import ReadThrough.Sql.Channel
import ReadThrough.Store.Table
import ReadThrough.Proofs.Service.Run
import ReadThrough.Proofs.Service.Sources
import ReadThrough.Proofs.Invalidation.Bus
import ReadThrough.Proofs.Invalidation.Remote
import ReadThrough.Proofs.Store.Table
import ReadThrough.Proofs.Fleet.Basic
import ReadThrough.Proofs.Fleet.Run
import ReadThrough.Proofs.Service.Batches
import ReadThrough.Proofs.Service.Joining
import ReadThrough.Proofs.Service.Fairness
import ReadThrough.Proofs.Service.Batching
import ReadThrough.Proofs.Fleet.Freshness
import ReadThrough.Proofs.Loader.Waiting
import ReadThrough.Proofs.Service.Outstanding
import ReadThrough.Proofs.Cache.Agreement
import ReadThrough.Proofs.Service.Working
import ReadThrough.Proofs.Service.Loading
import ReadThrough.Proofs.Desk.Basic
import ReadThrough.Proofs.Desk.Carrying
import ReadThrough.Proofs.Desk.Engine
import ReadThrough.Proofs.Desk.Transparency
import ReadThrough.Proofs.Cache.Guard
import ReadThrough.Proofs.Cache.Size
import ReadThrough.Proofs.Cache.Expiry
import ReadThrough.Proofs.Sql.Listening
import ReadThrough.Proofs.Desk.Deeds
import ReadThrough.Proofs.Desk.Page
import ReadThrough.Proofs.Desk.Walk
import ReadThrough.Proofs.Desk.WholeWalk
import ReadThrough.Proofs.Sql.Select
import ReadThrough.Proofs.Sql.Inquiry
import ReadThrough.Proofs.Desk.Outcome
import ReadThrough.Proofs.Desk.Refusal
import ReadThrough.Proofs.Service.Staleness
import ReadThrough.Proofs.Service.Sparing
import ReadThrough.Proofs.Service.Overtaken
import ReadThrough.Proofs.Tenancy.Isolation
import ReadThrough.Proofs.Sql.Meaning
import ReadThrough.Proofs.Sql.Mirror
import ReadThrough.Proofs.Sql.Reading
import ReadThrough.Proofs.Sql.Agreement
import ReadThrough.Proofs.Desk.Numbered
import ReadThrough.Proofs.Desk.Roll
import ReadThrough.Proofs.Random.Shuffle
import ReadThrough.Proofs.Desk.Sample
import ReadThrough.Proofs.Desk.NextPage
import ReadThrough.Proofs.Query.Trace
import ReadThrough.Proofs.Query.Admissible
import ReadThrough.Proofs.Service.Chunks
import ReadThrough.Proofs.Service.Positions
import ReadThrough.Proofs.Paging.Codec
import ReadThrough.Proofs.Service.Mapping
import ReadThrough.Proofs.Service.Failing
import ReadThrough.Proofs.Store.Announcing
import ReadThrough.Proofs.Invalidation.Message
import ReadThrough.Proofs.Query.Descriptor
import ReadThrough.Proofs.Query.MixedPage
import ReadThrough.Proofs.Settings.Validation
import ReadThrough.Proofs.Query.Canonical
