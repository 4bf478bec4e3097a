import RulesEnrichment.Lib.Machine
import RulesEnrichment.Lib.StableSort
import RulesEnrichment.Lib.KeyedTable
import RulesEnrichment.Lib.UnitOfWork
import RulesEnrichment.Lib.PyVal
import RulesEnrichment.Lib.JsonObject
import RulesEnrichment.Model.Basic
import RulesEnrichment.Model.Entities
import RulesEnrichment.Model.Specification
import RulesEnrichment.Model.RuleEngine
import RulesEnrichment.Model.Store
import RulesEnrichment.Model.UseCases
import RulesEnrichment.Effects
import RulesEnrichment.ProcessStep
import RulesEnrichment.Model.Facade
import RulesEnrichment.Cursor
import RulesEnrichment.DeadLetter
import RulesEnrichment.Outbox
import RulesEnrichment.Records
import RulesEnrichment.Failures
import RulesEnrichment.Idempotency
import RulesEnrichment.Determinism
import RulesEnrichment.Scope
import RulesEnrichment.Attempts
import RulesEnrichment.Hash
import RulesEnrichment.Submissions
import RulesEnrichment.Cache
import RulesEnrichment.Columns
import RulesEnrichment.Lib.Interleaving
import RulesEnrichment.Publishers
import RulesEnrichment.Daemons
import RulesEnrichment.Batch
import RulesEnrichment.Lib.Fallible
import RulesEnrichment.Model.IsoFormat
import RulesEnrichment.Model.OrderDecoder
import RulesEnrichment.Decoding
import RulesEnrichment.RoundTrip
import RulesEnrichment.PublishCycle
import RulesEnrichment.OutboxTruth
import RulesEnrichment.Staleness
import RulesEnrichment.ConflictResolution
import RulesEnrichment.Upsert
import RulesEnrichment.Prefilter
import RulesEnrichment.RetryPolicy
import RulesEnrichment.RuleDefinitions
import RulesEnrichment.EventOrder
import RulesEnrichment.Lib.JsonReading
import RulesEnrichment.HashContent
import RulesEnrichment.FieldPaths
import RulesEnrichment.Lib.Url
import RulesEnrichment.OrderUrl
import RulesEnrichment.SchemaAdditions
import RulesEnrichment.WrittenTimes
import RulesEnrichment.Administration
import RulesEnrichment.Backlog
import RulesEnrichment.Deployment
import RulesEnrichment.PollQuery
import RulesEnrichment.Prescribed
import RulesEnrichment.Requests
import RulesEnrichment.Webhook
import RulesEnrichment.Wire
import RulesEnrichment.Fleet
import RulesEnrichment.FleetDeliveries
import RulesEnrichment.FleetDuties
