import DocWatch.Batch
import DocWatch.Session
import DocWatch.Settings.File
import DocWatch.Store
import DocWatch.Mutation.Apply
import DocWatch.Filter.Compile
import DocWatch.Filter.Match
import DocWatch.Filter.Seed
import DocWatch.Json.Reader
import DocWatch.Mutation.Resolve
import DocWatch.Update.Apply
import DocWatch.Update.Attribution
import DocWatch.Update.Parse
import DocWatch.Proofs.Identity
import DocWatch.Proofs.Store.Write
import DocWatch.Proofs.Store.Keyed
import DocWatch.Proofs.DeliveryQueue
import DocWatch.Proofs.Query
import DocWatch.Proofs.Subscription
import DocWatch.Proofs.Dispatch
import DocWatch.Proofs.Json.Text
import DocWatch.Proofs.Signature
import DocWatch.Proofs.Action
import DocWatch.Proofs.Store.Shift
import DocWatch.Proofs.Database.Write
import DocWatch.Proofs.Mutation.Apply
import DocWatch.Proofs.Database.Keeps
import DocWatch.Proofs.Database.Read
import DocWatch.Proofs.Database.Watch
import DocWatch.Proofs.Json.Access
import DocWatch.Proofs.Update.Attribution
import DocWatch.Proofs.Database.Record
import DocWatch.Proofs.Mutation.Wire
import DocWatch.Proofs.Mutation.Records
import DocWatch.Proofs.Database.Prefix
import DocWatch.Proofs.FieldPath
import DocWatch.Proofs.Filter.Meaning
import DocWatch.Proofs.Settles
import DocWatch.Proofs.Filter.Compile
import DocWatch.Proofs.Store.Lists
import DocWatch.Proofs.Double
import DocWatch.Proofs.Identity.Key
import DocWatch.Proofs.Update.Neutrality
import DocWatch.Proofs.Store.Lookup
import DocWatch.Proofs.Store.Numbered
import DocWatch.Proofs.Store.Unique
import DocWatch.Proofs.Update.Avoids
import DocWatch.Proofs.Mutation.Avoids
import DocWatch.Proofs.Store.Buried
import DocWatch.Proofs.Database.Deleted
import DocWatch.Proofs.Double.Shortest
import DocWatch.Proofs.Double.Text
import DocWatch.Proofs.Json.Faithful
import DocWatch.Proofs.Query.Registered
import DocWatch.Proofs.Query.Index
import DocWatch.Proofs.Database.Reached
import DocWatch.Proofs.Database.Queries
import DocWatch.Proofs.Database.Matches
import DocWatch.Proofs.Mutation.Payload
import DocWatch.Proofs.Update.Frame
import DocWatch.Proofs.Json.Alike
import DocWatch.Proofs.Update.LastWriter
import DocWatch.Proofs.Filter.Alike
import DocWatch.Proofs.Update.Alike
import DocWatch.Proofs.Update.Arrays
import DocWatch.Proofs.Database.Contended
import DocWatch.Proofs.Mutation.Resolve
import DocWatch.Proofs.Update.Single
import DocWatch.Proofs.Database.Removal
import DocWatch.Proofs.Database.Edits
import DocWatch.Proofs.Json.Reordered
import DocWatch.Proofs.Filter.KeyOrder
import DocWatch.Proofs.Update.Grammar
import DocWatch.Proofs.Json.Draft
import DocWatch.Proofs.Filter.Seed
import DocWatch.Proofs.Store.Grown
import DocWatch.Proofs.Database.Addressed
import DocWatch.Proofs.Json.Words
import DocWatch.Proofs.Json.Departs
import DocWatch.Proofs.Filter.Field
import DocWatch.Proofs.Update.Pulled
import DocWatch.Proofs.Update.Touched
import DocWatch.Proofs.Mutation.Alike
import DocWatch.Proofs.Filter.Range
import DocWatch.Proofs.Provenance
import DocWatch.Proofs.FieldPath.Codec
import DocWatch.Proofs.Filter.Source
import DocWatch.Proofs.DeliveryQueue.Runs
import DocWatch.Proofs.DeliveryQueue.Threads
import DocWatch.Proofs.DeliveryQueue.Balance
import DocWatch.Proofs.DeliveryQueue.Rest
