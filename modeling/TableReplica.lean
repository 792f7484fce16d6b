import TableReplica.SortedMap.Basic
import TableReplica.SortedMap.Lemmas
import TableReplica.Binary64.Basic
import TableReplica.Binary64.Text
import TableReplica.Operation.Placeholder
import TableReplica.Text.Quoted
import TableReplica.Violation
import TableReplica.RowId
import TableReplica.Value.Basic
import TableReplica.Value.Kind
import TableReplica.Row
import TableReplica.Operation.Basic
import TableReplica.Operation.Transaction
import TableReplica.Wire.Value
import TableReplica.Wire.Notification
import TableReplica.Wire.Transaction
import TableReplica.Error
import TableReplica.Model.Record
import TableReplica.Model.Basic
import TableReplica.Model.Codec
import TableReplica.Model.Schema
import TableReplica.Cache.Basic
import TableReplica.Replica.Notice
import TableReplica.Replica.Intake
import TableReplica.Intent.Naming
import TableReplica.Intent.Parent
import TableReplica.Intent.Basic
import TableReplica.Server.Execution
import TableReplica.Server.Basic
import TableReplica.Turnstile.Basic
import TableReplica.Config.Lexeme
import TableReplica.Config.Document
import TableReplica.Config.Basic
import TableReplica.Client.Basic
import TableReplica.Client.Feed
import TableReplica.VirtualNetwork.Records
import TableReplica.VirtualNetwork.Intents
import TableReplica.VirtualNetwork.Calls
import TableReplica.Proofs.ValueOrder
import TableReplica.Proofs.CanonicalSet
import TableReplica.Proofs.Zeros
import TableReplica.Proofs.Fallible
import TableReplica.Proofs.Maps
import TableReplica.Proofs.KeptRows
import TableReplica.Proofs.CacheChanges
import TableReplica.Proofs.Told
import TableReplica.Proofs.Mirror
import TableReplica.Proofs.Convergence
import TableReplica.Proofs.References
import TableReplica.Proofs.Scoping
import TableReplica.Proofs.Atomicity
import TableReplica.Proofs.TableRows
import TableReplica.Proofs.Links
import TableReplica.Proofs.Submission
import TableReplica.Proofs.ComposedRuns
import TableReplica.Proofs.Lookups
import TableReplica.Proofs.MirroredRows
import TableReplica.Proofs.TakenFeed
import TableReplica.Proofs.SeenRows
import TableReplica.Proofs.SortedDistinct
import TableReplica.Proofs.RecordTrip
import TableReplica.Proofs.KnownModels
import TableReplica.Proofs.NetworkModels
import TableReplica.Proofs.NetworkCalls
import TableReplica.Proofs.LinkedInsertion
import TableReplica.Proofs.TableGrowth
import TableReplica.Proofs.UniqueKeys
import TableReplica.Proofs.NetworkKeys
import TableReplica.Proofs.NetworkRuns
import TableReplica.Proofs.Moments
import TableReplica.Proofs.Lifetimes
import TableReplica.Proofs.RowCalls
import TableReplica.Proofs.LastWord
import TableReplica.Proofs.ComingsAndGoings
import TableReplica.Proofs.SteadySearches
import TableReplica.Proofs.Relinking
import TableReplica.Proofs.LinkedRemoval
import TableReplica.Proofs.FoundNames
import TableReplica.Proofs.DuplicateInsertions
import TableReplica.Proofs.OrphanedPorts
import TableReplica.Proofs.KindForms
import TableReplica.Proofs.StoredForms
import TableReplica.Proofs.ReadableEntries
import TableReplica.Proofs.EntryCounts
import TableReplica.Proofs.WireTrip
import TableReplica.Proofs.TypedRecords
import TableReplica.Proofs.SearchedForms
import TableReplica.Proofs.RepeatedInsertion
import TableReplica.Proofs.FieldForms
import TableReplica.Proofs.DecodableRows
import TableReplica.Proofs.FilledOperations
import TableReplica.Proofs.Placeholders
import TableReplica.Proofs.ScopedLists
import TableReplica.Proofs.MergedTransactions
import TableReplica.Proofs.ComposedNames
import TableReplica.Proofs.AimedOperations
import TableReplica.Proofs.SelectedRows
import TableReplica.Proofs.ReadValues
import TableReplica.Proofs.ReadReplies
import TableReplica.Proofs.DistinctEncodings
import TableReplica.Proofs.TurnOrder
import TableReplica.Proofs.ServedSubmissions
import TableReplica.Proofs.SettledReplies
import TableReplica.Proofs.NamedParents
import TableReplica.Proofs.FormedReadings
import TableReplica.Proofs.NormalizedDecoding
import TableReplica.Proofs.ResolvedSites
import TableReplica.Proofs.SetUpdates
import TableReplica.Proofs.HeldReferences
import TableReplica.Proofs.WritableRecords
import TableReplica.Proofs.AgreeingSets
import TableReplica.Proofs.SpelledIdentifiers
import TableReplica.Proofs.DrawnIdentifiers
import TableReplica.Proofs.RealValues
import TableReplica.Proofs.NearestIntegers
