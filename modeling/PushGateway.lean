import PushGateway.Address.Host
import PushGateway.Address.Listen
import PushGateway.Address.Loose
import PushGateway.Binary64.Basic
import PushGateway.Binary64.Round
import PushGateway.CommandLine
import PushGateway.Config
import PushGateway.Decimal.Layout
import PushGateway.Decimal.Numeral
import PushGateway.Decimal.Shortest
import PushGateway.Duration
import PushGateway.Exposition.Block
import PushGateway.Exposition.Error
import PushGateway.Exposition.Line
import PushGateway.Exposition.Payload
import PushGateway.Exposition.Render
import PushGateway.Exposition.Series
import PushGateway.Exposition.Value
import PushGateway.Family
import PushGateway.Gateway
import PushGateway.Group
import PushGateway.GroupingKey
import PushGateway.Http.Grammar
import PushGateway.Http.Message
import PushGateway.Http.Target
import PushGateway.Json.Basic
import PushGateway.Json.Metrics
import PushGateway.Json.Number
import PushGateway.Json.Reader
import PushGateway.Json.Record
import PushGateway.Labels
import PushGateway.Main
import PushGateway.Merge
import PushGateway.Name
import PushGateway.Ordered
import PushGateway.Proofs.AcceptanceOrder
import PushGateway.Proofs.AddedGroup
import PushGateway.Proofs.AgreeingGroups
import PushGateway.Proofs.ApproximateNumbers
import PushGateway.Proofs.BlankText
import PushGateway.Proofs.CanonicalKeys
import PushGateway.Proofs.ChangeLog
import PushGateway.Proofs.CollapsedText
import PushGateway.Proofs.CompletedSamples
import PushGateway.Proofs.ConsistentPayloads
import PushGateway.Proofs.Debounce
import PushGateway.Proofs.Digits
import PushGateway.Proofs.DistinctSeries
import PushGateway.Proofs.Durability
import PushGateway.Proofs.DurationGrammar
import PushGateway.Proofs.EarliestAccepted
import PushGateway.Proofs.Escapes
import PushGateway.Proofs.ExtendedAssembly
import PushGateway.Proofs.FileLocations
import PushGateway.Proofs.FiledReadings
import PushGateway.Proofs.FiledSamples
import PushGateway.Proofs.FirstPushWins
import PushGateway.Proofs.GatewayCalls
import PushGateway.Proofs.GatheredLines
import PushGateway.Proofs.GatheredSamples
import PushGateway.Proofs.GroupValidity
import PushGateway.Proofs.JoinedTexts
import PushGateway.Proofs.JsonGroups
import PushGateway.Proofs.JsonLiterals
import PushGateway.Proofs.JsonNumbers
import PushGateway.Proofs.JsonText
import PushGateway.Proofs.JsonValues
import PushGateway.Proofs.KeyText
import PushGateway.Proofs.Ledger
import PushGateway.Proofs.LineOrder
import PushGateway.Proofs.Linearizability
import PushGateway.Proofs.MergedLines
import PushGateway.Proofs.MergedValues
import PushGateway.Proofs.NameTokens
import PushGateway.Proofs.NearestMagnitude
import PushGateway.Proofs.ParsedFamilies
import PushGateway.Proofs.PrintedValues
import PushGateway.Proofs.PushOrder
import PushGateway.Proofs.Ranking
import PushGateway.Proofs.RenderRoundTrip
import PushGateway.Proofs.RenderedText
import PushGateway.Proofs.RepeatedPush
import PushGateway.Proofs.RereadNumbers
import PushGateway.Proofs.RestoredFiles
import PushGateway.Proofs.RestoredNumbers
import PushGateway.Proofs.Rounding
import PushGateway.Proofs.SampleAccount
import PushGateway.Proofs.SampleReadings
import PushGateway.Proofs.SerializerRuns
import PushGateway.Proofs.SequenceNumbers
import PushGateway.Proofs.SeriesOwners
import PushGateway.Proofs.ServedSeries
import PushGateway.Proofs.ServedText
import PushGateway.Proofs.SessionInvariant
import PushGateway.Proofs.SettledLines
import PushGateway.Proofs.ShortestDigits
import PushGateway.Proofs.SnapshotRoundTrip
import PushGateway.Proofs.SnapshotRows
import PushGateway.Proofs.SortedMapEntries
import PushGateway.Proofs.SoundDisks
import PushGateway.Proofs.StorableFamilies
import PushGateway.Proofs.StoreLogs
import PushGateway.Proofs.StoreSessions
import PushGateway.Proofs.TableInvariant
import PushGateway.Proofs.TableKeys
import PushGateway.Proofs.TableReplay
import PushGateway.Proofs.TableRuns
import PushGateway.Proofs.ValueText
import PushGateway.Proofs.WrittenLines
import PushGateway.Settings
import PushGateway.Snapshot.Contents
import PushGateway.Snapshot.Disk
import PushGateway.Snapshot.Location
import PushGateway.Snapshot.Restore
import PushGateway.SortedMap
import PushGateway.Store.Host
import PushGateway.Store.Options
import PushGateway.Store.Queue
import PushGateway.Store.Serializer
import PushGateway.Table
import PushGateway.Text.Blank
import PushGateway.Text.Escape
import PushGateway.Text.Hexadecimal
import PushGateway.Text.Hidden
import PushGateway.Text.Quoted
import PushGateway.Text.Utf8
import PushGateway.Toml.Basic
import PushGateway.Toml.Number
import PushGateway.Toml.Reader
import PushGateway.Toml.Text
import PushGateway.Toml.Time
import PushGateway.Validation
