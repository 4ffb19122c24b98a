import CimBroker.Action
import CimBroker.Broker.Connection
import CimBroker.Broker.Objects
import CimBroker.Broker.Queries
import CimBroker.Broker.Schema
import CimBroker.Broker.State
import CimBroker.CommandLine.Arguments
import CimBroker.CommandLine.Program
import CimBroker.Error
import CimBroker.Json.Basic
import CimBroker.Json.Reader
import CimBroker.Json.Writer
import CimBroker.Machine.Exchange
import CimBroker.Machine.Lookup
import CimBroker.Machine.Power
import CimBroker.Machine.Record
import CimBroker.Main
import CimBroker.Markup.Content
import CimBroker.Markup.Document
import CimBroker.Markup.Escape
import CimBroker.Markup.Name
import CimBroker.Markup.Token
import CimBroker.Number.Binary
import CimBroker.Number.Decimal
import CimBroker.Number.Digits
import CimBroker.Number.Word
import CimBroker.Object.Access
import CimBroker.Object.Bag
import CimBroker.Object.Display
import CimBroker.Proofs.Frame
import CimBroker.Proofs.SideBySide
import CimBroker.Proofs.Recorded
import CimBroker.Record.Document
import CimBroker.Record.FieldTable
import CimBroker.Record.Mapping
import CimBroker.Record.Samples
import CimBroker.Session.Config
import CimBroker.Session.Connection
import CimBroker.Session.Faults
import CimBroker.Session.Invocation
import CimBroker.Session.Job
import CimBroker.Session.Results
import CimBroker.Session.Service
import CimBroker.Table
import CimBroker.Text.Blank
import CimBroker.Text.Invisible
import CimBroker.Text.Quoted
import CimBroker.Text.Search
import CimBroker.Time.Calendar
import CimBroker.Time.Document
import CimBroker.Time.Duration
import CimBroker.Time.Internet
import CimBroker.Time.Stamp
import CimBroker.Time.WireText
import CimBroker.Variant.Automation
import CimBroker.Variant.Basic
import CimBroker.Variant.CimType
import CimBroker.Variant.Codec
import CimBroker.Variant.DataType
import CimBroker.Wql.Literal
import CimBroker.Wql.Query
import CimBroker.Proofs.FailFast
import CimBroker.Proofs.Cutting
import CimBroker.Proofs.Selection
import CimBroker.Proofs.MachineLookup
import CimBroker.Proofs.Numerals
import CimBroker.Proofs.DayNumbers
import CimBroker.Proofs.Faithful
import CimBroker.Proofs.WireRoundTrip
import CimBroker.Proofs.WireGrammar
import CimBroker.Proofs.CanonicalText
import CimBroker.Proofs.ZoneOffsets
import CimBroker.Proofs.Journal
import CimBroker.Proofs.Waiting
import CimBroker.Proofs.Calls
import CimBroker.Proofs.MachineOperations
import CimBroker.Proofs.Conditions
import CimBroker.Proofs.TypedStore
import CimBroker.Proofs.BrokerRuns
import CimBroker.Proofs.ParameterObjects
import CimBroker.Proofs.Inputs
import CimBroker.Proofs.FieldTables
import CimBroker.Proofs.RecordRoundTrip
import CimBroker.Proofs.Courses
import CimBroker.Proofs.StoreDeeds
import CimBroker.Proofs.Views
import CimBroker.Proofs.Cycles
import CimBroker.Proofs.Fates
import CimBroker.Proofs.QueuedChanges
import CimBroker.Proofs.PathOrder
import CimBroker.Proofs.SelectedObjects
import CimBroker.Proofs.IntegerReading
import CimBroker.Proofs.Sharing
import CimBroker.Proofs.EscapedText
import CimBroker.Proofs.ElementReading
import CimBroker.Proofs.ExchangeItems
import CimBroker.Proofs.QueryGrammar
import CimBroker.Proofs.QueryReading
import CimBroker.Proofs.StoreChanges
import CimBroker.Proofs.IssuedPaths
import CimBroker.Proofs.FailedRequests
import CimBroker.Proofs.RelatedObjects
import CimBroker.Proofs.DiskRemoval
import CimBroker.Proofs.MethodOutputs
import CimBroker.Proofs.MethodCalls
import CimBroker.Proofs.PairPutting
import CimBroker.Proofs.RecordWrites
import CimBroker.Proofs.EmbeddedRecords
import CimBroker.Proofs.NaturalReading
import CimBroker.Proofs.ExactWidening
import CimBroker.Proofs.ArrayLayouts
import CimBroker.Proofs.CursorReading
import CimBroker.Proofs.ConfigLoading
import CimBroker.Proofs.UnsetValues
import CimBroker.Proofs.ItemTables
import CimBroker.Proofs.JsonRoundTrip
import CimBroker.Proofs.ConfigRoundTrip
import CimBroker.Proofs.ShortestDecimals
import CimBroker.Proofs.ObjectText
import CimBroker.Proofs.Replacements
import CimBroker.Proofs.EqualValues
