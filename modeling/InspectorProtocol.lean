import InspectorProtocol.Address.Basic
import InspectorProtocol.Address.Connecting
import InspectorProtocol.Address.DomainName
import InspectorProtocol.Address.Host
import InspectorProtocol.Address.Ipv4
import InspectorProtocol.Address.Ipv6
import InspectorProtocol.Address.PercentCode
import InspectorProtocol.Address.Punycode
import InspectorProtocol.Address.Segments
import InspectorProtocol.Address.Url
import InspectorProtocol.Binding.Basic
import InspectorProtocol.Binding.Boxing
import InspectorProtocol.Binding.Draft
import InspectorProtocol.Binding.Generation
import InspectorProtocol.Binding.Pruning
import InspectorProtocol.Binding.Value
import InspectorProtocol.Catalogue
import InspectorProtocol.CommandLine.Arguments
import InspectorProtocol.CommandLine.Command
import InspectorProtocol.CommandLine.Program
import InspectorProtocol.Decimal.Binary64
import InspectorProtocol.Decimal.Reading
import InspectorProtocol.Decimal.Shortest
import InspectorProtocol.Description.Basic
import InspectorProtocol.Description.Decode
import InspectorProtocol.Description.Encode
import InspectorProtocol.Directories
import InspectorProtocol.Failure
import InspectorProtocol.Files.Disk
import InspectorProtocol.Files.Host
import InspectorProtocol.Files.Path
import InspectorProtocol.Graph
import InspectorProtocol.Identifier.Case
import InspectorProtocol.Identifier.Namer
import InspectorProtocol.Identifier.Reserved
import InspectorProtocol.Json.Basic
import InspectorProtocol.Json.Decode
import InspectorProtocol.Json.Document
import InspectorProtocol.Json.Printer
import InspectorProtocol.Json.Token
import InspectorProtocol.Log.Event
import InspectorProtocol.Log.Filter
import InspectorProtocol.Log.Installation
import InspectorProtocol.Log.Settings
import InspectorProtocol.Main
import InspectorProtocol.MethodMap
import InspectorProtocol.Proofs.Accounting
import InspectorProtocol.Proofs.AliasExpansion
import InspectorProtocol.Proofs.Announcements
import InspectorProtocol.Proofs.BindingNames
import InspectorProtocol.Proofs.Boxing
import InspectorProtocol.Proofs.ByteStreams
import InspectorProtocol.Proofs.Comments
import InspectorProtocol.Proofs.Components
import InspectorProtocol.Proofs.ConstantNames
import InspectorProtocol.Proofs.Correlation
import InspectorProtocol.Proofs.Declarations
import InspectorProtocol.Proofs.Deeds
import InspectorProtocol.Proofs.DescriptionText
import InspectorProtocol.Proofs.Directories
import InspectorProtocol.Proofs.DomainFiles
import InspectorProtocol.Proofs.DomainOrder
import InspectorProtocol.Proofs.Drafts
import InspectorProtocol.Proofs.EventHandlers
import InspectorProtocol.Proofs.EventOrder
import InspectorProtocol.Proofs.FailedAttempts
import InspectorProtocol.Proofs.FieldNames
import InspectorProtocol.Proofs.Framing
import InspectorProtocol.Proofs.Generated
import InspectorProtocol.Proofs.Hands
import InspectorProtocol.Proofs.Identifiers
import InspectorProtocol.Proofs.InlineObjects
import InspectorProtocol.Proofs.InlineRecords
import InspectorProtocol.Proofs.JsonText
import InspectorProtocol.Proofs.LargestPart
import InspectorProtocol.Proofs.LetterCase
import InspectorProtocol.Proofs.Lifecycle
import InspectorProtocol.Proofs.Lock
import InspectorProtocol.Proofs.Lookup
import InspectorProtocol.Proofs.MemberOrder
import InspectorProtocol.Proofs.Merging
import InspectorProtocol.Proofs.MethodRegistry
import InspectorProtocol.Proofs.ModuleNames
import InspectorProtocol.Proofs.NameClashes
import InspectorProtocol.Proofs.NumberTexts
import InspectorProtocol.Proofs.Numerals
import InspectorProtocol.Proofs.OutputDirectory
import InspectorProtocol.Proofs.OutputPaths
import InspectorProtocol.Proofs.Pieces
import InspectorProtocol.Proofs.Progress
import InspectorProtocol.Proofs.Pruning
import InspectorProtocol.Proofs.Recognition
import InspectorProtocol.Proofs.Records
import InspectorProtocol.Proofs.References
import InspectorProtocol.Proofs.Reports
import InspectorProtocol.Proofs.Rereading
import InspectorProtocol.Proofs.Resolution
import InspectorProtocol.Proofs.Rounding
import InspectorProtocol.Proofs.SessionRuns
import InspectorProtocol.Proofs.Sifting
import InspectorProtocol.Proofs.SocketPaths
import InspectorProtocol.Proofs.StaleFiles
import InspectorProtocol.Proofs.TurningAway
import InspectorProtocol.Proofs.UnknownEvents
import InspectorProtocol.Proofs.Utf8
import InspectorProtocol.Proofs.Waiters
import InspectorProtocol.Proofs.Walks
import InspectorProtocol.Proofs.WireNames
import InspectorProtocol.Proofs.WireValues
import InspectorProtocol.Proofs.WrittenFiles
import InspectorProtocol.SampleProtocol
import InspectorProtocol.Session.Calling
import InspectorProtocol.Session.Config
import InspectorProtocol.Session.Disposal
import InspectorProtocol.Session.Handler
import InspectorProtocol.Session.Observation
import InspectorProtocol.Session.Requests
import InspectorProtocol.Session.Scenario
import InspectorProtocol.Session.Step
import InspectorProtocol.Session.Subscriptions
import InspectorProtocol.Session.Traffic
import InspectorProtocol.Session.World
import InspectorProtocol.Settings
import InspectorProtocol.SettingsFile
import InspectorProtocol.Source.Line
import InspectorProtocol.Source.Output
import InspectorProtocol.Source.Rendering
import InspectorProtocol.Text.Ascii
import InspectorProtocol.Text.Blank
import InspectorProtocol.Text.Digits
import InspectorProtocol.Text.Quoted
import InspectorProtocol.Text.Unprintable
import InspectorProtocol.Text.Utf8
import InspectorProtocol.Toml.Basic
import InspectorProtocol.Toml.Document
import InspectorProtocol.Toml.Quoted
import InspectorProtocol.Toml.Reader
import InspectorProtocol.Toml.Scalar
import InspectorProtocol.Toml.Statement
import InspectorProtocol.Toml.Table
import InspectorProtocol.Total
import InspectorProtocol.TypeRef
import InspectorProtocol.Wire.Codec
import InspectorProtocol.Wire.FrameStream
import InspectorProtocol.Wire.Message
