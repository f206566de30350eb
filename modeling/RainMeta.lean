import RainMeta.Artifact
import RainMeta.Build
import RainMeta.Calendar
import RainMeta.Cbor
import RainMeta.Cbor.Item
import RainMeta.Cbor.Quoted
import RainMeta.Cbor.Reader
import RainMeta.CommandLine
import RainMeta.CommandLine.Arguments
import RainMeta.CommandLine.Log
import RainMeta.Config
import RainMeta.Config.Expansion
import RainMeta.Config.Load
import RainMeta.Config.Model
import RainMeta.Deployer
import RainMeta.Document
import RainMeta.Document.Mapping
import RainMeta.Document.Quoted
import RainMeta.Envelope
import RainMeta.Envelope.Reader
import RainMeta.Environment
import RainMeta.Failure
import RainMeta.FileTree
import RainMeta.FileTree.Bound
import RainMeta.FileTree.Change
import RainMeta.Hex
import RainMeta.Json.Printer
import RainMeta.Json.Reader
import RainMeta.Keccak
import RainMeta.Lock
import RainMeta.Main
import RainMeta.MetaFile
import RainMeta.Number.Binary64
import RainMeta.Number.DigitLimit
import RainMeta.Number.Shortest
import RainMeta.Path
import RainMeta.Platform
import RainMeta.Platform.Usual
import RainMeta.Proofs.Artifact
import RainMeta.Proofs.Build.Accounting
import RainMeta.Proofs.Build.Assembly
import RainMeta.Proofs.Build.Contents
import RainMeta.Proofs.Build.Gathering
import RainMeta.Proofs.Build.Items
import RainMeta.Proofs.Build.Itemwise
import RainMeta.Proofs.Build.Policies
import RainMeta.Proofs.Build.Reordering
import RainMeta.Proofs.Build.Returning
import RainMeta.Proofs.Build.Stages
import RainMeta.Proofs.Cbor.RoundTrip
import RainMeta.Proofs.Cbor.Shortest
import RainMeta.Proofs.Config.Expansion
import RainMeta.Proofs.Config.Grammar
import RainMeta.Proofs.Config.Keys
import RainMeta.Proofs.Config.Loading
import RainMeta.Proofs.Config.Parsing
import RainMeta.Proofs.Config.References
import RainMeta.Proofs.Config.Resolution
import RainMeta.Proofs.Config.Segments
import RainMeta.Proofs.Document.Objects
import RainMeta.Proofs.Envelope.Canonical
import RainMeta.Proofs.Envelope.PrefixFree
import RainMeta.Proofs.Envelope.Refusal
import RainMeta.Proofs.Envelope.RoundTrip
import RainMeta.Proofs.FileTree.Names
import RainMeta.Proofs.FileTree.Usable
import RainMeta.Proofs.GoesBy
import RainMeta.Proofs.Hex
import RainMeta.Proofs.Hex.Codec
import RainMeta.Proofs.Json.Limits
import RainMeta.Proofs.Json.Tree
import RainMeta.Proofs.Lock.Preference
import RainMeta.Proofs.Lock.Rest
import RainMeta.Proofs.Lock.Sound
import RainMeta.Proofs.Lock.Wakeups
import RainMeta.Proofs.MetaFile
import RainMeta.Proofs.Path
import RainMeta.Proofs.Run
import RainMeta.Proofs.Run.Steady
import RainMeta.Proofs.Scan.Ending
import RainMeta.Proofs.Scan.Finding
import RainMeta.Proofs.Scan.Walking
import RainMeta.Proofs.Schema
import RainMeta.Proofs.Schema.Registry
import RainMeta.Proofs.SharedStore
import RainMeta.Proofs.Store.Content
import RainMeta.Proofs.Store.Eviction
import RainMeta.Proofs.Store.History
import RainMeta.Proofs.Store.Operation
import RainMeta.Proofs.Store.Residency
import RainMeta.Proofs.Table
import RainMeta.Proofs.Text.Blank
import RainMeta.Proofs.Text.Utf8
import RainMeta.Proofs.Text.Utf8.Reading
import RainMeta.Proofs.Yaml.Blame
import RainMeta.Proofs.Yaml.Keys
import RainMeta.Proofs.Yaml.Names
import RainMeta.Proofs.Yaml.Plain
import RainMeta.Run
import RainMeta.Scan
import RainMeta.Scan.Walk
import RainMeta.Schema
import RainMeta.Schema.Packaged
import RainMeta.Schema.Reader
import RainMeta.Schema.Registry
import RainMeta.SharedStore
import RainMeta.Store
import RainMeta.Table
import RainMeta.Text
import RainMeta.Text.Blank
import RainMeta.Text.Coding
import RainMeta.Text.Decimal
import RainMeta.Text.Printable
import RainMeta.Text.Quoted
import RainMeta.Text.Utf8
import RainMeta.Text.Wide
import RainMeta.Trace
import RainMeta.Workspace
import RainMeta.Yaml.Cursor
import RainMeta.Yaml.Error
import RainMeta.Yaml.Lexer
import RainMeta.Yaml.Node
import RainMeta.Yaml.Number
import RainMeta.Yaml.Scalar
import RainMeta.Yaml.Scalars
import RainMeta.Yaml.Tag
import RainMeta.Yaml.Token
import RainMeta.Yaml.Value
