import ProtoWire.Bytes.Basic
import ProtoWire.Bytes.Hex
import ProtoWire.Bytes.Sha256
import ProtoWire.Command.Arguments
import ProtoWire.Command.Run
import ProtoWire.Failure
import ProtoWire.Json.Printer
import ProtoWire.Json.Token
import ProtoWire.Json.Value
import ProtoWire.Json.Written
import ProtoWire.Main
import ProtoWire.Message.Access
import ProtoWire.Message.Basic
import ProtoWire.Message.Diagnostic
import ProtoWire.Message.Equality
import ProtoWire.Message.Initialized
import ProtoWire.Message.Json
import ProtoWire.Message.Marshal
import ProtoWire.Message.Merge
import ProtoWire.Message.Output
import ProtoWire.Message.Scalar
import ProtoWire.Message.Size
import ProtoWire.Number.Binary
import ProtoWire.Number.Decimal
import ProtoWire.Order
import ProtoWire.Proofs.Json.Members
import ProtoWire.Proofs.Json.Representable
import ProtoWire.Proofs.Message.Absorbing
import ProtoWire.Proofs.Message.Access
import ProtoWire.Proofs.Message.Alone
import ProtoWire.Proofs.Message.Canonical
import ProtoWire.Proofs.Message.Change
import ProtoWire.Proofs.Message.Chunks
import ProtoWire.Proofs.Message.Coherence
import ProtoWire.Proofs.Message.Conforming
import ProtoWire.Proofs.Message.Conservation
import ProtoWire.Proofs.Message.Content
import ProtoWire.Proofs.Message.Decoding
import ProtoWire.Proofs.Message.Effect
import ProtoWire.Proofs.Message.Enclosing
import ProtoWire.Proofs.Message.ExtensionMap
import ProtoWire.Proofs.Message.ExtensionOrder
import ProtoWire.Proofs.Message.Failing
import ProtoWire.Proofs.Message.Faults
import ProtoWire.Proofs.Message.Filling
import ProtoWire.Proofs.Message.Forms
import ProtoWire.Proofs.Message.Framing
import ProtoWire.Proofs.Message.History
import ProtoWire.Proofs.Message.Item
import ProtoWire.Proofs.Message.ItemForm
import ProtoWire.Proofs.Message.JsonAccepting
import ProtoWire.Proofs.Message.JsonReading
import ProtoWire.Proofs.Message.JsonRoundTrip
import ProtoWire.Proofs.Message.JsonValues
import ProtoWire.Proofs.Message.Marshaling
import ProtoWire.Proofs.Message.Matching
import ProtoWire.Proofs.Message.Merging
import ProtoWire.Proofs.Message.MessageSet
import ProtoWire.Proofs.Message.Mismatch
import ProtoWire.Proofs.Message.NestedTables
import ProtoWire.Proofs.Message.Nesting
import ProtoWire.Proofs.Message.Oneof
import ProtoWire.Proofs.Message.Overlay
import ProtoWire.Proofs.Message.Place
import ProtoWire.Proofs.Message.Preservation
import ProtoWire.Proofs.Message.Records
import ProtoWire.Proofs.Message.Registered
import ProtoWire.Proofs.Message.Rendering
import ProtoWire.Proofs.Message.Reordering
import ProtoWire.Proofs.Message.Required
import ProtoWire.Proofs.Message.RoundTrip
import ProtoWire.Proofs.Message.Scalar
import ProtoWire.Proofs.Message.ScalarWords
import ProtoWire.Proofs.Message.Shape
import ProtoWire.Proofs.Message.Sizing
import ProtoWire.Proofs.Message.Stopping
import ProtoWire.Proofs.Message.Streaming
import ProtoWire.Proofs.Message.Tally
import ProtoWire.Proofs.Message.Throughout
import ProtoWire.Proofs.Message.Tree
import ProtoWire.Proofs.Message.Visiting
import ProtoWire.Proofs.Message.WellTyped
import ProtoWire.Proofs.Message.WireForm
import ProtoWire.Proofs.Number.Binary
import ProtoWire.Proofs.Order
import ProtoWire.Proofs.Registry.Catalog
import ProtoWire.Proofs.Registry.Coupling
import ProtoWire.Proofs.Registry.Defects
import ProtoWire.Proofs.Registry.Exploration
import ProtoWire.Proofs.Registry.Indexes
import ProtoWire.Proofs.Registry.InitCheck
import ProtoWire.Proofs.Registry.InitSearch
import ProtoWire.Proofs.Registry.Reachable
import ProtoWire.Proofs.Registry.Resolution
import ProtoWire.Proofs.Registry.Session
import ProtoWire.Proofs.Registry.Sound
import ProtoWire.Proofs.Registry.Vouching
import ProtoWire.Proofs.Schema.Lookup
import ProtoWire.Proofs.Schema.Table
import ProtoWire.Proofs.Schema.WritingOrder
import ProtoWire.Proofs.Wire.Depth
import ProtoWire.Proofs.Wire.Grammar
import ProtoWire.Proofs.Wire.Reading
import ProtoWire.Proofs.Wire.Values
import ProtoWire.Registry.Basic
import ProtoWire.Registry.Load
import ProtoWire.Registry.Store
import ProtoWire.Schema.Codec
import ProtoWire.Schema.Descriptor
import ProtoWire.Schema.Document
import ProtoWire.Schema.FieldTable
import ProtoWire.Schema.Kind
import ProtoWire.Schema.MessageType
import ProtoWire.Text.Hidden
import ProtoWire.Text.Quoted
import ProtoWire.Wire.Fault
import ProtoWire.Wire.Payload
import ProtoWire.Wire.Skip
import ProtoWire.Wire.Tag
import ProtoWire.Wire.Varint
