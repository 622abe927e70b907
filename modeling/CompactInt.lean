import CompactInt.Varint.Groups
import CompactInt.Source.Call
import CompactInt.Sink.Buffer
import CompactInt.Sink.Writer
import CompactInt.Main
import CompactInt.Proofs.Varint.Accumulation
import CompactInt.Proofs.Source.Items
import CompactInt.Proofs.Source.Delivery
import CompactInt.Proofs.Source.Decoding
import CompactInt.Proofs.Sink.AllOrNothing
import CompactInt.Proofs.PackedShort
import CompactInt.Proofs.Varint.Encoding
import CompactInt.Proofs.Records
import CompactInt.Proofs.Sink.PrefixLaw
import CompactInt.Proofs.Source.Division
import CompactInt.Proofs.Text.Spelling
import CompactInt.Proofs.Source.ReadAhead
import CompactInt.Proofs.Tool.Decoding
import CompactInt.Proofs.Tool.Agreement
import CompactInt.Proofs.Tool.Input
import CompactInt.Proofs.Truncation
import CompactInt.Proofs.Composition
import CompactInt.Proofs.NormalForm
import CompactInt.Proofs.Tool.Printing
import CompactInt.Proofs.Varint.Canonical
import CompactInt.Proofs.Tool.LimitedOutput
import CompactInt.Proofs.Text.Decimal
import CompactInt.Proofs.Tool.Arguments
import CompactInt.Proofs.Tool.RoundTrip
import CompactInt.Proofs.Source.Resumption
import CompactInt.Proofs.Source.Overflow
import CompactInt.Proofs.Source.Shortest
import CompactInt.Proofs.Sink.WireFormat
import CompactInt.Proofs.Text.Hexadecimal
import CompactInt.Proofs.Tool.TextDecoding
import CompactInt.Proofs.Source.Shapes
import CompactInt.Proofs.Tool.Shorts
import CompactInt.Proofs.Tool.Words
import CompactInt.Proofs.Tool.WellFormed
import CompactInt.Proofs.Varint.Pushes
import CompactInt.Proofs.Tool.Numbers
