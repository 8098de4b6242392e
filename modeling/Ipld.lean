import Ipld.Binary64
import Ipld.Bindings
import Ipld.Codec.ByteText
import Ipld.Codec.Cbor
import Ipld.Codec.Dump
import Ipld.Codec.Encoder
import Ipld.Codec.JsonForm
import Ipld.Codegen.Code
import Ipld.Codegen.Full
import Ipld.Codegen.Minimal
import Ipld.Codegen.Naming
import Ipld.Codegen.Spelling
import Ipld.CommandLine.Command
import Ipld.CommandLine.Parse
import Ipld.CommandLine.Stop
import Ipld.Decimal.Notation
import Ipld.Decimal.Read
import Ipld.Decimal.Shortest
import Ipld.Json.Decode
import Ipld.Json.Read
import Ipld.Json.Value
import Ipld.Json.Write
import Ipld.Main
import Ipld.Node.Basic
import Ipld.Node.Native
import Ipld.Proofs.Codec.Canonical
import Ipld.Proofs.Codec.Refusals
import Ipld.Proofs.Codegen.Boxing
import Ipld.Proofs.Codegen.Identifiers
import Ipld.Proofs.Codegen.Modules
import Ipld.Proofs.Codegen.Members
import Ipld.Proofs.Codegen.RawLiteral
import Ipld.Proofs.Compile.ErrorOrder
import Ipld.Proofs.Compile.Rules
import Ipld.Proofs.Compile.Stages
import Ipld.Proofs.Compile.WellFormed
import Ipld.Proofs.Cycles.Exact
import Ipld.Proofs.Decimal.Characters
import Ipld.Proofs.Cycles.Finite
import Ipld.Proofs.Cycles.Search
import Ipld.Proofs.Json.Decoding
import Ipld.Proofs.Json.Reading
import Ipld.Proofs.Repr.Encodable
import Ipld.Proofs.Repr.Joined
import Ipld.Proofs.Repr.Kinds
import Ipld.Proofs.Repr.Separators
import Ipld.Proofs.Repr.Written
import Ipld.Proofs.Schema.JsonForm
import Ipld.Proofs.Schema.JsonRoundTrip
import Ipld.Repr.Convert
import Ipld.Repr.Error
import Ipld.Repr.Text
import Ipld.Samples.Store
import Ipld.Schema.Check
import Ipld.Schema.Compile
import Ipld.Schema.Cycles
import Ipld.Schema.Document
import Ipld.Schema.DocumentJson
import Ipld.Schema.Dsl.Error
import Ipld.Schema.Dsl.Read
import Ipld.Schema.Dsl.Scan
import Ipld.Schema.Dsl.Token
import Ipld.Schema.Strategy
import Ipld.Schema.StringForm
import Ipld.Schema.TypeSystem
import Ipld.Schema.Violation
import Ipld.Text.Blank
import Ipld.Text.Classes
import Ipld.Text.Quoted
import Ipld.Text.Search
import Ipld.Text.Similarity
import Ipld.Tool.Commands
import Ipld.Tool.Error
import Ipld.Tool.Generate
import Ipld.Tool.Interface
import Ipld.Tool.Run
import Ipld.Typed.Convert
import Ipld.Typed.Placeholder
import Ipld.Typed.Value
import Ipld.Workspace
import Ipld.Proofs.Bindings.Placeholder
import Ipld.Proofs.Bindings.Agree
import Ipld.Proofs.Bindings.Bindable
import Ipld.Proofs.Bindings.Reading
import Ipld.Proofs.Bindings.JsonBridge
import Ipld.Proofs.Bindings.Decoders
import Ipld.Proofs.Bindings.Declared
import Ipld.Proofs.Bindings.Styles
import Ipld.Proofs.Repr.Rewrite
import Ipld.Proofs.Dsl.Lossless
import Ipld.Proofs.Dsl.Progress
