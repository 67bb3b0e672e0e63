import SourceChain.SourceMap.Document
import SourceChain.SourceMap.Compose
import SourceChain.Text.Excerpt
import SourceChain.Segment.Json
import SourceChain.Config.LogFilter
import SourceChain.Loader
import SourceChain.Proofs.SourceMap.WellFormed
import SourceChain.Proofs.SourceMap.Composition
import SourceChain.Proofs.SourceMap.TwoStepLookup
import SourceChain.Proofs.Mappings.RoundTrip
import SourceChain.Proofs.SourceMap.Obtainable
import SourceChain.Proofs.Json.Numeral
import SourceChain.Proofs.Json.Reader
import SourceChain.Proofs.SourceMap.RoundTrip
import SourceChain.Proofs.SourceMap.Associativity
import SourceChain.Proofs.SourceMap.Provenance
import SourceChain.Proofs.Vlq.Shortest
import SourceChain.Proofs.Mappings.Reading
import SourceChain.Proofs.Mappings.Canonical
import SourceChain.Proofs.Loader.Outcome
import SourceChain.Proofs.Loader.Handover
import SourceChain.Proofs.Config.Precedence
import SourceChain.Proofs.Mappings.LineTable
import SourceChain.Proofs.SourceMap.Assembly
import SourceChain.Proofs.SourceMap.Histories
import SourceChain.Proofs.SourceMap.Built
import SourceChain.Proofs.Mappings.RunningSums
import SourceChain.Proofs.Mappings.Decoding
import SourceChain.Proofs.Vlq.Grammar
import SourceChain.Proofs.Vlq.Inverse
import SourceChain.Proofs.SourceMap.Documents
import SourceChain.Proofs.Vlq.Arithmetic
import SourceChain.Proofs.Mappings.Arithmetic
import SourceChain.Proofs.SourceMap.Arithmetic
import SourceChain.Proofs.Loader.Contents
import SourceChain.Proofs.SourceMap.Independence
import SourceChain.Proofs.SourceMap.Identity
import SourceChain.Proofs.Text.Excerpt
import SourceChain.Proofs.Position.Text
import SourceChain.Proofs.Text.Decimal
import SourceChain.Proofs.Config.Variables
import SourceChain.Proofs.Segment.Json
