import ClassMetrics.Analysis
import ClassMetrics.Archive.Bits
import ClassMetrics.Archive.Crc32
import ClassMetrics.Archive.Directory
import ClassMetrics.Archive.Inflate
import ClassMetrics.Archive.Reader
import ClassMetrics.Bytes
import ClassMetrics.ClassFile.Attribute
import ClassMetrics.ClassFile.Constant
import ClassMetrics.ClassFile.Cursor
import ClassMetrics.ClassFile.Decode
import ClassMetrics.ClassFile.Fault
import ClassMetrics.ClassFile.Framed
import ClassMetrics.ClassFile.Grammar
import ClassMetrics.ClassFile.Naming
import ClassMetrics.ClassHeader
import ClassMetrics.Code.Instruction
import ClassMetrics.Code.Opcode
import ClassMetrics.Code.Reader
import ClassMetrics.CommandLine.Arguments
import ClassMetrics.CommandLine.Outcome
import ClassMetrics.CommandLine.Usage
import ClassMetrics.Decimal.Shortest
import ClassMetrics.Decimal.Text
import ClassMetrics.Descriptor
import ClassMetrics.Endpoint.DomainChars
import ClassMetrics.Endpoint.Host
import ClassMetrics.Endpoint.Library
import ClassMetrics.Endpoint.Percent
import ClassMetrics.Endpoint.Punycode
import ClassMetrics.Endpoint.Reading
import ClassMetrics.Endpoint.Traces
import ClassMetrics.Endpoint.Url
import ClassMetrics.Files.FileSystem
import ClassMetrics.Files.Tree
import ClassMetrics.Hierarchy.Ancestry
import ClassMetrics.Hierarchy.ClassGraph
import ClassMetrics.Hierarchy.ClassTable
import ClassMetrics.Hierarchy.Overrides
import ClassMetrics.Hierarchy.Remaining
import ClassMetrics.Log
import ClassMetrics.Main
import ClassMetrics.Metrics.Report
import ClassMetrics.Metrics.Summary
import ClassMetrics.Metrics.Totals
import ClassMetrics.Ordered
import ClassMetrics.Proofs.Agreement
import ClassMetrics.Proofs.Ancestors
import ClassMetrics.Proofs.ClassLayout
import ClassMetrics.Proofs.CodeGrammar
import ClassMetrics.Proofs.CodeReading
import ClassMetrics.Proofs.DepthPaths
import ClassMetrics.Proofs.DepthWalk
import ClassMetrics.Proofs.EntryOrder
import ClassMetrics.Proofs.Fallback
import ClassMetrics.Proofs.FramedReading
import ClassMetrics.Proofs.GrammarLayout
import ClassMetrics.Proofs.GrammarReading
import ClassMetrics.Proofs.GraphEdges
import ClassMetrics.Proofs.KnownAttributes
import ClassMetrics.Proofs.LayoutMeaning
import ClassMetrics.Proofs.Lookup
import ClassMetrics.Proofs.NameOrder
import ClassMetrics.Proofs.OverrideCounts
import ClassMetrics.Proofs.Pairing
import ClassMetrics.Proofs.Reading
import ClassMetrics.Proofs.Words
import ClassMetrics.Scan.Listing
import ClassMetrics.Scan.Run
import ClassMetrics.Scan.State
import ClassMetrics.Text.ModifiedUtf8
import ClassMetrics.Text.Quoted
import ClassMetrics.Text.Unseen
import ClassMetrics.Text.Utf8
import ClassMetrics.Proofs.Counters
import ClassMetrics.Proofs.InstructionStarts
import ClassMetrics.Proofs.FileSize
import ClassMetrics.Proofs.Bookkeeping
import ClassMetrics.Proofs.Consistency
import ClassMetrics.Proofs.Overflow
import ClassMetrics.Proofs.Growth
import ClassMetrics.Proofs.ParameterParts
import ClassMetrics.Proofs.Truncation
import ClassMetrics.Proofs.StoredFiles
import ClassMetrics.Proofs.ArgumentReading
import ClassMetrics.Proofs.RunOutcome
import ClassMetrics.Proofs.LeftOut
import ClassMetrics.Proofs.ReaderTurns
import ClassMetrics.Proofs.CodeJoin
import ClassMetrics.Proofs.DirectoryOrder
import ClassMetrics.Proofs.DepthLevels
import ClassMetrics.Proofs.ParentSearch
import ClassMetrics.Proofs.SuperclassWalk
import ClassMetrics.Proofs.InterfaceClosure
import ClassMetrics.Proofs.OperandReach
import ClassMetrics.Proofs.TracedScan
import ClassMetrics.Proofs.SpanTrace
import ClassMetrics.Proofs.ReportReading
import ClassMetrics.Proofs.TracesAddress
