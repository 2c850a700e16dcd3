import Cascade.Charset.Basic
import Cascade.Codecs
import Cascade.Log.Entry
import Cascade.Log.Redirect
import Cascade.Merge.Output
import Cascade.Summary
import Cascade.Host.Basic
import Cascade.Host.Machine
import Cascade.Host.Links
import Cascade.Log.Line
import Cascade.Log.Logger
import Cascade.Text.Integer
import Cascade.Report.Archive
import Cascade.Report.Basic
import Cascade.Source
import Cascade.Config.Basic
import Cascade.Log.Setup
import Cascade.Command.Analyze
import Cascade.Command.Dedupe
import Cascade.Text.Decimal
import Cascade.Yaml.Value
import Cascade.Yaml.Scalar
import Cascade.Yaml.Node
import Cascade.Config.Decode
import Cascade.Config.Dump
import Cascade.Config.Load
import Cascade.Command.DumpConfig
import Cascade.Program
import Cascade.Host.Clock
import Cascade.Main
import Cascade.Yaml.Source
import Cascade.Yaml.Token
import Cascade.Proofs.Text.Symbols
import Cascade.Proofs.Sheet.Lexemes
import Cascade.Proofs.Sheet.Blocks
import Cascade.Proofs.Sheet.Laps
import Cascade.Proofs.Sheet.Layout
import Cascade.Proofs.Sheet.Spelling
import Cascade.Proofs.Sheet.RawPrinting
import Cascade.Proofs.Sheet.Declarations
import Cascade.Proofs.Dict
import Cascade.Proofs.Merge.Table
import Cascade.Proofs.Merge.RoundTrip
import Cascade.Proofs.Merge.Counting
import Cascade.Proofs.Merge.Reach
import Cascade.Proofs.Merge.Idempotence
import Cascade.Proofs.Merge.Pieces
import Cascade.Proofs.Sheet.Cuts
import Cascade.Proofs.Merge.Stages
import Cascade.Proofs.Summary.Counts
import Cascade.Proofs.Host.Disk
import Cascade.Proofs.Host.Machine
import Cascade.Proofs.Host.Links
import Cascade.Proofs.Command.Dedupe
import Cascade.Proofs.Merge.Validity
import Cascade.Proofs.Host.Growth
import Cascade.Proofs.Host.Invariance
import Cascade.Proofs.Host.Clean
import Cascade.Proofs.Host.Directories
import Cascade.Proofs.Config.Load
import Cascade.Proofs.Report.Copies
import Cascade.Proofs.Command.Backup
import Cascade.Proofs.Command.Validity
import Cascade.Proofs.Program.Requests
import Cascade.Proofs.Program.Refusals
import Cascade.Proofs.Program.Errors
import Cascade.Proofs.Report.Archive
import Cascade.Proofs.Report.Closing
import Cascade.Proofs.Report.History
import Cascade.Proofs.Report.Draft
import Cascade.Proofs.Report.Calls
import Cascade.Proofs.Report.Order
import Cascade.Proofs.Sheet.Matching
import Cascade.Proofs.Merge.Entries
import Cascade.Proofs.Yaml.Source
import Cascade.Proofs.Yaml.Reading
import Cascade.Proofs.Yaml.Words
import Cascade.Proofs.Yaml.Quoted
import Cascade.Proofs.Yaml.Block
import Cascade.Proofs.Yaml.Find
import Cascade.Proofs.Yaml.Lines
import Cascade.Proofs.Yaml.Outline
import Cascade.Proofs.Yaml.Build
import Cascade.Proofs.Yaml.Values
import Cascade.Proofs.Text.Base64
import Cascade.Proofs.Yaml.Scalars
import Cascade.Proofs.Yaml.Texts
import Cascade.Proofs.Config.Outline
import Cascade.Proofs.Config.Overlay
import Cascade.Proofs.Config.Bounds
import Cascade.Proofs.Config.Reload
import Cascade.Proofs.Sheet.Concatenation
import Cascade.Proofs.Sheet.Comments
import Cascade.Proofs.Merge.Joining
import Cascade.Proofs.Sheet.Recovery
import Cascade.Proofs.Summary.Ranking
import Cascade.Proofs.Merge.Writing
import Cascade.Proofs.Text.Backward
import Cascade.Proofs.Sheet.Selectors
import Cascade.Proofs.Sheet.Formatting
