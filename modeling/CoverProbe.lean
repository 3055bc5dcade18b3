import CoverProbe.Main
import CoverProbe.Assembly.Source
import CoverProbe.CommandLine.Workspace
import CoverProbe.Instruction.Variant
import CoverProbe.Json.Reader
import CoverProbe.Json.Writer
import CoverProbe.LineTable.Codec
import CoverProbe.Weave.Tree
import CoverProbe.Unit.Container
import CoverProbe.Unit.Digest
import CoverProbe.Unit.Listing
import CoverProbe.Unit.Validity
import CoverProbe.Proofs.Checked
import CoverProbe.Proofs.LineTable.Moves
import CoverProbe.Proofs.LineTable.RoundTrip
import CoverProbe.Proofs.Instruction.StandardCodec
import CoverProbe.Proofs.LineTable.Attribution
import CoverProbe.Proofs.Weave.Body
import CoverProbe.Proofs.Weave.Lines
import CoverProbe.Proofs.Weave.Control
import CoverProbe.Proofs.Weave.Recursion
import CoverProbe.Proofs.Weave.Order
import CoverProbe.Proofs.LineTable.Canonical
import CoverProbe.Proofs.Weave.Checks
import CoverProbe.Proofs.Weave.Emission
import CoverProbe.Proofs.Weave.Acceptance
import CoverProbe.Proofs.LineTable.Lookup
import CoverProbe.Proofs.Weave.Counterpart
import CoverProbe.Proofs.Weave.Tokens
import CoverProbe.Proofs.Unit.PostOrder
import CoverProbe.Proofs.Unit.Validity
import CoverProbe.Proofs.Weave.Soundness
import CoverProbe.Proofs.LineTable.Minimal
import CoverProbe.Proofs.Unit.Container
import CoverProbe.Proofs.Assembly.Calls
import CoverProbe.Proofs.Assembly.Layout
import CoverProbe.Proofs.Assembly.Finish
import CoverProbe.Proofs.Assembly.Program
import CoverProbe.Proofs.Assembly.Statement
import CoverProbe.Proofs.Assembly.Source
import CoverProbe.Proofs.Assembly.Printing
import CoverProbe.Proofs.Instruction.RoundTrip
import CoverProbe.Proofs.Weave.Insertion
import CoverProbe.Proofs.Weave.TopLevel
import CoverProbe.Proofs.Assembly.Grammar
import CoverProbe.Proofs.Assembly.Lines
import CoverProbe.Proofs.Assembly.Acceptance
import CoverProbe.Proofs.Instruction.Regular
import CoverProbe.Proofs.Assembly.Consistency
import CoverProbe.Proofs.Weave.Relocation
import CoverProbe.Proofs.Probe.Candidates
import CoverProbe.Proofs.Weave.Coverage
import CoverProbe.Proofs.Weave.Blocks
import CoverProbe.Proofs.Weave.LinePolicies
import CoverProbe.Proofs.LineTable.Views
import CoverProbe.Proofs.Unit.Checksum
import CoverProbe.Proofs.Unit.Corruption
import CoverProbe.Proofs.Probe.Collisions
import CoverProbe.Proofs.Weave.Distinct
import CoverProbe.Proofs.Unit.Position
import CoverProbe.Proofs.Weave.Report
import CoverProbe.Proofs.Probe.Selection
import CoverProbe.Proofs.Weave.Selection
import CoverProbe.Proofs.Probe.Draws
import CoverProbe.Proofs.Weave.Draws
import CoverProbe.Proofs.Assembly.Drafts
import CoverProbe.Proofs.Assembly.Validity
import CoverProbe.Proofs.Assembly.Constants
import CoverProbe.Proofs.Unit.Traversal
import CoverProbe.Proofs.Unit.TreeFile
import CoverProbe.Proofs.CommandLine.Workspace
import CoverProbe.Proofs.CommandLine.Commands
