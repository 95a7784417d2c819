import ScriptLift.Cli.Disk
import ScriptLift.Main
import ScriptLift.Proofs.Numeral
import ScriptLift.Symbols.Memory
import ScriptLift.Tape
import ScriptLift.Proofs.Dialect.Reading
import ScriptLift.Proofs.Dialect.Regroup
import ScriptLift.Proofs.Dialect.ReadBack
import ScriptLift.Proofs.Dialect.Value
import ScriptLift.Proofs.Lift.Advance
import ScriptLift.Proofs.Lift.Term
import ScriptLift.Proofs.Lift.TermRun
import ScriptLift.Proofs.Lift.Address
import ScriptLift.Proofs.Lift.Postfix
import ScriptLift.Proofs.Lift.Flow
import ScriptLift.Proofs.Lift.Site
import ScriptLift.Proofs.Lift.Compound
import ScriptLift.Proofs.Lift.Select
import ScriptLift.Proofs.Lift.LayoutRun
import ScriptLift.Proofs.Lift.Handlers
import ScriptLift.Proofs.Lift.Stays
import ScriptLift.Proofs.Lift.Full
import ScriptLift.Proofs.Lift.Trace
import ScriptLift.Proofs.Lift.Event
import ScriptLift.Proofs.Lift.Move
import ScriptLift.Proofs.Lift.RowMoves
import ScriptLift.Proofs.Lift.Aligned
import ScriptLift.Proofs.Lift.Quiet
import ScriptLift.Proofs.Lift.Breakdown
import ScriptLift.Proofs.Lift.Conserved
import ScriptLift.Proofs.Batch.Collect
import ScriptLift.Proofs.Batch.Pool
import ScriptLift.Proofs.Batch.Schedule
import ScriptLift.Proofs.Batch.Partial
import ScriptLift.Proofs.Listing.Spans
import ScriptLift.Proofs.Listing.Strand
import ScriptLift.Proofs.Listing.Faithful
import ScriptLift.Proofs.Listing.Reading
import ScriptLift.Proofs.Lift.Twin
import ScriptLift.Proofs.Lift.Sections
import ScriptLift.Proofs.Lift.Permuted
import ScriptLift.Proofs.Fixture
import ScriptLift.Proofs.Dialect.Types
import ScriptLift.Proofs.Dialect.Line
import ScriptLift.Proofs.Dialect.Legible
import ScriptLift.Proofs.Dialect.Shape
import ScriptLift.Proofs.Dialect.ClassReading
import ScriptLift.Proofs.Dialect.Indentation
import ScriptLift.Proofs.Lift.Increment
import ScriptLift.Proofs.Lift.Notes
import ScriptLift.Proofs.Lift.Target
import ScriptLift.Proofs.Listing.Quoted
import ScriptLift.Proofs.Listing.Quoting
import ScriptLift.Proofs.Listing.Printed
import ScriptLift.Proofs.Listing.TextLines
import ScriptLift.Proofs.Lift.Literal
import ScriptLift.Proofs.Lift.Continued
import ScriptLift.Proofs.Dialect.Chunks
import ScriptLift.Proofs.Dialect.Assignment
import ScriptLift.Proofs.Output.Encoding
import ScriptLift.Proofs.Symbols.Pattern
import ScriptLift.Proofs.Symbols.ShortSkill
import ScriptLift.Proofs.Symbols.Header
import ScriptLift.Proofs.Lift.Available
import ScriptLift.Proofs.Lift.Discharge
import ScriptLift.Proofs.Numeral.Denoted
import ScriptLift.Proofs.Symbols.Cache
