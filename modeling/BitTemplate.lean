import BitTemplate.Bits
import BitTemplate.Capacity.Basic
import BitTemplate.Capacity.Field
import BitTemplate.Decimal
import BitTemplate.Directive
import BitTemplate.Document.Basic
import BitTemplate.Document.Description
import BitTemplate.Document.Dialect
import BitTemplate.Document.Keyword
import BitTemplate.Document.Rule
import BitTemplate.Document.Schema
import BitTemplate.Document.Validator
import BitTemplate.Double.Basic
import BitTemplate.Double.Text
import BitTemplate.Error
import BitTemplate.Field.Basic
import BitTemplate.Field.Declaration
import BitTemplate.Field.Declared
import BitTemplate.Layout
import BitTemplate.Letter
import BitTemplate.LooseDiagnostic
import BitTemplate.LooseListing
import BitTemplate.LooseSegment
import BitTemplate.Markup
import BitTemplate.Module
import BitTemplate.Number
import BitTemplate.Numeral
import BitTemplate.Operation.Basic
import BitTemplate.Operation.Binding
import BitTemplate.Operation.Combination
import BitTemplate.Operation.Engine
import BitTemplate.Operation.Extraction
import BitTemplate.Operation.LooseBinding
import BitTemplate.Operation.Transfer
import BitTemplate.Overflow
import BitTemplate.Program.Basic
import BitTemplate.Program.Generation
import BitTemplate.Program.Meaning
import BitTemplate.Program.Text
import BitTemplate.Proofs.Binding
import BitTemplate.Proofs.Bits
import BitTemplate.Proofs.Cells
import BitTemplate.Proofs.Construction
import BitTemplate.Proofs.Engines
import BitTemplate.Proofs.Failure
import BitTemplate.Proofs.Functions
import BitTemplate.Proofs.Generation
import BitTemplate.Proofs.Placement
import BitTemplate.Proofs.Reading
import BitTemplate.Proofs.RoundTrip
import BitTemplate.Proofs.Segments
import BitTemplate.Proofs.Storage
import BitTemplate.Segment
import BitTemplate.Session.Basic
import BitTemplate.Session.Cache
import BitTemplate.Session.Key
import BitTemplate.Shape.Basic
import BitTemplate.Shape.Choice
import BitTemplate.Slot
import BitTemplate.Storage
import BitTemplate.Template.Basic
import BitTemplate.Template.Cell
import BitTemplate.Template.Diagnostic
import BitTemplate.Template.Parse
import BitTemplate.Text.Blank
import BitTemplate.Text.Digits
import BitTemplate.Text.Identifier
import BitTemplate.Text.Listing
import BitTemplate.Text.Printable
import BitTemplate.Text.Quoted
import BitTemplate.Text.Ranges
import BitTemplate.Text.Word
import BitTemplate.Value.Basic
import BitTemplate.Value.Reading
import BitTemplate.Value.Same
import BitTemplate.Value.Text
import BitTemplate.Proofs.Lens
import BitTemplate.Proofs.Transfer
import BitTemplate.Proofs.Refusal
import BitTemplate.Proofs.Grammar
import BitTemplate.Proofs.Ownership
import BitTemplate.Proofs.Pages
import BitTemplate.Proofs.Rearrangement
import BitTemplate.Proofs.Expansion
import BitTemplate.Proofs.Session
import BitTemplate.Proofs.Linking
import BitTemplate.Proofs.Reordering
import BitTemplate.Proofs.Strictness
import BitTemplate.Proofs.Agreement
import BitTemplate.Proofs.Figures
import BitTemplate.Proofs.Conformity
import BitTemplate.Proofs.Description
import BitTemplate.Proofs.Spill
import BitTemplate.Proofs.Warnings
import BitTemplate.Proofs.Comments
import BitTemplate.Proofs.Words
import BitTemplate.Proofs.Scope
import BitTemplate.Proofs.Items
import BitTemplate.Proofs.Hygiene
import BitTemplate.Proofs.Settling
import BitTemplate.Proofs.FirstExcess
import BitTemplate.Proofs.Elision
import BitTemplate.Proofs.Origins
import BitTemplate.Proofs.Resolution
import BitTemplate.Proofs.Script
import BitTemplate.Proofs.Tokens
import BitTemplate.Proofs.Spelling
import BitTemplate.Proofs.Rendering
import BitTemplate.Proofs.Visibility
import BitTemplate.Proofs.Intent
import BitTemplate.Proofs.Shapes
import BitTemplate.Proofs.Legibility
import BitTemplate.Proofs.Pointing
import BitTemplate.Proofs.Diagnostics
import BitTemplate.Proofs.Lines
import BitTemplate.Proofs.Acceptance
import BitTemplate.Proofs.Runs
import BitTemplate.Proofs.Digits
import BitTemplate.Proofs.Movement
import BitTemplate.Proofs.Identity
import BitTemplate.Proofs.Documents
import BitTemplate.Proofs.Validation
