import WorkbookPlan.Text.Case
import WorkbookPlan.Text.Word
import WorkbookPlan.Text.Basic
import WorkbookPlan.Text.Pattern
import WorkbookPlan.Decimal.Shortest
import WorkbookPlan.Json.Basic
import WorkbookPlan.Json.Printer
import WorkbookPlan.Json.Reader
import WorkbookPlan.Json.Decode
import WorkbookPlan.Sheet.Area
import WorkbookPlan.Formula.SheetMention
import WorkbookPlan.Formula.FieldReference
import WorkbookPlan.Formula.Call
import WorkbookPlan.Formula.Lookup
import WorkbookPlan.Step.Exchange
import WorkbookPlan.Settings.Environment
import WorkbookPlan.Settings.File
import WorkbookPlan.Draft.Basic
import WorkbookPlan.Step.Writes
import WorkbookPlan.Verdict.Exchange
import WorkbookPlan.Verdict.Check
import WorkbookPlan.Verdict.Risks
import WorkbookPlan.Question.Detect
import WorkbookPlan.Repair.Basic
import WorkbookPlan.Plan.Basic
import WorkbookPlan.Plan.Exchange
import WorkbookPlan.Plan.Build
import WorkbookPlan.Plan.Run
import WorkbookPlan.Proofs.Repair.Mint
import WorkbookPlan.Proofs.Repair.Patch
import WorkbookPlan.Proofs.Plan.Marking
import WorkbookPlan.Proofs.Plan.Chain
import WorkbookPlan.Proofs.Run.Move
import WorkbookPlan.Proofs.Run.Tidy
import WorkbookPlan.Proofs.Run.Trace
import WorkbookPlan.Proofs.Run.Termination
import WorkbookPlan.Proofs.Plan.Grounded
import WorkbookPlan.Proofs.Run.Orderly
import WorkbookPlan.Proofs.Run.Dependencies
import WorkbookPlan.Proofs.Step.Peel
import WorkbookPlan.Proofs.Step.Founded
import WorkbookPlan.Proofs.Step.Schedule
import WorkbookPlan.Proofs.Run.Final
import WorkbookPlan.Proofs.Plan.Earned
import WorkbookPlan.Proofs.Run.Moments
import WorkbookPlan.Proofs.Run.Edits
import WorkbookPlan.Proofs.Draft.Ordered
import WorkbookPlan.Proofs.Verdict.Check
import WorkbookPlan.Proofs.Draft.Formulas
import WorkbookPlan.Proofs.Run.Calculation
import WorkbookPlan.Proofs.Run.Extension
import WorkbookPlan.Proofs.Run.Integrity
import WorkbookPlan.Proofs.Run.Books
import WorkbookPlan.Proofs.Run.Success
import WorkbookPlan.Proofs.Text.Blank
import WorkbookPlan.Proofs.Sheet.Column
import WorkbookPlan.Proofs.Sheet.Reference
import WorkbookPlan.Proofs.Sheet.Area
import WorkbookPlan.Proofs.Step.Ancestors
import WorkbookPlan.Proofs.Step.Footprint
import WorkbookPlan.Proofs.Draft.Rules
import WorkbookPlan.Proofs.Draft.Writes
import WorkbookPlan.Proofs.Plan.Gate
import WorkbookPlan.Proofs.Repair.Offspring
import WorkbookPlan.Proofs.Draft.Columns
import WorkbookPlan.Proofs.Run.Origin
import WorkbookPlan.Proofs.Run.Allowed
import WorkbookPlan.Proofs.Run.RollBack
import WorkbookPlan.Proofs.Plan.StandIn
import WorkbookPlan.Proofs.Step.Batches
import WorkbookPlan.Proofs.Formula.Literal
import WorkbookPlan.Proofs.Verdict.Literal
import WorkbookPlan.Proofs.Json.Number
import WorkbookPlan.Proofs.Plan.Exchange
import WorkbookPlan.Proofs.Run.Refusal
import WorkbookPlan.Proofs.Formula.Call
import WorkbookPlan.Proofs.Formula.Lookup
import WorkbookPlan.Proofs.Formula.OnePass
import WorkbookPlan.Proofs.Formula.FieldReference
import WorkbookPlan.Proofs.Formula.Lexeme
import WorkbookPlan.Proofs.Formula.Unwrap
import WorkbookPlan.Proofs.Step.Stuck
import WorkbookPlan.Proofs.Step.Clashes
import WorkbookPlan.Proofs.Draft.Ownership
import WorkbookPlan.Proofs.Draft.Parts
import WorkbookPlan.Proofs.Draft.Sources
import WorkbookPlan.Proofs.Draft.Creation
import WorkbookPlan.Proofs.Draft.Expectations
import WorkbookPlan.Proofs.Draft.Headers
import WorkbookPlan.Proofs.Sheet.Tiling
import WorkbookPlan.Proofs.Repair.Split
import WorkbookPlan.Proofs.Repair.Shape
import WorkbookPlan.Proofs.Formula.Guard
import WorkbookPlan.Proofs.Text.Pattern
import WorkbookPlan.Proofs.Repair.MissingSheet
import WorkbookPlan.Proofs.Repair.Clearing
import WorkbookPlan.Proofs.Repair.ReadOnly
import WorkbookPlan.Proofs.Verdict.Findings
import WorkbookPlan.Proofs.Repair.Prerequisite
import WorkbookPlan.Proofs.Verdict.Drafted
import WorkbookPlan.Proofs.Owners.Log
import WorkbookPlan.Proofs.Question.Detect
import WorkbookPlan.Proofs.Settings.Environment
import WorkbookPlan.Proofs.Sheet.Lettering
import WorkbookPlan.Proofs.Sheet.Overlap
import WorkbookPlan.Proofs.Owners.FirstSeen
import WorkbookPlan.Proofs.Formula.Blanking
