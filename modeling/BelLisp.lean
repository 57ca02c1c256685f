import BelLisp.Closure
import BelLisp.Context
import BelLisp.Datum.Basic
import BelLisp.Datum.List
import BelLisp.Datum.Outline
import BelLisp.Datum.Printer
import BelLisp.Eval.Action
import BelLisp.Eval.Basic
import BelLisp.Eval.Forms
import BelLisp.Eval.Fuel
import BelLisp.Eval.Steady
import BelLisp.Fault
import BelLisp.File.Path
import BelLisp.File.Tree
import BelLisp.Main
import BelLisp.Operand
import BelLisp.Options
import BelLisp.Primitive
import BelLisp.Program
import BelLisp.Reader.Form
import BelLisp.Reader.Token
import BelLisp.Reader.TokenStream
import BelLisp.Session
import BelLisp.Settings
import BelLisp.Shell
import BelLisp.Source.Block
import BelLisp.Source.Load
import BelLisp.Table
import BelLisp.Text.Blank
import BelLisp.Text.Integer
import BelLisp.Text.Lines
import BelLisp.Text.Printable
import BelLisp.Text.Quoted
import BelLisp.Text.Upper
import BelLisp.Text.Utf8
import BelLisp.Trace
import BelLisp.Proofs.Eval.Coupling
import BelLisp.Proofs.Context
import BelLisp.Proofs.Eval.Limit
import BelLisp.Proofs.Operations
import BelLisp.Proofs.Eval.Discipline
import BelLisp.Proofs.Eval.Registration
import BelLisp.Proofs.Reader.Legible
import BelLisp.Proofs.Reader.Printed
import BelLisp.Proofs.Reader.Steps
import BelLisp.Proofs.Reader.ReadBack
import BelLisp.Proofs.Reader.Grammar
import BelLisp.Proofs.Reader.Joined
import BelLisp.Proofs.Session.Sequence
import BelLisp.Proofs.Source.Blocks
import BelLisp.Proofs.Source.Load
import BelLisp.Proofs.Session.Unwinding
import BelLisp.Proofs.Eval.Calls
import BelLisp.Proofs.Eval.Locals
import BelLisp.Proofs.Eval.Reserved
import BelLisp.Proofs.Eval.Unmentioned
import BelLisp.Proofs.Eval.InStep
import BelLisp.Proofs.Eval.Redefinition
import BelLisp.Proofs.Source.Progress
import BelLisp.Proofs.Reader.Trimmed
import BelLisp.Proofs.Shell.Lines
import BelLisp.Proofs.Session.Legible
import BelLisp.Proofs.Reader.PairText
import BelLisp.Proofs.Eval.Termination
import BelLisp.Proofs.Reader.Layout
import BelLisp.Proofs.Eval.Definitions
import BelLisp.Proofs.Lists
import BelLisp.Proofs.Eval.Assignments
import BelLisp.Proofs.Parameters
import BelLisp.Proofs.Session.Installation
import BelLisp.Proofs.Eval.Arguments
import BelLisp.Proofs.Eval.Conditionals
import BelLisp.Proofs.Source.Count
import BelLisp.Proofs.Sequences
import BelLisp.Proofs.Outline
import BelLisp.Proofs.Reader.Lookahead
import BelLisp.Proofs.Eval.Reports
import BelLisp.Proofs.Program.Loading
import BelLisp.Proofs.Operands
import BelLisp.Proofs.Sameness
