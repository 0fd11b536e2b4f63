import MonkeyLang.Main
import MonkeyLang.Host
import MonkeyLang.NameTable
import MonkeyLang.Store.Description
import MonkeyLang.Proofs.Parsing.Grammar
import MonkeyLang.Proofs.Parsing.Kinds
import MonkeyLang.Proofs.Parsing.Progress
import MonkeyLang.Proofs.Parsing.Soundness
import MonkeyLang.Proofs.Parsing.Completeness
import MonkeyLang.Proofs.Parsing.Acceptance
import MonkeyLang.Proofs.Parsing.Plan
import MonkeyLang.Proofs.Parsing.Braces
import MonkeyLang.Proofs.Parsing.Routine
import MonkeyLang.Proofs.Parsing.Descent
import MonkeyLang.Proofs.Parsing.Moments
import MonkeyLang.Proofs.Parsing.Termination
import MonkeyLang.Proofs.Parsing.Locality
import MonkeyLang.Proofs.Parsing.Viable
import MonkeyLang.Proofs.Parsing.ErrorOrder
import MonkeyLang.Proofs.Parsing.FirstError
import MonkeyLang.Proofs.Parsing.Inline
import MonkeyLang.Proofs.Parsing.Recovery
import MonkeyLang.Proofs.Parsing.Joining
import MonkeyLang.Proofs.Parsing.Layout
import MonkeyLang.Proofs.Lexing.Words
import MonkeyLang.Proofs.Lexing.Shapes
import MonkeyLang.Proofs.Lexing.Cutting
import MonkeyLang.Proofs.Lexing.MaximalMunch
import MonkeyLang.Proofs.Evaluation.Kept
import MonkeyLang.Proofs.Evaluation.LocalFrames
import MonkeyLang.Proofs.Evaluation.Plan
import MonkeyLang.Proofs.Evaluation.Moments
import MonkeyLang.Proofs.Evaluation.Invariant
import MonkeyLang.Proofs.Evaluation.Parts
import MonkeyLang.Proofs.Evaluation.CallDepth
import MonkeyLang.Proofs.Evaluation.Following
import MonkeyLang.Proofs.Evaluation.Fuel
import MonkeyLang.Proofs.Evaluation.Sessions
import MonkeyLang.Proofs.Evaluation.FrameGrowth
import MonkeyLang.Proofs.Evaluation.StoreGrowth
import MonkeyLang.Proofs.Evaluation.Assignments
import MonkeyLang.Proofs.Evaluation.AssignModes
import MonkeyLang.Proofs.Evaluation.Reachable
import MonkeyLang.Proofs.Evaluation.Guarded
import MonkeyLang.Proofs.Evaluation.LexicalDepth
import MonkeyLang.Proofs.Evaluation.Spans
import MonkeyLang.Proofs.Evaluation.Layout
import MonkeyLang.Proofs.Display.Canonical
import MonkeyLang.Proofs.Display.Derived
import MonkeyLang.Proofs.Display.Joints
import MonkeyLang.Proofs.Display.Lexes
import MonkeyLang.Proofs.Display.Printed
import MonkeyLang.Proofs.Display.ReadBack
import MonkeyLang.Proofs.Lexing.Lines
import MonkeyLang.Proofs.Sessions.Files
import MonkeyLang.Proofs.Sessions.Deletion
import MonkeyLang.Proofs.Evaluation.Termination
import MonkeyLang.Proofs.Evaluation.Signals
import MonkeyLang.Proofs.Lexing.Places
import MonkeyLang.Proofs.Parsing.Diagnostics
import MonkeyLang.Proofs.Parsing.Derivations
import MonkeyLang.Proofs.Parsing.Readings
import MonkeyLang.Proofs.Parsing.Nesting
import MonkeyLang.Proofs.Evaluation.Returns
import MonkeyLang.Proofs.Display.Grouping
import MonkeyLang.Proofs.Lexing.Written
import MonkeyLang.Proofs.Lexing.Reports
import MonkeyLang.Proofs.Evaluation.Cycles
import MonkeyLang.Proofs.Evaluation.Known
import MonkeyLang.Proofs.Evaluation.Containers
import MonkeyLang.Proofs.Evaluation.Environments
import MonkeyLang.Proofs.Evaluation.Integers
import MonkeyLang.Proofs.Parsing.EndMarker
import MonkeyLang.Proofs.Numbered.Appearance
