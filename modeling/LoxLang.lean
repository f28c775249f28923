import LoxLang.Highlight
import LoxLang.Main
import LoxLang.Proofs.Concatenation.Sessions
import LoxLang.Proofs.Course.Laws
import LoxLang.Proofs.Fuel
import LoxLang.Proofs.Grammar.Depth
import LoxLang.Proofs.Grammar.Stuck
import LoxLang.Proofs.Lexemes
import LoxLang.Proofs.Lexical.Sessions
import LoxLang.Proofs.Prompt.RunningOut
import LoxLang.Proofs.Prompt.Continuation
import LoxLang.Proofs.Prompt.Closing
import LoxLang.Proofs.Scoping.Reports
import LoxLang.Proofs.Places.Basic
import LoxLang.Proofs.Places.Reading
import LoxLang.Proofs.Places.Running
import LoxLang.Proofs.Places.Sessions
import LoxLang.Proofs.Course.Calls
import LoxLang.Proofs.Course.Truncation
import LoxLang.Proofs.Integrity.Basic
import LoxLang.Proofs.Integrity.Steps
import LoxLang.Proofs.Integrity.Evaluation
import LoxLang.Proofs.Integrity.Sessions
import LoxLang.Proofs.Integrity.Globals
import LoxLang.Proofs.Integrity.Methods
import LoxLang.Proofs.Layout.Skipped
import LoxLang.Proofs.Layout.Reading
import LoxLang.Proofs.Layout.Words
import LoxLang.Proofs.Items.Coverage
import LoxLang.Proofs.Items.Runs
import LoxLang.Proofs.Cursor.Nesting
import LoxLang.Proofs.Returns.Unwinding
import LoxLang.Proofs.Counting.Loops
import LoxLang.Proofs.Integrity.Classes
import LoxLang.Proofs.Search
import LoxLang.Proofs.Highlighting
import LoxLang.Proofs.Printing.Unambiguous
import LoxLang.Proofs.Decimal.Display
