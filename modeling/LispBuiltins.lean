import LispBuiltins.Main
import LispBuiltins.Proofs.Coloring
import LispBuiltins.Proofs.Discipline
import LispBuiltins.Proofs.Failures
import LispBuiltins.Proofs.FirstError
import LispBuiltins.Proofs.Grammar
import LispBuiltins.Proofs.Messages
import LispBuiltins.Proofs.Overflow
import LispBuiltins.Proofs.ReportLine
import LispBuiltins.Proofs.Rereading
import LispBuiltins.Proofs.Scripts
import LispBuiltins.Proofs.Truncation
