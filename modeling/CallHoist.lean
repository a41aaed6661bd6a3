import CallHoist.Grammar.Derivation
import CallHoist.Grammar.Search
import CallHoist.Main
import CallHoist.Proofs.CommandLine.Effect
import CallHoist.Proofs.Grammar.Alone
import CallHoist.Proofs.Grammar.Enumeration
import CallHoist.Proofs.Grammar.Innermost
import CallHoist.Proofs.Grammar.Orders
import CallHoist.Proofs.Grammar.Rooted
import CallHoist.Proofs.Inference.Callee
import CallHoist.Proofs.Passes.Declarations
import CallHoist.Proofs.Passes.Parentheses
import CallHoist.Proofs.Rerun.Fresh
import CallHoist.Proofs.Rerun.Unbound
import CallHoist.Proofs.RuleFile.Priority
import CallHoist.Proofs.RuleFile.RoundTrip
import CallHoist.Proofs.Text.Utf8
