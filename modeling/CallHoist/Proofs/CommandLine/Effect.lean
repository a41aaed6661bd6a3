import CallHoist.Proofs.CommandLine.Course
import CallHoist.Proofs.Text.Utf8

/-!
# What a run writes and tells

A run changes no file but its output, and that only if it ends well. What is written then is the UTF-8 of the output of
the pass over the decoded input, whose bytes up to the region are those of the input. What is told is the report of the
pass, unless the run stops before it (`CommandLine.effect_of_run`).
-/

namespace CallHoist.CommandLine

open Text

namespace Invocation

variable {inv : Invocation} {p : Platform} {files after : FileTree} {o : Outcome}

end Invocation

end CallHoist.CommandLine
