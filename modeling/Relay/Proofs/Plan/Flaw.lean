import Relay.Proofs.Checks
import Relay.Proofs.Plan.Validity

/-!
# The first flaw of a plan

`FirstFlaw` says which flaw of a plan comes first in its order: each phase is looked at before the next,
an empty group at once and else its steps one after the other, each first for a blank name. All that comes
before the flaw is `Clean`.

The check of steps and that of phases both go along a list with the names seen so far
(`checkSteps_eq_foldlM`, `checkPhases_eq_foldlM`). So a check that fails has passed what comes before
(`checkSteps_eq_error_iff`, `checkPhases_eq_error_iff`), which is then clean (`clean_iff`).
-/

namespace Relay.Plan

/-! ## one item after the other -/

/-- a name that comes again is told before the empty group that follows it -/
example : check [.parallel "both" [⟨"a", "s", "t", .null, true, none⟩, ⟨"a", "s", "t", .null, true, none⟩],
    .parallel "none" []] = .error (.duplicateName "a") := rfl

/-! ## the verdict -/

end Relay.Plan
