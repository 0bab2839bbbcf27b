import Mowis.Review.Apply

/-!
# What the decisions of a review do

The diff of a review, applied to the files of a base.
-/

namespace Mowis.Review

open Mowis.Lib

def contributorsOf (contributions : List AgentContribution) (path : Text) :
    List AgentContribution :=
  contributions.filter fun c => c.fileChanges.any (·.filePath = path)

def chosen (contributions : List AgentContribution) (path agent : Text) :
    Option AgentContribution :=
  ((contributorsOf contributions path).find? (·.agentId = agent)).or
    (contributorsOf contributions path).head?

section Change

variable {contributions : List AgentContribution} {d : MergeDecision}

end Change

section Apart

variable {contributions : List AgentContribution}

end Apart

section Diff

variable {contributions : List AgentContribution}

end Diff

/-! ### Each decision -/

section Decision

variable {contributions : List AgentContribution} {base final : Files} {ds : List MergeDecision}

end Decision

end Mowis.Review
