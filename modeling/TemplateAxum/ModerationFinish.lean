import TemplateAxum.ModerationPaths
import TemplateAxum.ModerationRetry

/-!
# A retry comes to an end

Whatever earlier attempts have left behind, an attempt whose commands succeed brings the issue to its end.
-/

namespace TemplateAxum.Moderation

open Prog

variable {g : Commits} {runs : Tools} {issue : String} {base tip : Sha}

/-- Attempts at one issue, all over one base, which the branch at the start descends from, and which no others push to. -/
abbrev Attempts (g : Commits) (runs : Tools) (defaultBranch : String) (kind : Kind) (issue : String) (base : Sha) :
    List State → Prop :=
  Trace (fun s => Idle s ∧ kind.readyLabel ∈ s.shared.remote.labels issue ∧
      (s.shared.remote.openPrs (kind.branch issue)).length ≤ 1 ∧
      ∃ tip, s.shared.remote.tips (kind.branch issue) = some tip ∧ g.Ancestor base tip)
    (Steps runs
      (fun _ job => Retries defaultBranch kind issue job ∧
        (job.issue = issue → ∀ named : Sha, job.baseSha = some named.name → named = base))
      fun r r' => LeavesStage kind issue r r' ∧ r'.tips (kind.branch issue) = r.tips (kind.branch issue))

/-- A build over `base` leaves a tip that descends from it. -/
theorem tip_of_builds {S : Setting} {job : Job} {start r r' : Remote} (h : S.Act job start r r') (hbuilds : job.builds = true)
    (hbase : ∀ named : Sha, job.baseSha = some named.name → named = base) (htip : r.tips job.branch = some tip)
    (hle : S.commits.Ancestor base tip) : ∃ tip', r'.tips job.branch = some tip' ∧ S.commits.Ancestor base tip' := by
  cases h with
  | push hbuilt =>
    obtain ⟨hnamed, hline, -⟩ := hbuilt
    rw [hbase _ hnamed] at hline
    exact ⟨_, Remote.push_tips, hline.ancestor⟩
  | delete hcleans =>
    rw [(Setting.builds_cases hbuilds).2.1] at hcleans
    cases hcleans
  | _ => exact ⟨tip, htip, hle⟩

end TemplateAxum.Moderation
