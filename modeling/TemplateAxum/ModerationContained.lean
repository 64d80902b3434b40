import TemplateAxum.ModerationAttempts

/-!
# What a moderation job can change

Whatever an untrusted result says, a command of a job stays within its issue.
-/

namespace TemplateAxum.Moderation

open Prog

namespace Job

/-- The labels that a job may add. -/
def adds (job : Job) : List String :=
  match job.task with
  | .triage _ => "needs-human" :: job.kind.labelFor.map Prod.snd
  | .result _ => ["needs-human", job.kind.doneLabel]
  | _ => []

/-- What a command of a job may change: labels of its issue, to those of its table; its branch, by a commit over the
named base that passes the check of paths; its pull request; and comments on its issue, which mention nobody. A cleanup
closes a pull request, and says there why. -/
structure Contained (g : Commits) (defaultBranch : String) (job : Job) (r r' : Remote) : Prop where
  labels : ∀ issue ≠ job.issue, r'.labels issue = r.labels issue
  added : r'.labels job.issue ⊆ r.labels job.issue ∪ job.adds.toFinset
  tips : ∀ branch ≠ job.branch, r'.tips branch = r.tips branch
  tip : ∀ commit, r'.tips job.branch = some commit → r.tips job.branch = some commit ∨
    ∃ base : Sha, job.baseSha = some base.name ∧ g.Linear base commit ∧ g.Within (Allowed job.only) base commit ∧
      ∀ tip, r.tips job.branch = some tip → g.Ancestor base tip
  prs : r'.prs = r.prs ∨ job.cleans = true ∧ (∃ number, r'.prs = (r.closePr number).prs) ∨
    ∃ pr, r'.prs = r.prs ++ [pr] ∧ job.builds = true ∧ pr.head = job.branch ∧ pr.base = defaultBranch ∧ Quiet pr.body.toList
  comments : r'.comments = r.comments ∨
    ∃ body, r'.comments = r.comments ++ [(job.issue, body)] ∧ (job.env.Plain → Quiet body.toList)
  prComments : r'.prComments = r.prComments ∨ job.cleans = true ∧ Quiet job.closing.toList ∧
    ∃ number, r'.prComments = r.prComments ++ [(number, job.closing)]

end Job

theorem mem_adds {job : Job} {action label : String} (htriages : job.triages = true)
    (hlabel : job.kind.labelFor.lookup action = some label) : label ∈ job.adds := by
  have hmem : label ∈ job.kind.labelFor.map Prod.snd := by
    obtain ⟨l₁, l₂, heq, -⟩ := List.lookup_eq_some_iff.1 hlabel
    rw [heq]
    simp
  revert htriages
  unfold Job.triages Job.adds
  cases job.task <;> simp [hmem]

theorem needsHuman_mem_adds {job : Job} (hjudges : job.cleans = false) : "needs-human" ∈ job.adds := by
  revert hjudges
  unfold Job.cleans Job.adds
  cases job.task <;> simp

theorem doneLabel_mem_adds {job : Job} (hbuilds : job.builds = true) : job.kind.doneLabel ∈ job.adds := by
  revert hbuilds
  unfold Job.builds Job.adds
  cases job.task <;> simp

namespace Setting

variable {S : Setting} {job : Job} {start r r' : Remote}

theorem edit_subset {r : Remote} {issue : String} {remove add : List String} (h : ∀ label ∈ add, label ∈ job.adds) :
    (r.edit issue remove add).labels issue ⊆ r.labels issue ∪ job.adds.toFinset := by
  intro label hlabel
  rcases mem_edit.1 hlabel with ⟨hlabel, -⟩ | hlabel
  · exact Finset.mem_union_left _ hlabel
  · exact Finset.mem_union_right _ (List.mem_toFinset.2 (h label hlabel))

theorem added_of_act (h : S.Act job start r r') : r'.labels job.issue ⊆ r.labels job.issue ∪ job.adds.toFinset := by
  cases h with
  | label htriages hlabel => exact edit_subset (List.forall_mem_singleton.2 (mem_adds htriages hlabel))
  | flag hjudges => exact edit_subset (List.forall_mem_singleton.2 (needsHuman_mem_adds hjudges))
  | finish hbuilds => exact edit_subset (List.forall_mem_singleton.2 (doneLabel_mem_adds hbuilds))
  | unlabel => exact edit_subset nofun
  | _ => exact Finset.subset_union_left

theorem tip_of_act (h : S.Act job start r r') {commit : Sha} (hcommit : r'.tips job.branch = some commit) :
    r.tips job.branch = some commit ∨ ∃ base : Sha, S.Built job base commit ∧
      (∀ tip, r.tips job.branch = some tip → S.commits.Ancestor base tip) ∧
      (S.advances → r.tips job.branch = none → S.OnDefault base r) := by
  cases h with
  | push hbuilt hold hon =>
    rw [Remote.push_tips] at hcommit
    cases hcommit
    exact .inr ⟨_, hbuilt, hold, fun hadvances hnone => hon hadvances (.inr hnone)⟩
  | delete =>
    rw [Remote.delete_tips] at hcommit
    cases hcommit
  | _ => exact .inl hcommit

theorem contained_of_act (h : S.Act job start r r') : job.Contained S.commits S.defaultBranch r r' where
  labels _ hne := labels_of_act h hne
  added := added_of_act h
  tips _ hne := tips_of_act h hne
  tip commit hcommit := by
    rcases tip_of_act h hcommit with hsame | ⟨base, ⟨hbase, hline, hwithin⟩, hold, -⟩
    · exact .inl hsame
    · exact .inr ⟨base, hbase, hline, hwithin, hold⟩
  prs := by
    cases h with
    | openPr hbuilds _ _ hquiet => exact .inr (.inr ⟨_, rfl, hbuilds, rfl, rfl, hquiet⟩)
    | close hcleans => exact .inr (.inl ⟨hcleans, _, rfl⟩)
    | _ => exact .inl rfl
  comments := by
    cases h with
    | comment hquiet => exact .inr ⟨_, rfl, hquiet⟩
    | _ => exact .inl rfl
  prComments := by
    cases h with
    | note hcleans => exact .inr ⟨hcleans, quiet_closing job, _, rfl⟩
    | close hcleans => exact .inr ⟨hcleans, quiet_closing job, _, rfl⟩
    | _ => exact .inl rfl

end Setting

/-- Whatever the results say, in every interleaving of jobs and with everything else changing as it likes: a command of a
job stays within its issue. -/
theorem contained {g : Commits} {runs : Tools} (hdocumented : Documented g runs) {defaultBranch : String}
    (hnamed : isSha defaultBranch = false) {s : State} {past : List State}
    (h : Trace Idle (Steps runs (fun _ job => job.env.defaultBranch = defaultBranch) fun _ _ => True) (s :: past))
    {issue : String} {job : Job} {start w : World} {c : Command} {cont : Answer c → Script Unit} {answer : Answer c}
    (hrunning : s.running issue = some ⟨job, start, .call c cont⟩) (hans : World.answers runs issue s.shared c answer w) :
    job.issue = issue ∧ job.Contained g defaultBranch s.shared.remote w.remote := by
  let S : Setting := ⟨g, runs, hdocumented, defaultBranch, hnamed, False, fun _ _ => False, fun _ _ => True⟩
  have hsuits : S.Suits (fun _ job => job.env.defaultBranch = defaultBranch) (fun _ _ => True) (fun _ => True)
      (fun _ => True) := {
    informed := fun _ _ _ henv =>
      ⟨⟨fun _ _ _ _ => trivial, fun _ _ _ => trivial, fun _ _ _ _ _ => trivial⟩, henv, trivial, trivial⟩
    across := fun _ _ _ _ _ _ _ hact => ⟨Setting.pushed_of_act hact, False.elim, fun _ => False.elim, fun _ => False.elim⟩
    beside := fun _ _ _ _ hpushed => ⟨by rw [hpushed], False.elim, fun _ => False.elim, fun _ => False.elim⟩
    keeps := fun _ _ _ _ _ _ _ => trivial
    stays := fun _ _ _ _ _ => trivial }
  have hguarded := hsuits.guarded (fun s hs => ⟨trivial, hs⟩) h
  obtain ⟨hissue, ⟨-, hact, -⟩, -⟩ := Crew.Guarded.call hguarded (fun _ => Setting.Rely.refl) hrunning hans
  exact ⟨hissue, Setting.contained_of_act hact⟩

/-! A cleanup after an attempt that has come to its end. -/

def closingJob : Job := ⟨issueSeven, .bug, .cleanup⟩

example : closingJob.closing = "Closing: linked issue #7 was closed." := rfl

theorem contained_closingJob : ∃ (s : State) (number : Nat), s.shared.remote.openPrs closingJob.branch ≠ [] ∧
    closingJob.Contained threeCommits "main" s.shared.remote
      ((s.shared.remote.commentPr number closingJob.closing).closePr number) := by
  have hdocumented := documented_plainTools threeCommits
  have htrace : Trace Idle (Steps (plainTools threeCommits) (fun _ job => job.env.defaultBranch = "main") fun _ _ => True)
      [⟨waiting, fun _ => none⟩] := .start fun _ => rfl
  obtain ⟨w₁, hend₁, -, -, -, hopen⟩ := (attempt_attemptOver firstSha).leads_end (w := waiting) hdocumented
    (able_plainTools threeCommits) (passing_of_linear linear_second) (Finset.mem_singleton_self _) rfl (.refl _)
  obtain ⟨s₁, past₁, htrace₁, -, rfl, -⟩ := Crew.exists_start (r := attemptOver firstSha) htrace rfl hend₁
  obtain ⟨pr, hpr⟩ := List.exists_mem_of_ne_nil _ hopen
  obtain ⟨hpr, hstate⟩ := List.mem_filter.1 hpr
  obtain ⟨hhead, hstate⟩ := of_decide_eq_true hstate
  have hlist : World.answers (plainTools threeCommits) "7" s₁.shared (.prListAll closingJob.branch)
      (some (some (pr.number, .open))) s₁.shared := ⟨⟨⟨pr, hpr, hhead, rfl, hstate⟩, rfl, rfl⟩, fun _ _ => rfl⟩
  obtain ⟨s₂, past₂, htrace₂, -, hshared, hrunning⟩ := Crew.exists_start (r := closingJob) htrace₁ rfl (.call hlist (.refl ..))
  have hisOpen : s₂.shared.remote.isOpen pr.number = true := by
    rw [hshared]
    exact List.any_eq_true.2 ⟨pr, hpr, decide_eq_true ⟨rfl, hstate⟩⟩
  have hans : World.answers (plainTools threeCommits) "7" s₂.shared (.prClose pr.number closingJob.closing) (some ())
      ⟨(s₂.shared.remote.commentPr pr.number closingJob.closing).closePr pr.number, s₂.shared.clones⟩ :=
    ⟨⟨(if_pos hisOpen).symm, rfl⟩, fun _ _ => rfl⟩
  refine ⟨s₂, pr.number, ?_, (contained hdocumented (by decide) htrace₂ hrunning hans).2⟩
  rw [hshared]
  exact hopen

end TemplateAxum.Moderation
