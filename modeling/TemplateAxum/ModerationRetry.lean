import TemplateAxum.ModerationAttempts

/-!
# Retries

Applying the result of a build, again and again, each time perhaps broken off or with commands that fail: the issue is
always waiting or done, and it is done only with a checked commit pushed and a pull request open.
-/

namespace TemplateAxum.Moderation

open Prog

/-- The labels between which a build moves the issue. -/
def Kind.stage (kind : Kind) : List String := [kind.readyLabel, kind.doneLabel]

def SameStage (kind : Kind) (issue : String) (r r' : Remote) : Prop :=
  ∀ label ∈ kind.stage, (label ∈ r'.labels issue ↔ label ∈ r.labels issue)

/-- What a command of a job that applies a build does to the stage, the branch and the pull requests. -/
structure Moves (g : Commits) (job : Job) (start r r' : Remote) : Prop where
  settled : job.kind.readyLabel ∉ r.labels job.issue →
    r'.tips = r.tips ∧ r'.prs = r.prs ∧ SameStage job.kind job.issue r r'
  done : job.kind.doneLabel ∉ r.labels job.issue → job.kind.doneLabel ∈ r'.labels job.issue →
    r.openPrs job.branch ≠ [] ∧ ∃ base commit : Sha, job.baseSha = some base.name ∧ g.Linear base commit ∧
      g.Within (Allowed "") base commit ∧ (job.branch, commit) ∈ r.pushed.drop start.pushed.length
  push : r'.tips ≠ r.tips → ∃ base : Sha, job.baseSha = some base.name ∧
    ∀ tip, r.tips job.branch = some tip → g.Ancestor base tip

/-- What holds of the issue at every moment. -/
structure Retryable (kind : Kind) (issue : String) (r : Remote) : Prop where
  stage : kind.readyLabel ∈ r.labels issue ∨ kind.doneLabel ∈ r.labels issue
  one : (r.openPrs (kind.branch issue)).length ≤ 1

/-- The jobs: for the issue only those that apply a build, for others no cleanups. -/
def Retries (defaultBranch : String) (kind : Kind) (issue : String) (job : Job) : Prop :=
  job.env.defaultBranch = defaultBranch ∧ job.cleans = false ∧ (job.issue = issue → job.kind = kind ∧ job.builds = true)

/-- The others leave the stage of the issue and the pull requests of its branch. They can push to the branch. -/
def LeavesStage (kind : Kind) (issue : String) (r r' : Remote) : Prop :=
  SameStage kind issue r r' ∧ r'.openPrs (kind.branch issue) = r.openPrs (kind.branch issue)

section

variable {kind : Kind} {issue : String} {r r' : Remote} {job : Job} {start : Remote} {S : Setting}

theorem Retryable.of_same (h : Retryable kind issue r) (hsame : LeavesStage kind issue r r') : Retryable kind issue r' where
  stage := by
    rw [hsame.1 _ (List.mem_cons_self ..), hsame.1 _ (List.mem_cons_of_mem _ (List.mem_singleton_self _))]
    exact h.stage
  one := hsame.2 ▸ h.one

/-- A job of another issue leaves the stage. -/
theorem Setting.leavesStage_of_act (h : S.Act job start r r') (hcleans : job.cleans = false) (hne : issue ≠ job.issue) :
    LeavesStage kind issue r r' :=
  ⟨fun label _ => by rw [Setting.labels_of_act h hne],
    Setting.openPrs_of_act h hcleans fun hbranch => hne (Kind.branch_inj hbranch).2⟩

theorem Kind.stage_ne (kind : Kind) {label : String} (hlabel : label ∈ kind.stage) : label ≠ "needs-human" := by
  rintro rfl
  revert hlabel
  cases kind <;> decide

/-- A label beside the stage. -/
theorem sameStage_flag : SameStage kind issue r (r.edit issue [] ["needs-human"]) := fun label hlabel => by
  simp [Setting.mem_edit, kind.stage_ne hlabel]

theorem Setting.builds_cases (hbuilds : job.builds = true) : job.triages = false ∧ job.cleans = false ∧ job.only = "" := by
  refine ⟨triages_eq_false hbuilds, ?_, only_eq hbuilds⟩
  revert hbuilds
  unfold Job.builds Job.cleans
  cases job.task <;> simp

theorem Setting.moves_of_act (h : S.Act job start r r') (hbuilds : job.builds = true) (hkeeps : S.keeps job.issue job.kind) :
    Moves S.commits job start r r' := by
  obtain ⟨htriages, hcleans, honly⟩ := builds_cases hbuilds
  cases h with
  | still => exact ⟨fun _ => ⟨rfl, rfl, fun _ _ => Iff.rfl⟩, fun hno hdone => absurd hdone hno, fun h => absurd rfl h⟩
  | comment => exact ⟨fun _ => ⟨rfl, rfl, fun _ _ => Iff.rfl⟩, fun hno hdone => absurd hdone hno, fun h => absurd rfl h⟩
  | flag =>
    refine ⟨fun _ => ⟨rfl, rfl, sameStage_flag⟩, fun hno hdone => absurd ?_ hno, fun h => absurd rfl h⟩
    exact (sameStage_flag _ (List.mem_cons_of_mem _ (List.mem_singleton_self _))).1 hdone
  | push hbuilt hold _ hready =>
    exact ⟨fun hno => absurd (hready hbuilds hkeeps) hno, fun hno hdone => absurd hdone hno, fun _ => ⟨_, hbuilt.1, hold⟩⟩
  | openPr _ hready =>
    exact ⟨fun hno => absurd (hready hkeeps) hno, fun hno hdone => absurd hdone hno, fun h => absurd rfl h⟩
  | finish _ hready hsome hpushed =>
    obtain ⟨base, commit, ⟨hbase, hline, hwithin⟩, hmem⟩ := hpushed
    rw [honly] at hwithin
    exact ⟨fun hno => absurd (hready hkeeps) hno, fun _ _ => ⟨hsome hkeeps, base, commit, hbase, hline, hwithin, hmem⟩,
      fun h => absurd rfl h⟩
  | label htriages' => rw [htriages] at htriages'; cases htriages'
  | unlabel hcleans' => rw [hcleans] at hcleans'; cases hcleans'
  | note hcleans' => rw [hcleans] at hcleans'; cases hcleans'
  | close hcleans' => rw [hcleans] at hcleans'; cases hcleans'
  | delete hcleans' => rw [hcleans] at hcleans'; cases hcleans'

/-- What a job of the issue does keeps the issue waiting or done, with one pull request at most. -/
theorem Retryable.of_act (hr : Retryable job.kind job.issue r) (h : S.Act job start r r') (hbuilds : job.builds = true)
    (hkeeps : S.keeps job.issue job.kind) : Retryable job.kind job.issue r' := by
  obtain ⟨htriages, hcleans, -⟩ := Setting.builds_cases hbuilds
  cases h with
  | flag => exact hr.of_same ⟨sameStage_flag, rfl⟩
  | openPr _ _ hnone =>
    refine ⟨hr.stage, ?_⟩
    have hopen : r.openPrs (job.kind.branch job.issue) = [] := hnone hkeeps
    rw [Remote.openPr, Remote.openPrs, List.filter_append, show r.prs.filter _ = [] from hopen, List.nil_append]
    exact List.length_filter_le ..
  | finish => exact ⟨.inr (Setting.mem_edit.2 (.inr (List.mem_singleton_self _))), hr.one⟩
  | label htriages' => rw [htriages] at htriages'; cases htriages'
  | unlabel hcleans' => rw [hcleans] at hcleans'; cases hcleans'
  | note hcleans' => rw [hcleans] at hcleans'; cases hcleans'
  | close hcleans' => rw [hcleans] at hcleans'; cases hcleans'
  | delete hcleans' => rw [hcleans] at hcleans'; cases hcleans'
  | _ => exact ⟨hr.stage, hr.one⟩

end

/-! ### In every interleaving -/

section

variable {g : Commits} {runs : Tools} (hdocumented : Documented g runs) {defaultBranch : String}
  (hnamed : isSha defaultBranch = false) (kind : Kind) (issue : String)

/-- The others leave the stage of one issue. -/
def stageSetting : Setting where
  commits := g
  runs := runs
  documented := hdocumented
  defaultBranch := defaultBranch
  named := hnamed
  advances := False
  keeps i k := i = issue ∧ k = kind
  known _ _ := True

variable {hdocumented hnamed kind issue} {job : Job} {start r r' : Remote}

theorem stage_informed : (stageSetting hdocumented hnamed kind issue).Informed job :=
  ⟨fun _ _ _ _ => trivial, fun _ _ _ => trivial, fun _ _ _ _ _ => trivial⟩

theorem leaves_of_leavesStage {i : String} (hstage : i = issue → LeavesStage kind issue r r') (hpushed : r.pushed <+: r'.pushed) :
    (stageSetting hdocumented hnamed kind issue).Leaves i r r' where
  pushed := hpushed
  default := False.elim
  labels k hk := by
    obtain ⟨rfl, rfl⟩ := hk
    exact (hstage rfl).1
  prs k hk := by
    obtain ⟨rfl, rfl⟩ := hk
    exact (hstage rfl).2

theorem leaves_across {i : String} (hretries : Retries defaultBranch kind issue job) (hne : i ≠ job.issue)
    (hact : (stageSetting hdocumented hnamed kind issue).Act job start r r') :
    (stageSetting hdocumented hnamed kind issue).Leaves i r r' :=
  leaves_of_leavesStage (fun hi => Setting.leavesStage_of_act hact hretries.2.1 (hi ▸ hne)) (Setting.pushed_of_act hact)

theorem Retryable.of_step (hr : Retryable kind issue r) (hretries : Retries defaultBranch kind issue job)
    (hact : (stageSetting hdocumented hnamed kind issue).Act job start r r') : Retryable kind issue r' := by
  by_cases hissue : job.issue = issue
  · obtain ⟨hkind, hbuilds⟩ := hretries.2.2 hissue
    subst hkind hissue
    exact hr.of_act hact hbuilds ⟨rfl, rfl⟩
  · exact hr.of_same (Setting.leavesStage_of_act hact hretries.2.1 (Ne.symm hissue))

end

/-- Over every run of the jobs of all issues, where those of one issue apply builds, each command may fail, each job may be
broken off between any two commands, and others push to the branch as they like: the issue is waiting or done and has
one pull request at most; a job that fails has left the stage where it was; the done label comes only when this job has
pushed a checked commit and a pull request is open; and once the ready label is gone nothing of it changes. -/
theorem retry_safe {g : Commits} {runs : Tools} (hdocumented : Documented g runs) {defaultBranch : String}
    (hnamed : isSha defaultBranch = false) {kind : Kind} {issue : String} {s : State} {past : List State}
    (h : Trace (fun s => Idle s ∧ kind.readyLabel ∈ s.shared.remote.labels issue ∧
        (s.shared.remote.openPrs (kind.branch issue)).length ≤ 1)
      (Steps runs (fun _ => Retries defaultBranch kind issue) (LeavesStage kind issue)) (s :: past)) :
    Retryable kind issue s.shared.remote ∧
      ∀ job start, (∀ status, s.running issue = some ⟨job, start, .raise status⟩ → status ≠ 0 →
          SameStage kind issue start.remote s.shared.remote) ∧
        ∀ c cont answer w, s.running issue = some ⟨job, start, .call c cont⟩ → World.answers runs issue s.shared c answer w →
          job.kind = kind ∧ Moves g job start.remote s.shared.remote w.remote := by
  have hsuits : (stageSetting hdocumented hnamed kind issue).Suits (fun _ => Retries defaultBranch kind issue)
      (LeavesStage kind issue) (Retries defaultBranch kind issue) (Retryable kind issue) := {
    informed := fun _ _ _ hretries => ⟨stage_informed, hretries.1, trivial, hretries⟩
    across := fun _ _ _ _ _ hretries hne hact => leaves_across hretries hne hact
    beside := fun _ _ _ hothers hpushed => leaves_of_leavesStage (fun _ => hothers) (by rw [hpushed])
    keeps := fun _ _ _ _ hr hretries hact => hr.of_step hretries hact
    stays := fun _ _ hr hothers _ => hr.of_same hothers }
  have hguarded := hsuits.guarded (fun s hs => ⟨⟨.inl hs.2.1, hs.2.2⟩, hs.1⟩) h
  refine ⟨hguarded.shared, fun job start => ⟨fun status hrunning hstatus => ?_, fun c cont answer w hrunning hans => ?_⟩⟩
  · obtain rfl := hguarded.key issue _ hrunning
    obtain ⟨hretries, hending⟩ := hguarded.running job.issue _ hrunning s.shared (Setting.Rely.refl _)
    obtain ⟨rfl, -⟩ := hretries.2.2 rfl
    exact (hending hretries.2.1 hstatus).unmoved ⟨rfl, rfl⟩
  · obtain ⟨rfl, ⟨hretries, hact, -⟩, -⟩ := Crew.Guarded.call hguarded (fun _ => Setting.Rely.refl) hrunning hans
    obtain ⟨rfl, hbuilds⟩ := hretries.2.2 rfl
    exact ⟨rfl, Setting.moves_of_act hact hbuilds ⟨rfl, rfl⟩⟩

/-! An attempt that is broken off after its push, and another one up to its last command. -/

theorem retries_attemptOver (base : Sha) : Retries "main" .bug "7" (attemptOver base) := ⟨rfl, rfl, fun _ => ⟨rfl, rfl⟩⟩

theorem retry_safe_waiting : ∃ (s : State) (start w : World), s.shared.remote.pushed =
      [(Kind.branch .bug "7", secondSha), (Kind.branch .bug "7", secondSha)] ∧
    start.remote.pushed = [(Kind.branch .bug "7", secondSha)] ∧ Kind.doneLabel .bug ∈ w.remote.labels "7" ∧
    Retryable .bug "7" s.shared.remote ∧ Moves threeCommits (attemptOver firstSha) start.remote s.shared.remote w.remote := by
  have hdocumented := documented_plainTools threeCommits
  have htrace : Trace (fun s => Idle s ∧ Kind.readyLabel .bug ∈ s.shared.remote.labels "7" ∧
      (s.shared.remote.openPrs (Kind.branch .bug "7")).length ≤ 1)
      (Steps (plainTools threeCommits) (fun _ => Retries "main" .bug "7") (LeavesStage .bug "7")) [⟨waiting, fun _ => none⟩] :=
    .start ⟨fun _ => rfl, Finset.mem_singleton_self _, Nat.zero_le 1⟩
  obtain ⟨s₁, past₁, htrace₁, hr₁⟩ := exists_pushed htrace (retries_attemptOver _) linear_second (Finset.mem_singleton_self _) rfl
  obtain ⟨w₂, cont, hedit₂, -, -, hpushes₂, -⟩ := (attempt_attemptOver firstSha).leads_edit (w := s₁.shared) hdocumented
    (able_plainTools threeCommits) (passing_of_linear linear_second) (by rw [hr₁]; exact Finset.mem_singleton_self _)
    (by rw [hr₁]; exact Remote.push_tips) linear_second.ancestor
  obtain ⟨s₂, past₂, htrace₂, -, rfl, hrunning₂⟩ := Crew.exists_start (r := attemptOver firstSha) htrace₁
    (retries_attemptOver _) hedit₂
  have hans : World.answers (plainTools threeCommits) "7" s₂.shared
      (.issueEdit "7" [Kind.readyLabel .bug, "needs-human"] [Kind.doneLabel .bug]) (some ())
      ⟨s₂.shared.remote.edit "7" [Kind.readyLabel .bug, "needs-human"] [Kind.doneLabel .bug], s₂.shared.clones⟩ :=
    ⟨⟨rfl, rfl⟩, fun _ _ => rfl⟩
  have hsafe := retry_safe hdocumented (by decide) htrace₂
  have hmoves := ((hsafe.2 _ _).2 _ _ _ _ hrunning₂ hans).2
  refine ⟨s₂, s₁.shared, _, ?_, ?_, Setting.mem_edit.2 (.inr (List.mem_singleton_self _)), hsafe.1, hmoves⟩
  · rw [hpushes₂, hr₁]
    rfl
  · rw [hr₁]
    rfl

end TemplateAxum.Moderation
