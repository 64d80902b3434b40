import TemplateAxum.ModerationContained

/-!
# The path guard over whole runs

A push is checked against the base it names, and the next one may build on it. When every base is a commit of the default
branch or one that was a tip of the branch, the checks compose: a branch of the automation differs from where it leaves
the default branch in allowed paths only.
-/

namespace TemplateAxum.Moderation

open Prog

variable {g : Commits} {runs : Tools} {defaultBranch : String} {kind : Kind} {issue : String} {r r' : Remote} {job : Job}
  {start : Remote} {S : Setting} {commit base foot : Sha}

/-- A commit on a line from the default branch, which it differs from in allowed paths only. -/
def Clean (g : Commits) (defaultBranch : String) (r : Remote) (commit : Sha) : Prop :=
  ∃ foot head, r.tips defaultBranch = some head ∧ g.Ancestor foot head ∧ g.Linear foot commit ∧
    g.Within (Allowed "") foot commit

/-- The default branch goes forward. -/
def Forward (g : Commits) (defaultBranch : String) (r r' : Remote) : Prop :=
  ∀ head, r.tips defaultBranch = some head → ∃ head', r'.tips defaultBranch = some head' ∧ g.Ancestor head head'

theorem Clean.forward (h : Clean g defaultBranch r commit) (hforward : Forward g defaultBranch r r') :
    Clean g defaultBranch r' commit := by
  obtain ⟨foot, head, hhead, hfoot, hline, hwithin⟩ := h
  obtain ⟨head', hhead', hle⟩ := hforward head hhead
  exact ⟨foot, head', hhead', hfoot.trans hle, hline, hwithin⟩

/-- The check of one push carries over from its base. -/
theorem Clean.push {only : String} (h : Clean g defaultBranch r base) (hline : g.Linear base commit)
    (hwithin : g.Within (Allowed only) base commit) : Clean g defaultBranch r commit := by
  obtain ⟨foot, head, hhead, hfoot, hline', hwithin'⟩ := h
  refine ⟨foot, head, hhead, hfoot, hline'.trans hline, hwithin'.trans (hwithin.mono ?_)⟩
  exact fun path entry hallowed => ⟨hallowed.1, hallowed.2.1, List.nil_prefix⟩

/-- The base that a result names is on the default branch, or has been a tip of the branch that a job pushed. -/
def Rooted (g : Commits) (defaultBranch : String) (r : Remote) (job : Job) : Prop :=
  job.env.defaultBranch = defaultBranch ∧ ∀ base : Sha, job.baseSha = some base.name →
    (∃ head, r.tips defaultBranch = some head ∧ g.Ancestor base head) ∨ (job.branch, base) ∈ r.pushed

/-- Others push to the default branch, and only forward; not to the branches of the automation. -/
def LeavesBranches (g : Commits) (defaultBranch : String) (r r' : Remote) : Prop :=
  Forward g defaultBranch r r' ∧ ∀ kind issue, r'.tips (Kind.branch kind issue) = r.tips (Kind.branch kind issue)

/-- What has been pushed is clean, and so are the tips. -/
structure AllClean (g : Commits) (defaultBranch : String) (r : Remote) : Prop where
  pushed : ∀ entry ∈ r.pushed, Clean g defaultBranch r entry.2
  tips : ∀ kind issue tip, r.tips (Kind.branch kind issue) = some tip → Clean g defaultBranch r tip

theorem AllClean.forward (h : AllClean g defaultBranch r) (hforward : Forward g defaultBranch r r')
    (hpushed : r'.pushed = r.pushed)
    (htips : ∀ kind issue tip, r'.tips (Kind.branch kind issue) = some tip → r.tips (Kind.branch kind issue) = some tip) :
    AllClean g defaultBranch r' :=
  ⟨fun entry hentry => (h.pushed entry (hpushed ▸ hentry)).forward hforward,
    fun kind issue tip htip => (h.tips kind issue tip (htips kind issue tip htip)).forward hforward⟩

theorem AllClean.push (h : AllClean g defaultBranch r) (hclean : Clean g defaultBranch r commit)
    (hforward : Forward g defaultBranch r (r.push job.branch commit)) : AllClean g defaultBranch (r.push job.branch commit) := by
  refine ⟨fun entry hentry => ?_, fun kind issue tip htip => ?_⟩
  · rcases List.mem_append.1 hentry with hentry | hentry
    · exact (h.pushed entry hentry).forward hforward
    · rw [List.mem_singleton.1 hentry]
      exact hclean.forward hforward
  · by_cases hbranch : kind.branch issue = job.branch
    · rw [hbranch, Remote.push_tips] at htip
      cases htip
      exact hclean.forward hforward
    · rw [Remote.push_tips_of_ne hbranch] at htip
      exact (h.tips kind issue tip htip).forward hforward

/-! ### In every interleaving -/

section

variable (hdocumented : Documented g runs) (hnamed : isSha defaultBranch = false)

/-- The default branch goes forward, and the base of a result is known to be clean. -/
def guardSetting : Setting where
  commits := g
  runs := runs
  documented := hdocumented
  defaultBranch := defaultBranch
  named := hnamed
  advances := True
  keeps _ _ := False
  known job r := ∀ base : Sha, job.baseSha = some base.name → Clean g defaultBranch r base

variable {hdocumented hnamed} (hdefault : ∀ kind issue, Kind.branch kind issue ≠ defaultBranch)
include hdefault

theorem forward_of_act (h : (guardSetting hdocumented hnamed).Act job start r r') : Forward g defaultBranch r r' := by
  intro head hhead
  have hsame := Setting.tips_of_act h (hdefault job.kind job.issue).symm
  exact ⟨head, by rw [hsame, hhead], .refl head⟩

theorem informed : (guardSetting hdocumented hnamed).Informed job where
  others w w' hrely hknown base hbase := (hknown base hbase).forward fun head hhead => hrely.default trivial head hhead
  push r commit hknown base hbase := (hknown base hbase).forward fun head hhead => by
    have hne : defaultBranch ≠ job.branch := (hdefault job.kind job.issue).symm
    exact ⟨head, by rw [Remote.push_tips_of_ne hne, hhead], .refl head⟩
  same r r' htips _ hknown base hbase := (hknown base hbase).forward fun head hhead => ⟨head, by rw [htips, hhead], .refl head⟩

theorem AllClean.of_act (hr : AllClean g defaultBranch r) (h : (guardSetting hdocumented hnamed).Act job start r r') :
    AllClean g defaultBranch r' := by
  have hforward := forward_of_act hdefault h
  cases h with
  | push hbuilt _ _ _ hknown => exact hr.push ((hknown _ hbuilt.1).push hbuilt.2.1 hbuilt.2.2) hforward
  | delete =>
    refine hr.forward hforward rfl fun kind issue tip htip => ?_
    by_cases hbranch : kind.branch issue = job.branch
    · rw [hbranch, Remote.delete_tips] at htip
      cases htip
    · rwa [Remote.delete_tips_of_ne hbranch] at htip
  | _ => exact hr.forward hforward rfl fun _ _ _ => id

theorem suits : (guardSetting hdocumented hnamed).Suits (Rooted g defaultBranch) (LeavesBranches g defaultBranch)
    (fun _ => True) (AllClean g defaultBranch) where
  informed r job hr hrooted := by
    refine ⟨informed hdefault, hrooted.1, fun base hbase => ?_, trivial⟩
    rcases hrooted.2 base hbase with ⟨head, hhead, hle⟩ | hpushed
    · exact ⟨base, head, hhead, hle, .refl base, .refl base⟩
    · exact hr.pushed _ hpushed
  across job start r r' issue _ hne hact :=
    ⟨Setting.pushed_of_act hact, fun _ => forward_of_act hdefault hact, fun _ => False.elim, fun _ => False.elim⟩
  beside r r' issue hothers hpushed := ⟨by rw [hpushed], fun _ => hothers.1, fun _ => False.elim, fun _ => False.elim⟩
  keeps job start r r' hr _ hact := hr.of_act hdefault hact
  stays r r' hr hothers hpushed := hr.forward hothers.1 hpushed fun kind issue tip htip => hothers.2 kind issue ▸ htip

end

/-- Over every run of the jobs of all issues, with any results whose base is on the default branch or has been a tip that
a job pushed, while commands fail, jobs are broken off and the default branch goes forward: a push is over a base that
the default branch or the tip before it contains, and a branch of the automation differs from where it leaves the
default branch in allowed paths only, which is the only place where it meets it as long as none of its own commits has
been merged. -/
theorem paths_guarded (hdocumented : Documented g runs) (hnamed : isSha defaultBranch = false)
    (hdefault : ∀ kind issue, Kind.branch kind issue ≠ defaultBranch)
    {s : State} {past : List State}
    (h : Trace (fun s => Idle s ∧ s.shared.remote.pushed = [] ∧ ∀ kind issue tip,
        s.shared.remote.tips (Kind.branch kind issue) = some tip → Clean g defaultBranch s.shared.remote tip)
      (Steps runs (Rooted g defaultBranch) (LeavesBranches g defaultBranch)) (s :: past)) :
    (∀ kind issue tip, s.shared.remote.tips (Kind.branch kind issue) = some tip →
      ∃ foot head, s.shared.remote.tips defaultBranch = some head ∧ g.Ancestor foot head ∧ g.Linear foot tip ∧
        g.Within (Allowed "") foot tip ∧ ∀ m, g.MergeBase m tip head → m = foot ∨ m ≠ foot ∧ g.Ancestor foot m) ∧
    ∀ issue job start c cont answer w commit, s.running issue = some ⟨job, start, .call c cont⟩ →
      World.answers runs issue s.shared c answer w → w.remote.tips job.branch = some commit →
      s.shared.remote.tips job.branch = some commit ∨ ∃ base : Sha, job.baseSha = some base.name ∧ g.Linear base commit ∧
        g.Within (Allowed job.only) base commit ∧
        ((∃ head, s.shared.remote.tips defaultBranch = some head ∧ g.Ancestor base head) ∨
          ∃ tip, s.shared.remote.tips job.branch = some tip ∧ g.Ancestor base tip) := by
  have hsuits : (guardSetting hdocumented hnamed).Suits _ _ _ _ := suits hdefault
  have hguarded := hsuits.guarded (fun s hs => ⟨⟨?_, ?_⟩, hs.1⟩) h
  · refine ⟨fun kind issue tip htip => ?_, fun issue job start c cont answer w commit hrunning hans hcommit => ?_⟩
    · obtain ⟨foot, head, hhead, hfoot, hline, hwithin⟩ := hguarded.shared.tips kind issue tip htip
      exact ⟨foot, head, hhead, hfoot, hline, hwithin, fun m hm => hm.foot_or hline hfoot⟩
    · obtain ⟨-, ⟨-, hact, -⟩, -⟩ := Crew.Guarded.call hguarded (fun _ => Setting.Rely.refl) hrunning hans
      rcases Setting.tip_of_act hact hcommit with hsame | ⟨base, ⟨hbase, hline, hwithin⟩, hold, hon⟩
      · exact .inl hsame
      · refine .inr ⟨base, hbase, hline, hwithin, ?_⟩
        cases htip : s.shared.remote.tips job.branch with
        | none => exact .inl (hon trivial htip)
        | some tip => exact .inr ⟨tip, rfl, hold tip htip⟩
  · rw [hs.2.1]
    exact nofun
  · exact hs.2.2

/-! An attempt that is broken off after its push, and one over what it has pushed. -/

theorem branch_ne_main (kind : Kind) (issue : String) : kind.branch issue ≠ "main" := by
  intro h
  have hslash : '/' ∈ (kind.branch issue).toList := by simp [Kind.branch]
  rw [h] at hslash
  exact absurd hslash (by decide)

theorem rooted_attemptOver {base : Sha} (h : (∃ head, r.tips "main" = some head ∧ threeCommits.Ancestor base head) ∨
    (Kind.branch .bug "7", base) ∈ r.pushed) : Rooted threeCommits "main" r (attemptOver base) := by
  refine ⟨rfl, fun named hnamed => ?_⟩
  obtain rfl : base = named := Sha.ext (Option.some.inj hnamed)
  exact h

theorem paths_guarded_waiting : ∃ s : State, s.shared.remote.tips (Kind.branch .bug "7") = some thirdSha ∧
    s.shared.remote.pushed = [(Kind.branch .bug "7", secondSha), (Kind.branch .bug "7", thirdSha)] ∧
    ∃ foot head, s.shared.remote.tips "main" = some head ∧ threeCommits.Ancestor foot head ∧
      threeCommits.Linear foot thirdSha ∧ threeCommits.Within (Allowed "") foot thirdSha := by
  have hdocumented := documented_plainTools threeCommits
  have htrace : Trace (fun s => Idle s ∧ s.shared.remote.pushed = [] ∧ ∀ kind issue tip,
      s.shared.remote.tips (Kind.branch kind issue) = some tip → Clean threeCommits "main" s.shared.remote tip)
      (Steps (plainTools threeCommits) (Rooted threeCommits "main") (LeavesBranches threeCommits "main"))
      [⟨waiting, fun _ => none⟩] :=
    .start ⟨fun _ => rfl, rfl, fun _ _ tip htip => by
      cases htip
      exact ⟨firstSha, firstSha, rfl, .refl _, .refl _, .refl _⟩⟩
  obtain ⟨s₁, past₁, htrace₁, hr₁⟩ := exists_pushed htrace (rooted_attemptOver (.inl ⟨firstSha, rfl, .refl _⟩)) linear_second
    (Finset.mem_singleton_self _) rfl
  obtain ⟨s₂, past₂, htrace₂, hr₂⟩ := exists_pushed htrace₁
    (rooted_attemptOver (.inr (by rw [hr₁]; exact List.mem_singleton_self _))) linear_third
    (by rw [hr₁]; exact Finset.mem_singleton_self _) (by rw [hr₁]; exact Remote.push_tips)
  have htip : s₂.shared.remote.tips (Kind.branch .bug "7") = some thirdSha := by rw [hr₂, Remote.push_tips]
  obtain ⟨foot, head, hhead, hfoot, hline, hwithin, -⟩ :=
    (paths_guarded hdocumented (by decide) branch_ne_main htrace₂).1 .bug "7" thirdSha htip
  refine ⟨s₂, htip, ?_, foot, head, hhead, hfoot, hline, hwithin⟩
  rw [hr₂, hr₁]
  rfl

end TemplateAxum.Moderation
