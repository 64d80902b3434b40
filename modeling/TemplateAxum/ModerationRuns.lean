import TemplateAxum.ModerationJobs

/-!
# Moderation jobs among others

The jobs of all issues in any order, one at a time for each issue, any of them broken off at any command, beside whoever
else writes to the repository.
-/

namespace TemplateAxum.Moderation

open Prog

/-! ### Branches -/

theorem Kind.branch_inj {kind kind' : Kind} {issue issue' : String} (h : kind.branch issue = kind'.branch issue') :
    kind = kind' ∧ issue = issue' := by
  unfold Kind.branch at h
  have hlist := congrArg String.toList h
  simp only [String.toList_append] at hlist
  cases kind <;> cases kind'
  · refine ⟨rfl, String.toList_inj.1 ?_⟩
    simpa [Kind.branchPrefix, Kind.branchSuffix] using hlist
  · simp [Kind.branchPrefix] at hlist
  · simp [Kind.branchPrefix] at hlist
  · refine ⟨rfl, String.toList_inj.1 ?_⟩
    simpa [Kind.branchPrefix, Kind.branchSuffix] using hlist

/-! ### Runs -/

abbrev State := Crew String World Job Command Answer Nat Unit

/-- The others have no part in the clones of the jobs, nor in what the scripts push. -/
def Outside (others : Remote → Remote → Prop) (w w' : World) : Prop :=
  others w.remote w'.remote ∧ w'.remote.pushed = w.remote.pushed ∧ w'.clones = w.clones

/-- A step of the jobs that `admits` lets start, or of others. -/
abbrev Steps (runs : Tools) (admits : Remote → Job → Prop) (others : Remote → Remote → Prop) : State → State → Prop :=
  Crew.Step (World.answers runs) Job.script Job.issue (fun w => admits w.remote) (Outside others)

/-- No job is on its way. -/
def Idle (s : State) : Prop := ∀ issue, s.running issue = none

namespace Setting

variable {S : Setting} {job : Job} {start r r' : Remote} {issue : String} {w w' : World}

theorem pushed_of_act (h : S.Act job start r r') : r.pushed <+: r'.pushed := by
  cases h with
  | push => exact List.prefix_append ..
  | _ => exact List.prefix_rfl

theorem labels_of_act (h : S.Act job start r r') (hne : issue ≠ job.issue) : r'.labels issue = r.labels issue := by
  cases h <;> first | rfl | exact Function.update_of_ne hne ..

theorem tips_of_act (h : S.Act job start r r') {branch : String} (hne : branch ≠ job.branch) :
    r'.tips branch = r.tips branch := by
  cases h <;> first | rfl | exact Function.update_of_ne hne ..

theorem openPrs_of_act (h : S.Act job start r r') (hcleans : job.cleans = false) {branch : String} (hne : branch ≠ job.branch) :
    r'.openPrs branch = r.openPrs branch := by
  cases h with
  | openPr =>
    rw [Remote.openPr, Remote.openPrs, List.filter_append, List.filter_cons_of_neg, List.filter_nil, List.append_nil]
    · rfl
    · simpa using Ne.symm hne
  | close hclose =>
    rw [hcleans] at hclose
    cases hclose
  | _ => rfl

/-! ### All interleavings -/

section Fits

variable {admits : Remote → Job → Prop} {others : Remote → Remote → Prop} {fact : Job → Prop} {I : Remote → Prop}

variable (S admits others fact I) in
/-- What a setting needs, for its jobs to keep to what a job may do in every interleaving. -/
structure Suits : Prop where
  informed : ∀ r job, I r → admits r job → S.Informed job ∧ job.env.defaultBranch = S.defaultBranch ∧ S.known job r ∧ fact job
  across : ∀ job start r r' issue, fact job → issue ≠ job.issue → S.Act job start r r' → S.Leaves issue r r'
  beside : ∀ r r' issue, others r r' → r'.pushed = r.pushed → S.Leaves issue r r'
  keeps : ∀ job start r r', I r → fact job → S.Act job start r r' → I r'
  stays : ∀ r r', I r → others r r' → r'.pushed = r.pushed → I r'

/-- Every job guards what is left of it. -/
abbrev Guarded (S : Setting) (fact : Job → Prop) (I : Remote → Prop) : State → Prop :=
  Crew.Guarded (World.answers S.runs) Job.issue S.Rely (fun job start w w' => fact job ∧ S.Guarantee job start.remote w w')
    (fun _ _ _ _ => True) (fun job start w status => fact job ∧ S.Ending job start.remote w.remote status) fun w => I w.remote

theorem Suits.guarded (h : S.Suits admits others fact I) {init : State → Prop} (h0 : ∀ s, init s → I s.shared.remote ∧ Idle s)
    {s : State} {past : List State} (htrace : Trace init (Steps S.runs admits others) (s :: past)) : S.Guarded fact I s := by
  have hfits : Crew.Fits (World.answers S.runs) Job.script Job.issue (fun w => admits w.remote) (Outside others) S.Rely
      (fun job start w w' => fact job ∧ S.Guarantee job start.remote w w') (fun _ _ _ _ => True)
      (fun job start w status => fact job ∧ S.Ending job start.remote w.remote status) (fun w => I w.remote) := {
    refl := fun _ => Rely.refl
    trans := fun _ _ _ _ => Rely.trans
    started := fun w job hI hadmits => by
      obtain ⟨hinformed, henv, hknown, hfact⟩ := h.informed _ _ hI hadmits
      exact Guards.mono (holds_script hinformed henv hknown) (fun _ _ hact => ⟨hfact, hact⟩) (fun _ _ _ => trivial)
        fun _ _ hend => ⟨hfact, hend⟩
    others := fun job start w w' issue hne hact =>
      ⟨h.across _ _ _ _ _ hact.1 hne hact.2.1, hact.2.2 issue hne⟩
    beside := fun w w' issue hout => ⟨h.beside _ _ _ hout.1 hout.2.1, by rw [hout.2.2]⟩
    keeps := fun job start w w' hI hact => h.keeps _ _ _ _ hI hact.1 hact.2.1
    stays := fun w w' hI hout => h.stays _ _ hI hout.1 hout.2.1 }
  exact hfits.guarded (fun s hs => ⟨(h0 s hs).1, (h0 s hs).2⟩) htrace

end Fits

end Setting

end TemplateAxum.Moderation
