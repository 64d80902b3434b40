import Mathlib.Data.Set.Finite.Basic
import TemplateAxum.ModerationRuns

/-!
# Attempts

What a job with the result of a build comes to when its commands succeed: the branch is pushed, a pull request is open,
and the issue is done, whatever earlier attempts have left behind.
-/

namespace TemplateAxum.Moderation

open Prog

variable {g : Commits} {runs : Tools} {kind : Kind} {issue : String} {w w' : World} {c : Command} {ε : Type}
  {base commit tip : Sha} {patch : Option (List UInt8)}

/-! ### Commands that succeed -/

theorem exists_answers {answer : Answer c} {r : Remote} {clone : Clone} (h : runs w.remote (w.clones issue) c answer r clone) :
    ∃ w' : World, World.answers runs issue w c answer w' ∧ w'.remote = r ∧ w'.clones issue = clone := by
  have hself : Function.update w.clones issue clone issue = clone := Function.update_self ..
  refine ⟨⟨r, Function.update w.clones issue clone⟩, ⟨?_, fun _ hne => Function.update_of_ne hne ..⟩, rfl, hself⟩
  show runs w.remote (w.clones issue) c answer r (Function.update w.clones issue clone issue)
  rw [hself]
  exact h

theorem Remote.Holds.of_ancestor {r : Remote} (h : r.Holds g tip) (hle : g.Ancestor base tip) : r.Holds g base := by
  obtain ⟨branch, head, hhead, hto⟩ := h
  exact ⟨branch, head, hhead, hle.trans hto⟩

theorem eq_of_still {answer : Answer c} (h : World.answers runs issue w c answer w') (hr : w'.remote = w.remote)
    (hclone : w'.clones issue = w.clones issue) : w' = w := by
  obtain ⟨r', clones'⟩ := w'
  obtain rfl : r' = w.remote := hr
  have hclones : clones' = w.clones := by
    funext other
    by_cases hother : other = issue
    · rw [hother]
      exact hclone
    · exact h.2 other hother
  rw [hclones]

theorem leads_orStop {e : ε} {reply : Reply c} (h : World.answers runs issue w c (some reply) w') :
    Leads (World.answers runs issue) w (orStop e c) w' (.ret reply) :=
  .call h (.refl ..)

theorem leads_require {e : ε} {test : Bool} (h : test = true) :
    Leads (World.answers runs issue) w (require e test) w (.ret ()) := by
  rw [require, if_pos h]
  exact .refl ..

section

variable (hdocumented : Documented g runs) (hable : Able g runs)
include hdocumented hable

variable (issue w c) in
theorem exists_performs (h : Possible g w.remote (w.clones issue) c) :
    ∃ reply w', World.answers runs issue w c (some reply) w' ∧
      Performs g w.remote (w.clones issue) c reply w'.remote (w'.clones issue) := by
  obtain ⟨reply, r', clone', hruns⟩ := hable _ _ _ h
  obtain ⟨w', hans, -, -⟩ := exists_answers hruns
  exact ⟨reply, w', hans, hdocumented.succeeded hans.1⟩

variable (issue w c) in
/-- A command that only reads. -/
theorem exists_reply (h : Possible g w.remote (w.clones issue) c)
    (hstill : ∀ reply r' clone', Performs g w.remote (w.clones issue) c reply r' clone' →
      r' = w.remote ∧ clone' = w.clones issue) :
    ∃ reply, World.answers runs issue w c (some reply) w ∧
      Performs g w.remote (w.clones issue) c reply w.remote (w.clones issue) := by
  obtain ⟨reply, w', hans, hperforms⟩ := exists_performs issue w c hdocumented hable h
  obtain ⟨hr, hclone⟩ := hstill _ _ _ hperforms
  obtain rfl := eq_of_still hans hr hclone
  exact ⟨reply, hans, hperforms⟩

theorem leads_isAncestor {ref : String} (hheld : w.remote.Holds g tip) (htip : w.remote.resolve ref = some tip)
    (hle : g.Ancestor base tip) : Leads (World.answers runs issue) w (isAncestor base.name ref) w (.ret ()) := by
  have hbase : w.remote.resolve base.name = some base := by rw [Remote.resolve, dif_pos base.full]
  obtain ⟨status, hans, ⟨a, b, ha, hb, hcompared⟩, -, -⟩ := exists_reply issue w (.compare base.name ref)
    hdocumented hable ⟨base, tip, hbase, htip, hheld.of_ancestor hle, hheld⟩ fun _ _ _ h => h.2
  rw [hbase] at ha
  rw [htip] at hb
  cases ha
  cases hb
  refine (leads_orStop hans).andThen (leads_require ?_)
  cases hcompared with
  | identical => rfl
  | ahead => rfl
  | behind hnot => exact absurd hle hnot
  | diverged hnot => exact absurd hle hnot

theorem leads_checkTip (hheld : w.remote.Holds g tip) (hle : g.Ancestor base tip) :
    Leads (World.answers runs issue) w (checkTip base.name tip.name) w (.ret ()) :=
  (leads_require tip.full).andThen
    (leads_isAncestor hdocumented hable hheld (by rw [Remote.resolve, dif_pos tip.full]) hle)

end

theorem name_ne_empty (sha : Sha) : sha.name ≠ "" := by
  intro h
  have hfull := sha.full
  rw [h] at hfull
  exact absurd hfull (by decide)

theorem exists_number (prs : List PullRequest) : ∃ number, ∀ pr ∈ prs, pr.number < number := by
  induction prs with
  | nil => exact ⟨0, nofun⟩
  | cons pr prs ih =>
    obtain ⟨number, hnumber⟩ := ih
    refine ⟨max (pr.number + 1) number, List.forall_mem_cons.2 ⟨by omega, fun pr' hpr' => ?_⟩⟩
    have := hnumber pr' hpr'
    omega

/-- The patch makes `commit` of the base, and what differs between the two is allowed. -/
structure Passing (g : Commits) (runs : Tools) (patch : Option (List UInt8)) (base commit : Sha) : Prop where
  applies : ∀ r clone branch, clone.head = some branch → clone.branches branch = some base →
    ∃ r' clone', runs r clone (.am patch) (some ()) r' clone' ∧ clone'.branches branch = some commit
  finite : {path | g.tree base path ≠ g.tree commit path}.Finite
  within : g.Within (Allowed "") base commit

theorem Passing.exists_entries (h : Passing g runs patch base commit) : ∃ entries : List DiffEntry, ∀ entry, entry ∈ entries ↔
    g.tree base entry.path ≠ g.tree commit entry.path ∧ entry.mode = entryMode (g.tree commit entry.path) := by
  refine ⟨h.finite.toFinset.toList.map fun path => ⟨entryMode (g.tree commit path), path⟩, fun entry => ?_⟩
  simp only [List.mem_map, Finset.mem_toList, Set.Finite.mem_toFinset, Set.mem_ofPred_eq]
  constructor
  · rintro ⟨path, hpath, rfl⟩
    exact ⟨hpath, rfl⟩
  · rintro ⟨hdiffers, hmode⟩
    obtain ⟨mode, path⟩ := entry
    exact ⟨path, hdiffers, by rw [← hmode]⟩

section

variable (hdocumented : Documented g runs) (hable : Able g runs)
include hdocumented

/-- The patch is applied where the base is checked out. -/
theorem Passing.exists_am (h : Passing g runs patch base commit) {branch : String} (hhead : (w.clones issue).head = some branch)
    (hbranch : (w.clones issue).branches branch = some base) :
    ∃ w' : World, World.answers runs issue w (.am patch) (some ()) w' ∧ w'.remote = w.remote ∧
      (w'.clones issue).head = some branch ∧ (w'.clones issue).branches branch = some commit := by
  obtain ⟨r', clone', hruns, hcommit⟩ := h.applies w.remote _ _ hhead hbranch
  obtain ⟨w', hans, hr, hclone⟩ := exists_answers hruns
  obtain ⟨hsame, -, _, _, _, -, -, -, hclone'⟩ := hdocumented.succeeded hans.1
  refine ⟨w', hans, hsame, ?_, hclone ▸ hcommit⟩
  rw [hclone']
  exact hhead

include hable

theorem leads_rebuild {branch remoteSha : String} (hpassing : Passing g runs patch base commit) (hheld : w.remote.Holds g base)
    (hlease : remoteSha = ((w.remote.tips branch).map Sha.name).getD "") :
    ∃ w' : World, Leads (World.answers runs issue) w (rebuild branch base.name remoteSha "" patch) w' (.ret ()) ∧
      w'.remote = w.remote.push branch commit := by
  have hconfig : ∀ name value, World.answers runs issue w (.config name value) (some ()) w := fun name value => by
    obtain ⟨_, hans, -⟩ := exists_reply issue w (.config name value) hdocumented hable
      ⟨(), _, _, rfl, rfl⟩ fun _ _ _ h => h
    exact hans
  obtain ⟨_, w₁, hfetch, hr₁, fetched, hname, hclone₁⟩ := exists_performs issue w (.fetch base.name)
    hdocumented hable ⟨base, rfl, hheld⟩
  obtain rfl : base = fetched := Sha.ext hname.symm
  obtain ⟨_, w₂, hcheckout, hr₂, fetched, hfetched, hclone₂⟩ := exists_performs issue w₁ (.checkout branch)
    hdocumented hable ⟨(), _, _, rfl, base, by rw [hclone₁], rfl⟩
  rw [hclone₁] at hfetched
  cases hfetched
  have hhead₂ : (w₂.clones issue).head = some branch := by rw [hclone₂]
  have hbranch₂ : (w₂.clones issue).branches branch = some base := by
    rw [hclone₂]
    exact Function.update_self ..
  obtain ⟨w₃, ham, hr₃, hhead₃, hbranch₃⟩ := hpassing.exists_am hdocumented hhead₂ hbranch₂
  have hr : w₃.remote = w.remote := hr₃.trans (hr₂.trans hr₁)
  have hbase : w₃.remote.resolve base.name = some base := by rw [Remote.resolve, dif_pos base.full]
  have hcommit : (w₃.clones issue).commit = some commit := by
    rw [Clone.commit, hhead₃]
    exact hbranch₃
  obtain ⟨entries, hentries⟩ := hpassing.exists_entries
  obtain ⟨entries, hdiff, ⟨a, b, ha, hb, hentries⟩, -, -⟩ := exists_reply issue w₃ (.diff base.name)
    hdocumented hable ⟨entries, _, _, ⟨base, commit, hbase, hcommit, hentries⟩, rfl, rfl⟩ fun _ _ _ h => h.2
  rw [hbase] at ha
  rw [hcommit] at hb
  cases ha
  cases hb
  obtain ⟨_, w₄, hpush, -, ⟨pushed, hpushed, hr₄⟩, -⟩ := exists_performs issue w₃ (.push branch remoteSha)
    hdocumented hable ⟨(), _, _, hr.symm ▸ hlease, ⟨commit, hbranch₃, rfl⟩, rfl⟩
  rw [hbranch₃] at hpushed
  cases hpushed
  refine ⟨w₄, ?_, by rw [hr₄, hr]⟩
  unfold rebuild
  refine (leads_orStop (hconfig _ _)).andThen ((leads_orStop (hconfig _ _)).andThen ?_)
  refine (leads_orStop hfetch).andThen ((leads_orStop hcheckout).andThen ((leads_orStop ham).andThen ?_))
  refine Leads.andThen ((leads_orStop hdiff).andThen (leads_require ?_)) (leads_orStop hpush)
  exact (resultTreeOk_iff_within hentries).2 hpassing.within

/-- A build comes to its push, on a branch whose tip descends from the base. -/
theorem leads_pushed {env : Env} {subject body : String} (hpassing : Passing g runs patch base commit)
    (hpatch : patch.all (·.length ≤ maxPatchBytes) = true) (htip : w.remote.tips (kind.branch issue) = some tip)
    (hle : g.Ancestor base tip) :
    ∃ w' : World, Leads (World.answers runs issue) w (applyBuilt env kind issue base.name subject body patch) w'
        (presentBuilt env kind issue subject body) ∧
      w'.remote = w.remote.push (kind.branch issue) commit := by
  obtain ⟨_, hlist, rfl, -, -⟩ := exists_reply issue w (.lsRemote (kind.branch issue))
    hdocumented hable ⟨_, _, _, rfl, rfl, rfl⟩ fun _ _ _ h => h.2
  have hheld : w.remote.Holds g tip := ⟨_, tip, htip, .refl tip⟩
  have hname : ((w.remote.tips (kind.branch issue)).map Sha.name).getD "" = tip.name := by rw [htip]; rfl
  have hcheck : Leads (World.answers runs issue) w (checkBase env base.name tip.name) w (.ret ()) := by
    rw [checkBase, if_pos (name_ne_empty tip)]
    exact leads_checkTip hdocumented hable hheld hle
  obtain ⟨w', hrebuild, hr⟩ : ∃ w' : World, Leads (World.answers runs issue) w
      (rebuild (kind.branch issue) base.name (((w.remote.tips (kind.branch issue)).map Sha.name).getD "") "" patch) w' (.ret ()) ∧
      w'.remote = w.remote.push (kind.branch issue) commit := leads_rebuild hdocumented hable hpassing (hheld.of_ancestor hle) rfl
  refine ⟨w', ?_, hr⟩
  unfold applyBuilt
  refine (leads_require base.full).andThen ((leads_require hpatch).andThen ((leads_orStop hlist).andThen ?_))
  rw [hname] at hrebuild ⊢
  exact hcheck.andThen (hrebuild.bind _)

/-- And from there to the edit of the labels, with a pull request open. -/
theorem leads_presented {env : Env} {subject body : String} :
    ∃ w' : World, Leads (World.answers runs issue) w (presentBuilt env kind issue subject body) w'
        (orReturn (.issueEdit issue [kind.readyLabel, "needs-human"] [kind.doneLabel])) ∧
      w'.remote.labels = w.remote.labels ∧ w'.remote.tips = w.remote.tips ∧ w'.remote.pushed = w.remote.pushed ∧
      w'.remote.openPrs (kind.branch issue) ≠ [] := by
  obtain ⟨url, hlist, hurl, -, -⟩ : ∃ url, World.answers runs issue w (.prList (kind.branch issue)) (some url) w ∧
      (url = "" ↔ w.remote.openPrs (kind.branch issue) = []) ∧ w.remote = w.remote ∧ w.clones issue = w.clones issue := by
    refine exists_reply issue w _ hdocumented hable ?_ fun _ _ _ h => h.2
    by_cases hnone : w.remote.openPrs (kind.branch issue) = []
    · exact ⟨"", _, _, iff_of_true rfl hnone, rfl, rfl⟩
    · have hurl : "url" ≠ "" := by decide
      exact ⟨"url", _, _, iff_of_false hurl hnone, rfl, rfl⟩
  by_cases hempty : url = ""
  · obtain ⟨number, hnumber⟩ := exists_number w.remote.prs
    obtain ⟨_, w', hcreate, ⟨number, -, hr⟩, -⟩ := exists_performs issue w
      (.prCreate subject (body ++ "\n\n" ++ kind.closesVerb ++ " #" ++ issue) env.defaultBranch (kind.branch issue))
      hdocumented hable ⟨(), _, _, ⟨number, fun pr hpr => (hnumber pr hpr).ne, rfl⟩, rfl⟩
    refine ⟨w', ?_, by rw [hr]; rfl, by rw [hr]; rfl, by rw [hr]; rfl, ?_⟩
    · refine (leads_orStop hlist).andThen ?_
      rw [if_pos hempty]
      exact (leads_orStop hcreate).andThen (.refl ..)
    · rw [hr]
      exact Remote.openPrs_openPr_ne_nil
  · refine ⟨w, ?_, rfl, rfl, rfl, mt hurl.2 hempty⟩
    refine (leads_orStop hlist).andThen ?_
    rw [if_neg hempty]
    exact .refl ..

end

/-! ### A job -/

theorem Kind.ready_ne_done (kind : Kind) : kind.readyLabel ≠ kind.doneLabel := by cases kind <;> decide

/-- A job with the result of a build over `base`, all of which can be read. -/
structure Attempt (kind : Kind) (issue : String) (base : Sha) (job : Job) (result : Result) : Prop where
  sameIssue : job.issue = issue
  sameKind : job.kind = kind
  task : job.task = .result result
  issueNumber : result.issueNumber = some issue
  outcome : result.outcome = some "built"
  baseSha : result.baseSha = some base.name
  subject : result.subject.isSome = true
  body : result.body.isSome = true
  patch : result.patch.all (·.length ≤ maxPatchBytes) = true

variable {job : Job} {result : Result}

theorem leads_printed {text : Option String} {value : String} {α : Type} {f : String → Script α} {p : Script α}
    (htext : text = some value) (h : Leads (World.answers runs issue) w (f value) w' p) :
    Leads (World.answers runs issue) w (printed text >>= f) w' p := by
  rw [htext]
  exact h

/-- As far as the build comes that a job applies, the job comes, as long as the issue waits. -/
theorem Attempt.exists_built (h : Attempt kind issue base job result) (hdocumented : Documented g runs) (hable : Able g runs) :
    ∃ subject body, ∀ (w w' : World) p, kind.readyLabel ∈ w.remote.labels issue →
      Leads (World.answers runs issue) w (applyBuilt job.env kind issue base.name subject body result.patch) w' p →
      Leads (World.answers runs issue) w job.script w' (p.attempt >>= settleBuilt job.env issue) := by
  obtain ⟨rfl, rfl, htask, hnumber, houtcome, hbase, hsubject, hbody, -⟩ := h
  obtain ⟨subject, hsubject⟩ := Option.isSome_iff_exists.1 hsubject
  obtain ⟨body, hbody⟩ := Option.isSome_iff_exists.1 hbody
  refine ⟨subject, words body, fun w w' p hready hp => ?_⟩
  obtain ⟨labels, hans, hlabels, -, -⟩ := exists_reply job.issue w (.issueLabels job.issue)
    hdocumented hable ⟨(w.remote.labels job.issue).toList, _, _, fun _ => Finset.mem_toList, rfl, rfl⟩ fun _ _ _ h => h.2
  rw [Job.script, htask]
  refine leads_printed hnumber ((leads_require job.env.number).andThen ((leads_require ?_).andThen (.call hans ?_)))
  · simp [Job.issue]
  · dsimp only
    rw [if_pos ((hlabels _).2 hready)]
    refine leads_printed houtcome ?_
    rw [if_pos rfl]
    refine leads_printed hbase (leads_printed hsubject (leads_printed (by rw [hbody]; rfl) ?_))
    exact hp.attempt.bind _

section

variable (h : Attempt kind issue base job result) (hdocumented : Documented g runs) (hable : Able g runs)
  (hpassing : Passing g runs result.patch base commit) (hready : kind.readyLabel ∈ w.remote.labels issue)
  (htip : w.remote.tips (kind.branch issue) = some tip) (hle : g.Ancestor base tip)
include h hdocumented hable hpassing hready htip hle

theorem Attempt.leads_pushed : ∃ w' p, Leads (World.answers runs issue) w job.script w' p ∧
    w'.remote = w.remote.push (kind.branch issue) commit := by
  obtain ⟨subject, body, hbuilt⟩ := h.exists_built hdocumented hable
  obtain ⟨w', hpushed, hr⟩ := Moderation.leads_pushed hdocumented hable hpassing h.patch htip hle
  exact ⟨w', _, hbuilt w w' _ hready hpushed, hr⟩

/-- The last command of an attempt is the edit of the labels. -/
theorem Attempt.leads_edit : ∃ (w' : World)
      (cont : Answer (.issueEdit issue [kind.readyLabel, "needs-human"] [kind.doneLabel]) → Script Unit),
    Leads (World.answers runs issue) w job.script w'
      (.call (.issueEdit issue [kind.readyLabel, "needs-human"] [kind.doneLabel]) cont) ∧ cont (some ()) = .ret () ∧
    w'.remote.tips (kind.branch issue) = some commit ∧ w'.remote.pushed = w.remote.pushed ++ [(kind.branch issue, commit)] ∧
    w'.remote.openPrs (kind.branch issue) ≠ [] := by
  obtain ⟨subject, body, hbuilt⟩ := h.exists_built hdocumented hable
  obtain ⟨w₁, hpushed, hr₁⟩ := Moderation.leads_pushed hdocumented hable hpassing h.patch htip hle
  obtain ⟨w', hpresented, -, htips, hpushes, hopen⟩ := leads_presented (w := w₁) hdocumented hable
  refine ⟨w', _, hbuilt w w' _ hready (hpushed.trans hpresented), rfl, ?_, ?_, hopen⟩
  · rw [htips, hr₁, Remote.push_tips]
  · rw [hpushes, hr₁]
    rfl

/-- With its commands answered, an attempt at an issue that waits comes to its end. -/
theorem Attempt.leads_end : ∃ w' : World, Leads (World.answers runs issue) w job.script w' (.ret ()) ∧
    kind.doneLabel ∈ w'.remote.labels issue ∧ kind.readyLabel ∉ w'.remote.labels issue ∧
    w'.remote.tips (kind.branch issue) = some commit ∧ w'.remote.openPrs (kind.branch issue) ≠ [] := by
  obtain ⟨w₁, cont, hleads, hcont, htips, -, hopen⟩ := h.leads_edit hdocumented hable hpassing hready htip hle
  obtain ⟨_, w', hedit, hr, -⟩ := exists_performs issue w₁
    (.issueEdit issue [kind.readyLabel, "needs-human"] [kind.doneLabel]) hdocumented hable ⟨(), _, _, rfl, rfl⟩
  refine ⟨w', hleads.trans (.call hedit ?_), ?_, ?_, by rw [hr]; exact htips, by rw [hr]; exact hopen⟩
  · rw [show cont (some ()) = .ret () from hcont]
    exact .refl ..
  · rw [hr]
    exact Setting.mem_edit.2 (.inr (List.mem_singleton_self _))
  · simp [hr, Setting.mem_edit, kind.ready_ne_done]

end

/-! Three commits one on another, and attempts that push the second and the third of them. -/

/-- Commands that do what they are documented to do, or fail with nothing done. -/
def plainTools (g : Commits) : Tools
  | r, _, _, none, r', _ => r' = r
  | r, clone, c, some reply, r', clone' => Performs g r clone c reply r' clone'

theorem documented_plainTools (g : Commits) : Documented g (plainTools g) :=
  ⟨fun h => h, fun h => (show _ = _ from h) ▸ .untouched _⟩

theorem isNumber_seven : isNumber "7" = true := by decide

def issueSeven : Env := ⟨"7", "main", "", "r", "", isNumber_seven⟩

def firstSha : Sha := ⟨"0000000000000000000000000000000000000000", by decide⟩

def secondSha : Sha := ⟨"1111111111111111111111111111111111111111", by decide⟩

def thirdSha : Sha := ⟨"2222222222222222222222222222222222222222", by decide⟩

/-- The second commit adds one file and the third another. -/
def threeCommits : Commits where
  parents sha := if sha = secondSha then [firstSha] else if sha = thirdSha then [secondSha] else []
  tree sha path :=
    if path = "src/a" ∧ sha ≠ firstSha ∨ path = "src/b" ∧ sha = thirdSha then some ⟨"100644", path⟩ else none

/-- The default branch and the branch of an issue that waits, both at the first commit. -/
def waiting : World :=
  ⟨⟨fun _ => {"bug:repro-ready"}, [], fun _ => some firstSha, [], [], []⟩, fun _ => ⟨none, fun _ => none, none⟩⟩

/-- A patch that adds a file of one line. -/
def addition (path : String) : List UInt8 :=
  ("From: bot <bot@localhost>\nSubject: [PATCH] Fix\n\ndiff --git a/" ++ path ++ " b/" ++ path ++
    "\nnew file mode 100644\n--- /dev/null\n+++ b/" ++ path ++ "\n@@ -0,0 +1 @@\n+fixed\n").toList.flatMap
      String.utf8EncodeChar

def buildOver (base : Sha) : Result :=
  ⟨some "7", some "built", some base.name, some "Fix", some "", none, none,
    some (addition (if base = firstSha then "src/a" else "src/b"))⟩

def attemptOver (base : Sha) : Job := ⟨issueSeven, .bug, .result (buildOver base)⟩

theorem length_addition (path : String) (h : path = "src/a" ∨ path = "src/b") : (addition path).length ≤ maxPatchBytes := by
  rcases h with rfl | rfl <;> decide +kernel

theorem attempt_attemptOver (base : Sha) : Attempt .bug "7" base (attemptOver base) (buildOver base) where
  sameIssue := rfl
  sameKind := rfl
  task := rfl
  issueNumber := rfl
  outcome := rfl
  baseSha := rfl
  subject := rfl
  body := rfl
  patch := by
    have hlength := length_addition (if base = firstSha then "src/a" else "src/b") (ite_eq_or_eq ..)
    rw [show (buildOver base).patch = some (addition (if base = firstSha then "src/a" else "src/b")) from rfl, Option.all_some]
    exact decide_eq_true hlength

theorem exists_compared (g : Commits) (a b : Sha) : ∃ status, Compared g a b status := by
  by_cases heq : a = b
  · exact ⟨_, .identical heq⟩
  · by_cases hle : g.Ancestor a b
    · exact ⟨_, .ahead heq hle⟩
    · by_cases hge : g.Ancestor b a
      · exact ⟨_, .behind hle hge⟩
      · exact ⟨_, .diverged hle hge⟩

theorem able_plainTools (g : Commits) : Able g (plainTools g) := by
  intro r clone c hpossible
  cases c with
  | am patch => exact hpossible.elim
  | fetch sha =>
    obtain ⟨commit, hname, -⟩ := hpossible
    exact ⟨(), r, _, rfl, commit, hname, rfl⟩
  | compare base head =>
    obtain ⟨a, b, ha, hb, -, -⟩ := hpossible
    obtain ⟨status, hstatus⟩ := exists_compared g a b
    exact ⟨status, r, clone, ⟨a, b, ha, hb, hstatus⟩, rfl, rfl⟩
  | _ => exact hpossible

theorem linear_second : threeCommits.Linear firstSha secondSha := .single (by decide)

theorem linear_third : threeCommits.Linear secondSha thirdSha := .single (by decide)

/-- Both steps change allowed paths only. -/
theorem passing_of_linear (hline : threeCommits.Linear base commit) :
    Passing threeCommits (plainTools threeCommits) (buildOver base).patch base commit where
  applies r clone branch hhead hbranch :=
    ⟨r, _, ⟨rfl, rfl, branch, base, commit, hhead, hbranch, hline, rfl⟩, Function.update_self ..⟩
  finite := by
    refine Set.Finite.subset (Set.toFinite {"src/a", "src/b"}) fun path hpath => ?_
    by_contra hnot
    simp only [Set.mem_insert_iff, Set.mem_singleton_iff, not_or] at hnot
    exact hpath (by simp [threeCommits, hnot])
  within path hpath := by
    have hmem : path = "src/a" ∨ path = "src/b" := by
      by_contra hnot
      rw [not_or] at hnot
      exact hpath (by simp [threeCommits, hnot])
    have hmode : isLinkMode (entryMode (threeCommits.tree commit path)) = false := by
      unfold threeCommits
      dsimp only
      split <;> rfl
    rcases hmem with rfl | rfl <;> exact ⟨by decide +kernel, hmode, List.nil_prefix⟩

/-- An attempt is started and broken off after its push. -/
theorem exists_pushed {init : State → Prop} {admits : Remote → Job → Prop} {others : Remote → Remote → Prop} {s : State}
    {past : List State} (htrace : Trace init (Steps (plainTools threeCommits) admits others) (s :: past))
    (hadmits : admits s.shared.remote (attemptOver base)) (hline : threeCommits.Linear base commit)
    (hready : Kind.readyLabel .bug ∈ s.shared.remote.labels "7")
    (htip : s.shared.remote.tips (Kind.branch .bug "7") = some base) :
    ∃ s' past', Trace init (Steps (plainTools threeCommits) admits others) (s' :: past') ∧
      s'.shared.remote = s.shared.remote.push (Kind.branch .bug "7") commit := by
  obtain ⟨w, p, hpushed, hr⟩ := (attempt_attemptOver base).leads_pushed (w := s.shared) (documented_plainTools threeCommits)
    (able_plainTools threeCommits) (passing_of_linear hline) hready htip (.refl base)
  obtain ⟨s', past', htrace', -, rfl, -⟩ := Crew.exists_start (r := attemptOver base) htrace hadmits hpushed
  exact ⟨s', past', htrace', hr⟩

end TemplateAxum.Moderation
