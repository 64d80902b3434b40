import TemplateAxum.Lib.Rely
import TemplateAxum.Moderation

/-!
# What a moderation job does

`Act` is what one command of a job can do to the repository, and what is known when it does: what was pushed, what the
labels are, whether there is a pull request. `Job.guards` holds each script to it, while others change the repository
as `Rely` has it.
-/

namespace TemplateAxum.Moderation

open Prog

/-- What a change to a tree may be. -/
def Allowed (only path : String) (entry : Option Entry) : Prop :=
  denied path = false ∧ isLinkMode (entryMode entry) = false ∧ only.toList <+: path.toList

/-- The check of a difference passes when all that differs is allowed. -/
theorem resultTreeOk_iff_within {g : Commits} {a b : Sha} {only : String} {entries : List DiffEntry}
    (hentries : ∀ entry : DiffEntry, entry ∈ entries ↔
      g.tree a entry.path ≠ g.tree b entry.path ∧ entry.mode = entryMode (g.tree b entry.path)) :
    resultTreeOk only entries = true ↔ g.Within (Allowed only) a b := by
  simp only [resultTreeOk, Bool.and_eq_true, List.all_eq_true, Bool.or_eq_true, Bool.not_eq_true',
    List.isPrefixOf_iff_prefix, String.isEmpty_iff]
  constructor
  · rintro ⟨hok, hdenied⟩ path hpath
    have hmem : ⟨entryMode (g.tree b path), path⟩ ∈ entries := (hentries _).2 ⟨hpath, rfl⟩
    obtain ⟨hlink, hunder⟩ := hok _ hmem
    refine ⟨hdenied _ hmem, hlink, ?_⟩
    rcases hunder with rfl | hunder
    · exact List.nil_prefix
    · exact hunder
  · intro hwithin
    refine ⟨fun entry hentry => ?_, fun entry hentry => ?_⟩
    · obtain ⟨hdiffers, hmode⟩ := (hentries entry).1 hentry
      obtain ⟨-, hlink, hunder⟩ := hwithin _ hdiffers
      exact ⟨hmode ▸ hlink, .inr hunder⟩
    · exact (hwithin _ ((hentries entry).1 hentry).1).1

/-- No mention is left: a break follows every `@`. -/
def Quiet (chars : List Char) : Prop := ∀ i : Nat, chars[i]? = some '@' → chars[i + 1]? = some '\u200b'

/-- The environment has no `@` in what is posted of it. -/
def Env.Plain (env : Env) : Prop :=
  ∀ text ∈ [env.serverUrl, env.repository, env.runId, env.defaultBranch], '@' ∉ text.toList

namespace Job

def result? (job : Job) : Option Result :=
  match job.task with
  | .triage result | .result result => some result
  | _ => none

def baseSha (job : Job) : Option String := job.result?.bind Result.baseSha

def triages (job : Job) : Bool :=
  match job.task with
  | .triage _ => true
  | _ => false

def builds (job : Job) : Bool :=
  match job.task with
  | .result _ => true
  | _ => false

def cleans (job : Job) : Bool :=
  match job.task with
  | .cleanup | .reset => true
  | _ => false

def only (job : Job) : String := if job.triages then job.kind.onlyUnder else ""

/-- What a cleanup writes on the pull request that it closes. -/
def closing (job : Job) : String :=
  match job.task with
  | .reset => "Closing: " ++ ("issue #" ++ job.issue ++ " was reopened, restarting triage") ++ "."
  | _ => "Closing: " ++ ("linked issue #" ++ job.issue ++ " was closed") ++ "."

end Job

/-- A branch is checked out, at a commit as `C` has it. -/
def Clone.On (branch : String) (C : Sha → Prop) (clone : Clone) : Prop :=
  ∃ commit, clone.head = some branch ∧ clone.branches branch = some commit ∧ C commit

/-- The commits, the commands and the default branch, whether that only goes forward, the issues whose stage and pull
requests are left to their jobs, and what is known of a job's result. -/
structure Setting where
  commits : Commits
  runs : Tools
  documented : Documented commits runs
  defaultBranch : String
  named : isSha defaultBranch = false
  advances : Prop
  keeps : String → Kind → Prop
  known : Job → Remote → Prop

namespace Setting

variable (S : Setting)

/-- A commit of the default branch. -/
def OnDefault (base : Sha) (r : Remote) : Prop := ∃ tip, r.tips S.defaultBranch = some tip ∧ S.commits.Ancestor base tip

/-- What others leave of the repository to the jobs for `issue`. -/
structure Leaves (issue : String) (r r' : Remote) : Prop where
  pushed : r.pushed <+: r'.pushed
  default : S.advances → ∀ tip, r.tips S.defaultBranch = some tip →
    ∃ tip', r'.tips S.defaultBranch = some tip' ∧ S.commits.Ancestor tip tip'
  labels : ∀ kind, S.keeps issue kind → ∀ label ∈ [kind.readyLabel, kind.doneLabel],
    (label ∈ r'.labels issue ↔ label ∈ r.labels issue)
  prs : ∀ kind, S.keeps issue kind → r'.openPrs (kind.branch issue) = r.openPrs (kind.branch issue)

/-- What a job for `issue` relies on. -/
structure Rely (issue : String) (w w' : World) : Prop extends S.Leaves issue w.remote w'.remote where
  clone : w'.clones issue = w.clones issue

/-- A commit on the base that the result names, which passed the check. -/
def Built (job : Job) (base commit : Sha) : Prop :=
  job.baseSha = some base.name ∧ S.commits.Linear base commit ∧ S.commits.Within (Allowed job.only) base commit

/-- The issue still waits, if it is left to its jobs. -/
def Ready (job : Job) (r : Remote) : Prop := S.keeps job.issue job.kind → job.kind.readyLabel ∈ r.labels job.issue

/-- Since the start, a commit on the base of the result has been pushed to the branch. -/
def HasPushed (job : Job) (start r : Remote) : Prop :=
  ∃ base commit, S.Built job base commit ∧ (job.branch, commit) ∈ r.pushed.drop start.pushed.length

/-- What a command of a job, started at `start`, does to the repository, and what is known then. -/
inductive Act (job : Job) (start : Remote) : Remote → Remote → Prop
  | still (r : Remote) : Act job start r r
  | flag {r : Remote} (hjudges : job.cleans = false) : Act job start r (r.edit job.issue [] ["needs-human"])
  | comment {r : Remote} {body : String} (hquiet : job.env.Plain → Quiet body.toList) : Act job start r (r.comment job.issue body)
  | push {r : Remote} {base commit : Sha} (hbuilt : S.Built job base commit)
      (hold : ∀ tip, r.tips job.branch = some tip → S.commits.Ancestor base tip)
      (hon : S.advances → job.triages = true ∨ r.tips job.branch = none → S.OnDefault base r)
      (hready : job.builds = true → S.Ready job r) (hknown : S.known job r) : Act job start r (r.push job.branch commit)
  | openPr {r : Remote} {number : Nat} {title body : String} (hbuilds : job.builds = true) (hready : S.Ready job r)
      (hnone : S.keeps job.issue job.kind → r.openPrs job.branch = []) (hquiet : Quiet body.toList) :
      Act job start r (r.openPr ⟨number, title, body, S.defaultBranch, job.branch, .open⟩)
  | finish {r : Remote} (hbuilds : job.builds = true) (hready : S.Ready job r)
      (hsome : S.keeps job.issue job.kind → r.openPrs job.branch ≠ []) (hpushed : S.HasPushed job start r) :
      Act job start r (r.edit job.issue [job.kind.readyLabel, "needs-human"] [job.kind.doneLabel])
  | label {r : Remote} {action label : String} (htriages : job.triages = true)
      (hlabel : job.kind.labelFor.lookup action = some label) : Act job start r (r.edit job.issue [] [label])
  | unlabel {r : Remote} {label : String} (hcleans : job.cleans = true) : Act job start r (r.edit job.issue [label] [])
  | note {r : Remote} {number : Nat} (hcleans : job.cleans = true) : Act job start r (r.commentPr number job.closing)
  | close {r : Remote} {number : Nat} (hcleans : job.cleans = true) :
      Act job start r ((r.commentPr number job.closing).closePr number)
  | delete {r : Remote} (hcleans : job.cleans = true) : Act job start r (r.delete job.branch)

/-- A command of a job works in its own clone. -/
def Guarantee (job : Job) (start : Remote) (w w' : World) : Prop :=
  S.Act job start w.remote w'.remote ∧ ∀ other ≠ job.issue, w'.clones other = w.clones other

/-- A program of a job keeps to what a job may do. -/
def Holds {ε α : Type} (job : Job) (start : Remote) (Q : Remote → Clone → α → Prop) (E : Remote → ε → Prop) (w : World)
    (p : Prog Command Answer ε α) : Prop :=
  p.Guards (World.answers S.runs job.issue) (S.Rely job.issue) (S.Guarantee job start)
    (fun w a => Q w.remote (w.clones job.issue) a) (fun w e => E w.remote e) w

variable {S} {issue : String} {job : Job} {start : Remote} {w w' w'' : World}

namespace Rely

theorem refl (w : World) : S.Rely issue w w :=
  ⟨⟨List.prefix_rfl, fun _ tip h => ⟨tip, h, .refl tip⟩, fun _ _ _ _ => Iff.rfl, fun _ _ => rfl⟩, rfl⟩

theorem trans (h : S.Rely issue w w') (h' : S.Rely issue w' w'') : S.Rely issue w w'' where
  clone := h'.clone.trans h.clone
  pushed := h.pushed.trans h'.pushed
  default hadvance tip htip := by
    obtain ⟨tip', htip', hle⟩ := h.default hadvance tip htip
    obtain ⟨tip'', htip'', hle'⟩ := h'.default hadvance tip' htip'
    exact ⟨tip'', htip'', hle.trans hle'⟩
  labels kind hkind label hlabel := (h'.labels kind hkind label hlabel).trans (h.labels kind hkind label hlabel)
  prs kind hkind := (h'.prs kind hkind).trans (h.prs kind hkind)

end Rely

/-! ### What stays known -/

/-- The others leave true what is known of the repository and the clone. -/
def Stable (S : Setting) (issue : String) (P : Remote → Clone → Prop) : Prop :=
  ∀ w w', S.Rely issue w w' → P w.remote (w.clones issue) → P w'.remote (w'.clones issue)

theorem Stable.and {P P' : Remote → Clone → Prop} (h : S.Stable issue P) (h' : S.Stable issue P') :
    S.Stable issue fun r clone => P r clone ∧ P' r clone :=
  fun w w' hrely hw => ⟨h w w' hrely hw.1, h' w w' hrely hw.2⟩

theorem stable_const (P : Prop) : S.Stable issue fun _ _ => P := fun _ _ _ h => h

theorem stable_imp {A : Prop} {P : Remote → Clone → Prop} (h : A → S.Stable issue P) :
    S.Stable issue fun r clone => A → P r clone := fun w w' hrely hw ha => h ha w w' hrely (hw ha)

theorem stable_clone (P : Clone → Prop) : S.Stable issue fun _ => P := by
  intro w w' hrely hw
  rw [hrely.clone]
  exact hw

theorem stable_onDefault (base : Sha) : S.Stable issue fun r _ => S.advances → S.OnDefault base r := by
  intro w w' hrely hw hadvances
  obtain ⟨tip, htip, hle⟩ := hw hadvances
  obtain ⟨tip', htip', hle'⟩ := hrely.default hadvances tip htip
  exact ⟨tip', htip', hle.trans hle'⟩

theorem stable_ready : S.Stable job.issue fun r _ => S.Ready job r := fun _ _ hrely hw hkeeps =>
  (hrely.labels _ hkeeps _ (List.mem_cons_self ..)).2 (hw hkeeps)

theorem stable_openPrs (P : List PullRequest → Prop) :
    S.Stable job.issue fun r _ => S.keeps job.issue job.kind → P (r.openPrs job.branch) := by
  intro w w' hrely hw hkeeps
  show P (w'.remote.openPrs (job.kind.branch job.issue))
  rw [hrely.prs _ hkeeps]
  exact hw hkeeps

theorem stable_hasPushed : S.Stable job.issue fun r _ => S.HasPushed job start r := by
  rintro w w' hrely ⟨base, commit, hbuilt, hmem⟩
  obtain ⟨more, hmore⟩ := hrely.pushed
  refine ⟨base, commit, hbuilt, ?_⟩
  rw [← hmore, List.drop_append]
  exact List.mem_append_left _ hmem

variable (S) in
/-- Nothing of the stage has moved since the start, and nothing that was known or pushed is lost. -/
structure Begun (job : Job) (start r : Remote) : Prop where
  judges : job.cleans = false
  unmoved : S.keeps job.issue job.kind → ∀ label ∈ [job.kind.readyLabel, job.kind.doneLabel],
    (label ∈ r.labels job.issue ↔ label ∈ start.labels job.issue)
  grown : start.pushed.length ≤ r.pushed.length
  known : S.known job r

/-- What is known of the result stays known. -/
structure Informed (S : Setting) (job : Job) : Prop where
  others : S.Stable job.issue fun r _ => S.known job r
  push : ∀ r commit, S.known job r → S.known job (r.push job.branch commit)
  same : ∀ r r', r'.tips = r.tips → r'.pushed = r.pushed → S.known job r → S.known job r'

theorem Informed.begun (h : S.Informed job) : S.Stable job.issue fun r _ => S.Begun job start r := by
  intro w w' hrely hw
  refine ⟨hw.judges, fun hkeeps label hlabel => ?_, hw.grown.trans hrely.pushed.length_le, h.others w w' hrely hw.known⟩
  exact (hrely.labels _ hkeeps label hlabel).trans (hw.unmoved hkeeps label hlabel)

/-! ### Programs, step by step -/

section Steps

variable {ε α β : Type} {p : Prog Command Answer ε α} {Q Q' : Remote → Clone → α → Prop} {E : Remote → ε → Prop}
  {P : Remote → Clone → Prop}

theorem Holds.bind {f : α → Prog Command Answer ε β} {Q' : Remote → Clone → β → Prop} (hp : S.Holds job start Q E w p)
    (hf : ∀ w a, Q w.remote (w.clones job.issue) a → S.Holds job start Q' E w (f a)) : S.Holds job start Q' E w (p >>= f) :=
  Guards.bind hp Rely.refl hf

theorem Holds.weaken (hp : S.Holds job start Q E w p) (hQ : ∀ r clone a, Q r clone a → Q' r clone a) :
    S.Holds job start Q' E w p :=
  Guards.mono hp (fun _ _ h => h) (fun _ _ => hQ _ _ _) fun _ _ h => h

theorem holds_ret {a : α} (hQ : S.Stable job.issue fun r clone => Q r clone a) (hw : Q w.remote (w.clones job.issue) a) :
    S.Holds job start Q E w (.ret a) :=
  fun w' hrely => hQ w w' hrely hw

theorem holds_raise {e : ε} (hE : S.Stable job.issue fun r _ => E r e) (hw : E w.remote e) :
    S.Holds job start Q E w (.raise e) :=
  fun w' hrely => hE w w' hrely hw

end Steps

/-! ### Functions of the scripts -/

section Functions

variable (hinformed : S.Informed job) {P : Remote → Clone → Prop} {base : Sha}

theorem ancestor_of_compared {a b : Sha} {status : String} (h : Compared S.commits a b status)
    (hok : (status == "ahead" || status == "identical") = true) : S.commits.Ancestor a b := by
  cases h with
  | identical heq => exact heq ▸ .refl _
  | ahead _ hle => exact hle
  | behind => exact absurd hok (by decide)
  | diverged => exact absurd hok (by decide)

/-- A command that fails leaves the repository as it was, or does what it does. -/
theorem act_of_failed {c : Command} {r r' : Remote} {clone : Clone} (h : Failed S.commits r clone c r')
    (hcloses : c.closes = false) (hbegun : S.Begun job start r)
    (hact : ∀ reply r' clone', Performs S.commits r clone c reply r' clone' →
      S.Act job start r r' ∧ (c.edits = false → S.Begun job start r')) :
    S.Act job start r r' ∧ S.Begun job start r' := by
  cases h with
  | untouched => exact ⟨.still r, hbegun⟩
  | lost hedits hperforms => exact (hact _ _ _ hperforms).imp_right fun h => h hedits
  | unclosed => cases hcloses

include hinformed

/-- One command, whatever the program does with its answer. One that is no edit may have had its effect although it fails. -/
theorem holds_call {ε α : Type} {Q : Remote → Clone → α → Prop} {E : Remote → ε → Prop} {c : Command}
    {k : Answer c → Prog Command Answer ε α} (hcloses : c.closes = false) (hP : S.Stable job.issue P)
    (hw : S.Begun job start w.remote ∧ P w.remote (w.clones job.issue))
    (hact : ∀ r clone reply r' clone', S.Begun job start r → P r clone → Performs S.commits r clone c reply r' clone' →
      S.Act job start r r' ∧ (c.edits = false → S.Begun job start r'))
    (hsome : ∀ (w : World) reply (w' : World), S.Begun job start w.remote → P w.remote (w.clones job.issue) →
      Performs S.commits w.remote (w.clones job.issue) c reply w'.remote (w'.clones job.issue) →
      S.Holds job start Q E w' (k (some reply)))
    (hnone : ∀ w : World, S.Begun job start w.remote → S.Holds job start Q E w (k none)) :
    S.Holds job start Q E w (.call c k) := by
  refine Guards.call hw (hinformed.begun.and hP) fun w answer w' hw hans => ?_
  obtain ⟨hbegun, hr⟩ := hw
  obtain ⟨hruns, hothers⟩ := hans
  cases answer with
  | none =>
    obtain ⟨hdone, hbegun'⟩ := act_of_failed (S.documented.failed hruns) hcloses hbegun fun reply r' clone' hperforms =>
      hact _ _ reply r' clone' hbegun hr hperforms
    exact ⟨⟨hdone, hothers⟩, hnone w' hbegun'⟩
  | some reply =>
    have hperforms := S.documented.succeeded hruns
    exact ⟨⟨(hact _ _ _ _ _ hbegun hr hperforms).1, hothers⟩, hsome w reply w' hbegun hr hperforms⟩

/-- A command of a function. -/
theorem holds_orReturn {c : Command} {Q : Remote → Clone → Reply c → Prop} (hcloses : c.closes = false)
    (hP : S.Stable job.issue P) (hQ : ∀ reply, S.Stable job.issue fun r clone => Q r clone reply)
    (hw : S.Begun job start w.remote ∧ P w.remote (w.clones job.issue))
    (hsome : ∀ r clone reply r' clone', S.Begun job start r → P r clone → Performs S.commits r clone c reply r' clone' →
      S.Act job start r r' ∧ S.Begun job start r' ∧ Q r' clone' reply) :
    S.Holds job start (fun r clone reply => S.Begun job start r ∧ Q r clone reply) (fun r _ => S.Begun job start r) w
      (orReturn c) := by
  refine holds_call hinformed hcloses hP hw (fun r clone reply r' clone' hbegun hr hperforms => ?_)
    (fun w reply w' hbegun hr hperforms => ?_) fun w hbegun => holds_raise hinformed.begun hbegun
  · obtain ⟨hact, hbegun', -⟩ := hsome _ _ _ _ _ hbegun hr hperforms
    exact ⟨hact, fun _ => hbegun'⟩
  · exact holds_ret (hinformed.begun.and (hQ reply)) (hsome _ _ _ _ _ hbegun hr hperforms).2

/-- One that only reads, or works in the clone. -/
theorem holds_orReturn_still {c : Command} {Q : Remote → Clone → Reply c → Prop} (hcloses : c.closes = false)
    (hP : S.Stable job.issue P) (hQ : ∀ reply, S.Stable job.issue fun r clone => Q r clone reply)
    (hw : S.Begun job start w.remote ∧ P w.remote (w.clones job.issue))
    (hsome : ∀ r clone reply r' clone', P r clone → Performs S.commits r clone c reply r' clone' →
      r' = r ∧ Q r clone' reply) :
    S.Holds job start (fun r clone reply => S.Begun job start r ∧ Q r clone reply) (fun r _ => S.Begun job start r) w
      (orReturn c) := by
  refine holds_orReturn hinformed hcloses hP hQ hw fun r clone reply r' clone' hbegun hr hruns => ?_
  obtain ⟨rfl, hreply⟩ := hsome r clone reply r' clone' hr hruns
  exact ⟨.still _, hbegun, hreply⟩

theorem holds_require {test : Bool} (hP : S.Stable job.issue P)
    (hw : S.Begun job start w.remote ∧ P w.remote (w.clones job.issue)) :
    S.Holds job start (fun r clone _ => S.Begun job start r ∧ P r clone ∧ test = true) (fun r _ => S.Begun job start r) w
      (require () test) := by
  unfold require
  split
  · rename_i htest
    exact holds_ret (hinformed.begun.and (hP.and (stable_const _))) ⟨hw.1, hw.2, htest⟩
  · exact holds_raise hinformed.begun hw.1

/-- The commit comes before what its reference is a name of. -/
theorem holds_isAncestor {ref : String} {T : Remote → Prop} (hP : S.Stable job.issue P)
    (hT : S.Stable job.issue fun r _ => T r) (hw : S.Begun job start w.remote ∧ P w.remote (w.clones job.issue))
    (htip : ∀ r tip, r.resolve ref = some tip → S.commits.Ancestor base tip → T r) :
    S.Holds job start (fun r clone _ => S.Begun job start r ∧ P r clone ∧ T r) (fun r _ => S.Begun job start r) w
      (isAncestor base.name ref) := by
  have hstable : ∀ status : String, S.Stable job.issue fun r clone =>
      P r clone ∧ ((status == "ahead" || status == "identical") = true → T r) :=
    fun status => hP.and (stable_imp fun _ => hT)
  refine (holds_orReturn_still hinformed (c := .compare base.name ref) rfl hP hstable hw ?_).bind fun w status hw => ?_
  · rintro r clone status r' clone' hr ⟨⟨a, b, ha, hb, hstatus⟩, rfl, rfl⟩
    refine ⟨rfl, hr, fun hok => htip _ b hb ?_⟩
    rw [Remote.resolve, dif_pos base.full] at ha
    cases ha
    exact ancestor_of_compared hstatus hok
  · exact (holds_require hinformed (hstable status) hw).weaken fun r clone _ h => ⟨h.1, h.2.1.1, h.2.1.2 h.2.2⟩

omit hinformed in
theorem stable_on (branch : String) (C : Sha → Prop) : S.Stable job.issue fun _ clone => clone.On branch C := stable_clone _

theorem holds_checkResultTree {branch only : String} {C : Sha → Prop} (hP : S.Stable job.issue P)
    (hw : S.Begun job start w.remote ∧ P w.remote (w.clones job.issue) ∧ (w.clones job.issue).On branch C) :
    S.Holds job start
      (fun r clone _ => S.Begun job start r ∧ P r clone ∧
        clone.On branch fun commit => C commit ∧ S.commits.Within (Allowed only) base commit)
      (fun r _ => S.Begun job start r) w (checkResultTree base.name only) := by
  refine (holds_orReturn_still hinformed (c := .diff base.name) (Q := fun r clone entries => P r clone ∧
    clone.On branch fun commit => C commit ∧
      (resultTreeOk only entries = true → S.commits.Within (Allowed only) base commit)) rfl
    (hP.and (stable_on _ _)) (fun _ => hP.and (stable_on _ _)) hw ?_).bind fun w entries hw => ?_
  · rintro r clone entries r' clone' ⟨hr, commit, hhead, hbranch, hcommit⟩ ⟨⟨a, b, ha, hb, hentries⟩, rfl, rfl⟩
    refine ⟨rfl, hr, commit, hhead, hbranch, hcommit, fun hok => ?_⟩
    rw [Remote.resolve, dif_pos base.full] at ha
    rw [Clone.commit, hhead, Option.bind_some, hbranch] at hb
    cases ha
    cases hb
    exact (resultTreeOk_iff_within hentries).1 hok
  · refine (holds_require hinformed (hP.and (stable_on _ _)) hw).weaken fun r clone _ h => ?_
    obtain ⟨hbegun, ⟨hr, commit, hhead, hbranch, hcommit, hwithin⟩, hok⟩ := h
    exact ⟨hbegun, hr, commit, hhead, hbranch, hcommit, hwithin hok⟩

/-- From the base to the push. -/
theorem holds_rebuild {remoteSha : String} (patch : Option (List UInt8)) (hbase : job.baseSha = some base.name)
    (hold : ∀ tip : Sha, tip.name = remoteSha → S.commits.Ancestor base tip)
    (hw : S.Begun job start w.remote ∧ (job.builds = true → S.Ready job w.remote) ∧
      (job.triages = true ∨ remoteSha = "" → S.advances → S.OnDefault base w.remote)) :
    S.Holds job start
      (fun r _ _ => S.Begun job start r ∧ (job.builds = true → S.Ready job r) ∧ S.HasPushed job start r)
      (fun r _ => S.Begun job start r) w (rebuild job.branch base.name remoteSha job.only patch) := by
  have hP : S.Stable job.issue fun r _ => (job.builds = true → S.Ready job r) ∧
      (job.triages = true ∨ remoteSha = "" → S.advances → S.OnDefault base r) :=
    (stable_imp fun _ => stable_ready).and (stable_imp fun _ => stable_onDefault base)
  unfold rebuild
  refine (holds_orReturn_still hinformed (by rfl) hP (fun _ => hP) hw ?_).bind fun w _ hw => ?_
  · rintro r clone _ r' clone' hr ⟨rfl, rfl⟩
    exact ⟨rfl, hr⟩
  refine (holds_orReturn_still hinformed (by rfl) hP (fun _ => hP) hw ?_).bind fun w _ hw => ?_
  · rintro r clone _ r' clone' hr ⟨rfl, rfl⟩
    exact ⟨rfl, hr⟩
  refine (holds_orReturn_still hinformed (by rfl) hP (fun _ => hP.and (stable_clone fun clone => clone.fetchHead = some base)) hw
    ?_).bind fun w _ hw => ?_
  · rintro r clone _ r' clone' hr ⟨rfl, commit, hcommit, rfl⟩
    exact ⟨rfl, hr, congrArg some (Sha.ext hcommit)⟩
  refine (holds_orReturn_still hinformed (by rfl) (hP.and (stable_clone fun clone => clone.fetchHead = some base))
    (fun _ => hP.and (stable_on job.branch fun commit => commit = base)) hw ?_).bind fun w _ hw => ?_
  · rintro r clone _ r' clone' ⟨hr, hfetch⟩ ⟨rfl, commit, hcommit, rfl⟩
    rw [hfetch] at hcommit
    cases hcommit
    exact ⟨rfl, hr, base, rfl, Function.update_self .., rfl⟩
  refine (holds_orReturn_still hinformed (by rfl) (hP.and (stable_on _ _))
    (fun _ => hP.and (stable_on job.branch fun commit => S.commits.Linear base commit)) hw ?_).bind fun w _ hw => ?_
  · rintro r clone _ r' clone' ⟨hr, commit, hhead, hbranch, hcommit⟩ ⟨rfl, -, branch, before, after, hhead', hbefore, hline, rfl⟩
    rw [hhead] at hhead'
    cases hhead'
    rw [hbranch] at hbefore
    cases hbefore
    exact ⟨rfl, hr, after, hhead, Function.update_self .., hcommit ▸ hline⟩
  refine (holds_checkResultTree hinformed hP hw).bind fun w _ hw => ?_
  refine holds_orReturn hinformed (c := .push job.branch remoteSha)
    (Q := fun r _ _ => (job.builds = true → S.Ready job r) ∧ S.HasPushed job start r) rfl (hP.and (stable_on _ _))
    (fun _ => (stable_imp fun _ => stable_ready).and stable_hasPushed) hw ?_
  · rintro r clone _ r' clone' hbegun ⟨⟨hready, hon⟩, commit, -, hbranch, hline, hwithin⟩ ⟨hlease, ⟨commit', hcommit', rfl⟩, rfl⟩
    rw [hbranch] at hcommit'
    cases hcommit'
    have hbuilt : S.Built job base commit := ⟨hbase, hline, hwithin⟩
    refine ⟨.push hbuilt (fun tip htip => ?_) (fun hadvances h => hon (h.imp_right fun hnone => ?_) hadvances) hready
      hbegun.known,
      ⟨hbegun.judges, hbegun.unmoved, ?_, ?_⟩, hready, base, commit, hbuilt, ?_⟩
    · rw [htip] at hlease
      exact hold tip hlease.symm
    · rw [hlease, hnone]
      rfl
    · exact hbegun.grown.trans (by simp [Remote.push])
    · exact hinformed.push _ _ hbegun.known
    · rw [Remote.push, List.drop_append_of_le_length hbegun.grown]
      exact List.mem_append_right _ (List.mem_singleton_self _)

theorem holds_ancestorOfDefault (henv : job.env.defaultBranch = S.defaultBranch) (hP : S.Stable job.issue P)
    (hw : S.Begun job start w.remote ∧ P w.remote (w.clones job.issue)) :
    S.Holds job start (fun r clone _ => S.Begun job start r ∧ P r clone ∧ (S.advances → S.OnDefault base r))
      (fun r _ => S.Begun job start r) w (isAncestor base.name job.env.defaultBranch) := by
  refine holds_isAncestor hinformed (T := fun r => S.advances → S.OnDefault base r) hP (stable_onDefault base) hw ?_
  intro r tip htip hle _
  rw [henv, Remote.resolve, dif_neg (by simp [S.named])] at htip
  exact ⟨tip, htip, hle⟩

/-- A tip that was read has to be a name of a commit over the base. -/
theorem holds_checkTip {remoteSha : String} (hP : S.Stable job.issue P)
    (hw : S.Begun job start w.remote ∧ P w.remote (w.clones job.issue)) :
    S.Holds job start
      (fun r clone _ => S.Begun job start r ∧ P r clone ∧ ∀ tip : Sha, tip.name = remoteSha → S.commits.Ancestor base tip)
      (fun r _ => S.Begun job start r) w (checkTip base.name remoteSha) := by
  unfold checkTip
  refine (holds_require hinformed hP hw).bind fun w _ hw => ?_
  obtain ⟨hbegun, hr, hfull⟩ := hw
  refine holds_isAncestor hinformed (T := fun _ => ∀ tip : Sha, tip.name = remoteSha → S.commits.Ancestor base tip) hP
    (stable_const _) ⟨hbegun, hr⟩ ?_
  rintro r tip htip hle tip' rfl
  rw [Remote.resolve, dif_pos tip'.full] at htip
  cases htip
  exact hle

theorem holds_checkBase {remoteSha : String} (henv : job.env.defaultBranch = S.defaultBranch) (htriages : job.triages = false)
    (hP : S.Stable job.issue P) (hw : S.Begun job start w.remote ∧ P w.remote (w.clones job.issue)) :
    S.Holds job start
      (fun r clone _ => S.Begun job start r ∧ P r clone ∧ (∀ tip : Sha, tip.name = remoteSha → S.commits.Ancestor base tip) ∧
        (job.triages = true ∨ remoteSha = "" → S.advances → S.OnDefault base r))
      (fun r _ => S.Begun job start r) w (checkBase job.env base.name remoteSha) := by
  unfold checkBase
  split
  · rename_i hne
    refine (holds_checkTip hinformed hP hw).weaken fun r clone _ h => ⟨h.1, h.2.1, h.2.2, fun hcase => ?_⟩
    simp [htriages, hne] at hcase
  · rename_i hempty
    obtain rfl : remoteSha = "" := by simpa using hempty
    refine (holds_ancestorOfDefault hinformed henv hP hw).weaken fun r clone _ h =>
      ⟨h.1, h.2.1, fun tip htip => ?_, fun _ => h.2.2⟩
    have := tip.full
    rw [htip] at this
    exact absurd this (by decide)

end Functions

/-! ### The result of a build -/

section Built

variable (hinformed : S.Informed job) (henv : job.env.defaultBranch = S.defaultBranch) (hbuilds : job.builds = true)
include hbuilds

theorem triages_eq_false : job.triages = false := by
  revert hbuilds
  unfold Job.builds Job.triages
  cases job.task <;> simp

theorem only_eq : job.only = "" := by
  rw [Job.only, triages_eq_false hbuilds]
  rfl

include hinformed

/-- The last command, which moves the stage. -/
theorem holds_finish (hw : S.Begun job start w.remote ∧ S.Ready job w.remote ∧ S.HasPushed job start w.remote ∧
      (S.keeps job.issue job.kind → w.remote.openPrs job.branch ≠ [])) :
    S.Holds job start (fun _ _ _ => True) (fun r _ => S.Begun job start r) w
      (orReturn (.issueEdit job.issue [job.kind.readyLabel, "needs-human"] [job.kind.doneLabel])) := by
  refine holds_call hinformed rfl (stable_ready.and (stable_hasPushed.and (stable_openPrs fun prs => prs ≠ []))) hw ?_
    (fun _ _ _ _ _ _ => holds_ret (stable_const _) trivial) fun w hbegun => holds_raise hinformed.begun hbegun
  rintro r clone _ r' clone' - ⟨hready, hpushed, hsome⟩ ⟨rfl, -⟩
  exact ⟨.finish hbuilds hready hsome hpushed, nofun⟩

include henv

theorem holds_presentBuilt {subject body : String}
    (hquiet : Quiet (body ++ "\n\n" ++ job.kind.closesVerb ++ " #" ++ job.issue).toList)
    (hw : S.Begun job start w.remote ∧ S.Ready job w.remote ∧ S.HasPushed job start w.remote) :
    S.Holds job start (fun _ _ _ => True) (fun r _ => S.Begun job start r) w
      (presentBuilt job.env job.kind job.issue subject body) := by
  unfold presentBuilt
  have hP : S.Stable job.issue fun r _ => S.Ready job r ∧ S.HasPushed job start r := stable_ready.and stable_hasPushed
  refine (holds_orReturn_still hinformed (c := .prList job.branch)
    (Q := fun r _ url => (S.Ready job r ∧ S.HasPushed job start r) ∧
      (S.keeps job.issue job.kind → (url = "" ↔ r.openPrs job.branch = [])))
    rfl hP (fun url => hP.and (stable_openPrs fun prs => url = "" ↔ prs = [])) hw
    ?_).bind fun w prUrl hw => ?_
  · rintro r clone url r' clone' hr ⟨hurl, rfl, rfl⟩
    exact ⟨rfl, hr, fun _ => hurl⟩
  obtain ⟨hbegun, ⟨hready, hpushed⟩, hurl⟩ := hw
  split
  · rename_i hempty
    refine (holds_orReturn hinformed (Q := fun r _ _ => (S.Ready job r ∧ S.HasPushed job start r) ∧
        (S.keeps job.issue job.kind → r.openPrs job.branch ≠ []))
      (by rfl) (hP.and (stable_openPrs fun prs => prs = [])) (fun _ => hP.and (stable_openPrs fun prs => prs ≠ []))
      ⟨hbegun, ⟨hready, hpushed⟩, fun hkeeps => (hurl hkeeps).1 hempty⟩ ?_).bind fun w _ hw => ?_
    · rintro r clone _ r' clone' hbegun ⟨⟨hready, hpushed⟩, hnone⟩ ⟨⟨number, -, rfl⟩, rfl⟩
      rw [henv]
      refine ⟨.openPr hbuilds hready hnone hquiet,
        ⟨hbegun.judges, hbegun.unmoved, hbegun.grown, hinformed.same r _ rfl rfl hbegun.known⟩,
        ⟨hready, hpushed⟩, fun _ => ?_⟩
      exact Remote.openPrs_openPr_ne_nil
    · obtain ⟨hbegun, ⟨hready, hpushed⟩, hsome⟩ := hw
      exact holds_finish hinformed hbuilds ⟨hbegun, hready, hpushed, hsome⟩
  · rename_i hsome
    exact holds_finish hinformed hbuilds
      ⟨hbegun, hready, hpushed, fun hkeeps => mt (hurl hkeeps).2 hsome⟩

theorem holds_applyBuilt {baseSha subject body : String} {patch : Option (List UInt8)} (hbase : job.baseSha = some baseSha)
    (hquiet : Quiet (body ++ "\n\n" ++ job.kind.closesVerb ++ " #" ++ job.issue).toList)
    (hw : S.Begun job start w.remote ∧ S.Ready job w.remote) :
    S.Holds job start (fun _ _ _ => True) (fun r _ => S.Begun job start r) w
      (applyBuilt job.env job.kind job.issue baseSha subject body patch) := by
  unfold applyBuilt
  refine (holds_require hinformed (stable_ready) hw).bind fun w _ hw => ?_
  obtain ⟨hbegun, hready, hfull⟩ := hw
  obtain ⟨base, rfl⟩ : ∃ base : Sha, base.name = baseSha := ⟨⟨baseSha, hfull⟩, rfl⟩
  refine (holds_require hinformed stable_ready ⟨hbegun, hready⟩).bind fun w _ hw => ?_
  refine (holds_orReturn_still hinformed (c := .lsRemote job.branch) (Q := fun r _ _ => S.Ready job r) rfl stable_ready
    (fun _ => stable_ready) ⟨hw.1, hw.2.1⟩ ?_).bind fun w remoteSha hw => ?_
  · rintro r clone reply r' clone' hr ⟨-, rfl, rfl⟩
    exact ⟨rfl, hr⟩
  refine (holds_checkBase hinformed henv (triages_eq_false hbuilds) stable_ready hw).bind fun w _ hw => ?_
  obtain ⟨hbegun, hready, hold, hon⟩ := hw
  have hrebuild := holds_rebuild hinformed patch hbase hold ⟨hbegun, fun _ => hready, hon⟩
  rw [only_eq hbuilds] at hrebuild
  exact hrebuild.bind fun w _ hw => holds_presentBuilt hinformed henv hbuilds hquiet ⟨hw.1, hw.2.1 hbuilds, hw.2.2⟩

end Built

/-! ### Words -/

section Words

theorem quiet_append {l l' : List Char} (h : Quiet l) (h' : Quiet l') : Quiet (l ++ l') := by
  intro i hi
  by_cases hlt : i < l.length
  · rw [List.getElem?_append_left hlt] at hi
    have hnext := h i hi
    rw [List.getElem?_append_left (List.getElem?_eq_some_iff.1 hnext).1]
    exact hnext
  · rw [List.getElem?_append_right (by omega)] at hi ⊢
    rw [show i + 1 - l.length = i - l.length + 1 by omega]
    exact h' _ hi

theorem quiet_of_notMem {l : List Char} (h : '@' ∉ l) : Quiet l := fun _ hi => absurd (List.mem_of_getElem? hi) h

theorem quiet_flatMap (l : List Char) : Quiet (l.flatMap breakMention) := by
  induction l with
  | nil => exact quiet_of_notMem (by simp)
  | cons c l ih =>
    rw [List.flatMap_cons]
    refine quiet_append ?_ ih
    unfold breakMention
    split
    · intro i hi
      match i with
      | 0 => rfl
      | 1 => simp at hi
      | i + 2 => simp at hi
    · rename_i hc
      exact quiet_of_notMem (by simpa using Ne.symm hc)

theorem quiet_of_append_newline {l : List Char} (h : Quiet (l ++ ['\n'])) : Quiet l := by
  intro i hi
  have hlt := (List.getElem?_eq_some_iff.1 hi).1
  have hnext := h i (by rw [List.getElem?_append_left hlt]; exact hi)
  by_cases hlast : i + 1 < l.length
  · rwa [List.getElem?_append_left hlast] at hnext
  · rw [List.getElem?_append_right (by omega), show i + 1 - l.length = 0 by omega] at hnext
    exact absurd hnext (by decide)

theorem quiet_words (text : String) : Quiet (words text).toList := by
  unfold words
  rw [String.toList_ofList]
  generalize hl : (text.toList.take maxTextChars).flatMap breakMention = l
  have hquiet : Quiet l := hl ▸ quiet_flatMap _
  clear hl
  induction l using List.reverseRecOn with
  | nil => exact hquiet
  | append_singleton l c ih =>
    by_cases hc : c = '\n'
    · subst hc
      rw [List.rdropWhile_concat_pos _ _ _ (by decide)]
      exact ih (quiet_of_append_newline hquiet)
    · rw [List.rdropWhile_concat_neg _ _ _ (by simpa using hc)]
      exact hquiet

theorem quiet_toList_append {s t : String} (h : Quiet s.toList) (h' : Quiet t.toList) : Quiet (s ++ t).toList := by
  rw [String.toList_append]
  exact quiet_append h h'

theorem quiet_number {text : String} (h : isNumber text = true) : Quiet text.toList := by
  refine quiet_of_notMem fun hmem => ?_
  simp only [isNumber, Bool.and_eq_true, List.all_eq_true] at h
  have := h.2 _ hmem
  revert this
  decide

theorem quiet_closes {body issue : String} (kind : Kind) (hbody : Quiet body.toList) (hissue : Quiet issue.toList) :
    Quiet (body ++ "\n\n" ++ kind.closesVerb ++ " #" ++ issue).toList := by
  refine quiet_toList_append (quiet_toList_append (quiet_toList_append (quiet_toList_append hbody ?_) ?_) ?_) hissue
  · exact quiet_of_notMem (by decide)
  · exact quiet_of_notMem (by cases kind <;> decide)
  · exact quiet_of_notMem (by decide)

theorem quiet_runUrl {env : Env} (h : env.Plain) : Quiet env.runUrl.toList := by
  have hpart : ∀ text ∈ [env.serverUrl, env.repository, env.runId, env.defaultBranch], Quiet text.toList :=
    fun text htext => quiet_of_notMem (h text htext)
  unfold Env.runUrl
  split
  · refine quiet_toList_append (quiet_toList_append (quiet_toList_append (quiet_toList_append (quiet_toList_append
      (quiet_toList_append ?_ ?_) ?_) ?_) ?_) ?_) ?_
    · exact quiet_of_notMem (by decide)
    · exact hpart _ (by simp)
    · exact quiet_of_notMem (by decide)
    · exact hpart _ (by simp)
    · exact quiet_of_notMem (by decide)
    · exact hpart _ (by simp)
    · exact quiet_of_notMem (by decide)
  · exact quiet_of_notMem (by decide)

theorem quiet_branch (kind : Kind) {text : String} (h : isNumber text = true) : Quiet (kind.branch text).toList := by
  unfold Kind.branch
  refine quiet_toList_append (quiet_toList_append (quiet_toList_append (quiet_toList_append ?_ ?_) ?_) ?_) ?_
  · exact quiet_of_notMem (by cases kind <;> decide)
  · exact quiet_of_notMem (by decide)
  · exact quiet_number h
  · exact quiet_of_notMem (by decide)
  · exact quiet_of_notMem (by cases kind <;> decide)

theorem quiet_branchLink {env : Env} (h : env.Plain) {branch : String} (hbranch : Quiet branch.toList) :
    Quiet (env.branchLink branch).toList := by
  have hpart : ∀ text ∈ [env.serverUrl, env.repository, env.runId, env.defaultBranch], Quiet text.toList :=
    fun text htext => quiet_of_notMem (h text htext)
  unfold Env.branchLink
  refine quiet_toList_append (quiet_toList_append (quiet_toList_append (quiet_toList_append (quiet_toList_append
    (quiet_toList_append (quiet_toList_append ?_ ?_) ?_) ?_) ?_) ?_) ?_) hbranch
  · exact quiet_of_notMem (by decide)
  · split
    · exact hpart _ (by simp)
    · exact quiet_of_notMem (by decide)
  · exact quiet_of_notMem (by decide)
  · exact hpart _ (by simp)
  · exact quiet_of_notMem (by decide)
  · exact hpart _ (by simp)
  · exact quiet_of_notMem (by decide)

theorem quiet_closing (job : Job) : Quiet job.closing.toList := by
  have hissue : Quiet job.issue.toList := quiet_number job.env.number
  unfold Job.closing
  split
  all_goals
    refine quiet_toList_append (quiet_toList_append ?_ (quiet_toList_append (quiet_toList_append ?_ hissue) ?_)) ?_
    all_goals exact quiet_of_notMem (by decide +kernel)

end Words

/-! ### Labels -/

theorem mem_edit {r : Remote} {issue label : String} {remove add : List String} :
    label ∈ (r.edit issue remove add).labels issue ↔ label ∈ r.labels issue ∧ label ∉ remove ∨ label ∈ add := by
  simp [Remote.edit]

/-- A label beside the stage leaves the stage as it is. -/
theorem Begun.flag (hinformed : S.Informed job) {r : Remote} (h : S.Begun job start r) :
    S.Begun job start (r.edit job.issue [] ["needs-human"]) := by
  refine ⟨h.judges, fun hkeeps label hlabel => ?_, h.grown, hinformed.same r _ rfl rfl h.known⟩
  have hne : label ≠ "needs-human" := by
    rintro rfl
    revert hlabel
    cases job.kind <;> decide
  rw [mem_edit, ← h.unmoved hkeeps label hlabel]
  simp [hne]

theorem Begun.comment (hinformed : S.Informed job) {r : Remote} {body : String} (h : S.Begun job start r) :
    S.Begun job start (r.comment job.issue body) :=
  ⟨h.judges, h.unmoved, h.grown, hinformed.same r _ rfl rfl h.known⟩

/-! ### Scripts -/

section Scripts

variable (hinformed : S.Informed job) {α : Type} {Q : Remote → Clone → α → Prop}

variable (S) in
/-- A script that fails leaves the stage where it was. -/
def Failing (job : Job) (start r : Remote) (status : Nat) : Prop := status ≠ 0 → S.Begun job start r

include hinformed

theorem stable_failing (status : Nat) : S.Stable job.issue fun r _ => S.Failing job start r status :=
  stable_imp fun _ => hinformed.begun

theorem holds_orTrue {E : Remote → Nat → Prop} {c : Command} (hcloses : c.closes = false) (hw : S.Begun job start w.remote)
    (hact : ∀ r clone reply r' clone', S.Begun job start r → Performs S.commits r clone c reply r' clone' →
      S.Act job start r r' ∧ S.Begun job start r') :
    S.Holds job start (fun r _ _ => S.Begun job start r) E w (orTrue c) := by
  refine holds_call hinformed hcloses (stable_const True) ⟨hw, trivial⟩ (fun r clone reply r' clone' hbegun _ hperforms => ?_)
    (fun w reply w' hbegun _ hperforms => ?_) fun w hbegun => holds_ret hinformed.begun hbegun
  · exact (hact _ _ _ _ _ hbegun hperforms).imp_right fun h _ => h
  · exact holds_ret hinformed.begun (hact _ _ _ _ _ hbegun hperforms).2

theorem holds_flag {E : Remote → Nat → Prop} (hw : S.Begun job start w.remote) :
    S.Holds job start (fun r _ _ => S.Begun job start r) E w (orTrue (.issueEdit job.issue [] ["needs-human"])) := by
  refine holds_orTrue hinformed rfl hw ?_
  rintro r clone _ r' clone' hr ⟨rfl, rfl⟩
  exact ⟨.flag hr.judges, hr.flag hinformed⟩

theorem holds_fail {note hint : String} (hnote : '@' ∉ note.toList) (hhint : '@' ∉ hint.toList)
    (hw : S.Begun job start w.remote) :
    S.Holds job start Q (S.Failing job start) w (fail job.env job.issue note hint) := by
  unfold fail
  refine (holds_flag hinformed hw).bind fun w _ hw => ?_
  refine (holds_orTrue hinformed rfl hw ?_).bind fun w _ hw => ?_
  · rintro r clone _ r' clone' hr ⟨rfl, rfl⟩
    refine ⟨.comment fun hplain => ?_, hr.comment hinformed⟩
    exact quiet_toList_append (quiet_toList_append (quiet_of_notMem hnote) (quiet_runUrl hplain)) (quiet_of_notMem hhint)
  · exact holds_raise (stable_failing hinformed 1) fun _ => hw

theorem holds_stop {status : Nat} (hw : S.Begun job start w.remote) :
    S.Holds job start Q (S.Failing job start) w (.raise status) :=
  holds_raise (stable_failing hinformed status) fun _ => hw

/-- What a script reads of the result. -/
theorem holds_printed {text : Option String} {β : Type} {f : String → Script β} {Q : Remote → Clone → β → Prop}
    (hw : S.Begun job start w.remote) (hf : ∀ value, text = some value → S.Holds job start Q (S.Failing job start) w (f value)) :
    S.Holds job start Q (S.Failing job start) w (printed text >>= f) := by
  cases text with
  | none => exact holds_raise (stable_failing hinformed 1) fun _ => hw
  | some value => exact hf value rfl

omit hinformed in
/-- A function under `if !`, and what follows when it fails. -/
theorem holds_attempt {β γ : Type} {p : Function β} {Q : Remote → Clone → γ → Prop} {f : Except Unit β → Script γ}
    {P : Remote → Clone → β → Prop} (hp : S.Holds job start P (fun r _ => S.Begun job start r) w p)
    (hok : ∀ (w : World) b, P w.remote (w.clones job.issue) b → S.Holds job start Q (S.Failing job start) w (f (.ok b)))
    (herror : ∀ w : World, S.Begun job start w.remote → S.Holds job start Q (S.Failing job start) w (f (.error ()))) :
    S.Holds job start Q (S.Failing job start) w (p.attempt >>= f) := by
  refine Holds.bind (Q := fun r clone (result : Except Unit β) => match result with
    | .ok b => P r clone b
    | .error () => S.Begun job start r) (Guards.attempt hp) fun w result hw => ?_
  cases result with
  | ok b => exact hok w b hw
  | error e => exact herror w hw

/-- A note that a maintainer is to look at. -/
theorem holds_note {body : String} (hquiet : Quiet body.toList) (hw : S.Begun job start w.remote) :
    S.Holds job start (fun _ _ _ => True) (S.Failing job start) w
      (do
        orTrue (.issueEdit job.issue [] ["needs-human"])
        let _ ← orExit (.issueComment job.issue body)) := by
  refine (holds_flag hinformed hw).bind fun w _ hw => ?_
  refine Holds.bind (Q := fun _ _ _ => True) (holds_call hinformed rfl (stable_const True) ⟨hw, trivial⟩ ?_
    (fun _ _ _ _ _ _ => holds_ret (stable_const _) trivial) fun w hbegun => holds_stop hinformed hbegun)
    fun w _ _ => holds_ret (stable_const _) trivial
  rintro r clone _ r' clone' hbegun - ⟨rfl, -⟩
  exact ⟨.comment fun _ => hquiet, fun _ => hbegun.comment hinformed⟩

theorem holds_applyOutcome (henv : job.env.defaultBranch = S.defaultBranch) {result : Result} (htask : job.task = .result result)
    (hw : S.Begun job start w.remote ∧ S.Ready job w.remote) :
    S.Holds job start (fun _ _ _ => True) (S.Failing job start) w (applyOutcome job.env job.kind job.issue result) := by
  have hbuilds : job.builds = true := by rw [Job.builds, htask]
  have hbase : job.baseSha = result.baseSha := by rw [Job.baseSha, Job.result?, htask]; rfl
  unfold applyOutcome
  refine holds_printed hinformed hw.1 fun outcome _ => ?_
  split
  · refine holds_printed hinformed hw.1 fun baseSha hbaseSha => ?_
    refine holds_printed hinformed hw.1 fun subject _ => ?_
    refine holds_printed hinformed hw.1 fun body hbody => ?_
    obtain ⟨text, -, rfl⟩ := Option.map_eq_some_iff.1 hbody
    have hissue : Quiet job.issue.toList := quiet_number job.env.number
    refine holds_attempt (holds_applyBuilt hinformed henv hbuilds (hbase.trans hbaseSha)
      (quiet_closes job.kind (quiet_words text) hissue) hw) ?_ ?_
    · exact fun w _ _ => holds_ret (stable_const _) trivial
    · exact fun w hw => holds_fail hinformed (by decide +kernel) (by decide +kernel) hw
  · refine holds_printed hinformed hw.1 fun body hbody => ?_
    obtain ⟨text, -, rfl⟩ := Option.map_eq_some_iff.1 hbody
    exact holds_note hinformed (quiet_words text) hw.1

/-- A check of a script. -/
theorem holds_check {β : Type} {test : Bool} {f : Unit → Script β} {Q : Remote → Clone → β → Prop}
    (hw : S.Begun job start w.remote)
    (hf : test = true → S.Holds job start Q (S.Failing job start) w (f ())) :
    S.Holds job start Q (S.Failing job start) w (require 1 test >>= f) := by
  cases test with
  | false => exact holds_stop hinformed hw
  | true => exact hf rfl

theorem holds_applyResult (henv : job.env.defaultBranch = S.defaultBranch) {result : Result} (htask : job.task = .result result)
    (hw : S.Begun job start w.remote) :
    S.Holds job start (fun _ _ _ => True) (S.Failing job start) w (applyResult job.env job.kind result) := by
  unfold applyResult
  refine holds_printed hinformed hw fun issueNumber _ => ?_
  refine holds_check hinformed hw fun _ => ?_
  refine holds_check hinformed hw fun hissue => ?_
  obtain rfl : issueNumber = job.issue := by
    simp only [Bool.or_eq_true, String.isEmpty_iff, beq_iff_eq] at hissue
    refine hissue.resolve_left fun hempty => ?_
    have := job.env.number
    rw [hempty] at this
    exact absurd this (by decide)
  refine holds_call hinformed rfl (stable_const True) ⟨hw, trivial⟩ ?_ (fun w labels w' hbegun _ hperforms => ?_) fun w hbegun =>
    holds_fail hinformed (by decide +kernel) (by decide +kernel) hbegun
  · rintro r clone _ r' clone' hbegun - ⟨-, rfl, -⟩
    exact ⟨.still _, fun _ => hbegun⟩
  · obtain ⟨hlabels, heq, -⟩ := hperforms
    dsimp only
    split
    · rename_i hready
      refine holds_applyOutcome hinformed henv htask ?_
      rw [heq]
      exact ⟨hbegun, fun _ => (hlabels _).1 hready⟩
    · exact holds_ret (stable_const _) trivial

/-! ### Triage -/

theorem holds_applyBranch (henv : job.env.defaultBranch = S.defaultBranch) (htriages : job.triages = true) {baseSha : String}
    {patch : Option (List UInt8)} (hbase : job.baseSha = some baseSha) (hw : S.Begun job start w.remote) :
    S.Holds job start (fun r _ _ => S.Begun job start r) (fun r _ => S.Begun job start r) w
      (applyBranch job.env job.kind job.issue baseSha patch) := by
  have htrue : S.Stable job.issue fun _ _ => True := stable_const _
  have honly : job.only = job.kind.onlyUnder := by rw [Job.only, if_pos htriages]
  have hbuilds : ¬ job.builds = true := by
    revert htriages
    unfold Job.builds Job.triages
    cases job.task <;> simp
  unfold applyBranch
  refine (holds_require hinformed htrue ⟨hw, trivial⟩).bind fun w _ hw => ?_
  obtain ⟨hbegun, -, hfull⟩ := hw
  obtain ⟨base, rfl⟩ : ∃ base : Sha, base.name = baseSha := ⟨⟨baseSha, hfull⟩, rfl⟩
  refine (holds_require hinformed htrue ⟨hbegun, trivial⟩).bind fun w _ hw => ?_
  refine (holds_require hinformed htrue ⟨hw.1, trivial⟩).bind fun w _ hw => ?_
  refine (holds_ancestorOfDefault hinformed henv htrue ⟨hw.1, trivial⟩).bind fun w _ hw => ?_
  obtain ⟨hbegun, -, hon⟩ := hw
  have hP : S.Stable job.issue fun r _ => S.advances → S.OnDefault base r := stable_onDefault base
  refine (holds_orReturn_still hinformed (c := .lsRemote job.branch) (Q := fun r _ _ => S.advances → S.OnDefault base r) rfl hP
    (fun _ => hP) ⟨hbegun, hon⟩ ?_).bind fun w remoteSha hw => ?_
  · rintro r clone reply r' clone' hr ⟨-, rfl, rfl⟩
    exact ⟨rfl, hr⟩
  have hrebuild : ∀ w : World, S.Begun job start w.remote → (S.advances → S.OnDefault base w.remote) →
      (∀ tip : Sha, tip.name = remoteSha → S.commits.Ancestor base tip) →
      S.Holds job start (fun r _ _ => S.Begun job start r) (fun r _ => S.Begun job start r) w
        (rebuild job.branch base.name remoteSha job.only patch) := fun w hbegun hon hold =>
    (holds_rebuild hinformed patch hbase hold ⟨hbegun, fun h => absurd h hbuilds, fun _ => hon⟩).weaken fun _ _ _ h => h.1
  rw [honly] at hrebuild
  split
  · refine (holds_checkTip hinformed hP hw).bind fun w _ hw => ?_
    exact hrebuild w hw.1 hw.2.1 hw.2.2
  · rename_i hempty
    obtain rfl : remoteSha = "" := by simpa using hempty
    refine hrebuild w hw.1 hw.2 fun tip htip => ?_
    have := tip.full
    rw [htip] at this
    exact absurd this (by decide)

theorem holds_failTriage {note : String} (hnote : '@' ∉ note.toList) (hw : S.Begun job start w.remote) :
    S.Holds job start Q (S.Failing job start) w (failTriage job.env job.issue note) := by
  unfold failTriage
  split
  · exact holds_fail hinformed hnote (by decide +kernel) hw
  · exact holds_stop hinformed hw

theorem holds_postTriage (htriages : job.triages = true) {text link action label : String}
    (hlabel : job.kind.labelFor.lookup action = some label) (hlink : job.env.Plain → Quiet link.toList)
    (hw : S.Begun job start w.remote) :
    S.Holds job start (fun _ _ _ => True) (S.Failing job start) w (postTriage job.env job.issue (words text) link label) := by
  refine holds_call hinformed rfl (stable_const True) ⟨hw, trivial⟩ ?_ (fun w _ w' hbegun _ hperforms => ?_) fun w hbegun =>
    holds_failTriage hinformed (by decide +kernel) hbegun
  · rintro r clone _ r' clone' hbegun - ⟨rfl, -⟩
    exact ⟨.comment fun hplain => quiet_toList_append (quiet_words text) (hlink hplain), fun _ => hbegun.comment hinformed⟩
  · obtain ⟨heq, -⟩ := hperforms
    have hbegun' : S.Begun job start w'.remote := by
      rw [heq]
      exact hbegun.comment hinformed
    refine holds_call hinformed rfl (stable_const True) ⟨hbegun', trivial⟩ ?_
      (fun _ _ _ _ _ _ => holds_ret (stable_const _) trivial) fun w hbegun =>
        holds_failTriage hinformed (by decide +kernel) hbegun
    rintro r clone _ r' clone' - - ⟨rfl, -⟩
    exact ⟨.label htriages hlabel, nofun⟩

theorem holds_applyTriage (henv : job.env.defaultBranch = S.defaultBranch) {result : Result} (htask : job.task = .triage result)
    (hw : S.Begun job start w.remote) :
    S.Holds job start (fun _ _ _ => True) (S.Failing job start) w (applyTriage job.env job.kind result) := by
  have htriages : job.triages = true := by rw [Job.triages, htask]
  have hbase : job.baseSha = result.baseSha := by rw [Job.baseSha, Job.result?, htask]; rfl
  have hissue : Quiet job.issue.toList := quiet_number job.env.number
  unfold applyTriage
  split
  · exact holds_failTriage hinformed (by decide +kernel) hw
  · split
    · exact holds_failTriage hinformed (by decide +kernel) hw
    · rename_i hsame
      obtain hnumber : result.issueNumber.getD "" = job.issue := by
        simp only [Bool.and_eq_true, Bool.not_eq_true', bne_iff_ne, not_and, not_not, String.isEmpty_eq_false_iff] at hsame
        refine hsame fun hempty => ?_
        have := job.env.number
        rw [hempty] at this
        exact absurd this (by decide)
      rw [hnumber]
      refine holds_printed hinformed hw fun action _ => ?_
      refine holds_printed hinformed hw fun comment hcomment => ?_
      obtain ⟨text, -, rfl⟩ := Option.map_eq_some_iff.1 hcomment
      split
      · rename_i label hlabel
        have hlabel := (Option.filter_eq_some_iff.1 hlabel).1
        unfold applyAction
        split
        · refine holds_attempt (P := fun r _ _ => S.Begun job start r) (?_) ?_ ?_
          · cases hbaseSha : result.baseSha with
            | none => exact holds_raise hinformed.begun hw
            | some baseSha => exact holds_applyBranch hinformed henv htriages (hbase.trans hbaseSha) hw
          · exact fun w _ hw => holds_postTriage hinformed htriages hlabel
              (fun hplain => quiet_branchLink hplain (quiet_branch _ job.env.number)) hw
          · exact fun w hw => holds_failTriage hinformed (by decide +kernel) hw
        · exact holds_postTriage hinformed htriages hlabel (fun _ => quiet_of_notMem (by decide)) hw
      · exact holds_note hinformed (quiet_of_notMem (by decide +kernel)) hw

end Scripts

/-! ### Cleanup -/

section Cleanup

variable {ε : Type}

/-- The commands of a cleanup, of which nothing has to be known. -/
def Cleans (job : Job) : Command → Prop
  | .prListAll _ | .prSearch _ | .lsRemoteExitCode _ => True
  | .prClose _ comment => comment = job.closing
  | .pushDelete branch => branch = job.branch
  | .issueEdit issue remove add => issue = job.issue ∧ (∃ label, remove = [label]) ∧ add = []
  | _ => False

theorem act_of_performs (hcleans : job.cleans = true) {c : Command} (hc : Cleans job c) {r r' : Remote} {clone clone' : Clone}
    {reply : Reply c} (hperforms : Performs S.commits r clone c reply r' clone') : S.Act job start r r' := by
  cases c with
  | prListAll head =>
    obtain ⟨-, rfl, -⟩ := hperforms
    exact .still _
  | prSearch issue =>
    obtain ⟨-, rfl, -⟩ := hperforms
    exact .still _
  | prClose number comment =>
    obtain rfl : comment = job.closing := hc
    obtain ⟨rfl, -⟩ := hperforms
    split
    · exact .close hcleans
    · exact .still _
  | lsRemoteExitCode branch =>
    obtain ⟨-, rfl, -⟩ := hperforms
    exact .still _
  | pushDelete branch =>
    obtain rfl : branch = job.branch := hc
    obtain ⟨rfl, -⟩ := hperforms
    exact .delete hcleans
  | issueEdit issue remove add =>
    obtain ⟨rfl, ⟨label, rfl⟩, rfl⟩ := hc
    obtain ⟨rfl, -⟩ := hperforms
    exact .unlabel hcleans
  | _ => exact hc.elim

theorem act_of_cleans (hcleans : job.cleans = true) {c : Command} (hc : Cleans job c) {r r' : Remote} {clone clone' : Clone}
    {answer : Answer c} (hruns : S.runs r clone c answer r' clone') : S.Act job start r r' := by
  cases answer with
  | some reply => exact act_of_performs hcleans hc (S.documented.succeeded hruns)
  | none =>
    have hfailed := S.documented.failed hruns
    cases hfailed with
    | untouched => exact .still _
    | lost _ hperforms => exact act_of_performs hcleans hc hperforms
    | unclosed number comment =>
      obtain rfl : comment = job.closing := hc
      exact .note hcleans

theorem calls_orStop {C : Command → Prop} {e : ε} {c : Command} (hc : C c) : (orStop e c).Calls C := by
  refine ⟨hc, fun answer => ?_⟩
  cases answer <;> trivial

theorem calls_cleanup {issue reason : String} (hreason : "Closing: " ++ reason ++ "." = job.closing) :
    (cleanup job.branch issue reason).Calls (Cleans job) := by
  refine Calls.bind ?_ fun found => Calls.bind ?_ fun _ => ?_
  · refine (calls_orStop trivial).bind fun ofBranch => ?_
    split
    · exact calls_ret _
    · exact calls_orStop trivial
  · unfold closePr
    split
    · exact calls_orStop hreason
    · exact calls_ret _
  · refine ⟨trivial, fun answer => ?_⟩
    cases answer with
    | none => trivial
    | some _ =>
      have hdelete : (orExit (.pushDelete job.branch)).Calls (Cleans job) := calls_orStop rfl
      exact hdelete.sat _

theorem calls_removeLabels : ∀ labels : List String, (removeLabels job.issue labels).Calls (Cleans job)
  | [] => calls_ret _
  | label :: labels =>
    Calls.bind ⟨⟨rfl, ⟨label, rfl⟩, rfl⟩, fun _ => trivial⟩ fun _ => calls_removeLabels labels

theorem calls_script (hcleans : job.cleans = true) : job.script.Calls (Cleans job) := by
  unfold Job.script
  revert hcleans
  unfold Job.cleans
  cases htask : job.task with
  | triage result => exact nofun
  | result result => exact nofun
  | cleanup => exact fun _ => calls_cleanup (by rw [Job.closing, htask])
  | reset => exact fun _ => (calls_removeLabels _).bind fun _ => calls_cleanup (by rw [Job.closing, htask])

end Cleanup

/-! ### Jobs -/

variable (S) in
/-- A job that fails leaves the stage where it was, unless it is one that takes it back. -/
def Ending (job : Job) (start r : Remote) (status : Nat) : Prop := job.cleans = false → S.Failing job start r status

/-- Every job keeps to what a job may do, from whatever it is started in. -/
theorem holds_script (hinformed : S.Informed job) (henv : job.env.defaultBranch = S.defaultBranch)
    (hknown : S.known job w.remote) : S.Holds job w.remote (fun _ _ _ => True) (S.Ending job w.remote) w job.script := by
  by_cases hcleans : job.cleans = true
  · refine Guards.mono (Guards.of_calls (calls_script hcleans) fun w c answer w' hc hans => ?_) (fun _ _ h => h)
      (fun _ _ _ => trivial) fun _ _ _ hfalse => ?_
    · exact ⟨act_of_cleans hcleans hc hans.1, hans.2⟩
    · rw [hcleans] at hfalse
      cases hfalse
  · have hbegun : S.Begun job w.remote w.remote := ⟨by simpa using hcleans, fun _ _ _ => Iff.rfl, le_refl _, hknown⟩
    have hscript : S.Holds job w.remote (fun _ _ _ => True) (S.Failing job w.remote) w job.script := by
      unfold Job.script
      revert hcleans
      unfold Job.cleans
      cases htask : job.task with
      | triage result => exact fun _ => holds_applyTriage hinformed henv htask hbegun
      | result result => exact fun _ => holds_applyResult hinformed henv htask hbegun
      | cleanup => exact fun h => absurd rfl h
      | reset => exact fun h => absurd rfl h
    exact Guards.mono hscript (fun _ _ h => h) (fun _ _ _ => trivial) fun _ _ h _ => h

end Setting

end TemplateAxum.Moderation
