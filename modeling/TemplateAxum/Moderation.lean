import Mathlib.Data.Finset.Basic
import Mathlib.Data.List.DropRight
import TemplateAxum.Lib.CommitGraph
import TemplateAxum.Lib.Fnmatch
import TemplateAxum.Lib.Prog

/-!
# Moderation scripts

The scripts that write to the repository for an issue: `applyTriage` and `applyResult` act on the packaged result of a
job that ran on untrusted text, `cleanup` and `resetIssueState` on the issue alone. A script calls `git` and `gh`, and
each call can fail. How these two answer is a parameter, `Tools`; `Documented` is what is relied on of them.
-/

namespace TemplateAxum.Moderation

/-! ### Names -/

def isNumber (text : String) : Bool := !text.isEmpty && text.toList.all fun c => '0' ≤ c && c ≤ '9'

def isSha (text : String) : Bool :=
  text.length == 40 && text.toList.all fun c => '0' ≤ c && c ≤ '9' || 'a' ≤ c && c ≤ 'f'

/-- The name of a commit. -/
@[ext]
structure Sha where
  name : String
  full : isSha name = true
deriving DecidableEq

inductive Kind
  | bug | feature
deriving DecidableEq

namespace Kind

def branchPrefix : Kind → String
  | bug => "bug"
  | feature => "feature"

def branchSuffix : Kind → String
  | bug => "repro"
  | feature => "plan"

def branch (kind : Kind) (issueNumber : String) : String :=
  kind.branchPrefix ++ "/" ++ issueNumber ++ "-" ++ kind.branchSuffix

def readyLabel : Kind → String
  | bug => "bug:repro-ready"
  | feature => "enhancement:plan-ready"

def doneLabel : Kind → String
  | bug => "bug:fixed"
  | feature => "enhancement:built"

def closesVerb : Kind → String
  | bug => "Fixes"
  | feature => "Closes"

/-- The actions that a triage may report, each with its label. -/
def labelFor : Kind → List (String × String)
  | bug => [("needs-info", "bug:needs-info"), ("repro-ready", "bug:repro-ready"), ("cannot-reproduce", "needs-human")]
  | feature =>
    [("not-a-fit", "enhancement:not-a-fit"), ("plan-ready", "enhancement:plan-ready"), ("cannot-plan", "needs-human")]

def branchAction : Kind → String
  | bug => "repro-ready"
  | feature => "plan-ready"

/-- Where the paths of a triage's patch are to start. -/
def onlyUnder : Kind → String
  | bug => ""
  | feature => "docs/plans/"

def stageLabels : Kind → List String
  | bug => ["bug:needs-info", "bug:repro-ready", "bug:confirm", "bug:fixed", "needs-human"]
  | feature =>
    ["enhancement:not-a-fit", "enhancement:plan-ready", "enhancement:confirm", "enhancement:built", "needs-human"]

end Kind

/-! ### The repository -/

structure Entry where
  mode : String
  object : String
deriving DecidableEq

abbrev Commits := CommitGraph Sha String Entry

inductive PrState
  | open | closed | merged
deriving DecidableEq

structure PullRequest where
  number : Nat
  title : String
  body : String
  base : String
  head : String
  state : PrState

/-- The repository at the server. `pushed` is a record of what the scripts have pushed, which no command reads. -/
structure Remote where
  labels : String → Finset String
  comments : List (String × String)
  tips : String → Option Sha
  prs : List PullRequest
  prComments : List (Nat × String)
  pushed : List (String × Sha)

/-- The clone a job works in. -/
structure Clone where
  fetchHead : Option Sha
  branches : String → Option Sha
  head : Option String

/-- A path that two trees differ in, with its mode in the later one. -/
structure DiffEntry where
  mode : String
  path : String

namespace Remote

def edit (r : Remote) (issue : String) (remove add : List String) : Remote :=
  { r with labels := Function.update r.labels issue ((r.labels issue \ remove.toFinset) ∪ add.toFinset) }

def comment (r : Remote) (issue body : String) : Remote := { r with comments := r.comments ++ [(issue, body)] }

def push (r : Remote) (branch : String) (sha : Sha) : Remote :=
  { r with tips := Function.update r.tips branch (some sha), pushed := r.pushed ++ [(branch, sha)] }

def delete (r : Remote) (branch : String) : Remote := { r with tips := Function.update r.tips branch none }

@[simp] theorem push_tips {r : Remote} {branch : String} {sha : Sha} : (r.push branch sha).tips branch = some sha :=
  Function.update_self ..

theorem push_tips_of_ne {r : Remote} {branch other : String} {sha : Sha} (h : other ≠ branch) :
    (r.push branch sha).tips other = r.tips other := Function.update_of_ne h ..

theorem delete_tips_of_ne {r : Remote} {branch other : String} (h : other ≠ branch) :
    (r.delete branch).tips other = r.tips other := Function.update_of_ne h ..

@[simp] theorem delete_tips {r : Remote} {branch : String} : (r.delete branch).tips branch = none := Function.update_self ..

def openPr (r : Remote) (pr : PullRequest) : Remote := { r with prs := r.prs ++ [pr] }

def closePr (r : Remote) (number : Nat) : Remote :=
  { r with prs := r.prs.map fun pr => if pr.number = number then { pr with state := .closed } else pr }

def isOpen (r : Remote) (number : Nat) : Bool := r.prs.any fun pr => pr.number = number ∧ pr.state = .open

def commentPr (r : Remote) (number : Nat) (body : String) : Remote := { r with prComments := r.prComments ++ [(number, body)] }

def openPrs (r : Remote) (head : String) : List PullRequest := r.prs.filter fun pr => pr.head = head ∧ pr.state = .open

theorem openPrs_openPr_ne_nil {r : Remote} {number : Nat} {title body base head : String} :
    (r.openPr ⟨number, title, body, base, head, .open⟩).openPrs head ≠ [] :=
  List.ne_nil_of_mem (List.mem_filter.2
    ⟨List.mem_append_right _ (List.mem_singleton_self _), decide_eq_true ⟨rfl, rfl⟩⟩)

/-- A commit or a branch, by its name. -/
def resolve (r : Remote) (text : String) : Option Sha := if h : isSha text = true then some ⟨text, h⟩ else r.tips text

end Remote

def Clone.commit (clone : Clone) : Option Sha := clone.head.bind clone.branches

/-! ### Commands -/

inductive Command
  | issueLabels (issue : String)
  | issueEdit (issue : String) (remove add : List String)
  | issueComment (issue body : String)
  | compare (base head : String)
  | prList (head : String)
  | prListAll (head : String)
  | prSearch (issue : String)
  | prCreate (title body base head : String)
  | prClose (number : Nat) (comment : String)
  | lsRemote (branch : String)
  | lsRemoteExitCode (branch : String)
  | config (name value : String)
  | fetch (sha : String)
  | checkout (branch : String)
  | am (patch : Option (List UInt8))
  | diff (base : String)
  | push (branch lease : String)
  | pushDelete (branch : String)

/-- What a command prints, where a script reads it. -/
abbrev Reply : Command → Type
  | .issueLabels _ => List String
  | .compare .. | .prList _ | .lsRemote _ => String
  | .prListAll _ | .prSearch _ => Option (Nat × PrState)
  | .diff _ => List DiffEntry
  | _ => Unit

/-- No reply is a failure. -/
abbrev Answer (c : Command) : Type := Option (Reply c)

namespace Command

def edits : Command → Bool
  | .issueEdit .. => true
  | _ => false

def closes : Command → Bool
  | .prClose .. => true
  | _ => false

end Command

/-- How `gh` and `git` answer a command given in a repository and a clone, and what these two are then. -/
abbrev Tools := Remote → Clone → (c : Command) → Answer c → Remote → Clone → Prop

/-- How the commits of a comparison lie to each other. -/
inductive Compared (g : Commits) (base head : Sha) : String → Prop
  | identical : base = head → Compared g base head "identical"
  | ahead : base ≠ head → g.Ancestor base head → Compared g base head "ahead"
  | behind : ¬ g.Ancestor base head → g.Ancestor head base → Compared g base head "behind"
  | diverged : ¬ g.Ancestor base head → ¬ g.Ancestor head base → Compared g base head "diverged"

def entryMode : Option Entry → String
  | none => "000000"
  | some entry => entry.mode

/-- What a command does that succeeds. Labels are edited in one step, a push takes its lease, a patch is applied as commits
one on another, and a pull request that is no longer open stays as it is. -/
def Performs (g : Commits) (r : Remote) (clone : Clone) : (c : Command) → Reply c → Remote → Clone → Prop
  | .issueLabels issue, names, r', clone' => (∀ label, label ∈ names ↔ label ∈ r.labels issue) ∧ r' = r ∧ clone' = clone
  | .issueEdit issue remove add, (), r', clone' => r' = r.edit issue remove add ∧ clone' = clone
  | .issueComment issue body, (), r', clone' => r' = r.comment issue body ∧ clone' = clone
  | .compare base head, status, r', clone' =>
    (∃ a b, r.resolve base = some a ∧ r.resolve head = some b ∧ Compared g a b status) ∧ r' = r ∧ clone' = clone
  | .prList head, url, r', clone' => (url = "" ↔ r.openPrs head = []) ∧ r' = r ∧ clone' = clone
  | .prListAll head, found, r', clone' =>
    (match found with
      | none => ∀ pr ∈ r.prs, pr.head ≠ head
      | some (number, state) => ∃ pr ∈ r.prs, pr.head = head ∧ pr.number = number ∧ pr.state = state) ∧
    r' = r ∧ clone' = clone
  | .prSearch _, found, r', clone' =>
    (∀ number state, found = some (number, state) → ∃ pr ∈ r.prs, pr.number = number ∧ pr.state = state) ∧
    r' = r ∧ clone' = clone
  | .prCreate title body base head, (), r', clone' =>
    (∃ number, (∀ pr ∈ r.prs, pr.number ≠ number) ∧ r' = r.openPr ⟨number, title, body, base, head, .open⟩) ∧ clone' = clone
  | .prClose number comment, (), r', clone' =>
    r' = (if r.isOpen number then (r.commentPr number comment).closePr number else r) ∧ clone' = clone
  | .lsRemote branch, text, r', clone' =>
    text = ((r.tips branch).map Sha.name).getD "" ∧ r' = r ∧ clone' = clone
  | .lsRemoteExitCode branch, (), r', clone' => r.tips branch ≠ none ∧ r' = r ∧ clone' = clone
  | .config _ _, (), r', clone' => r' = r ∧ clone' = clone
  | .fetch sha, (), r', clone' =>
    r' = r ∧ ∃ commit : Sha, commit.name = sha ∧ clone' = { clone with fetchHead := some commit }
  | .checkout branch, (), r', clone' =>
    r' = r ∧ ∃ commit, clone.fetchHead = some commit ∧
      clone' = { clone with branches := Function.update clone.branches branch (some commit), head := some branch }
  | .am patch, (), r', clone' =>
    r' = r ∧ patch.isSome = true ∧ ∃ branch before after,
      clone.head = some branch ∧ clone.branches branch = some before ∧ g.Linear before after ∧
      clone' = { clone with branches := Function.update clone.branches branch (some after) }
  | .diff base, entries, r', clone' =>
    (∃ a b, r.resolve base = some a ∧ clone.commit = some b ∧ ∀ entry : DiffEntry, entry ∈ entries ↔
      g.tree a entry.path ≠ g.tree b entry.path ∧ entry.mode = entryMode (g.tree b entry.path)) ∧ r' = r ∧ clone' = clone
  | .push branch lease, (), r', clone' =>
    lease = ((r.tips branch).map Sha.name).getD "" ∧ (∃ commit, clone.branches branch = some commit ∧ r' = r.push branch commit) ∧
      clone' = clone
  | .pushDelete branch, (), r', clone' => r' = r.delete branch ∧ clone' = clone

/-- A commit that a branch contains. -/
def Remote.Holds (g : Commits) (r : Remote) (commit : Sha) : Prop :=
  ∃ branch tip, r.tips branch = some tip ∧ g.Ancestor commit tip

/-- When a command is documented to be possible. Whether a patch applies is left to the patch. -/
def Possible (g : Commits) (r : Remote) (clone : Clone) : Command → Prop
  | .am _ => False
  | .fetch sha => ∃ commit : Sha, commit.name = sha ∧ r.Holds g commit
  | .compare base head => ∃ a b, r.resolve base = some a ∧ r.resolve head = some b ∧ r.Holds g a ∧ r.Holds g b
  | c => ∃ reply r' clone', Performs g r clone c reply r' clone'

/-- What a command that fails can have left of the repository. -/
inductive Failed (g : Commits) (r : Remote) (clone : Clone) : Command → Remote → Prop
  | untouched (c : Command) : Failed g r clone c r
  /-- It was done, and only the answer is lost. -/
  | lost {c : Command} {reply : Reply c} {r' : Remote} {clone' : Clone} (hedits : c.edits = false)
      (h : Performs g r clone c reply r' clone') : Failed g r clone c r'
  /-- The comment comes before the pull request is closed. -/
  | unclosed (number : Nat) (comment : String) : Failed g r clone (.prClose number comment) (r.commentPr number comment)

/-- What the scripts rely on: a command that succeeds has done what it is documented to do, and one that fails has done
this or nothing. An edit of labels that fails has changed none. -/
structure Documented (g : Commits) (runs : Tools) : Prop where
  succeeded : ∀ {r : Remote} {clone : Clone} {c : Command} {reply : Reply c} {r' : Remote} {clone' : Clone},
    runs r clone c (some reply) r' clone' → Performs g r clone c reply r' clone'
  failed : ∀ {r : Remote} {clone : Clone} {c : Command} {r' : Remote} {clone' : Clone},
    runs r clone c none r' clone' → Failed g r clone c r'

/-- What a retry relies on besides: a command that is possible may succeed. -/
def Able (g : Commits) (runs : Tools) : Prop :=
  ∀ r clone c, Possible g r clone c → ∃ reply r' clone', runs r clone c (some reply) r' clone'

/-! ### Scripts -/

/-- A function of a script, which ends with `return 1` when it does not succeed. -/
abbrev Function := Prog Command Answer Unit

/-- A script, with the status it exits with when it does not reach its end. -/
abbrev Script := Prog Command Answer Nat

variable {ε α : Type}

/-- A command whose failure stops the program. -/
def orStop (e : ε) (c : Command) : Prog Command Answer ε (Reply c) :=
  .call c fun answer => match answer with
    | some reply => .ret reply
    | none => .raise e

def orReturn (c : Command) : Function (Reply c) := orStop () c

/-- A command under `errexit`. -/
def orExit (c : Command) : Script (Reply c) := orStop 1 c

/-- A command followed by `|| true`. -/
def orTrue (c : Command) : Prog Command Answer ε Unit := .call c fun _ => .ret ()

def require (e : ε) (test : Bool) : Prog Command Answer ε Unit := if test then .ret () else .raise e

/-- What `jq` prints of the result, under `errexit`. -/
def printed (text : Option String) : Script String := .ofExcept (text.elim (.error 1) .ok)

def maxPatchBytes : Nat := 2097152

def maxTextChars : Nat := 10000

/-- A mention is broken by a space of no width. -/
def breakMention (c : Char) : List Char := if c = '@' then ['@', '\u200b'] else [c]

/-- The untrusted words as the scripts post them: cut, with the mentions broken, and without the newlines at the end,
which the shell drops. -/
def words (text : String) : String :=
  .ofList (((text.toList.take maxTextChars).flatMap breakMention).rdropWhile (· = '\n'))

/-- The environment that a workflow runs a script in. Its issue is the one that the event is about. -/
structure Env where
  issueNumber : String
  defaultBranch : String
  serverUrl : String
  repository : String
  runId : String
  number : isNumber issueNumber = true

/-- A result directory: what `jq` prints of `meta.json`, where it does not fail, the words in it, and the patch. -/
structure Result where
  issueNumber : Option String
  outcome : Option String
  baseSha : Option String
  subject : Option String
  body : Option String
  action : Option String
  comment : Option String
  patch : Option (List UInt8)

def isAncestor (sha ref : String) : Function Unit := do
  let status ← orReturn (.compare sha ref)
  require () (status == "ahead" || status == "identical")

/-- The paths that the automation never changes. -/
def deniedPatterns : List String :=
  [".github/*", ".devcontainer/*", ".claude/*", ".vscode/*", ".mcp.json",
    ".pre-commit-config.yaml", ".pre-commit-config.yml", ".gitattributes", ".gitmodules",
    "Makefile", "*/Makefile", "GNUmakefile", "*/GNUmakefile", "makefile", "*/makefile", "*.mk",
    "scripts/release*", "scripts/develop.sh", "scripts/post-create.sh",
    "scripts/develop.d/*", "scripts/post-create.d/*",
    "Dockerfile*", "*/Dockerfile*", "dockerfile*", "*/dockerfile*", "*.Dockerfile", "*.dockerfile",
    "compose*.y*ml", "*/compose*.y*ml", "docker-compose*.y*ml", "*/docker-compose*.y*ml"]

def denied (path : String) : Bool := deniedPatterns.any (Fnmatch.fnmatch path)

def isLinkMode (mode : String) : Bool := mode == "120000" || mode == "160000"

/-- The entries of the difference, looked at one by one: no link, nothing outside, and no path denied. -/
def resultTreeOk (only : String) (entries : List DiffEntry) : Bool :=
  (entries.all fun entry => !isLinkMode entry.mode && (only.isEmpty || only.toList.isPrefixOf entry.path.toList)) &&
    entries.all fun entry => !denied entry.path

def checkResultTree (base only : String) : Function Unit := do
  let entries ← orReturn (.diff base)
  require () (resultTreeOk only entries)

/-- The steps that both scripts make from the base to the push. -/
def rebuild (branch baseSha remoteSha only : String) (patch : Option (List UInt8)) : Function Unit := do
  let _ ← orReturn (.config "user.name" "claude-moderator[bot]")
  let _ ← orReturn (.config "user.email" "claude-moderator[bot]@users.noreply.github.com")
  let _ ← orReturn (.fetch baseSha)
  let _ ← orReturn (.checkout branch)
  let _ ← orReturn (.am patch)
  checkResultTree baseSha only
  orReturn (.push branch remoteSha)

/-- The note on the issue. The link of the run is only there when all of its parts are. -/
def Env.runUrl (env : Env) : String :=
  if env.serverUrl ≠ "" ∧ env.repository ≠ "" ∧ env.runId ≠ "" then
    " See " ++ env.serverUrl ++ "/" ++ env.repository ++ "/actions/runs/" ++ env.runId ++ "."
  else ""

def fail (env : Env) (issueNumber note hint : String) : Script α := do
  orTrue (.issueEdit issueNumber [] ["needs-human"])
  orTrue (.issueComment issueNumber (note ++ env.runUrl ++ hint))
  .raise 1

/-- The tip that was read has to descend from the base. -/
def checkTip (baseSha remoteSha : String) : Function Unit := do
  require () (isSha remoteSha)
  isAncestor baseSha remoteSha

/-- Where there is no tip, the default branch has to. -/
def checkBase (env : Env) (baseSha remoteSha : String) : Function Unit :=
  if remoteSha ≠ "" then checkTip baseSha remoteSha else isAncestor baseSha env.defaultBranch

/-- Once the branch is pushed: a pull request is there or opened, and then the stage moves on. -/
def presentBuilt (env : Env) (kind : Kind) (issueNumber subject body : String) : Function Unit := do
  let prUrl ← orReturn (.prList (kind.branch issueNumber))
  if prUrl = "" then
    let _ ← orReturn (.prCreate subject (body ++ "\n\n" ++ kind.closesVerb ++ " #" ++ issueNumber) env.defaultBranch
      (kind.branch issueNumber))
    orReturn (.issueEdit issueNumber [kind.readyLabel, "needs-human"] [kind.doneLabel])
  else orReturn (.issueEdit issueNumber [kind.readyLabel, "needs-human"] [kind.doneLabel])

def applyBuilt (env : Env) (kind : Kind) (issueNumber baseSha subject body : String) (patch : Option (List UInt8)) :
    Function Unit := do
  require () (isSha baseSha)
  require () (patch.all (·.length ≤ maxPatchBytes))
  let remoteSha ← orReturn (.lsRemote (kind.branch issueNumber))
  checkBase env baseSha remoteSha
  let _ ← rebuild (kind.branch issueNumber) baseSha remoteSha "" patch
  presentBuilt env kind issueNumber subject body

/-- What follows a build, whose failure is noted. -/
def settleBuilt (env : Env) (issueNumber : String) : Except Unit Unit → Script Unit
  | .ok _ => pure ()
  | .error () =>
    fail env issueNumber "Applying the automated result (patch, push, PR or relabel) failed."
      " Re-add the confirm label to retry once fixed."

def applyOutcome (env : Env) (kind : Kind) (issueNumber : String) (result : Result) : Script Unit := do
  let outcome ← printed result.outcome
  if outcome = "built" then
    let baseSha ← printed result.baseSha
    let subject ← printed result.subject
    let body ← printed (result.body.map words)
    let built ← (applyBuilt env kind issueNumber baseSha subject body result.patch).attempt
    settleBuilt env issueNumber built
  else
    let body ← printed (result.body.map words)
    orTrue (.issueEdit issueNumber [] ["needs-human"])
    let _ ← orExit (.issueComment issueNumber body)

def applyResult (env : Env) (kind : Kind) (result : Result) : Script Unit := do
  let issueNumber ← printed result.issueNumber
  require 1 (isNumber issueNumber)
  require 1 (env.issueNumber.isEmpty || issueNumber == env.issueNumber)
  .call (.issueLabels issueNumber) fun answer => match answer with
    | none => fail env issueNumber "Reading the issue's labels failed." " Re-add the confirm label to retry once fixed."
    | some labels => if kind.readyLabel ∈ labels then applyOutcome env kind issueNumber result else pure ()

/-! ### Triage -/

def isAction (action : String) : Bool :=
  1 ≤ action.length && action.length ≤ 30 && action.toList.all fun c => 'a' ≤ c && c ≤ 'z' || c == '-'

def applyBranch (env : Env) (kind : Kind) (issueNumber baseSha : String) (patch : Option (List UInt8)) : Function Unit := do
  require () (isSha baseSha)
  require () patch.isSome
  require () (patch.all (·.length ≤ maxPatchBytes))
  isAncestor baseSha env.defaultBranch
  let remoteSha ← orReturn (.lsRemote (kind.branch issueNumber))
  if remoteSha ≠ "" then
    checkTip baseSha remoteSha
    rebuild (kind.branch issueNumber) baseSha remoteSha kind.onlyUnder patch
  else rebuild (kind.branch issueNumber) baseSha remoteSha kind.onlyUnder patch

def failTriage (env : Env) (issueNumber note : String) : Script α :=
  if issueNumber ≠ "" then fail env issueNumber note " Reopen the issue to restart triage." else .raise 1

/-- The link to the difference, for a comment on a branch. -/
def Env.branchLink (env : Env) (branch : String) : String :=
  "\n\nBranch diff: " ++ (if env.serverUrl ≠ "" then env.serverUrl else "https://github.com") ++ "/" ++ env.repository ++
    "/compare/" ++ env.defaultBranch ++ "..." ++ branch

def postTriage (env : Env) (issueNumber comment link label : String) : Script Unit :=
  .call (.issueComment issueNumber (comment ++ link)) fun answer => match answer with
    | none => failTriage env issueNumber "Posting the triage comment failed."
    | some _ => .call (.issueEdit issueNumber [] [label]) fun answer => match answer with
      | none => failTriage env issueNumber "Setting the triage label failed."
      | some _ => .ret ()

def applyAction (env : Env) (kind : Kind) (issueNumber action comment label : String) (result : Result) : Script Unit := do
  if action = kind.branchAction then
    match ← (do
        let baseSha ← .ofExcept (result.baseSha.elim (.error ()) .ok)
        applyBranch env kind issueNumber baseSha result.patch : Function Unit).attempt with
    | .ok _ => postTriage env issueNumber comment (env.branchLink (kind.branch issueNumber)) label
    | .error () => failTriage env issueNumber "Applying the automated triage result (patch or push) failed."
  else postTriage env issueNumber comment "" label

def applyTriage (env : Env) (kind : Kind) (result : Result) : Script Unit := do
  if !isNumber (result.issueNumber.getD "") then
    failTriage env env.issueNumber "Automated triage produced an unreadable result."
  else if !env.issueNumber.isEmpty && result.issueNumber.getD "" != env.issueNumber then
    failTriage env env.issueNumber "Automated triage produced a result for a different issue."
  else
    let issueNumber := result.issueNumber.getD ""
    let action ← printed result.action
    let comment ← printed (result.comment.map words)
    match (kind.labelFor.lookup action).filter fun _ => isAction action && !comment.isEmpty with
    | some label => applyAction env kind issueNumber action comment label result
    | none =>
      orTrue (.issueEdit issueNumber [] ["needs-human"])
      let _ ← orExit (.issueComment issueNumber
        "Automated triage ended without a usable result. A maintainer needs to look at this issue.")

/-! ### Cleanup -/

/-- A pull request is looked for by its branch and then by its text. -/
def findPr (branch issue : String) : Script (Option (Nat × PrState)) := do
  let ofBranch ← orExit (.prListAll branch)
  if ofBranch.isSome then pure ofBranch else orExit (.prSearch issue)

def closePr (reason : String) : Option (Nat × PrState) → Script Unit
  | some (number, .open) => orExit (.prClose number ("Closing: " ++ reason ++ "."))
  | _ => pure ()

def deleteBranch (branch : String) : Script Unit :=
  .call (.lsRemoteExitCode branch) fun answer => match answer with
    | some _ => orExit (.pushDelete branch)
    | none => pure ()

/-- Closes what is still open, and deletes the branch. -/
def cleanup (branch issue reason : String) : Script Unit := do
  let found ← findPr branch issue
  closePr reason found
  deleteBranch branch

def removeLabels (issue : String) : List String → Script Unit
  | [] => pure ()
  | label :: labels => do
    orTrue (.issueEdit issue [label] [])
    removeLabels issue labels

def resetIssueState (kind : Kind) (issue : String) : Script Unit := do
  removeLabels issue kind.stageLabels
  cleanup (kind.branch issue) issue ("issue #" ++ issue ++ " was reopened, restarting triage")

/-! ### Jobs -/

inductive Task
  | triage (result : Result)
  | result (result : Result)
  | cleanup
  | reset

/-- A job of one of the workflows, which run one at a time for an issue. -/
structure Job where
  env : Env
  kind : Kind
  task : Task

namespace Job

def issue (job : Job) : String := job.env.issueNumber

def branch (job : Job) : String := job.kind.branch job.issue

def script (job : Job) : Script Unit :=
  match job.task with
  | .triage result => applyTriage job.env job.kind result
  | .result result => applyResult job.env job.kind result
  | .cleanup => cleanup job.branch job.issue ("linked issue #" ++ job.issue ++ " was closed")
  | .reset => resetIssueState job.kind job.issue

end Job

/-- The repository, and for each issue the clone its jobs work in. -/
structure World where
  remote : Remote
  clones : String → Clone

/-- A command of a job for `issue`. -/
def World.answers (runs : Tools) (issue : String) (w : World) (c : Command) (answer : Answer c) (w' : World) : Prop :=
  runs w.remote (w.clones issue) c answer w'.remote (w'.clones issue) ∧ ∀ other ≠ issue, w'.clones other = w.clones other

end TemplateAxum.Moderation
