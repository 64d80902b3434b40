import Mathlib.Data.Finmap
import TemplateAxum.AssembleDist

/-!
# Assembling `dist/`

`assemble` of `assemble_dist.py`, with a failure possible at each of its steps: the legs are extracted into
a stage beside `dist`, which takes the place of `dist` at the end. What `tarfile` makes of a tarball is a
parameter. An empty `dist` is removed before the rename, so a rename that fails leaves none.
-/

namespace TemplateAxum.AssembleDist

variable {κ : Type}

/-! ### The state -/

/-- An entry of a directory; `what` is what a file or a link holds. -/
inductive Item (κ : Type)
  | dir
  | leaf (what : κ)
deriving DecidableEq

/-- The entries below a directory. -/
abbrev Tree (κ : Type) := Finmap fun _ : PurePath => Item κ

/-- What stands at `dist`. A link leads to nothing, to a directory with its entries, or to anything else. -/
inductive Place (κ : Type)
  | absent
  | dir (entries : Tree κ)
  | file
  | link (leadsTo : Option (Option (Tree κ)))

def Place.pathExists : Place κ → Bool
  | .absent | .link none => false
  | .dir _ | .file | .link (some _) => true

/-- The entries of what is a directory, links followed. -/
def Place.dir? : Place κ → Option (Tree κ)
  | .dir entries | .link (some (some entries)) => some entries
  | _ => none

structure World (κ : Type) where
  dist : Place κ
  /-- The temporary directory, while there is one. -/
  stage : Option (Tree κ)

/-- A step that the operating system may fail. -/
inductive Op
  | isFile (arch : String)
  | inspectDist
  | mkdirParent
  | mkdtemp
  | chmod
  | distExists
  | rmdir
  | rename
deriving DecidableEq

/-- What `assemble` meets. -/
structure Env (κ : Type) where
  /-- `dist`, as messages show it. -/
  distName : String
  hasDataFilter : Bool
  /-- `parts / f"assets-{arch}.tar"` is a file. -/
  isFile : String → Bool
  /-- The members of an arch's tarball. -/
  tar : String → List TarInfo
  /-- `extractall` into a directory, when each member is claimed: all of it, or what is there when it raises. -/
  extract : String → Tree κ → Except (String × Tree κ) (Tree κ)
  /-- What is there when a member is not claimed. -/
  cut : String → Tree κ → Tree κ
  /-- The message of an `OSError`. -/
  fault : Op → Option String
  /-- What is left of the stage when `rmtree` cannot remove it. -/
  remains : Option (Tree κ)

/-! ### `assemble` -/

abbrev AssembleM (κ : Type) := EStateM String (World κ)

variable (env : Env κ)

def raiseIf (c : Prop) [Decidable c] (msg : String) : AssembleM κ Unit := if c then throw msg else pure ()

/-- A step of the operating system. -/
def run (op : Op) (act : World κ → Except String (World κ)) : AssembleM κ Unit := fun w =>
  match env.fault op with
  | some msg => .error msg w
  | none =>
    match act w with
    | .ok w' => .ok () w'
    | .error msg => .error msg w

def tarballs (names : List String) : AssembleM κ Unit :=
  forM names fun arch => do
    run env (.isFile arch) .ok
    raiseIf (env.isFile arch = false) ("no release assets uploaded for arch " ++ arch)

def extractLeg (s : Claims × Tree κ) (arch : String) : Except (String × Tree κ) (Claims × Tree κ) :=
  match (env.tar arch).foldlM (checkedMember arch) s.1 with
  | .error msg => .error (msg, env.cut arch s.2)
  | .ok claims =>
    match env.extract arch s.2 with
    | .error e => .error e
    | .ok t => .ok (claims, t)

/-- `rmdir` does not follow a link. -/
def rmdirDist (w : World κ) : Except String (World κ) :=
  match w.dist with
  | .dir entries => if entries.keys = ∅ then .ok { w with dist := .absent } else .error "Directory not empty"
  | .absent => .error "No such file or directory"
  | .file | .link _ => .error "Not a directory"

/-- `stage.rename(dist)`, which may replace an empty directory and nothing else. -/
def renameStage (w : World κ) : Except String (World κ) :=
  match w.stage with
  | none => .error "No such file or directory"
  | some t =>
    match w.dist with
    | .absent => .ok ⟨.dir t, none⟩
    | .dir entries => if entries.keys = ∅ then .ok ⟨.dir t, none⟩ else .error "Directory not empty"
    | .file | .link _ => .error "Not a directory"

/-- The legs, one after the other; the stage keeps what is extracted. -/
def extractLegs (names : List String) : AssembleM κ Unit := fun w =>
  match names.foldlM (extractLeg env) (Claims.empty, w.stage.getD ∅) with
  | .error (msg, t) => .error msg { w with stage := some t }
  | .ok (_, t) => .ok () { w with stage := some t }

/-- The body of the `try`. -/
def fill (names : List String) : AssembleM κ Unit := do
  extractLegs env names
  run env .chmod .ok
  run env .distExists .ok
  if (← get).dist.pathExists then run env .rmdir rmdirDist
  run env .rename renameStage

/-- `shutil.rmtree(stage, ignore_errors=True)`. -/
def rmtree : AssembleM κ Unit := modify fun w => if w.stage.isSome then { w with stage := env.remains } else w

def assemble (value : List String) : AssembleM κ Unit := do
  raiseIf (env.hasDataFilter = false) "this Python's tarfile has no extraction filters; Python 3.12+ is required"
  let names ← ofExcept (validateArches value)
  tarballs env names
  run env .inspectDist .ok
  let dist := (← get).dist
  raiseIf (dist.pathExists ∧ dist.dir?.map Finmap.keys ≠ some ∅)
    (env.distName ++ " already exists and is not an empty directory")
  run env .mkdirParent .ok
  run env .mkdtemp fun w => .ok { w with stage := some ∅ }
  try
    fill env names
  finally
    rmtree env

/-! ### What a run ends with -/

/-- The run returns in a state of `Q` or raises in a state of `E`. -/
def Post {α : Type} (Q : α → World κ → Prop) (E : World κ → Prop) (p : AssembleM κ α) (w : World κ) : Prop :=
  match p w with
  | .ok a w' => Q a w'
  | .error _ w' => E w'

section Post

variable {env} {α β : Type} {Q : α → World κ → Prop} {E : World κ → Prop} {w : World κ}

@[simp] theorem post_pure {a : α} : Post Q E (pure a) w ↔ Q a w := Iff.rfl

@[simp] theorem post_bind {Q : β → World κ → Prop} {p : AssembleM κ α} {f : α → AssembleM κ β} :
    Post Q E (p >>= f) w ↔ Post (fun a w' => Post Q E (f a) w') E p w := by
  simp only [Post, bind, EStateM.bind]
  cases p w <;> rfl

@[simp] theorem post_get {Q : World κ → World κ → Prop} : Post Q E get w ↔ Q w w := Iff.rfl

@[simp] theorem post_ofExcept {r : Except String α} :
    Post Q E (ofExcept r) w ↔ match r with | .ok a => Q a w | .error _ => E w := by
  cases r <;> rfl

@[simp] theorem post_raiseIf {Q : Unit → World κ → Prop} {c : Prop} [Decidable c] {msg : String} :
    Post Q E (raiseIf c msg) w ↔ if c then E w else Q () w := by
  unfold raiseIf
  split <;> rfl

theorem post_run {Q : Unit → World κ → Prop} {op : Op} {act : World κ → Except String (World κ)} :
    Post Q E (run env op act) w ↔
      if env.fault op = none then match act w with | .ok w' => Q () w' | .error _ => E w else E w := by
  simp only [Post, run]
  cases hfault : env.fault op with
  | some msg => simp
  | none => cases act w <;> simp

/-- A step that changes nothing here. -/
@[simp] theorem post_run_ok {Q : Unit → World κ → Prop} {op : Op} :
    Post Q E (run env op .ok) w ↔ if env.fault op = none then Q () w else E w := post_run

@[simp] theorem post_tryFinally {p : AssembleM κ α} {cleanup : AssembleM κ Unit} :
    Post Q E (tryFinally p cleanup) w ↔
      Post (fun a w' => Post (fun _ => Q a) E cleanup w') (fun w' => Post (fun _ => E) E cleanup w') p w := by
  simp only [Post, tryFinally, tryFinally', Functor.map, EStateM.map]
  cases hp : p w with
  | ok a w' => cases hc : cleanup w' <;> simp [hc]
  | error msg w' => cases hc : cleanup w' <;> simp [hc]

@[simp] theorem post_extractLegs {Q : Unit → World κ → Prop} {names : List String} :
    Post Q E (extractLegs env names) w ↔
      match names.foldlM (extractLeg env) (Claims.empty, w.stage.getD ∅) with
      | .ok s => Q () { w with stage := some s.2 }
      | .error e => E { w with stage := some e.2 } := by
  simp only [Post, extractLegs]
  cases names.foldlM (extractLeg env) (Claims.empty, w.stage.getD ∅) <;> rfl

@[simp] theorem post_rmtree {Q : Unit → World κ → Prop} :
    Post Q E (rmtree env) w ↔ Q () (if w.stage.isSome then { w with stage := env.remains } else w) := Iff.rfl

@[simp] theorem post_tarballs {Q : Unit → World κ → Prop} {names : List String} :
    Post Q E (tarballs env names) w ↔
      if ∀ arch ∈ names, env.fault (.isFile arch) = none ∧ env.isFile arch = true then Q () w else E w := by
  unfold tarballs
  induction names with
  | nil => simp
  | cons arch names ih =>
    simp only [List.forM_cons, post_bind, post_run_ok, post_raiseIf, ih, List.forall_mem_cons]
    by_cases hfault : env.fault (.isFile arch) = none
    · by_cases hfile : env.isFile arch = true <;> simp [hfault, hfile]
    · simp [hfault]

end Post

/-! ### Unions -/

section Union

theorem keys_eq_empty_iff {t : Tree κ} : t.keys = ∅ ↔ t = ∅ := by
  refine ⟨fun h => Finmap.ext_lookup fun p => ?_, fun h => h ▸ rfl⟩
  rw [Finmap.lookup_empty, Finmap.lookup_eq_none, ← Finmap.mem_keys, h]
  exact Finset.notMem_empty p

/-- No path has two entries. -/
def Agree (t u : Tree κ) : Prop := ∀ p n n', t.lookup p = some n → u.lookup p = some n' → n = n'

theorem lookup_union {t u : Tree κ} (h : Agree t u) {p : PurePath} {n : Item κ} :
    (t ∪ u).lookup p = some n ↔ t.lookup p = some n ∨ u.lookup p = some n := by
  rw [← Option.mem_def, Finmap.mem_lookup_union, Option.mem_def, Option.mem_def]
  refine ⟨Or.imp_right And.right, fun hlookup => ?_⟩
  by_cases hmem : p ∈ t
  · obtain ⟨n', ht⟩ := Finmap.mem_iff.1 hmem
    rcases hlookup with hlookup | hlookup
    · exact .inl hlookup
    · exact .inl (h p n' n ht hlookup ▸ ht)
  · rcases hlookup with hlookup | hlookup
    · exact .inl hlookup
    · exact .inr ⟨hmem, hlookup⟩

/-- `t` holds what the legs hold, and nothing else. -/
def IsUnion (holds : String → Tree κ) (names : List String) (t : Tree κ) : Prop :=
  ∀ p n, t.lookup p = some n ↔ ∃ arch ∈ names, (holds arch).lookup p = some n

/-- An extraction that goes through adds what the tarball holds and leaves other entries alone; on the
entries that are there already it says nothing, unless they are the same. -/
def Env.Documented (env : Env κ) (holds : String → Tree κ) : Prop :=
  ∀ arch t t', env.extract arch t = .ok t' → Agree t (holds arch) → t' = t ∪ holds arch

variable {env : Env κ} {holds : String → Tree κ} {names : List String}

theorem lookup_extractLegs (hdoc : env.Documented holds) (hagree : ∀ a ∈ names, ∀ b ∈ names, Agree (holds a) (holds b))
    {s s' : Claims × Tree κ} (hs : ∀ arch ∈ names, Agree s.2 (holds arch))
    (h : names.foldlM (extractLeg env) s = .ok s') (p : PurePath) (n : Item κ) :
    s'.2.lookup p = some n ↔ s.2.lookup p = some n ∨ ∃ arch ∈ names, (holds arch).lookup p = some n := by
  induction names generalizing s with
  | nil =>
    cases h
    simp
  | cons arch names ih =>
    rw [List.foldlM_cons] at h
    cases hleg : extractLeg env s arch with
    | error e =>
      rw [hleg] at h
      cases h
    | ok s₁ =>
      rw [hleg] at h
      have htree : s₁.2 = s.2 ∪ holds arch := by
        unfold extractLeg at hleg
        split at hleg
        · cases hleg
        · split at hleg
          · cases hleg
          · rename_i t ht
            cases hleg
            exact hdoc arch s.2 t ht (hs arch List.mem_cons_self)
      have hlookup := @lookup_union κ s.2 (holds arch) (hs arch List.mem_cons_self)
      have hs₁ : ∀ b ∈ names, Agree s₁.2 (holds b) := by
        intro b hb p n n' hn hn'
        rw [htree, hlookup] at hn
        rcases hn with hn | hn
        · exact hs b (List.mem_cons_of_mem _ hb) p n n' hn hn'
        · exact hagree arch List.mem_cons_self b (List.mem_cons_of_mem _ hb) p n n' hn hn'
      rw [ih (fun a ha b hb => hagree a (List.mem_cons_of_mem _ ha) b (List.mem_cons_of_mem _ hb)) hs₁ h, htree, hlookup,
        or_assoc]
      simp

theorem agree_of_isUnion {t : Tree κ} (h : IsUnion holds names t) : ∀ a ∈ names, ∀ b ∈ names, Agree (holds a) (holds b) := by
  intro a ha b hb p n n' hn hn'
  have ht := (h p n).2 ⟨a, ha, hn⟩
  rw [(h p n').2 ⟨b, hb, hn'⟩] at ht
  exact (Option.some.inj ht).symm

/-- The stage is the union of the legs exactly when they agree. -/
theorem isUnion_iff (hdoc : env.Documented holds) {claims : Claims} {t : Tree κ}
    (h : names.foldlM (extractLeg env) (Claims.empty, ∅) = .ok (claims, t)) :
    IsUnion holds names t ↔ ∀ a ∈ names, ∀ b ∈ names, Agree (holds a) (holds b) := by
  refine ⟨agree_of_isUnion, fun hagree p n => ?_⟩
  rw [lookup_extractLegs hdoc hagree (s := (Claims.empty, ∅)) ?_ h p n]
  · simp
  · intro arch _ p n n' hn
    simp at hn

end Union

/-! ### The swap -/

section Swap

variable {env : Env κ} {holds : String → Tree κ} {dist : Place κ} {value names : List String} {t : Tree κ}

/-- All that comes before the swap goes well, and leaves `t` in the stage. -/
structure Ready (env : Env κ) (dist : Place κ) (value names : List String) (t : Tree κ) : Prop where
  filter : env.hasDataFilter = true
  valid : validateArches value = .ok names
  files : ∀ arch ∈ names, env.fault (.isFile arch) = none ∧ env.isFile arch = true
  inspect : env.fault .inspectDist = none
  free : dist.pathExists = true → dist.dir?.map Finmap.keys = some ∅
  parent : env.fault .mkdirParent = none
  stage : env.fault .mkdtemp = none
  legs : ∃ claims, names.foldlM (extractLeg env) (Claims.empty, ∅) = .ok (claims, t)
  chmod : env.fault .chmod = none
  distExists : env.fault .distExists = none

/-- An empty `dist` is removed and then the rename fails. -/
def LosesDist (env : Env κ) (dist : Place κ) (value : List String) : Prop :=
  dist = .dir ∅ ∧ env.fault .rmdir = none ∧ env.fault .rename ≠ none ∧ ∃ names t, Ready env dist value names t

/-- Nothing fails. -/
def Completes (env : Env κ) (dist : Place κ) (value names : List String) (t : Tree κ) : Prop :=
  Ready env dist value names t ∧ (dist = .absent ∨ dist = .dir ∅ ∧ env.fault .rmdir = none) ∧ env.fault .rename = none

/-- `dist` is as it was, and no stage is left if that can be removed. -/
def Untouched (env : Env κ) (dist : Place κ) (w : World κ) : Prop := w.dist = dist ∧ (env.remains = none → w.stage = none)

/-- `dist` is the union of the legs. -/
def Assembled (holds : String → Tree κ) (value : List String) (w : World κ) : Prop :=
  ∃ names t, validateArches value = .ok names ∧ w = ⟨.dir t, none⟩ ∧ IsUnion holds names t

/-- A run that raises leaves `dist` untouched, and one that returns assembles it. -/
def Keeps (env : Env κ) (holds : String → Tree κ) (dist : Place κ) (value : List String) : Prop :=
  Post (fun _ => Assembled holds value) (Untouched env dist) (assemble env value) ⟨dist, none⟩

/-- An empty `dist` is not lost, and the legs of a run in which nothing fails agree. -/
def Sound (env : Env κ) (holds : String → Tree κ) (dist : Place κ) (value : List String) : Prop :=
  ¬ LosesDist env dist value ∧
    ∀ names t, Completes env dist value names t → ∀ a ∈ names, ∀ b ∈ names, Agree (holds a) (holds b)

theorem sound_of_not_ready (h : ∀ names t, ¬ Ready env dist value names t) : Sound env holds dist value :=
  ⟨fun hlost => let ⟨names, t, hready⟩ := hlost.2.2.2; h names t hready, fun names t hdone => absurd hdone.1 (h names t)⟩

/-- When all is ready, the swap decides. -/
theorem sound_iff (hdoc : env.Documented holds) (hready : Ready env dist value names t) : Sound env holds dist value ↔
    ¬ (dist = .dir ∅ ∧ env.fault .rmdir = none ∧ env.fault .rename ≠ none) ∧
      ((dist = .absent ∨ dist = .dir ∅ ∧ env.fault .rmdir = none) → env.fault .rename = none → Assembled holds value ⟨.dir t, none⟩) := by
  obtain ⟨claims, hlegs⟩ := hready.legs
  have hassembled : Assembled holds value ⟨.dir t, none⟩ ↔ ∀ a ∈ names, ∀ b ∈ names, Agree (holds a) (holds b) := by
    rw [← isUnion_iff hdoc hlegs]
    constructor
    · rintro ⟨names', t', hvalid, hw, hunion⟩
      cases hw
      cases hvalid.symm.trans hready.valid
      exact hunion
    · exact fun hunion => ⟨names, t, hready.valid, rfl, hunion⟩
  rw [hassembled]
  refine and_congr (not_congr ⟨fun h => ⟨h.1, h.2.1, h.2.2.1⟩, fun h => ⟨h.1, h.2.1, h.2.2, names, t, hready⟩⟩) ?_
  constructor
  · exact fun h hplace hrename => h names t ⟨hready, hplace, hrename⟩
  · intro h names' t' hdone
    cases hdone.1.valid.symm.trans hready.valid
    exact h hdone.2.1 hdone.2.2

theorem untouched_iff {w : World κ} (hw : Untouched env dist w) (h : ∀ names t, ¬ Ready env dist value names t) :
    Untouched env dist w ↔ Sound env holds dist value :=
  iff_of_true hw (sound_of_not_ready h)

/-- From the extraction on. -/
theorem keeps_fill_iff (hdoc : env.Documented holds) (hvalid : validateArches value = .ok names)
    (hfree : dist.pathExists = true → dist.dir?.map Finmap.keys = some ∅)
    (hready : ∀ t, Ready env dist value names t ↔ (∃ claims, names.foldlM (extractLeg env) (Claims.empty, ∅) = .ok (claims, t)) ∧
      env.fault .chmod = none ∧ env.fault .distExists = none) :
    Post (fun _ => Assembled holds value) (Untouched env dist) (tryFinally (fill env names) (rmtree env)) ⟨dist, some ∅⟩ ↔
      Sound env holds dist value := by
  have hnames : ∀ {names' t}, Ready env dist value names' t → names' = names := fun h =>
    Except.ok.inj (h.valid.symm.trans hvalid)
  unfold fill
  simp only [post_tryFinally, post_bind, post_extractLegs, post_run_ok, post_rmtree, Option.getD_some, Option.isSome_some, if_true]
  cases hlegs : names.foldlM (extractLeg env) (Claims.empty, (∅ : Tree κ)) with
  | error e =>
    refine untouched_iff ⟨rfl, id⟩ fun names' t h => ?_
    rw [hnames h] at h
    obtain ⟨⟨claims, hok⟩, -⟩ := (hready t).1 h
    rw [hlegs] at hok
    cases hok
  | ok s =>
    obtain ⟨claims, t⟩ := s
    dsimp only
    by_cases hchmod : env.fault .chmod = none
    case neg =>
      rw [if_neg hchmod]
      exact untouched_iff ⟨rfl, id⟩ fun names' t h => hchmod h.chmod
    rw [if_pos hchmod]
    by_cases hexists : env.fault .distExists = none
    case neg =>
      rw [if_neg hexists]
      exact untouched_iff ⟨rfl, id⟩ fun names' t h => hexists h.distExists
    rw [if_pos hexists]
    have hready' : Ready env dist value names t := (hready t).2 ⟨⟨claims, hlegs⟩, hchmod, hexists⟩
    rw [post_get, sound_iff hdoc hready']
    cases dist with
    | absent =>
      rw [if_neg (by simp [Place.pathExists]), post_run]
      by_cases hrename : env.fault .rename = none <;> simp [hrename, renameStage, Untouched]
    | dir entries =>
      have hempty : entries = ∅ := keys_eq_empty_iff.1 (Option.some.inj (hfree rfl))
      subst hempty
      rw [if_pos (by simp [Place.pathExists]), post_bind, post_run]
      by_cases hrmdir : env.fault .rmdir = none
      · simp only [hrmdir, if_true, rmdirDist, keys_eq_empty_iff, post_run]
        by_cases hrename : env.fault .rename = none <;> simp [hrename, renameStage, Untouched]
      · simp [hrmdir, Untouched]
    | file => cases hfree rfl
    | link leadsTo =>
      cases leadsTo with
      | none =>
        rw [if_neg (by simp [Place.pathExists]), post_run]
        by_cases hrename : env.fault .rename = none <;> simp [hrename, renameStage, Untouched]
      | some target =>
        rw [if_pos (by simp [Place.pathExists]), post_bind, post_run]
        by_cases hrmdir : env.fault .rmdir = none <;> simp [hrmdir, rmdirDist, Untouched]

theorem keeps_iff (hdoc : env.Documented holds) : Keeps env holds dist value ↔ Sound env holds dist value := by
  have hstart : Untouched env dist ⟨dist, none⟩ := ⟨rfl, fun _ => rfl⟩
  unfold Keeps assemble
  simp only [post_bind, post_raiseIf, post_ofExcept, post_tarballs, post_get, post_run]
  by_cases hfilter : env.hasDataFilter = false
  · rw [if_pos hfilter]
    exact untouched_iff hstart fun names t h => by simp [h.filter] at hfilter
  rw [if_neg hfilter]
  cases hvalid : validateArches value with
  | error msg => exact untouched_iff hstart fun names t h => by simp [h.valid] at hvalid
  | ok names =>
    have hnames : ∀ {names' t}, Ready env dist value names' t → names' = names := fun h =>
      Except.ok.inj (h.valid.symm.trans hvalid)
    dsimp only
    by_cases hfiles : ∀ arch ∈ names, env.fault (.isFile arch) = none ∧ env.isFile arch = true
    case neg =>
      rw [if_neg hfiles]
      exact untouched_iff hstart fun names' t h => hfiles (hnames h ▸ h.files)
    rw [if_pos hfiles]
    by_cases hinspect : env.fault .inspectDist = none
    case neg =>
      rw [if_neg hinspect]
      exact untouched_iff hstart fun names' t h => hinspect h.inspect
    rw [if_pos hinspect]
    by_cases hfree : dist.pathExists = true ∧ dist.dir?.map Finmap.keys ≠ some ∅
    · rw [if_pos hfree]
      exact untouched_iff hstart fun names' t h => hfree.2 (h.free hfree.1)
    rw [if_neg hfree]
    by_cases hparent : env.fault .mkdirParent = none
    case neg =>
      rw [if_neg hparent]
      exact untouched_iff hstart fun names' t h => hparent h.parent
    rw [if_pos hparent]
    by_cases hstage : env.fault .mkdtemp = none
    case neg =>
      rw [if_neg hstage]
      exact untouched_iff hstart fun names' t h => hstage h.stage
    rw [if_pos hstage]
    have hfree' : dist.pathExists = true → dist.dir?.map Finmap.keys = some ∅ := fun h =>
      not_not.1 fun hne => hfree ⟨h, hne⟩
    refine keeps_fill_iff hdoc hvalid hfree' fun t => ⟨fun h => ⟨h.legs, h.chmod, h.distExists⟩, fun h => ?_⟩
    exact ⟨by simpa using hfilter, hvalid, hfiles, hinspect, hfree', hparent, hstage, h.1, h.2.1, h.2.2⟩

/-! ### What the claims are for -/

/-- What a tarball holds stands at its members and above them: nothing is extracted through a link. -/
def Direct (members : List TarInfo) (tree : Tree κ) : Prop :=
  ∀ p n, tree.lookup p = some n → p ≠ [] ∧
    match n with
    | .dir => Dir members p ∨ ImpliedDir members p
    | .leaf _ => Leaf members p

theorem inside_of_checkedMember {arch : String} {s s' : Claims} {m : TarInfo} (h : checkedMember arch s m = .ok s') :
    m.Inside := by
  simp only [checkedMember] at h
  split at h
  · rename_i hroot
    have hnil := (PurePath.name_eq_dot_iff (PurePath.not_mem_ofName m.name).2).1 hroot.2
    exact ⟨hroot.1, by rw [hnil]; exact List.not_mem_nil⟩
  · split at h
    · cases h
    · rename_i hescapes
      rw [not_or] at hescapes
      exact ⟨by simpa using hescapes.1, hescapes.2⟩

theorem inside_of_foldlM {arch : String} {members : List TarInfo} {s s' : Claims}
    (h : members.foldlM (checkedMember arch) s = .ok s') : ∀ m ∈ members, m.Inside := by
  induction members generalizing s with
  | nil => simp
  | cons m members ih =>
    rw [List.foldlM_cons] at h
    cases hm : checkedMember arch s m with
    | error msg =>
      rw [hm] at h
      cases h
    | ok s₁ =>
      rw [hm] at h
      exact List.forall_mem_cons.2 ⟨inside_of_checkedMember hm, ih h⟩

/-- The legs that are extracted have been claimed. -/
theorem claimed_of_extractLegs {s s' : Claims × Tree κ} (h : names.foldlM (extractLeg env) s = .ok s') :
    names.foldlM (fun s arch => (env.tar arch).foldlM (checkedMember arch) s) s.1 = .ok s'.1 ∧
      ∀ arch ∈ names, ∀ m ∈ env.tar arch, m.Inside := by
  induction names generalizing s with
  | nil =>
    cases h
    exact ⟨rfl, by simp⟩
  | cons arch names ih =>
    rw [List.foldlM_cons] at h ⊢
    cases hleg : extractLeg env s arch with
    | error e =>
      rw [hleg] at h
      cases h
    | ok s₁ =>
      rw [hleg] at h
      have hclaims : (env.tar arch).foldlM (checkedMember arch) s.1 = .ok s₁.1 := by
        unfold extractLeg at hleg
        split at hleg
        · cases hleg
        · rename_i claims hclaims
          split at hleg
          · cases hleg
          · cases hleg
            exact hclaims
      rw [hclaims]
      exact ⟨(ih h).1, List.forall_mem_cons.2 ⟨inside_of_foldlM hclaims, (ih h).2⟩⟩

/-- Legs that go together agree. -/
theorem agree_of_direct (hready : Ready env dist value names t) (hdirect : ∀ arch, Direct (env.tar arch) (holds arch)) :
    ∀ a ∈ names, ∀ b ∈ names, Agree (holds a) (holds b) := by
  obtain ⟨claims, hlegs⟩ := hready.legs
  obtain ⟨hclaims, hinside⟩ := claimed_of_extractLegs hlegs
  obtain ⟨-, hnodup, hnonempty⟩ := validateArches_eq_ok hready.valid
  have hapart : ∀ p ≠ [], ¬ Collide names env.tar p := by
    intro p hp hcollide
    have hsettled := @legs_settled _ _ hnodup hnonempty hinside .empty [] (by simp) tracks_empty (by simp [Apart])
    obtain ⟨msg, hmsg⟩ := hsettled.2 (not_apart_iff.2 ⟨p, hp, hcollide⟩)
    rw [hclaims] at hmsg
    cases hmsg
  intro a ha b hb p n n' hn hn'
  by_cases hab : a = b
  · subst hab
    exact Option.some.inj (hn.symm.trans hn')
  obtain ⟨hp, hentry⟩ := hdirect a p n hn
  obtain ⟨-, hentry'⟩ := hdirect b p n' hn'
  cases n with
  | dir =>
    cases n' with
    | dir => rfl
    | leaf k' => exact absurd ⟨b, hb, a, ha, Ne.symm hab, hentry', .inr hentry⟩ (hapart p hp)
  | leaf k =>
    cases n' with
    | dir => exact absurd ⟨a, ha, b, hb, hab, hentry, .inr hentry'⟩ (hapart p hp)
    | leaf k' => exact absurd ⟨a, ha, b, hb, hab, hentry, .inl hentry'⟩ (hapart p hp)

/-- A failed assembly leaves `dist` as it was and a finished one makes the union of the legs, exactly when
no empty `dist` is lost and the legs agree; the legs do, unless one is extracted through a link. -/
theorem assemble_keeps_iff (hdoc : env.Documented holds) (dist : Place κ) (value : List String) :
    (Keeps env holds dist value ↔ Sound env holds dist value) ∧
      ((∀ arch, Direct (env.tar arch) (holds arch)) → (Keeps env holds dist value ↔ ¬ LosesDist env dist value)) := by
  refine ⟨keeps_iff hdoc, fun hdirect => (keeps_iff hdoc).trans (and_iff_left fun names t hdone => ?_)⟩
  exact agree_of_direct hdone.1 hdirect

end Swap

/-! ### An empty `dist` that is lost -/

/-- The file `x`. -/
def single : Tree Unit := Finmap.singleton ["x"] (.leaf ())

/-- One leg with one file, where the rename fails. -/
def renameFails : Env Unit where
  distName := "dist"
  hasDataFilter := true
  isFile _ := true
  tar _ := [⟨"x", false⟩]
  extract _ t := .ok (t ∪ single)
  cut _ t := t
  fault op := if op = .rename then some "Permission denied" else none
  remains := none

theorem documented_renameFails : renameFails.Documented fun _ => single := by
  rintro arch t t' ⟨⟩ -
  rfl

theorem losesDist_renameFails : LosesDist renameFails (.dir ∅) ["amd64"] :=
  ⟨rfl, rfl, by simp [renameFails], ["amd64"], ∅ ∪ single,
    ⟨rfl, by decide +kernel, fun _ _ => ⟨rfl, rfl⟩, rfl, fun _ => rfl, rfl, rfl, ⟨_, rfl⟩, rfl, rfl⟩⟩

/-- `dist` was an empty directory, and afterwards there is none. -/
theorem not_keeps_renameFails : ¬ Keeps renameFails (fun _ => single) (.dir ∅) ["amd64"] := fun h =>
  ((keeps_iff documented_renameFails).1 h).1 losesDist_renameFails

theorem assemble_keeps_iff_renameFails :
    (Keeps renameFails (fun _ => single) (.dir ∅) ["amd64"] ↔ Sound renameFails (fun _ => single) (.dir ∅) ["amd64"]) :=
  (assemble_keeps_iff documented_renameFails (.dir ∅) ["amd64"]).1

end TemplateAxum.AssembleDist
