import TemplateAxum.SyncApply
import TemplateAxum.Lib.PyJsonPrefix

/-!
# What a sync hands on

The summary that `cmd_apply` prints and `cmd_check_apply` reads, and the state file of `write_state` and `read_state`. A
process that is killed leaves a beginning of either behind, under whatever exit status. `applyStep_eq_some_iff`: the step of
the workflow succeeds only where `cmd_apply` ended. `readState_eq_ok_iff`: a state that is read is one that was written.
-/

namespace TemplateAxum.TemplateSync

open FileM
open PyJson (Value)

/-! ### JSON texts in files -/

/-- `json.dumps(v, indent=2)` and the end of its line, in UTF-8. -/
def jsonText (v : Value) : List UInt8 := PyJson.encode (PyJson.dumps 0 v ++ ['\n'])

/-- `json.loads(path.read_text())`, where containers may nest up to a limit. -/
def readJson (limit : ℕ) (path : FilePath) : FileM Value := do
  match PyJson.loads limit (← readText path).toList with
  | some v => pure v
  | none => throw (.runtimeError "JSONDecodeError")

/-- `v[name]`; none is a `KeyError` or a `TypeError`. -/
def item (name : String) : Value → Option Value
  | .obj members => PyJson.lookup (PyJson.str name) members
  | _ => none

def strings (texts : List String) : Value := .arr (texts.map fun text => .str (PyJson.str text))

def member (name : String) (v : Value) : PyJson.Str × Value := (PyJson.str name, v)

section

variable {fs : FileSystem} {path : FilePath} {limit : ℕ} {v : Value} {seen : List UInt8}

theorem readText_encode {text : List Char} (h : readBytes path fs = .ok (PyJson.encode text) fs) :
    readText path fs = .ok (String.ofList text) fs := by
  unfold readText
  rw [bind_ok h, PyJson.fromUTF8?_encode]
  rfl

theorem readJson_encode (limit : ℕ) {text : List Char} (h : readBytes path fs = .ok (PyJson.encode text) fs) :
    (∀ v, PyJson.loads limit text = some v → readJson limit path fs = .ok v fs) ∧
      (PyJson.loads limit text = none → ∃ e, readJson limit path fs = .error e fs) := by
  unfold readJson
  rw [bind_ok (readText_encode h), String.toList_ofList]
  refine ⟨fun v hloads => ?_, fun hloads => ?_⟩
  · rw [hloads]
    rfl
  · rw [hloads]
    exact ⟨_, rfl⟩

theorem prefix_jsonText (v : Value) : PyJson.encode (PyJson.dumps 0 v) <+: jsonText v := by
  rw [jsonText, PyJson.encode, PyJson.encode, List.flatMap_append]
  exact List.prefix_append _ _

/-- As much of a printed value as is there reads as the value when all of it is, and raises otherwise. -/
theorem readJson_of_begun (hv : PyJson.Textual limit v) (hcontainer : v.isContainer = true)
    (hread : readBytes path fs = .ok seen fs) (hseen : seen <+: jsonText v) :
    (PyJson.encode (PyJson.dumps 0 v) <+: seen → readJson limit path fs = .ok v fs) ∧
      (¬ PyJson.encode (PyJson.dumps 0 v) <+: seen → ∃ e, readJson limit path fs = .error e fs) := by
  have hascii : PyJson.IsAscii (PyJson.dumps 0 v ++ ['\n']) :=
    PyJson.isAscii_append.2 ⟨PyJson.isAscii_dumps hv 0, PyJson.isAscii_of_all (by decide)⟩
  obtain ⟨begun, rfl, hbegun, hwhole⟩ := PyJson.prefix_encode_iff hascii hseen
  have hloads : ∀ w, PyJson.loads limit begun = some w ↔ PyJson.dumps 0 v <+: begun ∧ w = v := fun w =>
    PyJson.loads_of_begun hv hcontainer rfl hbegun
  obtain ⟨hsome, hnone⟩ := readJson_encode limit hread
  rw [hwhole _ (List.prefix_append _ _)]
  refine ⟨fun hfull => hsome v ((hloads v).2 ⟨hfull, rfl⟩), fun hcut => hnone ?_⟩
  by_contra hne
  obtain ⟨w, hw⟩ := Option.ne_none_iff_exists'.1 hne
  exact hcut ((hloads w).1 hw).1

end

/-! ### The summary -/

/-- What `cmd_apply` prints of a summary. -/
def Summary.toJson (s : Summary) : Value :=
  .obj
    [member "replace" (.obj [member "updated" (strings s.replace.updated), member "removed" (strings s.replace.removed)]),
      member "merge" (.obj [member "merged" (strings s.merge.merged), member "conflicts" (strings s.merge.conflicts),
        member "binary" (strings s.merge.binary)])]

def standardOutput : Option Summary → List UInt8
  | some s => jsonText s.toJson
  | none => []

/-- `isinstance(conflicts, list) and bool(conflicts) == (args.exit_code == EXIT_CONFLICTS)` -/
def agrees (exitCode : ℤ) (summary : Value) : Bool :=
  match (item "merge" summary).bind (item "conflicts") with
  | some (.arr conflicts) => (!conflicts.isEmpty) == decide (exitCode = exitConflicts)
  | _ => false

/-- The exit status, and the `n` of the line `conflicts=n` that is printed. -/
def cmdCheckApply (limit : ℕ) (exitCode : ℤ) (summary : FilePath) : FileM (ℕ × Option ℤ) := do
  if exitCode ≠ 0 ∧ exitCode ≠ exitConflicts then pure (exitError, none)
  else
    let agreed ← tryCatch (do pure (agrees exitCode (← readJson limit summary))) fun _ => pure false
    pure (if agreed then (0, some exitCode) else (exitError, none))

/-- The step of the workflow that runs `apply`, whose exit status and standard output these are, and then `check-apply`: the
output `conflicts` of the step, or none where the step fails. -/
def applyStep (limit rc : ℕ) (summary : FilePath) : FileM (Option ℤ) := do
  let (status, line) ← cmdCheckApply limit rc summary
  let checkRc := if line = some 0 ∨ line = some 1 then status else if status = 0 then 1 else status
  pure (if 1 < rc ∨ checkRc ≠ 0 then none else line)

theorem textual_strings (depth : ℕ) (texts : List String) : PyJson.Textual (depth + 1) (strings texts) := by
  intro v hv
  obtain ⟨text, -, rfl⟩ := List.mem_map.1 hv
  cases depth <;> exact PyJson.isScalar_str text

theorem textual_members {depth : ℕ} (fields : List (String × Value)) (h : ∀ field ∈ fields, PyJson.Textual depth field.2) :
    PyJson.Textual (depth + 1) (.obj (fields.map fun field => member field.1 field.2)) := by
  intro m hm
  obtain ⟨field, hfield, rfl⟩ := List.mem_map.1 hm
  exact ⟨PyJson.isScalar_str field.1, h field hfield⟩

/-- An object in an object, and the lists in it. -/
theorem Summary.textual_toJson (s : Summary) {limit : ℕ} (h : 3 ≤ limit) : PyJson.Textual limit s.toJson := by
  obtain ⟨depth, rfl⟩ := Nat.exists_eq_add_of_le' h
  refine textual_members [("replace", _), ("merge", _)] ?_
  simp only [List.forall_mem_cons, List.not_mem_nil, false_imp_iff, implies_true, and_true]
  refine ⟨textual_members [("updated", _), ("removed", _)] ?_,
    textual_members [("merged", _), ("conflicts", _), ("binary", _)] ?_⟩
  · simp only [List.forall_mem_cons, List.not_mem_nil, false_imp_iff, implies_true, and_true]
    exact ⟨textual_strings depth _, textual_strings depth _⟩
  · simp only [List.forall_mem_cons, List.not_mem_nil, false_imp_iff, implies_true, and_true]
    exact ⟨textual_strings depth _, textual_strings depth _, textual_strings depth _⟩

theorem item_self (name : String) (v : Value) (members : List (PyJson.Str × Value))
    (h : ∀ m ∈ members, m.1 ≠ PyJson.str name) (before : List (PyJson.Str × Value)) :
    item name (.obj (before ++ member name v :: members)) = some v := by
  have hafter : members.reverse.find? (fun m => decide (m.1 = PyJson.str name)) = none := by
    rw [List.find?_eq_none]
    intro m hm
    simpa using h m (List.mem_reverse.1 hm)
  rw [item, PyJson.lookup, List.reverse_append, List.reverse_cons, List.find?_append, List.find?_append, hafter]
  simp [member]

theorem Summary.conflicts_toJson (s : Summary) :
    (item "merge" s.toJson).bind (item "conflicts") = some (strings s.merge.conflicts) := by
  have hbinary : PyJson.str "binary" ≠ PyJson.str "conflicts" := fun h => absurd (PyJson.str_injective h) (by decide)
  have hmerge := item_self "merge" (.obj [member "merged" (strings s.merge.merged),
    member "conflicts" (strings s.merge.conflicts), member "binary" (strings s.merge.binary)]) [] (by simp)
    [member "replace" (.obj [member "updated" (strings s.replace.updated), member "removed" (strings s.replace.removed)])]
  have hconflicts := item_self "conflicts" (strings s.merge.conflicts) [member "binary" (strings s.merge.binary)]
    (by simpa [member] using hbinary) [member "merged" (strings s.merge.merged)]
  exact (congrArg (·.bind (item "conflicts")) hmerge).trans hconflicts

theorem Summary.agrees_iff (s : Summary) (exitCode : ℤ) :
    agrees exitCode s.toJson = true ↔ (s.merge.conflicts ≠ [] ↔ exitCode = exitConflicts) := by
  rw [agrees, s.conflicts_toJson, strings]
  dsimp only
  rw [beq_iff_eq, List.isEmpty_map, Bool.eq_iff_iff, Bool.not_eq_true', List.isEmpty_eq_false_iff, decide_eq_true_iff]

/-! ### The step of the workflow -/

section

variable {limit : ℕ} {fs : FileSystem} {path : FilePath} {v : Value} {seen : List UInt8}

theorem cmdCheckApply_ok (h : readJson limit path fs = .ok v fs) (exitCode : ℤ) :
    cmdCheckApply limit exitCode path fs =
      .ok (if (exitCode = 0 ∨ exitCode = exitConflicts) ∧ agrees exitCode v = true then (0, some exitCode) else (exitError, none))
        fs := by
  unfold cmdCheckApply
  by_cases hcode : exitCode = 0 ∨ exitCode = exitConflicts
  · have hagreed : (do pure (agrees exitCode (← readJson limit path)) : FileM Bool) fs = .ok (agrees exitCode v) fs := bind_ok h
    rw [if_neg (by tauto), bind_ok (tryCatch_ok hagreed)]
    simp only [hcode, true_and]
    rfl
  · rw [if_pos (by tauto), if_neg (by tauto)]
    rfl

theorem cmdCheckApply_error {e : PyError} (h : readJson limit path fs = .error e fs) (exitCode : ℤ) :
    cmdCheckApply limit exitCode path fs = .ok (exitError, none) fs := by
  unfold cmdCheckApply
  by_cases hcode : exitCode ≠ 0 ∧ exitCode ≠ exitConflicts
  · rw [if_pos hcode]
    rfl
  · have hraised : (do pure (agrees exitCode (← readJson limit path)) : FileM Bool) fs = .error e fs := bind_error h
    have hagreed : tryCatch (do pure (agrees exitCode (← readJson limit path)) : FileM Bool) (fun _ => pure false) fs =
        .ok false fs := tryCatch_error hraised
    rw [if_neg hcode, bind_ok hagreed]
    rfl

/-- The step hands on the exit status of `apply` or fails. -/
theorem applyStep_ok (h : readJson limit path fs = .ok v fs) (rc : ℕ) :
    applyStep limit rc path fs =
      .ok (if (rc = 0 ∨ rc = exitConflicts) ∧ agrees rc v = true then some (rc : ℤ) else none) fs := by
  have hcast : ((rc : ℤ) = 0 ∨ (rc : ℤ) = exitConflicts) ↔ (rc = 0 ∨ rc = exitConflicts) := by norm_cast
  unfold applyStep
  rw [bind_ok (cmdCheckApply_ok h rc)]
  simp only [hcast]
  by_cases hagrees : (rc = 0 ∨ rc = exitConflicts) ∧ agrees rc v = true
  · rw [if_pos hagrees, if_pos hagrees]
    rcases hagrees.1 with rfl | rfl <;> rfl
  · rw [if_neg hagrees, if_neg hagrees]
    simp [exitError]
    rfl

theorem applyStep_error {e : PyError} (h : readJson limit path fs = .error e fs) (rc : ℕ) :
    applyStep limit rc path fs = .ok none fs := by
  unfold applyStep
  rw [bind_ok (cmdCheckApply_error h rc)]
  simp [exitError]
  rfl

/-- The step changes no file. -/
theorem applyStep_total (limit rc : ℕ) (hread : readBytes path fs = .ok seen fs) :
    ∃ out, applyStep limit rc path fs = .ok out fs := by
  have htext : (∃ text, readText path fs = .ok text fs) ∨ ∃ e, readText path fs = .error e fs := by
    unfold readText
    rw [bind_ok hread]
    cases String.fromUTF8? ⟨seen.toArray⟩ with
    | some text => exact .inl ⟨text, rfl⟩
    | none => exact .inr ⟨_, rfl⟩
  rcases htext with ⟨text, htext⟩ | ⟨e, htext⟩
  · cases hloads : PyJson.loads limit text.toList with
    | some v =>
      have hjson : readJson limit path fs = .ok v fs := by
        unfold readJson
        rw [bind_ok htext, hloads]
        rfl
      exact ⟨_, applyStep_ok hjson rc⟩
    | none =>
      have hjson : readJson limit path fs = .error (.runtimeError "JSONDecodeError") fs := by
        unfold readJson
        rw [bind_ok htext, hloads]
        rfl
      exact ⟨_, applyStep_error hjson rc⟩
  · exact ⟨_, applyStep_error (bind_error htext) rc⟩

end

variable {git : GitMergeFile} {manifest : FilePath} {oldRef newRef instanceRoot : PurePath}

theorem status_of_cmdApply {before after : FileSystem} {status : ℕ} {s : Summary}
    (h : cmdApply git manifest oldRef newRef instanceRoot before = .ok (status, some s) after) :
    status = if s.merge.conflicts = [] then 0 else exitConflicts := by
  unfold cmdApply at h
  cases hbody : (do
      let tiers := parseManifest (← readText manifest)
      let replacePaths ← bothPaths oldRef newRef tiers .replace
      let mergePaths ← bothPaths oldRef newRef tiers .merge
      let replace ← applyReplace oldRef newRef instanceRoot replacePaths
      let merge ← applyMerge git oldRef newRef instanceRoot mergePaths
      pure (if merge.conflicts = [] then 0 else exitConflicts, some ⟨replace, merge⟩) : FileM (ℕ × Option Summary)) before with
  | error e fs =>
    have hraised := (tryCatch_error hbody).symm.trans h
    cases hraised
  | ok result fs =>
    have hresult : EStateM.Result.ok result fs = .ok (status, some s) after := (tryCatch_ok hbody).symm.trans h
    cases hresult
    obtain ⟨text, fs₁, -, h₁⟩ := bind_eq_ok_iff.1 hbody
    obtain ⟨replacePaths, fs₂, -, h₂⟩ := bind_eq_ok_iff.1 h₁
    obtain ⟨mergePaths, fs₃, -, h₃⟩ := bind_eq_ok_iff.1 h₂
    obtain ⟨replace, fs₄, -, h₄⟩ := bind_eq_ok_iff.1 h₃
    obtain ⟨merge, fs₅, -, h₅⟩ := bind_eq_ok_iff.1 h₄
    cases h₅
    rfl

/-- The status that agrees with a summary is the one its run ended with. -/
theorem agrees_iff_status {before after : FileSystem} {status : ℕ} {s : Summary}
    (hrun : cmdApply git manifest oldRef newRef instanceRoot before = .ok (status, some s) after) (rc : ℕ) :
    (rc = 0 ∨ rc = exitConflicts) ∧ agrees rc s.toJson = true ↔ rc = status := by
  rw [s.agrees_iff, status_of_cmdApply hrun, Nat.cast_inj]
  unfold exitConflicts
  by_cases hnone : s.merge.conflicts = []
  · rw [if_pos hnone]
    simp only [hnone, ne_eq, not_true_eq_false, false_iff]
    omega
  · rw [if_neg hnone]
    simp only [hnone, ne_eq, not_false_eq_true, true_iff]
    omega

/-- However `apply` ends, under whatever status and with however much of its output written: the step succeeds if and only
if the whole summary is there and the status is that of the run. -/
theorem applyStep_eq_some_iff {limit : ℕ} (hlimit : 3 ≤ limit) {before after : FileSystem} {status : ℕ}
    {summary : Option Summary} (hrun : cmdApply git manifest oldRef newRef instanceRoot before = .ok (status, summary) after)
    {path : FilePath} {fs : FileSystem} {seen : List UInt8} (hread : readBytes path fs = .ok seen fs)
    (hseen : seen <+: standardOutput summary) (rc : ℕ) (conflicts : ℤ) :
    applyStep limit rc path fs = .ok (some conflicts) fs ↔
      ∃ s, summary = some s ∧ PyJson.encode (PyJson.dumps 0 s.toJson) <+: seen ∧ rc = status ∧ conflicts = status := by
  cases summary with
  | none =>
    obtain rfl : seen = [] := List.prefix_nil.1 hseen
    have hempty : readBytes path fs = .ok (PyJson.encode []) fs := hread
    obtain ⟨e, herror⟩ := (readJson_encode limit hempty).2 (by
      have hnil := (PyJson.extendable_value limit).nil
      rw [PyJson.loads, PyJson.skip_nil, hnil]
      rfl)
    rw [applyStep_error herror]
    simp
  | some s =>
    obtain ⟨hwhole, hcut⟩ := readJson_of_begun (s.textual_toJson hlimit) rfl hread hseen
    by_cases hfull : PyJson.encode (PyJson.dumps 0 s.toJson) <+: seen
    · have haccepts := agrees_iff_status hrun rc
      rw [applyStep_ok (hwhole hfull)]
      simp only [haccepts]
      constructor
      · intro h
        split at h
        · rename_i heq
          subst heq
          cases h
          exact ⟨s, rfl, hfull, rfl, rfl⟩
        · cases h
      · rintro ⟨-, -, -, heq, rfl⟩
        rw [if_pos heq, heq]
    · obtain ⟨e, herror⟩ := hcut hfull
      rw [applyStep_error herror]
      simp [hfull]

/-! ### The state file -/

def stateJson (templateRepo syncedTag : String) : Value :=
  .obj [member "template_repo" (.str (PyJson.str templateRepo)), member "synced_tag" (.str (PyJson.str syncedTag))]

def writeState (statePath : FilePath) (templateRepo syncedTag : String) : FileM Unit := do
  makeDirs statePath.parent
  writeBytes statePath (jsonText (stateJson templateRepo syncedTag))

def readState (limit : ℕ) (statePath : FilePath) : FileM (Option Value) := do
  if ¬ (← get).pathExists statePath then pure none
  else do
    let state ← readJson limit statePath
    pure (some state)

/-- The step of the workflow that runs `apply`, and the next one, which writes the state if that one succeeded. -/
def advance (limit rc : ℕ) (summary statePath : FilePath) (templateRepo newTag : String) : FileM Bool := do
  match ← applyStep limit rc summary with
  | none => pure false
  | some _ => do
    writeState statePath templateRepo newTag
    pure true

theorem textual_stateJson (templateRepo syncedTag : String) {limit : ℕ} (h : 1 ≤ limit) :
    PyJson.Textual limit (stateJson templateRepo syncedTag) := by
  obtain ⟨depth, rfl⟩ := Nat.exists_eq_add_of_le' h
  refine textual_members [("template_repo", _), ("synced_tag", _)] ?_
  simp only [List.forall_mem_cons, List.not_mem_nil, false_imp_iff, implies_true, and_true]
  refine ⟨?_, ?_⟩ <;> cases depth <;> exact PyJson.isScalar_str _

section

variable {fs fs' : FileSystem} {root q : PurePath}

/-- What was written is one file, which keeps its mode if it was there. -/
theorem writeBytes_eq_ok (hplain : fs.Plain root) (hq : q.Normal) (hne : q ≠ [])
    (hdir : fs.lookup (root ++ q.dropLast) = some .dir) {content : List UInt8}
    (h : writeBytes ⟨root, q⟩ content fs = .ok () fs') :
    ∃ f, fs.Puts (root ++ q) (some (.file f)) fs' ∧ f.content = content ∧
      f.mode = ((fs.fileAt (root ++ q)).map File.mode).getD 0o644#12 := by
  cases hentry : fs.lookup (root ++ q) with
  | none =>
    obtain ⟨d, name, rfl⟩ := (List.eq_nil_or_concat' q).resolve_left hne
    rw [List.dropLast_concat] at hdir
    have hname : PurePath.IsName name := hq name (by simp)
    have hnone : fs.fileAt (root ++ (d ++ [name])) = none := by rw [FileSystem.fileAt, hentry]
    rw [hnone]
    rw [← List.append_assoc] at hentry ⊢
    rw [writeBytes_new (FileSystem.missing hname.2.2.1 hdir hentry)] at h
    cases h
    exact ⟨_, fun r => FileSystem.lookup_add hdir hname hentry, rfl, rfl⟩
  | some n =>
    cases n with
    | file f =>
      have hfile : fs.fileAt (root ++ q) = some f := FileSystem.fileAt_eq_some_iff.2 hentry
      rw [hfile]
      exact ⟨_, writeBytes_over hplain hfile h, rfl, rfl⟩
    | dir =>
      have hopen : fs.openFile ⟨root, q⟩ = .error .isADirectory := by
        unfold FileSystem.openFile
        rw [hplain.locate (by rw [hentry]; simp)]
        simp only [hentry]
      unfold writeBytes at h
      rw [get_bind, hopen, hplain.locate (by rw [hentry]; simp)] at h
      cases h
    | link target => exact absurd hentry (hplain.not_link q target)

theorem writeState_eq_ok (hplain : fs.Plain root) (hq : q.Normal) (hne : q ≠ []) {templateRepo syncedTag : String}
    (h : writeState ⟨root, q⟩ templateRepo syncedTag fs = .ok () fs') :
    fs'.Plain root ∧ ∃ f, fs'.fileAt (root ++ q) = some f ∧ f.content = jsonText (stateJson templateRepo syncedTag) ∧
      f.mode = ((fs.fileAt (root ++ q)).map File.mode).getD 0o644#12 := by
  obtain ⟨⟨⟩, fs₁, hdirs, hwrite⟩ := bind_eq_ok_iff.1 h
  have hparent : FilePath.parent ⟨root, q⟩ = ⟨root, q.dropLast⟩ := if_neg hne
  rw [hparent] at hdirs
  have hq' : PurePath.Normal q.dropLast := fun part hpart => hq part (List.mem_of_mem_dropLast hpart)
  have hfree : ∀ d, d <+: q.dropLast → fs.fileAt (root ++ d) = none := by
    by_contra hblocked
    push Not at hblocked
    obtain ⟨d, hd, hfile⟩ := hblocked
    obtain ⟨e, herror⟩ := makeDirs_blocked hplain hq' hd hfile
    rw [herror] at hdirs
    cases hdirs
  obtain ⟨fs₂, hmade, hwith⟩ := makeDirs_ok hplain hq' hfree
  obtain rfl : fs₂ = fs₁ := by
    rw [hmade] at hdirs
    cases hdirs
    rfl
  have hplain₁ := hwith.plain hplain
  obtain ⟨f, hputs, hcontent, hmode⟩ := writeBytes_eq_ok hplain₁ hq hne hwith.dir hwrite
  rw [hwith.fileAt_self hne] at hmode
  refine ⟨hputs.plain (by simp) hplain₁ ?_, f, hputs.fileAt, hcontent, hmode⟩
  intro heq
  exact hne (List.self_eq_append_right.1 heq)

/-- What `write_state` wrote is the state. -/
theorem readState_of_writeState (hplain : fs.Plain root) (hq : q.Normal) (hne : q ≠ [])
    (hreadable : ∀ f, fs.fileAt (root ++ q) = some f → f.readable = true) {templateRepo syncedTag : String}
    (h : writeState ⟨root, q⟩ templateRepo syncedTag fs = .ok () fs') {limit : ℕ} (hlimit : 1 ≤ limit) :
    readState limit ⟨root, q⟩ fs' = .ok (some (stateJson templateRepo syncedTag)) fs' := by
  obtain ⟨hplain', f, hfile, hcontent, hmode⟩ := writeState_eq_ok hplain hq hne h
  have hread : f.readable = true := by
    cases hbefore : fs.fileAt (root ++ q) with
    | none =>
      rw [hbefore] at hmode
      rw [File.readable_iff, hmode]
      rfl
    | some g =>
      rw [hbefore] at hmode
      rw [File.readable_iff, hmode]
      exact File.readable_iff.1 (hreadable g hbefore)
  have hbytes : readBytes ⟨root, q⟩ fs' = .ok (jsonText (stateJson templateRepo syncedTag)) fs' := by
    rw [readBytes_ok (hplain'.openFile hfile) hread, hcontent]
  have hjson := (readJson_of_begun (textual_stateJson templateRepo syncedTag hlimit) rfl hbytes (List.prefix_refl _)).1
    (prefix_jsonText _)
  have hexists : fs'.pathExists ⟨root, q⟩ = true := by
    rw [hplain'.pathExists_iff hq, FileSystem.fileAt_eq_some_iff.1 hfile]
    simp
  unfold readState
  rw [get_bind, if_neg (by simp [hexists]), bind_ok hjson]
  rfl

end

/-! ### A sync as a whole -/

/-- However `apply` ended, under whatever status and with however much of its output written: the state is advanced if and
only if the whole summary is there and the status is that of the run. It then reads as the new one, and otherwise no file
has changed. -/
theorem advance_iff {limit : ℕ} (hlimit : 3 ≤ limit) {before after : FileSystem} {status : ℕ} {summary : Option Summary}
    (hrun : cmdApply git manifest oldRef newRef instanceRoot before = .ok (status, summary) after)
    {path : FilePath} {fs fs' : FileSystem} {seen : List UInt8} (hread : readBytes path fs = .ok seen fs)
    (hseen : seen <+: standardOutput summary) {rc : ℕ} {root q : PurePath} (hplain : fs.Plain root) (hq : q.Normal)
    (hne : q ≠ []) (hreadable : ∀ f, fs.fileAt (root ++ q) = some f → f.readable = true) {templateRepo newTag : String}
    {advanced : Bool} (h : advance limit rc path ⟨root, q⟩ templateRepo newTag fs = .ok advanced fs') :
    (advanced = true ↔ ∃ s, summary = some s ∧ PyJson.encode (PyJson.dumps 0 s.toJson) <+: seen ∧ rc = status) ∧
      (advanced = true → readState limit ⟨root, q⟩ fs' = .ok (some (stateJson templateRepo newTag)) fs') ∧
      (advanced = false → fs' = fs) := by
  obtain ⟨out, hstep⟩ := applyStep_total limit rc hread
  have hsucceeds := applyStep_eq_some_iff hlimit hrun hread hseen rc
  unfold advance at h
  replace h := (bind_ok hstep).symm.trans h
  cases out with
  | none =>
    obtain ⟨rfl, rfl⟩ : advanced = false ∧ fs' = fs := by
      cases h
      exact ⟨rfl, rfl⟩
    refine ⟨iff_of_false Bool.false_ne_true ?_, fun hadv => absurd hadv Bool.false_ne_true, fun _ => rfl⟩
    rintro ⟨s, hs, hwhole, hstatus⟩
    have hok := (hsucceeds status).2 ⟨s, hs, hwhole, hstatus, rfl⟩
    rw [hstep] at hok
    cases hok
  | some conflicts =>
    obtain ⟨s, hs, hwhole, hstatus, -⟩ := (hsucceeds conflicts).1 hstep
    obtain ⟨⟨⟩, fs₁, hwrite, hpure⟩ := bind_eq_ok_iff.1 h
    obtain ⟨rfl, rfl⟩ : advanced = true ∧ fs₁ = fs' := by
      cases hpure
      exact ⟨rfl, rfl⟩
    refine ⟨iff_of_true rfl ⟨s, hs, hwhole, hstatus⟩, fun _ => ?_, fun hadv => absurd hadv.symm Bool.false_ne_true⟩
    exact readState_of_writeState hplain hq hne hreadable hwrite (le_trans (by decide) hlimit)

theorem applyMerge_empty (fs : FileSystem) : applyMerge git oldRef newRef instanceRoot ∅ fs = .ok ⟨[], [], []⟩ fs := by
  unfold applyMerge
  simp [outcomes]
  rfl

/-- A manifest without tiers changes nothing. -/
theorem cmdApply_blank {fs : FileSystem} (h : readText manifest fs = .ok "" fs) :
    cmdApply git manifest oldRef newRef instanceRoot fs = .ok (0, some ⟨⟨[], []⟩, ⟨[], [], []⟩⟩) fs := by
  have hblank : parseManifest "" = fun _ => [] := by
    funext tier
    cases tier <;> decide
  have hpaths : ∀ tier, bothPaths oldRef newRef (parseManifest "") tier fs = .ok ∅ fs := by
    intro tier
    rw [hblank]
    rfl
  have hreplace : applyReplace oldRef newRef instanceRoot ∅ fs = .ok ⟨[], []⟩ fs := by
    unfold applyReplace
    rw [get_bind]
    simp [collect]
    rfl
  unfold cmdApply
  refine tryCatch_ok ?_
  rw [bind_ok h, bind_ok (hpaths .replace), bind_ok (hpaths .merge), bind_ok hreplace, bind_ok (applyMerge_empty fs)]
  rfl

/-- A manifest without tiers beside the summary of a sync. -/
def handedOn (s : Summary) : FileSystem :=
  (FileSystem.empty.add [] "m" (.file ⟨[], 0o644#12⟩)).add [] "s" (.file ⟨standardOutput (some s), 0o644#12⟩)

theorem lookup_handedOn (s : Summary) (r : PurePath) : (handedOn s).lookup r =
    if r = ["s"] then some (.file ⟨standardOutput (some s), 0o644#12⟩)
    else if r = ["m"] then some (.file ⟨[], 0o644#12⟩) else if r = [] then some .dir else none := by
  have hm : ∀ r, (FileSystem.empty.add [] "m" (.file ⟨[], 0o644#12⟩)).lookup r =
      if r = ["m"] then some (.file ⟨[], 0o644#12⟩) else if r = [] then some .dir else none := fun r => by
    rw [FileSystem.lookup_add (by decide) (by decide) (by decide), FileSystem.lookup_empty]
    rfl
  rw [handedOn, FileSystem.lookup_add (by rw [hm]; rfl) (by decide) (by rw [hm]; rfl), hm]
  rfl

theorem plain_handedOn (s : Summary) : (handedOn s).Plain [] := by
  refine ⟨by rw [lookup_handedOn]; rfl, fun q target => ?_⟩
  rw [lookup_handedOn]
  split_ifs <;> simp

theorem read_handedOn (s : Summary) : readBytes ⟨[], ["s"]⟩ (handedOn s) = .ok (standardOutput (some s)) (handedOn s) :=
  readBytes_ok ((plain_handedOn s).openFile (q := ["s"]) (f := ⟨_, 0o644#12⟩)
    (FileSystem.fileAt_eq_some_iff.2 (by rw [lookup_handedOn]; rfl))) (File.readable_iff.2 (show (0o644#12).getLsbD 8 = true by decide))

/-- The summary of a sync that changed nothing. -/
def unchanged : Summary := ⟨⟨[], []⟩, ⟨[], [], []⟩⟩

/-- The state of a sync that ended is written. -/
theorem advance_iff_handedOn : ∃ fs', advance 3 0 ⟨[], ["s"]⟩ ⟨[], ["t"]⟩ "o/r" "v2" (handedOn unchanged) = .ok true fs' ∧
    readState 3 ⟨[], ["t"]⟩ fs' = .ok (some (stateJson "o/r" "v2")) fs' := by
  have hplain := plain_handedOn unchanged
  have hread := read_handedOn unchanged
  have hempty : readBytes ⟨[], ["m"]⟩ (handedOn unchanged) = .ok (PyJson.encode []) (handedOn unchanged) :=
    readBytes_ok (hplain.openFile (q := ["m"]) (f := ⟨[], 0o644#12⟩)
      (FileSystem.fileAt_eq_some_iff.2 (by rw [lookup_handedOn]; rfl))) (by decide)
  have hrun : cmdApply (fun _ _ _ => (none, 0)) ⟨[], ["m"]⟩ ["old"] ["new"] ["own"] (handedOn unchanged) =
      .ok (0, some unchanged) (handedOn unchanged) := cmdApply_blank (readText_encode hempty)
  have hstep : applyStep 3 0 ⟨[], ["s"]⟩ (handedOn unchanged) = .ok (some 0) (handedOn unchanged) :=
    (applyStep_eq_some_iff (by decide) hrun hread (List.prefix_refl _) 0 0).2 ⟨_, rfl, prefix_jsonText _, rfl, rfl⟩
  obtain ⟨fs₁, hmade, hwith⟩ := makeDirs_ok hplain (q := []) (fun part hpart => absurd hpart List.not_mem_nil) (by
    intro d hd
    obtain rfl : d = [] := List.prefix_nil.1 hd
    rw [FileSystem.fileAt, lookup_handedOn]
    rfl)
  have hname : PurePath.Normal ["t"] := List.forall_mem_singleton.2 (by decide)
  have hnone : (handedOn unchanged).lookup ([] ++ ["t"]) = none := by
    rw [lookup_handedOn]
    rfl
  have hplace : Writable fs₁ [] ["t"] := .inl ⟨(hwith.lookup_self (by decide)).trans hnone, hwith.dir⟩
  obtain ⟨fs₂, f, hwrite, -, -⟩ := writeBytes_puts (hwith.plain hplain) hname hplace (jsonText (stateJson "o/r" "v2"))
  have hadvance : advance 3 0 ⟨[], ["s"]⟩ ⟨[], ["t"]⟩ "o/r" "v2" (handedOn unchanged) = .ok true fs₂ := by
    unfold advance
    rw [bind_ok hstep]
    exact bind_ok ((bind_ok hmade).trans hwrite)
  refine ⟨fs₂, hadvance, (advance_iff (by decide) hrun hread (List.prefix_refl _) hplain hname (by decide) ?_ hadvance).2.1 rfl⟩
  intro f hf
  rw [FileSystem.fileAt, hnone] at hf
  cases hf

end TemplateAxum.TemplateSync
