import TemplateAxum.AllOrNothing
import TemplateAxum.Conditional
import TemplateAxum.Siblings

/-!
# What a served request has done

A request that is served from a reachable state either leaves the repository and the event log as they were,
or has performed and announced the one write it asks for. Of a by-id update and of a create the row that is
stored then is given.
-/

namespace TemplateAxum

open Prog Seen

variable [Lowercase] {env : Env} {request : Request} {w w' : World} {response : Response}

/-- The calls of a served request, followed one by one. -/
theorem follows_of_returns {p : Prog Op Op.Ans Empty Response} {h seg : Seen} {w₀ : World}
    (hsat : Sat (Permits env request) (Concluded env request) (fun _ _ => False) h p) (hf : Follows env w w₀ h)
    (hplays : Pool.Plays World.Answers w₀ seg w') (hret : p.Returns seg (.ok response)) :
    Follows env w w' (h ++ seg) ∧ Concluded env request (h ++ seg) response := by
  generalize hres : (Except.ok response : Except Empty Response) = r at hret
  induction hret generalizing h w₀ with
  | ret a =>
    cases hres
    cases hplays
    rw [List.append_nil]
    exact ⟨hf, hsat⟩
  | raise e => cases hres
  | @call op k answer seg r hret ih =>
    cases hplays with
    | cons hans hplays =>
      have := ih (hsat.2 answer) (hf.step hsat.1 hans) hplays hres
      rwa [List.append_assoc, List.singleton_append] at this

/-- The request has done what it asks for. -/
structure Did (env : Env) (request : Request) (w w' : World) (op : WriteOp) : Prop where
  asks : request.Asks env op
  granted : ∃ ownerId, op.Scoped ownerId
  performed : ∃ ids, w.repo.Performed op ids w'.repo ∧ w'.log = w.log ++ [⟨heroEventResource, op.action, ids⟩]

/-- It has done nothing unless it has announced its write. -/
theorem Request.Serves.cases (hcrud : env.crud.Documented) (haxum : env.axum.Documented) (hinv : w.repo.Inv)
    (h : request.Serves env w w' response) :
    (w'.repo = w.repo ∧ w'.log = w.log) ∨ w'.log ≠ w.log ∧ ∃ op, Did env request w w' op := by
  obtain ⟨seg, hplays, hret⟩ := h
  obtain ⟨hf, hend⟩ := follows_of_returns (sat_handle hcrud haxum request) (.start hinv) hplays hret
  rw [List.nil_append] at hf hend
  rcases hend with ⟨hidle, -⟩ | ⟨op, ⟨⟨answer, hwritten, hpublished⟩, hent⟩, -⟩
  · exact .inl ⟨hf.idle hidle.written, by rw [hf.log, hidle.published, List.append_nil]⟩
  · have hlog : w'.log = w.log ++ [announcement op answer] := hpublished ▸ hf.log
    refine .inr ⟨fun heq => ?_, op, hent.asks, hent.granted.imp fun _ h => h.1, _, hf.done op answer hwritten, hlog⟩
    rw [hlog] at heq
    cases List.self_eq_append_right.1 heq.symm

/-- A write that the response reports has been announced. -/
theorem Request.Serves.announced (hcrud : env.crud.Documented) (haxum : env.axum.Documented) (hinv : w.repo.Inv)
    (hwrite : request.isWrite = true) (hweb : request.isWeb = false) (h : request.Serves env w w' response)
    (hsucc : response.isSuccess = true) : w'.log ≠ w.log := by
  obtain ⟨seg, hplays, hret⟩ := h
  obtain ⟨hf, hend⟩ := follows_of_returns (sat_handle hcrud haxum request) (.start hinv) hplays hret
  rw [List.nil_append] at hf hend
  rcases hend with ⟨-, hrefused⟩ | ⟨op, ⟨⟨answer, -, hpublished⟩, -⟩, -⟩
  · exact absurd (hrefused hwrite) (not_refused_of_isSuccess hweb hsucc)
  · rw [hf.log, hpublished]
    simp

/-- A by-id update has patched its row, a live one, and no other. -/
theorem Did.patched (hinv : w.repo.Inv) {id : Int32} {ownerId : String} {data : HeroUpdate}
    (h : Did env request w w' (.update id ownerId data)) :
    ∃ row stamp, w.repo.rows.get? id = some row ∧ row.ownerId = ownerId ∧ row.live = true ∧
      w'.repo.rows.get? id = some (row.patch data stamp) ∧
      ∀ other, other ≠ id → w'.repo.rows.get? other = w.repo.rows.get? other := by
  obtain ⟨ids, ⟨⟨row, hrow, howner, hlive⟩, newId, stamps, -, hrows, -⟩, -⟩ := h.performed
  have hselects : (Revision.updateOwned id ownerId data stamps.first).selects row = true := by
    show (row.live && (row.id == id && row.ownerId == ownerId)) = true
    rw [hlive, hinv.keyed id row hrow, howner]
    simp
  refine ⟨row, stamps.first, hrow, howner, hlive, ?_, fun other hother => ?_⟩
  · rw [hrows]
    show ((Revision.updateOwned id ownerId data stamps.first).run w.repo.rows).get? id = _
    rw [Revision.get?_run, hrow, Option.map_some, Revision.apply, if_pos hselects]
    rfl
  · rw [hrows]
    refine Change.get?_run_of_not_reported hinv.keyed fun changed hchanged heq => hother ?_
    rw [← heq]
    exact Revision.id_of_mem_changed (r := .updateOwned id ownerId data stamps.first) hinv.keyed (fun _ => rfl) hchanged

/-- The data of an update, by id or in bulk. -/
def WriteOp.updateData? : WriteOp → Option HeroUpdate
  | update _ _ data | updateMany _ data => some data
  | _ => none

omit [Lowercase] in
theorem WriteOp.change_update {op : WriteOp} {data : HeroUpdate} (h : op.updateData? = some data)
    (chooses : List FilterClause → Model → Bool) (newId : Int32) (stamps : Stamps) :
    ∃ p stamp, op.change chooses newId stamps = .revise (.update p data stamp) := by
  cases op with
  | update id ownerId _ => cases h; exact ⟨_, _, rfl⟩
  | updateMany filters _ => cases h; exact ⟨_, _, rfl⟩
  | _ => cases h

/-- An update has patched the rows it has announced, live ones, and no others. -/
theorem Did.revised (hinv : w.repo.Inv) {op : WriteOp} {data : HeroUpdate} (h : Did env request w w' op)
    (hdata : op.updateData? = some data) : ∃ ids, w'.log = w.log ++ [⟨heroEventResource, op.action, ids⟩] ∧
      ∀ id row, w.repo.rows.get? id = some row →
        (id ∈ ids → row.live = true ∧ ∃ stamp, w'.repo.rows.get? id = some (row.patch data stamp)) ∧
        (id ∉ ids → w'.repo.rows.get? id = some row) := by
  obtain ⟨ids, ⟨-, newId, stamps, -, hrows, rfl⟩, hlog⟩ := h.performed
  obtain ⟨p, stamp, hchange⟩ := WriteOp.change_update hdata w.repo.chooses newId stamps
  rw [hchange] at hrows hlog
  refine ⟨_, hlog, fun id row hrow => ⟨fun hid => ?_, fun hid => ?_⟩⟩
  · obtain ⟨changed, hchanged, hkey⟩ := List.mem_map.1 hid
    obtain ⟨id', old, hold, hselects, rfl⟩ := Revision.mem_changed.1 hchanged
    have hsame : id' = id := by rw [← hinv.keyed id' old hold, ← hkey]; rfl
    subst hsame
    rw [hrow] at hold
    cases hold
    refine ⟨Revision.live _ hselects, stamp row, ?_⟩
    rw [hrows, Change.run, Revision.get?_run, hrow, Option.map_some, Revision.apply, if_pos hselects]
    rfl
  · rw [hrows, Change.get?_run_of_not_reported hinv.keyed fun changed hchanged heq => hid ?_, hrow]
    exact List.mem_map.2 ⟨changed, hchanged, heq⟩

/-- A create has stored its row under an id that was free, and has announced it. -/
theorem Did.created {ownerId : String} {data : HeroCreate} (h : Did env request w w' (.create ownerId data)) :
    ∃ id stamp, w'.log = w.log ++ [⟨heroEventResource, .create, [id]⟩] ∧ w.repo.rows.get? id = none ∧
      w'.repo.rows.get? id = some (data.row id ownerId stamp) := by
  obtain ⟨ids, ⟨-, newId, stamps, hfresh, hrows, rfl⟩, hlog⟩ := h.performed
  refine ⟨newId, stamps.first, hlog, hfresh, ?_⟩
  rw [hrows]
  exact (OrdMap.get?_insert ..).trans (if_pos rfl)

/-! ### Requests that get through -/

/-- A passing request is served, if its write finds what it looks for. -/
theorem Passes.serves (hcrud : env.crud.Documented) {op : WriteOp} (hp : Passes env request op)
    (hroute : op.isCreate = true ∨ request.isWeb = true) (hinv : w.repo.Inv) (hmemory : w.repo.isMemory = true)
    (hroom : op.isCreate = true → ¬ w.repo.Exhausted) (hfinds : Repo.Finds w.repo.rows op) :
    ∃ w' response, request.Serves env w w' response ∧ w'.log ≠ w.log := by
  obtain ⟨r, repo', hwrite, hperformed⟩ := Repo.exists_performed hinv hmemory hroom hfinds
  obtain ⟨addr, response, hret, -⟩ := hp.returns hcrud hroute hperformed
  obtain ⟨limiter, hplays⟩ := hp.plays addr hwrite
  refine ⟨_, response, ⟨_, hplays, hret⟩, fun heq => ?_⟩
  cases List.self_eq_append_right.1 heq.symm

/-- A service that has just started stores the hero of the first request under the first id. -/
theorem Service.exists_stored {init : Service → Prop} (hinit : init .fresh) (hcrud : env.crud.Documented) {ownerId : String}
    {data : HeroCreate} (hp : Passes env request (.create ownerId data)) : ∃ (s : Service) (past : List Service),
      Trace init (Service.Step env) (s :: past) ∧
        s.shared.repo = .memory ⟨HeroMemoryRepository.new.records.insert 1 (data.row 1 ownerId 0), 2⟩ := by
  let hero : Model := data.row 1 ownerId 0
  let repo : Repo := .memory ⟨HeroMemoryRepository.new.records.insert 1 hero, 2⟩
  have hwrite : (Repo.memory .new).Answers (.write (.create ownerId data)) (.ok hero) repo :=
    ⟨fun _ => 0, hero, _, rfl, rfl, rfl⟩
  have hrun : Trace init (Service.Step env) _ := (Trace.start hinit).next (.arrive _ request)
  obtain ⟨addr, response, hret, -⟩ := hp.returns hcrud (.inl rfl) (r := hero) rfl
  obtain ⟨limiter, hplays⟩ := hp.plays (w := Service.fresh.shared) addr hwrite
  obtain ⟨past, q, hrun, hret⟩ := Pool.exists_run (i := 0) hrun rfl (by rwa [List.append_nil]) hplays
  exact ⟨_, past, hrun, rfl⟩

end TemplateAxum
