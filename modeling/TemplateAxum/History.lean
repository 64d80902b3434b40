import Mathlib
import TemplateAxum.Writes

/-!
# The history of the in-memory store

What holds of every run of writes from the empty store, and between any two points of it: ids are
handed out in ascending order and never again, no row goes away, each row stays the record it was
created as, an archived row does not change, and a write changes only what it reports.
-/

open Std

namespace TemplateAxum

open HeroMemory

namespace MemoryWrite

/-- The ids that the creates of a run handed out, in order. -/
def createdIds : List MemoryWrite → List WriteAnswer → List Int32
  | write :: writes, answer :: answers =>
    (if write.op.isCreate then write.op.reports answer else []) ++ createdIds writes answers
  | _, _ => []

/-- The ids that the writes of a run reported. -/
def reportedIds : List MemoryWrite → List WriteAnswer → List Int32
  | write :: writes, answer :: answers => write.op.reports answer ++ reportedIds writes answers
  | _, _ => []

/-- What a run of writes does to the store. -/
structure History (writes : List MemoryWrite) (answers : List WriteAnswer)
    (repo repo' : HeroMemoryRepository) : Prop where
  /-- Ids are handed out in ascending order, from `next_id` on. -/
  ascending : (createdIds writes answers).Pairwise (· < ·)
  fresh : ∀ id ∈ createdIds writes answers, repo.nextId ≤ id ∧ id < repo'.nextId
  /-- No row goes away, each stays the same record, and an archived one does not change. -/
  kept : ∀ id row, repo.records.get? id = some row → ∃ row', repo'.records.get? id = some row' ∧
    row.SameRecord row' ∧ (row.archivedAt.isSome → row' = row)
  /-- What is not reported is as it was. -/
  frame : ∀ id, id ∉ reportedIds writes answers → repo'.records.get? id = repo.records.get? id

end MemoryWrite

/-! ### One write -/

namespace WriteOp
variable [Lowercase] {repo repo' : HeroMemoryRepository} {now : Nat → DateTime} {op : WriteOp} {answer : WriteAnswer}

theorem createdIds_step (h : repo.Inv) (hstep : op.memory now repo = some (answer, repo')) :
    (if op.isCreate then op.reports answer else []) = if op.isCreate then [repo.nextId] else [] := by
  rw [op.memory_eq h.keyed] at hstep
  split at hstep
  · cases hstep
  · cases hstep
    cases op <;> rfl

/-- The history of one write. -/
theorem history_step (h : repo.Inv) (hstep : op.memory now repo = some (answer, repo')) :
    MemoryWrite.History [⟨op, now⟩] [answer] repo repo' := by
  have hcreated : MemoryWrite.createdIds [⟨op, now⟩] [answer] = if op.isCreate then [repo.nextId] else [] := by
    rw [← createdIds_step h hstep]; simp [MemoryWrite.createdIds]
  have hnext := h.nextId_step hstep
  have hfresh := h.fresh now op
  refine ⟨?_, fun id hid => ?_, fun id row hrow => ?_, fun id hid => ?_⟩
  · rw [hcreated]; split <;> simp
  · rw [hcreated] at hid
    split at hid
    · obtain rfl := List.mem_singleton.1 hid
      rename_i hc
      rw [if_pos hc] at hnext
      exact ⟨Int32.le_refl _, Int32.lt_iff_toInt_lt.2 (by omega)⟩
    · cases hid
  all_goals
    rw [op.memory_eq h.keyed] at hstep
    split at hstep <;> cases hstep
  · obtain ⟨row', hrow', hsame, harchived⟩ := Change.persists hfresh hrow
    exact ⟨row', hrow', hsame, fun ha => harchived (by simpa [Model.live] using ha)⟩
  · refine Change.get?_run_of_not_reported h.keyed fun row hrow hne => hid ?_
    simp only [MemoryWrite.reportedIds, List.append_nil]
    rw [memoryChange, reports_answer h.keyed]
    exact List.mem_map.2 ⟨row, hrow, hne⟩

end WriteOp

/-! ### Runs -/

namespace MemoryWrite
variable [Lowercase] {repo repo₁ repo₂ : HeroMemoryRepository}

omit [Lowercase] in
theorem History.cons {write : MemoryWrite} {writes : List MemoryWrite} {answer : WriteAnswer}
    {answers : List WriteAnswer} (hle : repo.nextId ≤ repo₁.nextId) (hle' : repo₁.nextId ≤ repo₂.nextId)
    (first : History [write] [answer] repo repo₁) (rest : History writes answers repo₁ repo₂) :
    History (write :: writes) (answer :: answers) repo repo₂ := by
  have hcreated : createdIds (write :: writes) (answer :: answers) =
      createdIds [write] [answer] ++ createdIds writes answers := by simp [createdIds]
  have hreported : reportedIds (write :: writes) (answer :: answers) =
      reportedIds [write] [answer] ++ reportedIds writes answers := by simp [reportedIds]
  refine ⟨?_, fun id hid => ?_, fun id row hrow => ?_, fun id hid => ?_⟩
  · rw [hcreated]
    refine List.pairwise_append.2 ⟨first.ascending, rest.ascending, fun a ha b hb => ?_⟩
    exact Int32.lt_of_lt_of_le (first.fresh a ha).2 (rest.fresh b hb).1
  · rw [hcreated, List.mem_append] at hid
    rcases hid with hid | hid
    · exact ⟨(first.fresh id hid).1, Int32.lt_of_lt_of_le (first.fresh id hid).2 hle'⟩
    · exact ⟨Int32.le_trans hle (rest.fresh id hid).1, (rest.fresh id hid).2⟩
  · obtain ⟨row₁, hrow₁, hsame₁, harchived₁⟩ := first.kept id row hrow
    obtain ⟨row₂, hrow₂, hsame₂, harchived₂⟩ := rest.kept id row₁ hrow₁
    refine ⟨row₂, hrow₂, hsame₁.trans hsame₂, fun ha => ?_⟩
    obtain rfl := harchived₁ ha
    exact harchived₂ ha
  · rw [hreported, List.mem_append, not_or] at hid
    exact (rest.frame id hid.2).trans (first.frame id hid.1)

/-- A run that hands out ids up to the greatest one ends, and this is what it does. -/
theorem run_history (writes : List MemoryWrite) (repo : HeroMemoryRepository) (h : repo.Inv)
    (hroom : repo.nextId.toInt + creates writes < 2 ^ 31) :
    ∃ answers repo', run writes repo = some (answers, repo') ∧ repo'.Inv ∧
      repo'.nextId.toInt = repo.nextId.toInt + creates writes ∧ History writes answers repo repo' := by
  induction writes generalizing repo with
  | nil =>
    exact ⟨[], repo, rfl, h, by simp [creates], .nil, fun _ hid => absurd hid List.not_mem_nil,
      fun _ row hrow => ⟨row, hrow, .refl row, fun _ => rfl⟩, fun _ _ => rfl⟩
  | cons write writes ih =>
    rw [creates_cons] at hroom ⊢
    have hmax : write.op.isCreate → repo.nextId ≠ Int32.maxValue := fun hc heq => by
      have : Int32.maxValue.toInt = 2 ^ 31 - 1 := by decide
      rw [if_pos hc, heq] at hroom; omega
    obtain ⟨answer, repo₁, hstep⟩ : ∃ answer repo₁, write.op.memory write.now repo = some (answer, repo₁) :=
      ⟨_, _, (write.op.memory_eq h.keyed write.now).trans (if_neg fun hc => hmax hc.1 hc.2)⟩
    have hnext := h.nextId_step hstep
    obtain ⟨answers, repo₂, hrun, hinv₂, hnext₂, hhistory⟩ := ih repo₁ (h.step hstep) (by omega)
    refine ⟨answer :: answers, repo₂, by simp only [run, hstep, Option.bind_some, hrun, Option.map_some],
      hinv₂, by omega, .cons (Int32.le_iff_toInt_le.2 (by omega)) (Int32.le_iff_toInt_le.2 (by omega))
        (WriteOp.history_step h hstep) hhistory⟩

/-- Any run from the empty store, and any later part of it. -/
theorem history (past future : List MemoryWrite) (hroom : creates (past ++ future) < 2 ^ 31 - 1) :
    ∃ answers₁ repo₁ answers₂ repo₂, run past .new = some (answers₁, repo₁) ∧
      run future repo₁ = some (answers₂, repo₂) ∧
      (∀ id row, repo₁.records.get? id = some row → row.id = id ∧ 1 ≤ id ∧ id < repo₁.nextId) ∧
      History past answers₁ .new repo₁ ∧ History future answers₂ repo₁ repo₂ := by
  rw [creates_append] at hroom
  have hone : HeroMemoryRepository.new.nextId.toInt = 1 := by decide
  obtain ⟨answers₁, repo₁, hrun₁, hinv₁, hnext₁, hhistory₁⟩ := run_history past .new .new (by omega)
  obtain ⟨answers₂, repo₂, hrun₂, -, -, hhistory₂⟩ := run_history future repo₁ hinv₁ (by omega)
  refine ⟨answers₁, repo₁, answers₂, repo₂, hrun₁, hrun₂, fun id row hrow => ?_, hhistory₁, hhistory₂⟩
  have hbelow := hinv₁.below id row hrow
  exact ⟨hinv₁.keyed id row hrow, Int32.le_iff_toInt_le.2 hbelow.1, Int32.lt_iff_toInt_lt.2 hbelow.2⟩

omit [Lowercase] in
theorem history_create_delete :
    ∃ answers₁ repo₁ answers₂ repo₂,
      @run .ascii [⟨.create "alice" ⟨"Spectra", [], none⟩, fun _ => 7⟩] .new = some (answers₁, repo₁) ∧
      @run .ascii [⟨.delete 1 "alice", fun _ => 8⟩] repo₁ = some (answers₂, repo₂) ∧
      (∀ id row, repo₁.records.get? id = some row → row.id = id ∧ 1 ≤ id ∧ id < repo₁.nextId) ∧
      History [⟨.create "alice" ⟨"Spectra", [], none⟩, fun _ => 7⟩] answers₁ .new repo₁ ∧
      History [⟨.delete 1 "alice", fun _ => 8⟩] answers₂ repo₁ repo₂ :=
  @history .ascii _ _ (by decide)

end MemoryWrite
end TemplateAxum
