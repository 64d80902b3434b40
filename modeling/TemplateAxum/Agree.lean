import TemplateAxum.Refine
import TemplateAxum.Sorting

/-!
# Where the filter interpreters agree

The two repositories read a clause independently. Where they select the same rows for each clause of
a list, everything that goes by the list has the same outcome: what is listed and counted, and what
the bulk writes change and report.
-/

open Std StableSort Sql

namespace TemplateAxum

open HeroMemory HeroSeaOrm

variable [Lowercase]

/-- Both interpreters of a clause select the same rows. -/
def FilterClause.Agrees (clause : FilterClause) : Prop :=
  ∀ row, ((conditionFor clause).eval row).holds = matchesOne row clause

/-- Both interpreters of a list of clauses select the same rows. -/
def FiltersAgree (filters : List FilterClause) : Prop :=
  ∀ row, whereHolds (applyFilters filters) row = matchesAll row filters

theorem filtersAgree_of_agrees {filters : List FilterClause} (h : ∀ clause ∈ filters, clause.Agrees) :
    FiltersAgree filters := fun row => by
  rw [Bool.eq_iff_iff, whereHolds_applyFilters_iff, matchesAll, List.all_eq_true]
  exact forall₂_congr fun clause hc => by rw [h clause hc row]

theorem whereHolds_archiveScope (includeArchived onlyArchived : Bool) (row : Model) :
    whereHolds (archiveScope includeArchived onlyArchived) row = visible row includeArchived onlyArchived := by
  unfold archiveScope visible
  cases onlyArchived <;> cases includeArchived <;> simp [Model.live]

theorem whereHolds_scope (includeArchived onlyArchived : Bool) (filters : List FilterClause) :
    whereHolds (archiveScope includeArchived onlyArchived ++ applyFilters filters) = fun row =>
      visible row includeArchived onlyArchived && whereHolds (applyFilters filters) row :=
  funext fun row => by rw [whereHolds_append, whereHolds_archiveScope]

/-- The visible rows that the clauses of `list` select, as SQL reads them. -/
def HeroSeaOrmRepository.matching (opts : ListOptions) (db : Table) : List Model :=
  db.values.filter fun row =>
    visible row opts.includeArchived opts.onlyArchived && whereHolds (applyFilters opts.filters) row

/-- The visible rows that the clauses of `list` select, as `matches_all` reads them. -/
def HeroMemoryRepository.matching (opts : ListOptions) (repo : HeroMemoryRepository) : List Model :=
  repo.records.values.filter fun row =>
    visible row opts.includeArchived opts.onlyArchived && matchesAll row opts.filters

theorem rows_list (opts : ListOptions) (db : Table) :
    (HeroSeaOrmRepository.list opts).rows db = HeroSeaOrmRepository.matching opts db := by
  unfold Select.rows HeroSeaOrmRepository.list HeroSeaOrmRepository.matching
  rw [whereHolds_scope]

theorem HeroSeaOrmRepository.count_eq (opts : ListOptions) (db : Table) :
    count opts.filters opts.includeArchived opts.onlyArchived db = (matching opts db).length := by
  rw [count, whereHolds_scope, matching]

theorem HeroMemoryRepository.count_eq (opts : ListOptions) (repo : HeroMemoryRepository) :
    repo.count opts.filters opts.includeArchived opts.onlyArchived = (repo.matching opts).length := by
  simp only [count, matching, List.filter_filter, Bool.and_comm]

/-- The order in which `list` of the in-memory repository cuts its pages. -/
def HeroMemoryRepository.ordered (opts : ListOptions) (repo : HeroMemoryRepository) : List Model :=
  if opts.sort.isEmpty then sortBy (fun a b => compare a.id b.id) (repo.matching opts)
  else HeroMemory.applySort (repo.matching opts) opts.sort

theorem HeroMemoryRepository.list_eq (opts : ListOptions) (repo : HeroMemoryRepository) :
    repo.list opts = ((repo.ordered opts).drop opts.skip).take opts.limit := by
  simp only [list, ordered, matching, List.filter_filter, Bool.and_comm]

theorem HeroMemoryRepository.ordered_perm (opts : ListOptions) (repo : HeroMemoryRepository) :
    (repo.ordered opts).Perm (repo.matching opts) := by
  unfold ordered
  split
  · exact sortBy_perm ..
  · rw [HeroMemory.applySort_eq]; exact sortBy_perm ..

/-- What both repositories do with a list of clauses. -/
structure SameRows (filters : List FilterClause) : Prop where
  listed : ∀ (repo : HeroMemoryRepository) (opts : ListOptions), opts.filters = filters → opts.skip = 0 →
    repo.records.values.length ≤ opts.limit → ∀ answer,
      (HeroSeaOrmRepository.list opts).Answers repo.records answer → answer.Perm (repo.list opts)
  counted : ∀ (repo : HeroMemoryRepository) (includeArchived onlyArchived : Bool),
    HeroSeaOrmRepository.count filters includeArchived onlyArchived repo.records =
      repo.count filters includeArchived onlyArchived
  updated : ∀ (repo : HeroMemoryRepository) (returning : RowOrder) (now : DateTime) (data : HeroUpdate),
    repo.records.Keyed → HeroSeaOrmRepository.updateMany returning now filters data repo.records =
      ((repo.updateMany (fun _ => now) filters data).1, (repo.updateMany (fun _ => now) filters data).2.records)
  deleted : ∀ (repo : HeroMemoryRepository) (returning : RowOrder) (now : DateTime) (includeUnpublished : Bool),
    repo.records.Keyed →
      HeroSeaOrmRepository.deleteMany returning now filters includeUnpublished repo.records =
        ((repo.deleteMany (fun _ => now) filters includeUnpublished).1,
          (repo.deleteMany (fun _ => now) filters includeUnpublished).2.records)

theorem sameRows_of_filtersAgree {filters : List FilterClause} (h : FiltersAgree filters) :
    SameRows filters where
  listed repo opts hf hskip hlimit answer := by
    rintro ⟨out, hout, rfl⟩
    have hrows : (HeroSeaOrmRepository.list opts).rows repo.records = repo.matching opts := by
      rw [rows_list, HeroSeaOrmRepository.matching, HeroMemoryRepository.matching]
      simp only [hf, h _]
    have hle : ∀ items : List Model, items.Perm ((HeroSeaOrmRepository.list opts).rows repo.records) →
        (items.drop opts.skip).take opts.limit = items := fun items hp => by
      rw [hskip, List.drop_zero, List.take_of_length_le]
      exact Nat.le_trans (hp.length_eq ▸ List.length_filter_le ..) hlimit
    have hmem := repo.ordered_perm opts
    rw [← hrows] at hmem
    rw [repo.list_eq, hle _ hmem]
    exact (hle out hout.perm).symm ▸ hout.perm.trans hmem.symm
  counted repo includeArchived onlyArchived := by
    simp only [HeroSeaOrmRepository.count, HeroMemoryRepository.count, whereHolds_scope, h _,
      List.filter_filter, Bool.and_comm]
  updated repo returning now data hk := by
    rw [HeroSeaOrmRepository.updateMany_eq hk, HeroMemoryRepository.updateMany_eq hk, funext h]; rfl
  deleted repo returning now includeUnpublished hk := by
    rw [HeroSeaOrmRepository.deleteMany_eq hk, HeroMemoryRepository.deleteMany_eq, funext h]

end TemplateAxum
