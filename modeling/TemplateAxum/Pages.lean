import TemplateAxum.Agree
import TemplateAxum.Lib.Paging

/-!
# Pages of `list`

Pages of size `n` read one after the other with nothing written in between. The in-memory repository
cuts them all from one order, so they are its rows. Each statement of the other one may order rows
that tie as it likes, and nothing in its `ORDER BY` keeps two statements to one order.
-/

open Std StableSort Sql Paging

namespace TemplateAxum

open HeroMemory HeroSeaOrm

variable [Lowercase]

/-- The options of page `i` of size `n`. -/
def ListOptions.page (opts : ListOptions) (n i : Nat) : ListOptions := { opts with skip := i * n, limit := n }

/-- Whatever the statements answer, the pages are the visible matching rows, and as many as counted. -/
def SeaOrmPages (opts : ListOptions) (n : Nat) (db : Table) : Prop :=
  ∀ answers : Nat → List Model, (∀ i, (HeroSeaOrmRepository.list (opts.page n i)).Answers db (answers i)) →
    ∀ k, (HeroSeaOrmRepository.matching opts db).length ≤ k * n →
      ((List.range k).flatMap answers).Perm (HeroSeaOrmRepository.matching opts db) ∧
        ((List.range k).flatMap answers).length =
          HeroSeaOrmRepository.count opts.filters opts.includeArchived opts.onlyArchived db

/-- The pages of the in-memory repository are its visible matching rows, and as many as counted. -/
def MemoryPages (opts : ListOptions) (n : Nat) (repo : HeroMemoryRepository) : Prop :=
  ∀ k, (repo.matching opts).length ≤ k * n →
    ((List.range k).flatMap fun i => repo.list (opts.page n i)).Perm (repo.matching opts) ∧
      ((List.range k).flatMap fun i => repo.list (opts.page n i)).length =
        repo.count opts.filters opts.includeArchived opts.onlyArchived

theorem memoryPages (opts : ListOptions) (n : Nat) (repo : HeroMemoryRepository) : MemoryPages opts n repo := by
  intro k hk
  have hordered := repo.ordered_perm opts
  have hpages : ((List.range k).flatMap fun i => repo.list (opts.page n i)) = repo.ordered opts := by
    have : (fun i => repo.list (opts.page n i)) = fun i => page n i (repo.ordered opts) :=
      funext fun i => repo.list_eq (opts.page n i)
    rw [this]
    exact (pages_const n k (repo.ordered opts)).trans (List.take_of_length_le (hordered.length_eq ▸ hk))
  rw [hpages, repo.count_eq]
  exact ⟨hordered, hordered.length_eq⟩

/-- The comparison by the keys of the `ORDER BY`. -/
def seaOrmCmp (opts : ListOptions) : Model → Model → Ordering :=
  lexCmp orderCmp (HeroSeaOrmRepository.list opts).orderBy

theorem answers_page_iff {opts : ListOptions} {n i : Nat} {db : Table} {answer : List Model} :
    (HeroSeaOrmRepository.list (opts.page n i)).Answers db answer ↔
      ∃ out, Arrangement (seaOrmCmp opts) (HeroSeaOrmRepository.matching opts db) out ∧ answer = page n i out := by
  rw [← rows_list]; rfl

/-- Pages lose and repeat nothing in either repository exactly when no group of rows that tie on every
sort column reaches over a page boundary. -/
theorem pages_iff_tiesFit (opts : ListOptions) (n : Nat) (hn : 0 < n) (table : Table) (hk : table.Keyed) :
    (SeaOrmPages opts n table ∧ ∀ nextId, MemoryPages opts n ⟨table, nextId⟩) ↔
      TiesFit (seaOrmCmp opts) n (HeroSeaOrmRepository.matching opts table) := by
  have htrans : TransCmp (seaOrmCmp opts) := lexCmp.transCmp orderCmp _
  have hnodup : (HeroSeaOrmRepository.matching opts table).Nodup := hk.nodup_values.filter _
  rw [and_iff_left fun nextId => memoryPages opts n ⟨table, nextId⟩, ← pages_perm_iff hn hnodup]
  simp only [SeaOrmPages, answers_page_iff, HeroSeaOrmRepository.count_eq]
  constructor
  · intro h outs houts k hlen
    exact (h (fun i => page n i (outs i)) (fun i => ⟨outs i, houts i, rfl⟩) k hlen).1
  · intro h answers hanswers k hlen
    choose outs houts heq using hanswers
    obtain rfl : answers = fun i => page n i (outs i) := funext heq
    have hperm := h outs houts k hlen
    exact ⟨hperm, hperm.length_eq⟩

/-- With no sort clause the order is by id, and every page fits. -/
theorem tiesFit_of_no_sort (opts : ListOptions) (hsort : opts.sort = []) (n : Nat) {table : Table}
    (hk : table.Keyed) : TiesFit (seaOrmCmp opts) n (HeroSeaOrmRepository.matching opts table) := by
  have htrans : TransCmp (seaOrmCmp opts) := lexCmp.transCmp orderCmp _
  refine tiesFit_of_strict (hk.nodup_values.filter _) fun a ha b hb heq => ?_
  have hid : a.id = b.id := by
    simp only [seaOrmCmp, HeroSeaOrmRepository.list, hsort, List.isEmpty_nil, if_true, lexCmp,
      Ordering.then_eq_eq] at heq
    have hcompare : compare a.id b.id = .eq := heq.1
    exact LawfulEqCmp.eq_of_compare hcompare
  obtain ⟨k, hka⟩ := OrdMap.mem_values.1 (List.mem_filter.1 ha).1
  obtain ⟨k', hkb⟩ := OrdMap.mem_values.1 (List.mem_filter.1 hb).1
  rw [← hk k a hka, hid, hk k' b hkb] at hka
  exact Option.some.inj (hka.symm.trans hkb)

omit [Lowercase] in
/-- Two heroes of one name. -/
def twins : Table :=
  (OrdMap.empty.insert 1 ⟨1, some "Spectra", none, none, "alice", none, 0, 0⟩).insert 2
    ⟨2, some "Spectra", none, none, "bob", none, 0, 0⟩

omit [Lowercase] in
theorem keyed_twins : twins.Keyed := fun id row h => by
  rw [twins, OrdMap.get?_insert, OrdMap.get?_insert] at h
  split at h
  · rename_i hid; rw [hid]; cases h; rfl
  · split at h
    · rename_i hid; rw [hid]; cases h; rfl
    · cases h

omit [Lowercase] in
theorem pages_iff_tiesFit_twins :
    (@SeaOrmPages .ascii ⟨0, 0, false, false, [], [⟨"name", false⟩]⟩ 2 twins ∧
        ∀ nextId, @MemoryPages .ascii ⟨0, 0, false, false, [], [⟨"name", false⟩]⟩ 2 ⟨twins, nextId⟩) ↔
      TiesFit (@seaOrmCmp .ascii ⟨0, 0, false, false, [], [⟨"name", false⟩]⟩) 2
        (@HeroSeaOrmRepository.matching .ascii ⟨0, 0, false, false, [], [⟨"name", false⟩]⟩ twins) :=
  @pages_iff_tiesFit .ascii _ 2 (by decide) twins keyed_twins

omit [Lowercase] in
/-- Sorted by name in pages of one, the first twin can be answered twice. -/
theorem not_seaOrmPages_twins :
    ¬ @SeaOrmPages .ascii ⟨0, 0, false, false, [], [⟨"name", false⟩]⟩ 1 twins := fun h => by
  let _ := Lowercase.ascii
  let first : Model := ⟨1, some "Spectra", none, none, "alice", none, 0, 0⟩
  let second : Model := ⟨2, some "Spectra", none, none, "bob", none, 0, 0⟩
  have hrows : HeroSeaOrmRepository.matching ⟨0, 0, false, false, [], [⟨"name", false⟩]⟩ twins =
      [first, second] := by decide
  have hanswers := h (fun i => if i ≤ 1 then [first] else []) (fun i => ?_) 2 (by rw [hrows]; decide)
  · rw [hrows] at hanswers
    exact absurd (hanswers.1.mem_iff.2 (List.mem_cons_of_mem _ (List.mem_singleton.2 rfl))) (by decide)
  · rw [answers_page_iff, hrows]
    match i with
    | 0 => exact ⟨[first, second], ⟨.refl _, by simp [Sorted]; decide⟩, rfl⟩
    | 1 => exact ⟨[second, first], ⟨.swap .., by simp [Sorted]; decide⟩, rfl⟩
    | i + 2 => exact ⟨[first, second], ⟨.refl _, by simp [Sorted]; decide⟩, by simp [page]⟩

end TemplateAxum
