import Mathlib.Logic.Basic

/-!
# A key-value store with expiry

What the commands of Redis used here do: a key given a time to live is absent from its deadline on,
`INCR` keeps a live key's deadline and `SET` replaces it.
-/

namespace Redis

structure Entry (α : Type) where
  value : α
  deadline : Option Nat

/-- The entry, unless its time is up. -/
def Entry.live {α : Type} (now : Nat) (entry : Entry α) : Option (Entry α) :=
  match entry.deadline with
  | some deadline => if now < deadline then some entry else none
  | none => some entry

abbrev Db (κ α : Type) := κ → Option (Entry α)

variable {κ α : Type} [DecidableEq κ]

def put (key : κ) (entry : Option (Entry α)) (db : Db κ α) : Db κ α := fun k => if k = key then entry else db k

def lookup (now : Nat) (key : κ) (db : Db κ α) : Option (Entry α) := (db key).bind (Entry.live now)

@[simp] theorem put_self (key : κ) (entry : Option (Entry α)) (db : Db κ α) : put key entry db key = entry := if_pos rfl

@[simp] theorem put_put (key : κ) (entry entry' : Option (Entry α)) (db : Db κ α) :
    put key entry (put key entry' db) = put key entry db := by
  funext k
  unfold put
  split <;> rfl

/-- Being live depends on the deadline alone. -/
theorem live_of_deadline {now : Nat} {entry live : Entry α} (h : entry.live now = some live) (value : α) :
    Entry.live now { live with value } = some { live with value } := by
  obtain ⟨v, deadline⟩ := entry
  cases deadline with
  | none =>
    cases h
    rfl
  | some deadline =>
    simp only [Entry.live] at h
    split at h
    · rename_i hlt
      cases h
      exact if_pos hlt
    · cases h

/-- The entry after `INCR`. -/
def incremented (now : Nat) (entry : Option (Entry Nat)) : Entry Nat :=
  match entry.bind (Entry.live now) with
  | some entry => { entry with value := entry.value + 1 }
  | none => ⟨1, none⟩

/-- `INCR`. -/
def incr (now : Nat) (key : κ) (db : Db κ Nat) : Nat × Db κ Nat :=
  let entry := incremented now (db key)
  (entry.value, put key (some entry) db)

theorem live_incremented (now : Nat) (entry : Option (Entry Nat)) :
    (incremented now entry).live now = some (incremented now entry) := by
  unfold incremented
  cases hlive : entry.bind (Entry.live now) with
  | none => rfl
  | some live =>
    obtain ⟨entry, -, hentry⟩ := Option.bind_eq_some_iff.1 hlive
    exact live_of_deadline hentry _

/-- `EXPIRE`. -/
def expire (now : Nat) (key : κ) (ttl : Nat) (db : Db κ α) : Db κ α :=
  match lookup now key db with
  | some entry => put key (some { entry with deadline := some (now + ttl) }) db
  | none => db

theorem expire_put {now : Nat} {key : κ} {ttl : Nat} {entry : Entry α} (h : entry.live now = some entry) (db : Db κ α) :
    expire now key ttl (put key (some entry) db) = put key (some { entry with deadline := some (now + ttl) }) db := by
  simp [expire, lookup, h]

end Redis
