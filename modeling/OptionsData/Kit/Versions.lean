import OptionsData.Kit.Dict

namespace Kit

/-- A table under a primary key whose rows open transactions may insert or change, one of them at a time. -/
structure Versions (τ κ ν : Type*) where
  committed : Dict κ ν
  /-- The row version of the transaction that holds the row's lock. -/
  pending : Dict κ (τ × ν) := ∅

namespace Versions

variable {τ κ ν : Type*} [DecidableEq τ] [DecidableEq κ]

def read (s : Versions τ κ ν) (tx : τ) (k : κ) : Option ν :=
  match s.pending.lookup k with
  | some (owner, v) => if owner = tx then some v else s.committed.lookup k
  | none => s.committed.lookup k

def locked (s : Versions τ κ ν) (tx : τ) (k : κ) : Bool := (s.pending.lookup k).any fun entry => entry.1 ≠ tx

def write (s : Versions τ κ ν) (tx : τ) (k : κ) (v : ν) : Versions τ κ ν :=
  { s with pending := s.pending.insert k (tx, v) }

def rollback (s : Versions τ κ ν) (tx : τ) : Versions τ κ ν :=
  { s with pending := s.pending.filter fun _ entry => entry.1 ≠ tx }

def commit (s : Versions τ κ ν) (tx : τ) : Versions τ κ ν where
  committed := s.committed.assign ((s.pending.filter fun _ entry => entry.1 = tx).items.map fun item =>
    (item.1, item.2.2))
  pending := s.pending.filter fun _ entry => entry.1 ≠ tx

theorem lookup_commit (s : Versions τ κ ν) (tx : τ) (k : κ) : (s.commit tx).committed.lookup k = s.read tx k := by
  let own := s.pending.filter fun _ entry => entry.1 = tx
  have unique : ((own.items.map fun item => (item.1, item.2.2)).map Prod.fst).Nodup := by
    rw [List.map_map]
    exact own.items_nodup
  have listed (v : ν) :
      (k, v) ∈ own.items.map (fun item => (item.1, item.2.2)) ↔ s.pending.lookup k = some (tx, v) := by
    rw [List.mem_map]
    constructor
    · intro premise
      rcases premise with ⟨⟨key, owner, version⟩, member, same⟩
      cases same
      have found := Dict.mem_items.mp member
      rw [Dict.lookup_filter, Option.filter_eq_some_iff, decide_eq_true_eq] at found
      rcases found with ⟨found, rfl⟩
      exact found
    · intro found
      have kept : own.lookup k = some (tx, v) := by
        rw [Dict.lookup_filter, found]
        simp [Option.filter]
      exact ⟨(k, tx, v), Dict.mem_items.mpr kept, rfl⟩
  show (s.committed.assign (own.items.map fun item => (item.1, item.2.2))).lookup k = s.read tx k
  rw [Dict.lookup_assign _ unique, read]
  cases first : Dict.firstRow (own.items.map fun item => (item.1, item.2.2)) k with
  | some v => simp [(listed v).mp ((Dict.firstRow_iff unique).mp first)]
  | none =>
    have absent := Dict.firstRow_eq_none.mp first
    rw [Option.none_or]
    split
    · next owner v found =>
      split
      · next mine =>
        subst mine
        exact absurd (List.mem_map.mpr ⟨_, (listed v).mpr found, rfl⟩) absent
      · rfl
    · rfl

theorem lookup_others {s : Versions τ κ ν} {tx owner : τ} {k : κ} {v : ν} :
    (s.pending.filter fun _ entry => entry.1 ≠ tx).lookup k = some (owner, v) ↔
      s.pending.lookup k = some (owner, v) ∧ owner ≠ tx := by
  rw [Dict.lookup_filter, Option.filter_eq_some_iff, decide_eq_true_eq]

theorem read_of_other {s : Versions τ κ ν} {tx owner : τ} {k : κ} {v : ν}
    (held : s.pending.lookup k = some (owner, v)) (other : owner ≠ tx) : s.read tx k = s.committed.lookup k := by
  rw [read, held]
  exact if_neg other

def Guards (allowed : κ → ν → ν → Prop) (s : Versions τ κ ν) : Prop :=
  ∀ k owner v, s.pending.lookup k = some (owner, v) → ∀ w, s.committed.lookup k = some w → allowed k w v

inductive Change (allowed : κ → ν → ν → Prop) (s : Versions τ κ ν) (tx : τ) : Versions τ κ ν → Prop
  | none : Change allowed s tx s
  | write (k : κ) (v : ν) (ok : ∀ w, s.committed.lookup k = some w → allowed k w v) :
      Change allowed s tx (s.write tx k v)
  | commit : Change allowed s tx (s.commit tx)
  | rollback : Change allowed s tx (s.rollback tx)

theorem read_allowed {allowed : κ → ν → ν → Prop} (same : ∀ k v, allowed k v v) {s : Versions τ κ ν}
    (guards : s.Guards allowed) (tx : τ) {k : κ} {w : ν} (stored : s.committed.lookup k = some w) :
    ∃ v, s.read tx k = some v ∧ allowed k w v := by
  unfold read
  split
  · next owner v found =>
    split
    · exact ⟨v, rfl, guards k owner v found w stored⟩
    · exact ⟨w, stored, same k w⟩
  · exact ⟨w, stored, same k w⟩

theorem Change.guards {allowed : κ → ν → ν → Prop} {s t : Versions τ κ ν} {tx : τ}
    (change : Change allowed s tx t) (guards : s.Guards allowed) : t.Guards allowed := by
  intro k owner v found w stored
  cases change with
  | none => exact guards k owner v found w stored
  | write key version ok =>
    simp only [Versions.write, Dict.lookup_insert] at found
    split at found
    · next same =>
      subst same
      cases found
      exact ok w stored
    · exact guards k owner v found w stored
  | commit =>
    obtain ⟨held, other⟩ := lookup_others.mp found
    rw [lookup_commit, read_of_other held other] at stored
    exact guards k owner v held w stored
  | rollback => exact guards k owner v (lookup_others.mp found).1 w stored

theorem Change.follows {allowed : κ → ν → ν → Prop} (same : ∀ k v, allowed k v v) {s t : Versions τ κ ν} {tx : τ}
    (change : Change allowed s tx t) (guards : s.Guards allowed) {k : κ} {w : ν}
    (stored : s.committed.lookup k = some w) : ∃ v, t.committed.lookup k = some v ∧ allowed k w v := by
  cases change with
  | none => exact ⟨w, stored, same k w⟩
  | write key version ok => exact ⟨w, stored, same k w⟩
  | commit =>
    obtain ⟨v, seen, related⟩ := read_allowed same guards tx stored
    exact ⟨v, (lookup_commit s tx k).trans seen, related⟩
  | rollback => exact ⟨w, stored, same k w⟩

end Versions

end Kit
