import OptionsData.Kit.Dict

namespace Kit

/-- A table under a primary key, with the inserts of transactions that have not ended. -/
structure Store (τ κ ν : Type*) where
  committed : Dict κ ν
  /-- At most one open transaction Holds an insert of a key: any other waits for it. -/
  uncommitted : Dict κ (τ × ν) := ∅

namespace Store

variable {τ κ ν : Type*} [DecidableEq τ] [DecidableEq κ]

def Holds (s : Store τ κ ν) (tx : τ) (k : κ) : Prop := ∃ v, s.uncommitted.lookup k = some (tx, v)

def heldBy (s : Store τ κ ν) (tx : τ) (k : κ) : Bool := (s.uncommitted.lookup k).any fun entry => entry.1 = tx

def sees (s : Store τ κ ν) (tx : τ) (k : κ) : Bool := k ∈ s.committed || s.heldBy tx k

def waits (s : Store τ κ ν) (tx : τ) (k : κ) : Bool := (s.uncommitted.lookup k).any fun entry => entry.1 ≠ tx

def put (s : Store τ κ ν) (tx : τ) (k : κ) (v : ν) : Store τ κ ν :=
  { s with uncommitted := s.uncommitted.insert k (tx, v) }

def commit (s : Store τ κ ν) (tx : τ) : Store τ κ ν where
  committed := s.committed.insertAll ((s.uncommitted.filter fun _ entry => entry.1 = tx).items.map fun item =>
    (item.1, item.2.2))
  uncommitted := s.uncommitted.filter fun _ entry => entry.1 ≠ tx

def rollback (s : Store τ κ ν) (tx : τ) : Store τ κ ν :=
  { s with uncommitted := s.uncommitted.filter fun _ entry => entry.1 ≠ tx }

theorem heldBy_iff {s : Store τ κ ν} {tx : τ} {k : κ} : s.heldBy tx k = true ↔ s.Holds tx k := by
  unfold heldBy Holds
  cases s.uncommitted.lookup k with
  | none => simp
  | some entry =>
    rcases entry with ⟨owner, v⟩
    simp

theorem sees_iff {s : Store τ κ ν} {tx : τ} {k : κ} : s.sees tx k = true ↔ k ∈ s.committed ∨ s.Holds tx k := by
  rw [sees, Bool.or_eq_true, decide_eq_true_eq, heldBy_iff]

theorem waits_false {s : Store τ κ ν} {tx other : τ} {k : κ} (free : s.waits tx k = false) (held : s.Holds other k) :
    other = tx := by
  rcases held with ⟨v, found⟩
  simpa [waits, found] using free

theorem holds_put {s : Store τ κ ν} {tx other : τ} {k key : κ} {v : ν} (free : s.waits tx k = false) :
    (s.put tx k v).Holds other key ↔ s.Holds other key ∨ other = tx ∧ key = k := by
  unfold Holds put
  simp only [Dict.lookup_insert]
  by_cases same : key = k
  · subst same
    simp only [if_true, Option.some_inj, Prod.mk.injEq, and_true]
    constructor
    · intro premise
      rcases premise with ⟨_, rfl, -⟩
      exact .inr rfl
    · intro premise
      rcases premise with held | rfl
      · exact ⟨v, (waits_false free held).symm, rfl⟩
      · exact ⟨v, rfl, rfl⟩
  · simp [same]

theorem holds_filter {s : Store τ κ ν} {tx other : τ} {key : κ} :
    (∃ v, (s.uncommitted.filter fun _ entry => entry.1 ≠ tx).lookup key = some (other, v)) ↔
      s.Holds other key ∧ other ≠ tx := by
  simp only [Dict.lookup_filter, Option.filter_eq_some_iff, decide_eq_true_eq, Holds]
  constructor
  · intro premise
    rcases premise with ⟨v, found, different⟩
    exact ⟨⟨v, found⟩, different⟩
  · intro premise
    rcases premise with ⟨⟨v, found⟩, different⟩
    exact ⟨v, found, different⟩

theorem holds_commit {s : Store τ κ ν} {tx other : τ} {key : κ} :
    (s.commit tx).Holds other key ↔ s.Holds other key ∧ other ≠ tx := holds_filter

theorem mem_commit {s : Store τ κ ν} {tx : τ} {key : κ} :
    key ∈ (s.commit tx).committed ↔ key ∈ s.committed ∨ s.Holds tx key := by
  have listed : key ∈ ((s.uncommitted.filter fun _ entry => entry.1 = tx).items.map fun item =>
      (item.1, item.2.2)).map Prod.fst ↔ s.Holds tx key := by
    rw [List.map_map]
    constructor
    · intro member
      obtain ⟨⟨k, owner, v⟩, item, rfl⟩ := List.mem_map.mp member
      have found := Dict.mem_items.mp item
      rw [Dict.lookup_filter, Option.filter_eq_some_iff, decide_eq_true_eq] at found
      rcases found with ⟨found, rfl⟩
      exact ⟨v, found⟩
    · intro premise
      rcases premise with ⟨v, found⟩
      refine List.mem_map.mpr ⟨(key, tx, v), Dict.mem_items.mpr ?_, rfl⟩
      rw [Dict.lookup_filter, Option.filter_eq_some_iff]
      exact ⟨found, by simp⟩
  rw [commit, Dict.mem_insertAll, listed]

end Store

end Kit
