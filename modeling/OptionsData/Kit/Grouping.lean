import Mathlib

namespace Kit

variable {ρ κ σ β : Type*} [DecidableEq κ]

/-- The groups of a query under GROUP BY, each with its rows in the order they came. -/
def groups (key : ρ → κ) (rows : List ρ) : List (κ × List ρ) :=
  (rows.map key).dedup.map fun k => (k, rows.filter fun row => key row = k)

theorem mem_groups {key : ρ → κ} {rows members : List ρ} {k : κ} :
    (k, members) ∈ groups key rows ↔ k ∈ rows.map key ∧ members = rows.filter fun row => key row = k := by
  simp only [groups, List.mem_map, List.mem_dedup, Prod.mk.injEq]
  constructor
  · intro premise
    rcases premise with ⟨k', known, rfl, rfl⟩
    exact ⟨known, rfl⟩
  · intro premise
    rcases premise with ⟨known, rfl⟩
    exact ⟨k, known, rfl, rfl⟩

theorem groups_keys (key : ρ → κ) (rows : List ρ) : (groups key rows).map Prod.fst = (rows.map key).dedup := by
  simp [groups, Function.comp_def]

theorem groups_nodup (key : ρ → κ) (rows : List ρ) : ((groups key rows).map Prod.fst).Nodup := by
  rw [groups_keys]
  exact List.nodup_dedup _

theorem filter_group {key : ρ → κ} {rows : List ρ} {test : ρ → Bool} {k : κ}
    (passes : ∀ row ∈ rows, key row = k → test row = true) :
    (rows.filter test).filter (fun row => key row = k) = rows.filter fun row => key row = k := by
  rw [List.filter_filter]
  refine List.filter_congr fun row member => ?_
  by_cases here : key row = k
  · simp [here, passes row member here]
  · simp [here]

def grouped (key : ρ → κ) (aggregate : κ → List ρ → β) (rows : List ρ) : List β :=
  (groups key rows).map fun g => aggregate g.1 g.2

theorem mem_grouped {key : ρ → κ} {aggregate : κ → List ρ → β} {rows : List ρ} {b : β} :
    b ∈ grouped key aggregate rows ↔
      ∃ row ∈ rows, b = aggregate (key row) (rows.filter fun other => key other = key row) := by
  rw [grouped, List.mem_map]
  constructor
  · intro premise
    rcases premise with ⟨⟨k, members⟩, listed, rfl⟩
    obtain ⟨known, rfl⟩ := mem_groups.mp listed
    obtain ⟨row, member, rfl⟩ := List.mem_map.mp known
    exact ⟨row, member, rfl⟩
  · intro premise
    rcases premise with ⟨row, member, rfl⟩
    exact ⟨(key row, _), mem_groups.mpr ⟨List.mem_map_of_mem member, rfl⟩, rfl⟩

/-- Where two results show a bar of the same slot it is one bar, the one shown without conditions. -/
def Agrees (slot : β → σ) (all one two : List β) : Prop :=
  ∀ b ∈ one, ∀ b' ∈ two, slot b = slot b' → b = b' ∧ ∀ whole ∈ all, slot whole = slot b → whole = b

/-- Where both conditions let a row of a slot pass, all rows of the slot are of one group and pass both. -/
def Whole (key : ρ → κ) (slot : ρ → σ) (rows : List ρ) (one two : ρ → Bool) : Prop :=
  ∀ x ∈ rows, ∀ y ∈ rows, one x = true → two y = true → slot x = slot y →
    ∀ row ∈ rows, slot row = slot x → one row = true ∧ two row = true ∧ key row = key x

instance [DecidableEq β] [DecidableEq σ] (slot : β → σ) (all one two : List β) :
    Decidable (Agrees slot all one two) :=
  inferInstanceAs (Decidable (∀ b ∈ one, ∀ b' ∈ two, slot b = slot b' →
    b = b' ∧ ∀ whole ∈ all, slot whole = slot b → whole = b))

instance [DecidableEq σ] (key : ρ → κ) (slot : ρ → σ) (rows : List ρ) (one two : ρ → Bool) :
    Decidable (Whole key slot rows one two) :=
  inferInstanceAs (Decidable (∀ x ∈ rows, ∀ y ∈ rows, one x = true → two y = true → slot x = slot y →
    ∀ row ∈ rows, slot row = slot x → one row = true ∧ two row = true ∧ key row = key x))

omit [DecidableEq κ] in
theorem Whole.transfer {key : ρ → κ} {slot : ρ → σ} {rows rows' : List ρ} {one two : ρ → Bool}
    {seen : ρ → ρ → Prop} (twins : ∀ x' ∈ rows', ∃ x ∈ rows, seen x x')
    (same : ∀ x x', seen x x' → one x = one x' ∧ two x = two x' ∧ key x = key x' ∧ slot x = slot x')
    (whole : Whole key slot rows one two) : Whole key slot rows' one two := by
  intro x' stored y' stored' first second equal row' member here
  obtain ⟨x, inside, twin⟩ := twins x' stored
  obtain ⟨y, inside', twin'⟩ := twins y' stored'
  obtain ⟨row, listed, twinRow⟩ := twins row' member
  obtain ⟨oneX, -, keyX, slotX⟩ := same x x' twin
  obtain ⟨-, twoY, -, slotY⟩ := same y y' twin'
  obtain ⟨oneRow, twoRow, keyRow, slotRow⟩ := same row row' twinRow
  rw [← oneRow, ← twoRow, ← keyRow, ← keyX]
  exact whole x inside y inside' (oneX.trans first) (twoY.trans second) (slotX.trans (equal.trans slotY.symm)) row
    listed (slotRow.trans (here.trans slotX.symm))

theorem passes_of_length {key : ρ → κ} {rows : List ρ} {test : ρ → Bool} {k : κ}
    (size : (rows.filter fun row => key row = k).length =
      ((rows.filter test).filter fun row => key row = k).length) {row : ρ} (member : row ∈ rows)
    (here : key row = k) : test row = true := by
  rw [List.filter_comm, eq_comm, List.length_filter_eq_length_iff] at size
  exact size row (List.mem_filter.mpr ⟨member, by simpa using here⟩)

section Aggregates

variable {key : ρ → κ} {slot : ρ → σ} {barSlot : β → σ} {aggregate : κ → List ρ → β} {rows : List ρ}
  {one two : ρ → Bool} (slots : ∀ row members, barSlot (aggregate (key row) members) = slot row)

include slots

theorem agrees_of_whole (coarser : ∀ x y, key x = key y → slot x = slot y) (whole : Whole key slot rows one two) :
    Agrees barSlot (grouped key aggregate rows) (grouped key aggregate (rows.filter one))
      (grouped key aggregate (rows.filter two)) := by
  intro b shown b' shown' same
  obtain ⟨x, passes, rfl⟩ := mem_grouped.mp shown
  obtain ⟨y, passes', rfl⟩ := mem_grouped.mp shown'
  obtain ⟨stored, first⟩ := List.mem_filter.mp passes
  obtain ⟨stored', second⟩ := List.mem_filter.mp passes'
  rw [slots, slots] at same
  have all := whole x stored y stored' first second same
  have group := (all y stored' same.symm).2.2
  have left : (rows.filter one).filter (fun row => key row = key x) = rows.filter fun row => key row = key x :=
    filter_group fun row member here => (all row member (coarser row x here)).1
  have right : (rows.filter two).filter (fun row => key row = key x) = rows.filter fun row => key row = key x :=
    filter_group fun row member here => (all row member (coarser row x here)).2.1
  rw [group, left, right]
  refine ⟨rfl, fun bar listed here => ?_⟩
  obtain ⟨row, member, rfl⟩ := mem_grouped.mp listed
  rw [slots, slots] at here
  rw [(all row member here).2.2]

theorem whole_of_agrees (tells : ∀ x ∈ rows, ∀ y ∈ rows, ∀ members members' : List ρ, x ∈ members →
      (∀ z ∈ members, z ∈ rows) → (∀ z ∈ members', z ∈ rows) → y ∈ members' →
      aggregate (key x) members = aggregate (key y) members' → key x = key y ∧ members.length = members'.length)
    (agrees : Agrees barSlot (grouped key aggregate rows) (grouped key aggregate (rows.filter one))
      (grouped key aggregate (rows.filter two))) : Whole key slot rows one two := by
  intro x stored y stored' first second same row member here
  have inGroup {list : List ρ} {z : ρ} (listed : z ∈ list) : z ∈ list.filter fun other => key other = key z :=
    List.mem_filter.mpr ⟨listed, by simp⟩
  have within (test : ρ → Bool) (k : κ) (z : ρ)
      (listed : z ∈ (rows.filter test).filter fun other => key other = k) : z ∈ rows :=
    List.mem_of_mem_filter (List.mem_of_mem_filter listed)
  have passes : x ∈ rows.filter one := List.mem_filter.mpr ⟨stored, first⟩
  have passes' : y ∈ rows.filter two := List.mem_filter.mpr ⟨stored', second⟩
  obtain ⟨equal, all⟩ := agrees _ (mem_grouped.mpr ⟨x, passes, rfl⟩) _ (mem_grouped.mpr ⟨y, passes', rfl⟩)
    (by rw [slots, slots, same])
  have full := all _ (mem_grouped.mpr ⟨row, member, rfl⟩) (by rw [slots, slots, here])
  obtain ⟨group, size⟩ := tells row member x stored _ _ (inGroup member) (fun _ => List.mem_of_mem_filter)
    (within one (key x)) (inGroup passes) full
  obtain ⟨group', size'⟩ := tells row member y stored' _ _ (inGroup member) (fun _ => List.mem_of_mem_filter)
    (within two (key y)) (inGroup passes') (full.trans equal)
  rw [group] at size
  rw [group'] at size'
  exact ⟨passes_of_length size member group, passes_of_length size' member group', group⟩

end Aggregates

end Kit
