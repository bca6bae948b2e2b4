import OptionsData.Kit.Grouping

namespace Kit

variable {ρ κ α : Type*}

def mergeAll (op : α → α → α) (values : List (Option α)) : Option α := values.foldr (Option.merge op) none

theorem merge_assoc (op : α → α → α) [Std.Associative op] (a b c : Option α) :
    Option.merge op (Option.merge op a b) c = Option.merge op a (Option.merge op b c) := Std.Associative.assoc a b c

theorem merge_comm (op : α → α → α) [Std.Commutative op] (a b : Option α) :
    Option.merge op a b = Option.merge op b a := Std.Commutative.comm a b

theorem mergeAll_append (op : α → α → α) [Std.Associative op] (values later : List (Option α)) :
    mergeAll op (values ++ later) = Option.merge op (mergeAll op values) (mergeAll op later) := by
  induction values with
  | nil => exact Option.merge_none_left.symm
  | cons value values ih =>
    have step : mergeAll op (value :: values ++ later) = Option.merge op value (mergeAll op (values ++ later)) := rfl
    rw [step, ih, ← merge_assoc]
    rfl

theorem mergeAll_flatten (op : α → α → α) [Std.Associative op] (parts : List (List (Option α))) :
    mergeAll op (parts.map (mergeAll op)) = mergeAll op parts.flatten := by
  induction parts with
  | nil => rfl
  | cons part parts ih =>
    rw [List.flatten_cons, mergeAll_append, ← ih]
    rfl

theorem mergeAll_perm (op : α → α → α) [Std.Associative op] [Std.Commutative op] {values other : List (Option α)}
    (same : values.Perm other) : mergeAll op values = mergeAll op other := by
  induction same with
  | nil => rfl
  | cons value _ ih => exact congrArg (Option.merge op value) ih
  | swap value value' rest =>
    show Option.merge op value' (Option.merge op value _) = Option.merge op value (Option.merge op value' _)
    rw [← merge_assoc, merge_comm op value', merge_assoc]
  | trans _ _ first second => exact first.trans second

variable [DecidableEq κ]

theorem dedup_filter {test : κ → Bool} (keys : List κ) : (keys.filter test).dedup = keys.dedup.filter test := by
  induction keys with
  | nil => rfl
  | cons k keys ih =>
    by_cases later : k ∈ keys
    · rw [List.dedup_cons_of_mem later, ← ih]
      cases passes : test k with
      | true => rw [List.filter_cons_of_pos passes, List.dedup_cons_of_mem (List.mem_filter.mpr ⟨later, passes⟩)]
      | false => rw [List.filter_cons_of_neg (by simp [passes])]
    · rw [List.dedup_cons_of_notMem later]
      cases passes : test k with
      | true =>
        rw [List.filter_cons_of_pos passes, List.filter_cons_of_pos passes, ← ih]
        exact List.dedup_cons_of_notMem fun member => later (List.mem_of_mem_filter member)
      | false => rw [List.filter_cons_of_neg (by simp [passes]), List.filter_cons_of_neg (by simp [passes]), ih]

theorem groups_filter (key : ρ → κ) (test : κ → Bool) (rows : List ρ) :
    (groups key rows).filter (fun g => test g.1) = groups key (rows.filter fun row => test (key row)) := by
  have keys : (rows.filter fun row => test (key row)).map key = (rows.map key).filter test := by
    rw [List.filter_map]
    rfl
  rw [groups, groups, keys, dedup_filter, List.filter_map]
  apply List.map_congr_left
  intro k listed
  have passes : test k = true := (List.mem_filter.mp listed).2
  rw [Prod.mk.injEq]
  exact ⟨rfl, (filter_group fun row _ same => by rw [same, passes]).symm⟩

theorem flatten_filters_perm (key : ρ → κ) (keys : List κ) (unique : keys.Nodup) (rows : List ρ)
    (listed : ∀ row ∈ rows, key row ∈ keys) :
    (keys.flatMap fun k => rows.filter fun row => key row = k).Perm rows := by
  induction keys generalizing rows with
  | nil =>
    cases rows with
    | nil => exact .refl _
    | cons row rows => exact absurd (listed row List.mem_cons_self) List.not_mem_nil
  | cons k keys ih =>
    obtain ⟨fresh, unique⟩ := List.nodup_cons.mp unique
    have rest := ih unique (rows.filter fun row => !decide (key row = k)) fun row member => by
      obtain ⟨stored, other⟩ := List.mem_filter.mp member
      rcases List.mem_cons.mp (listed row stored) with same | later
      · simp [same] at other
      · exact later
    have same : (keys.flatMap fun k' =>
        (rows.filter fun row => !decide (key row = k)).filter fun row => key row = k') =
        keys.flatMap fun k' => rows.filter fun row => key row = k' := by
      apply List.flatMap_congr
      intro k' member
      have other : k' ≠ k := fun alike => fresh (alike ▸ member)
      exact filter_group fun row _ here => by simp [here, other]
    rw [same] at rest
    rw [List.flatMap_cons]
    exact (rest.append_left _).trans (List.filter_append_perm (fun row => decide (key row = k)) rows)

theorem groups_perm (key : ρ → κ) (rows : List ρ) : ((groups key rows).flatMap Prod.snd).Perm rows := by
  rw [groups, List.flatMap_map]
  exact flatten_filters_perm key _ (List.nodup_dedup _) rows fun row member =>
    List.mem_dedup.mpr (List.mem_map_of_mem member)

theorem grouped_filter {σ : Type*} [DecidableEq σ] {key : ρ → κ} {bar : κ → List ρ → ρ} {coarse : ρ → σ} {up : κ → σ}
    (placed : ∀ k members, coarse (bar k members) = up k) (rows : List ρ) (group : σ) :
    (grouped key bar rows).filter (fun row => coarse row = group) =
      grouped key bar (rows.filter fun row => up (key row) = group) := by
  have above : ((fun row => decide (coarse row = group)) ∘ fun g : κ × List ρ => bar g.1 g.2) =
      fun g => decide (up g.1 = group) := by
    funext g
    exact congrArg (fun k => decide (k = group)) (placed g.1 g.2)
  rw [grouped, grouped, List.filter_map, above, groups_filter key fun k => decide (up k = group)]

theorem grouped_single {β : Type*} {key : ρ → κ} {k : κ} {rows : List ρ} (bar : κ → List ρ → β)
    (single : ∀ row ∈ rows, key row = k) (nonempty : rows ≠ []) : grouped key bar rows = [bar k rows] := by
  have keys : rows.map key = List.replicate rows.length k := by
    rw [List.eq_replicate_iff, List.length_map]
    exact ⟨rfl, by simpa using single⟩
  have all : rows.filter (fun row => key row = k) = rows :=
    List.filter_eq_self.mpr fun row member => decide_eq_true (single row member)
  rw [grouped, groups, keys, List.replicate_dedup (List.length_pos_iff.mpr nonempty).ne', List.map_singleton,
    List.map_singleton, all]

theorem grouped_grouped {γ : Type*} {fine coarse : ρ → κ} (up : κ → κ) {bar : κ → List ρ → ρ} {rows : List ρ}
    {see : ρ → γ} (placed : ∀ k members, coarse (bar k members) = up k) (above : ∀ row, up (fine row) = coarse row)
    (rolls : ∀ k, see (bar k (grouped fine bar (rows.filter fun row => coarse row = k))) =
      see (bar k (rows.filter fun row => coarse row = k))) (shown : γ) :
    shown ∈ (grouped coarse bar (grouped fine bar rows)).map see ↔ shown ∈ (grouped coarse bar rows).map see := by
  have parts (k : κ) : (grouped fine bar rows).filter (fun row => coarse row = k) =
      grouped fine bar (rows.filter fun row => coarse row = k) := by
    rw [grouped_filter placed]
    simp only [above]
  rw [List.mem_map, List.mem_map]
  constructor
  · intro premise
    obtain ⟨_, listed, rfl⟩ := premise
    obtain ⟨_, finer, rfl⟩ := mem_grouped.mp listed
    obtain ⟨row, stored, rfl⟩ := mem_grouped.mp finer
    rw [parts, rolls, placed, above]
    exact ⟨_, mem_grouped.mpr ⟨row, stored, rfl⟩, rfl⟩
  · intro premise
    obtain ⟨_, listed, rfl⟩ := premise
    obtain ⟨row, stored, rfl⟩ := mem_grouped.mp listed
    rw [← rolls, ← parts]
    have finer : bar (fine row) (rows.filter fun other => fine other = fine row) ∈ grouped fine bar rows :=
      mem_grouped.mpr ⟨row, stored, rfl⟩
    refine ⟨_, mem_grouped.mpr ⟨_, finer, rfl⟩, ?_⟩
    rw [placed, above]

end Kit
