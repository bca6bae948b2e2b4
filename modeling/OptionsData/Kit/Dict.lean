import Mathlib

namespace Kit

/-- A finite map with one value for each key: a dictionary of the program, or a table under a primary key. -/
abbrev Dict (κ ν : Type*) := AList fun _ : κ => ν

namespace Dict

variable {κ ν : Type*} [DecidableEq κ]

def items (d : Dict κ ν) : List (κ × ν) := d.entries.map fun entry => (entry.1, entry.2)

def filter (test : κ → ν → Bool) (d : Dict κ ν) : Dict κ ν :=
  ⟨d.entries.filter fun entry => test entry.1 entry.2,
    (List.filter_sublist.map Sigma.fst).nodup d.nodupKeys⟩

theorem mem_items {d : Dict κ ν} {k : κ} {v : ν} : (k, v) ∈ d.items ↔ d.lookup k = some v := by
  rw [← Option.mem_def, AList.mem_lookup_iff, items, List.mem_map]
  constructor
  · intro premise
    rcases premise with ⟨⟨key, value⟩, member, same⟩
    cases same
    exact member
  · intro member
    exact ⟨⟨k, v⟩, member, rfl⟩

omit [DecidableEq κ] in
theorem items_keys (d : Dict κ ν) : d.items.map Prod.fst = d.keys := by
  simp [items, AList.keys, List.keys, List.map_map, Function.comp_def]

omit [DecidableEq κ] in
theorem items_nodup (d : Dict κ ν) : (d.items.map Prod.fst).Nodup := by
  rw [items_keys]
  exact d.keys_nodup

theorem items_filter_key {d : Dict κ ν} {k : κ} {v : ν} (found : d.lookup k = some v) :
    (d.items.filter fun item => item.1 = k) = [(k, v)] := by
  have unique : (d.items.filter fun item => item.1 = k).Nodup :=
    (List.Nodup.of_map _ (items_nodup d)).filter _
  refine List.perm_singleton.mp ((List.perm_ext_iff_of_nodup unique (List.nodup_singleton _)).mpr ?_)
  intro premise
  rcases premise with ⟨key, value⟩
  simp only [List.mem_filter, mem_items, decide_eq_true_eq, List.mem_singleton, Prod.mk.injEq]
  constructor
  · intro premise
    rcases premise with ⟨held, rfl⟩
    rw [found] at held
    exact ⟨rfl, (Option.some.inj held).symm⟩
  · intro premise
    rcases premise with ⟨rfl, rfl⟩
    exact ⟨found, rfl⟩

theorem lookup_filter (test : κ → ν → Bool) (d : Dict κ ν) (k : κ) :
    (filter test d).lookup k = (d.lookup k).filter (test k) := by
  apply Option.ext
  intro v
  show v ∈ (filter test d).lookup k ↔ _
  rw [AList.mem_lookup_iff, filter, List.mem_filter, ← AList.mem_lookup_iff]
  simp [Option.filter_eq_some_iff]

theorem lookup_insert (d : Dict κ ν) (k k' : κ) (v : ν) :
    AList.lookup k' (d.insert k v) = if k' = k then some v else d.lookup k' := by
  split
  · next same =>
    subst same
    exact AList.lookup_insert d
  · next other => exact AList.lookup_insert_ne other

theorem lookup_erase (d : Dict κ ν) (k k' : κ) :
    AList.lookup k' (d.erase k) = if k' = k then none else d.lookup k' := by
  split
  · next same =>
    subst same
    exact AList.lookup_erase k' d
  · next other => exact AList.lookup_erase_ne other

theorem mem_iff (d : Dict κ ν) (k : κ) : k ∈ d ↔ ∃ v, d.lookup k = some v := by
  rw [← AList.lookup_isSome, Option.isSome_iff_exists]

theorem mem_insert (d : Dict κ ν) (k k' : κ) (v : ν) : k' ∈ (d.insert k v : Dict κ ν) ↔ k' = k ∨ k' ∈ d :=
  AList.mem_insert d

theorem keys_insert_new {d : Dict κ ν} {k : κ} (absent : k ∉ d) (v : ν) :
    AList.keys (d.insert k v) = k :: d.keys := by
  rw [AList.keys, AList.entries_insert_of_notMem absent]
  rfl

def insertNew (d : Dict κ ν) (k : κ) (v : ν) : Dict κ ν :=
  if k ∈ d then d else d.insert k v

theorem lookup_insertNew (d : Dict κ ν) (k k' : κ) (v : ν) :
    (insertNew d k v).lookup k' = (d.lookup k').or (if k' = k then some v else none) := by
  unfold insertNew
  split
  · next present =>
    obtain ⟨stored, found⟩ := (mem_iff d k).mp present
    split
    · next same =>
      subst same
      simp [found]
    · simp
  · next absent =>
    rw [lookup_insert]
    split
    · next same =>
      subst same
      simp [AList.lookup_eq_none.mpr absent]
    · simp

def insertAll (d : Dict κ ν) (rows : List (κ × ν)) : Dict κ ν :=
  rows.foldl (fun table row => table.insertNew row.1 row.2) d

@[simp] theorem insertAll_nil (d : Dict κ ν) : insertAll d [] = d := rfl

theorem insertAll_cons (d : Dict κ ν) (row : κ × ν) (rows : List (κ × ν)) :
    insertAll d (row :: rows) = insertAll (insertNew d row.1 row.2) rows := rfl

def firstRow (rows : List (κ × ν)) (k : κ) : Option ν :=
  (rows.find? fun row => row.1 = k).map Prod.snd

@[simp] theorem firstRow_nil (k : κ) : firstRow ([] : List (κ × ν)) k = none := rfl

theorem firstRow_cons (row : κ × ν) (rows : List (κ × ν)) (k : κ) :
    firstRow (row :: rows) k = (if k = row.1 then some row.2 else none).or (firstRow rows k) := by
  by_cases same : row.1 = k
  · simp [firstRow, same]
  · simp [firstRow, same, Ne.symm same]

theorem firstRow_append (rows later : List (κ × ν)) (k : κ) :
    firstRow (rows ++ later) k = (firstRow rows k).or (firstRow later k) := by
  rw [firstRow, List.find?_append, Option.map_or]
  rfl

theorem lookup_insertAll (d : Dict κ ν) (rows : List (κ × ν)) (k : κ) :
    (insertAll d rows).lookup k = (d.lookup k).or (firstRow rows k) := by
  induction rows generalizing d with
  | nil => simp [firstRow]
  | cons row rows ih => rw [insertAll_cons, ih, lookup_insertNew, firstRow_cons, Option.or_assoc]

theorem firstRow_eq_none {rows : List (κ × ν)} {k : κ} : firstRow rows k = none ↔ k ∉ rows.map Prod.fst := by
  simp only [firstRow, Option.map_eq_none_iff, List.find?_eq_none, decide_eq_true_eq, List.mem_map]
  constructor
  · rintro absent ⟨row, member, same⟩
    exact absent row member same
  · intro absent row member same
    exact absent ⟨row, member, same⟩

theorem firstRow_of_nodup {rows : List (κ × ν)} (unique : (rows.map Prod.fst).Nodup) {k : κ} {v : ν}
    (member : (k, v) ∈ rows) : firstRow rows k = some v := by
  induction rows with
  | nil => cases member
  | cons row rows ih =>
    rw [firstRow_cons]
    rw [List.map_cons, List.nodup_cons] at unique
    rcases List.mem_cons.mp member with rfl | later
    · simp
    · have other : k ≠ row.1 := by
        intro same
        subst same
        exact unique.1 (List.mem_map.mpr ⟨_, later, rfl⟩)
      simp [other, ih unique.2 later]

theorem mem_of_firstRow {rows : List (κ × ν)} {k : κ} {v : ν} (found : firstRow rows k = some v) :
    (k, v) ∈ rows := by
  obtain ⟨⟨key, value⟩, hit, rfl⟩ := Option.map_eq_some_iff.mp found
  have same := List.find?_some hit
  simp only [decide_eq_true_eq] at same
  subst same
  exact List.mem_of_find?_eq_some hit

theorem mem_insertAll (d : Dict κ ν) (rows : List (κ × ν)) (k : κ) :
    k ∈ insertAll d rows ↔ k ∈ d ∨ k ∈ rows.map Prod.fst := by
  rw [← AList.lookup_isSome, lookup_insertAll, Option.isSome_or, Bool.or_eq_true, AList.lookup_isSome]
  apply or_congr_right
  rw [← not_iff_not, ← firstRow_eq_none]
  simp

theorem insertAll_filter {base d : Dict κ ν} (grown : ∀ k, k ∈ base → k ∈ d) (rows : List (κ × ν)) :
    insertAll d (rows.filter fun row => row.1 ∉ base) = insertAll d rows := by
  induction rows generalizing d with
  | nil => rfl
  | cons row rows ih =>
    by_cases present : row.1 ∈ base
    · have skipped : insertNew d row.1 row.2 = d := if_pos (grown _ present)
      rw [List.filter_cons_of_neg (by simpa using present), insertAll_cons, skipped, ih grown]
    · have grown' : ∀ k, k ∈ base → k ∈ insertNew d row.1 row.2 := by
        intro k held
        unfold insertNew
        split
        · exact grown k held
        · exact (mem_insert d row.1 k row.2).mpr (.inr (grown k held))
      rw [List.filter_cons_of_pos (by simpa using present), insertAll_cons, insertAll_cons, ih grown']

/-- A later pair replaces an earlier one with the same key, as in a dictionary display. -/
def assign (d : Dict κ ν) (pairs : List (κ × ν)) : Dict κ ν :=
  pairs.foldl (fun d pair => d.insert pair.1 pair.2) d

theorem firstRow_iff {rows : List (κ × ν)} (unique : (rows.map Prod.fst).Nodup) {k : κ} {v : ν} :
    firstRow rows k = some v ↔ (k, v) ∈ rows :=
  ⟨mem_of_firstRow, firstRow_of_nodup unique⟩

theorem firstRow_items (d : Dict κ ν) (k : κ) : firstRow d.items k = d.lookup k := by
  apply Option.ext
  intro v
  rw [firstRow_iff (items_nodup d), mem_items]

theorem firstRow_select {β : Type*} (d : Dict κ ν) (test : κ × ν → Bool) (value : κ × ν → β) (k : κ) :
    firstRow ((d.items.filter test).map fun row => (row.1, value row)) k =
      ((d.lookup k).filter fun v => test (k, v)).map fun v => value (k, v) := by
  have unique : (((d.items.filter test).map fun row => (row.1, value row)).map Prod.fst).Nodup := by
    rw [List.map_map]
    exact d.items_nodup.sublist (List.filter_sublist.map Prod.fst)
  apply Option.ext
  intro b
  rw [firstRow_iff unique, List.mem_map, Option.map_eq_some_iff]
  constructor
  · intro premise
    obtain ⟨⟨k', v⟩, listed, same⟩ := premise
    obtain ⟨member, passes⟩ := List.mem_filter.mp listed
    cases same
    exact ⟨v, Option.filter_eq_some_iff.mpr ⟨mem_items.mp member, passes⟩, rfl⟩
  · intro premise
    obtain ⟨v, held, rfl⟩ := premise
    obtain ⟨found, passes⟩ := Option.filter_eq_some_iff.mp held
    exact ⟨(k, v), List.mem_filter.mpr ⟨mem_items.mpr found, passes⟩, rfl⟩

theorem lookup_assign (d : Dict κ ν) {pairs : List (κ × ν)} (unique : (pairs.map Prod.fst).Nodup) (k : κ) :
    (assign d pairs).lookup k = (firstRow pairs k).or (d.lookup k) := by
  induction pairs generalizing d with
  | nil => rfl
  | cons pair pairs ih =>
    rw [List.map_cons, List.nodup_cons] at unique
    rw [assign, List.foldl_cons, ← assign, ih _ unique.2, lookup_insert, firstRow_cons]
    by_cases same : k = pair.1
    · subst same
      simp [firstRow_eq_none.mpr unique.1]
    · simp [same]

theorem assign_cons (d : Dict κ ν) (pair : κ × ν) (pairs : List (κ × ν)) :
    assign d (pair :: pairs) = assign (d.insert pair.1 pair.2) pairs := rfl

theorem mem_assign (d : Dict κ ν) (pairs : List (κ × ν)) (k : κ) :
    k ∈ assign d pairs ↔ k ∈ d ∨ k ∈ pairs.map Prod.fst := by
  induction pairs generalizing d with
  | nil => simp [assign]
  | cons pair pairs ih =>
    rw [assign_cons, ih, mem_insert, List.map_cons, List.mem_cons]
    tauto

theorem of_lookup_assign {d : Dict κ ν} {pairs : List (κ × ν)} {k : κ} {v : ν}
    (found : (assign d pairs).lookup k = some v) :
    (k, v) ∈ pairs ∨ k ∉ pairs.map Prod.fst ∧ d.lookup k = some v := by
  induction pairs generalizing d with
  | nil => exact Or.inr ⟨List.not_mem_nil, found⟩
  | cons pair pairs ih =>
    rcases ih found with later | ⟨absent, here⟩
    · exact Or.inl (List.mem_cons_of_mem _ later)
    · rw [lookup_insert] at here
      split at here
      · next same =>
        obtain rfl := Option.some.inj here
        exact Or.inl (same ▸ List.mem_cons_self)
      · next other =>
        refine Or.inr ⟨fun listed => ?_, here⟩
        rcases List.mem_cons.mp listed with same | later
        · exact other same
        · exact absent later

def merge (d : Dict κ ν) (parts : List (Dict κ ν)) : Dict κ ν :=
  parts.foldl (fun d part => assign d part.items) d

theorem mem_merge (d : Dict κ ν) (parts : List (Dict κ ν)) (k : κ) :
    k ∈ merge d parts ↔ k ∈ d ∨ ∃ part ∈ parts, k ∈ part := by
  induction parts generalizing d with
  | nil => simp [merge]
  | cons part parts ih =>
    have here : k ∈ assign d part.items ↔ k ∈ d ∨ k ∈ part := by
      rw [mem_assign, items_keys]
      exact Iff.rfl
    rw [merge, List.foldl_cons, ← merge, ih, here, or_assoc, List.exists_mem_cons_iff]

theorem of_lookup_merge {d : Dict κ ν} {parts : List (Dict κ ν)} {k : κ} {v : ν}
    (found : (merge d parts).lookup k = some v) : d.lookup k = some v ∨ ∃ part ∈ parts, part.lookup k = some v := by
  induction parts generalizing d with
  | nil => exact Or.inl found
  | cons part parts ih =>
    rcases ih found with here | ⟨later, member, held⟩
    · rcases of_lookup_assign here with given | ⟨-, before⟩
      · exact Or.inr ⟨part, List.mem_cons_self, mem_items.mp given⟩
      · exact Or.inl before
    · exact Or.inr ⟨later, List.mem_cons_of_mem _ member, held⟩

def mapRows (change : ν → ν) (d : Dict κ ν) : Dict κ ν :=
  ⟨d.entries.map fun entry => ⟨entry.1, change entry.2⟩, by
    have keys := d.nodupKeys
    rw [List.NodupKeys, List.keys] at keys ⊢
    rwa [List.map_map]⟩

theorem lookup_mapRows (change : ν → ν) (d : Dict κ ν) (k : κ) :
    (d.mapRows change).lookup k = (d.lookup k).map change := by
  apply Option.ext
  intro v
  rw [← mem_items, Option.map_eq_some_iff]
  simp only [← mem_items, items, mapRows, List.map_map, List.mem_map, Function.comp_apply, Prod.mk.injEq]
  constructor
  · intro premise
    rcases premise with ⟨entry, member, rfl, rfl⟩
    exact ⟨entry.2, ⟨entry, member, rfl, rfl⟩, rfl⟩
  · intro premise
    rcases premise with ⟨w, ⟨entry, member, rfl, rfl⟩, rfl⟩
    exact ⟨entry, member, rfl, rfl⟩

def adjust (d : Dict κ ν) (k : κ) (change : ν → ν) : Dict κ ν :=
  (d.lookup k).elim d fun v => d.insert k (change v)

theorem lookup_adjust (d : Dict κ ν) (k k' : κ) (change : ν → ν) :
    (d.adjust k change).lookup k' = if k' = k then (d.lookup k').map change else d.lookup k' := by
  unfold adjust
  cases found : d.lookup k with
  | none =>
    split
    · next same =>
      subst same
      simp [found]
    · rfl
  | some v =>
    rw [Option.elim_some, lookup_insert]
    split
    · next same =>
      subst same
      simp [found]
    · rfl

end Dict

end Kit
