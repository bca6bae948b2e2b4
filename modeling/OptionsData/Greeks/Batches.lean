import OptionsData.Greeks.BackfillJob

namespace OptionsProof.Greeks

open Kit OptionsModel OptionsModel.GreeksBackfillJob

variable {job : GreeksBackfillJob} {underlyings : UnderlyingTable} {options : OptionTable} {now : ℤ}

def awaiting (underlyings : UnderlyingTable) (now : ℤ) (row : OptionRow) : Bool :=
  row.2.greeksSource.isNone && worthExamining (retentionCutoff now) (underlyingCoverage underlyings) row

/-- The rows that a run without a cap is served, in order. -/
def served (underlyings : UnderlyingTable) (now : ℤ) (options : OptionTable) : List OptionRow :=
  orderBy sortKey (options.items.filter (awaiting underlyings now))

def updateFor (job : GreeksBackfillJob) (underlyings : UnderlyingTable) (row : OptionRow) : Option GreeksParams :=
  (job.computeForRow underlyings row).bind Prod.snd

/-- Computing the row does not raise, and the columns take what comes of it. -/
def storable (job : GreeksBackfillJob) (underlyings : UnderlyingTable) (row : OptionRow) : Bool :=
  (job.computeForRow underlyings row).any fun result => result.2.all GreeksParams.fits

def examinedRow (job : GreeksBackfillJob) (underlyings : UnderlyingTable) (key : BarKey) (row : OptionBar1m) :
    OptionBar1m :=
  (updateFor job underlyings (key, row)).elim row fun params => params.apply row

theorem sortKey_injective {key key' : BarKey} {row row' : OptionBar1m}
    (same : sortKey (key, row) = sortKey (key', row')) : key = key' := by
  have parts := Prod.mk.inj (toLex_inj.mp same)
  exact Prod.ext parts.2 parts.1

theorem sortKey_nodup {rows : List OptionRow} (unique : (rows.map Prod.fst).Nodup) :
    (rows.map sortKey).Nodup := by
  have different : rows.Pairwise fun a b => a.1 ≠ b.1 := List.pairwise_map.mp unique
  apply List.pairwise_map.mpr
  apply different.imp
  intro a b other same
  exact other (sortKey_injective same)

theorem filter_nodup (options : OptionTable) (test : OptionRow → Bool) :
    ((options.items.filter test).map Prod.fst).Nodup :=
  (options.items_nodup).sublist (List.filter_sublist.map Prod.fst)

theorem served_perm : (served underlyings now options).Perm (options.items.filter (awaiting underlyings now)) :=
  orderBy_perm _ _

theorem served_nodup : ((served underlyings now options).map Prod.fst).Nodup :=
  ((served_perm.map Prod.fst).nodup_iff).mpr (filter_nodup options _)

theorem served_strict : (served underlyings now options).Pairwise fun a b => sortKey a < sortKey b :=
  (orderBy_ordered _ _).strict (sortKey_nodup served_nodup)

theorem mem_served {key : BarKey} {row : OptionBar1m} :
    (key, row) ∈ served underlyings now options ↔
      options.lookup key = some row ∧ awaiting underlyings now (key, row) = true := by
  rw [served_perm.mem_iff, List.mem_filter, Dict.mem_items]

theorem served_length : (served underlyings now options).length ≤ options.keys.length := by
  have listed := congrArg List.length (Dict.items_keys options)
  rw [List.length_map] at listed
  rw [served_perm.length_eq, ← listed]
  exact List.length_filter_le _ _

theorem updateFor_key {row : OptionRow} {params : GreeksParams}
    (update : updateFor job underlyings row = some params) : params.key = row.1 := by
  obtain ⟨⟨outcome, written⟩, result, rfl⟩ := Option.bind_eq_some_iff.mp update
  exact (computeForRow_params result).1

def Covers (coverage : Dict String (ℤ × ℤ)) (ticker : String) (time : ℤ) : Prop :=
  ∃ range, coverage.lookup ticker = some range ∧ range.1 ≤ time ∧ time ≤ range.2

theorem foldl_covers (keys : List BarKey) (coverage : Dict String (ℤ × ℤ)) {ticker : String} {time : ℤ}
    (covered : Covers coverage ticker time ∨ (ticker, time) ∈ keys) :
    Covers (keys.foldl (fun coverage key =>
      coverage.insert key.1 ((coverage.lookup key.1).elim (key.2, key.2) fun range =>
        (min range.1 key.2, max range.2 key.2))) coverage) ticker time := by
  induction keys generalizing coverage with
  | nil => exact covered.resolve_right List.not_mem_nil
  | cons key keys ih =>
    apply ih
    rw [List.mem_cons, ← or_assoc] at covered
    refine covered.imp_left fun first => ?_
    unfold Covers
    rw [Dict.lookup_insert]
    rcases first with ⟨range, found, low, high⟩ | rfl
    · split
      · next same =>
        subst same
        rw [found]
        exact ⟨_, rfl, (min_le_left _ _).trans low, high.trans (le_max_left _ _)⟩
      · exact ⟨range, found, low, high⟩
    · rw [if_pos rfl]
      cases coverage.lookup ticker with
      | none => exact ⟨_, rfl, le_rfl, le_rfl⟩
      | some range => exact ⟨_, rfl, min_le_right _ _, le_max_right _ _⟩

/-- A stored bar lies in its ticker's coverage, so the prefilter only drops rows without an underlying bar. -/
theorem worthExamining_of_bar {cutoff : ℤ} {row : OptionRow} (stored : underlyingKey row ∈ underlyings) :
    worthExamining cutoff (underlyingCoverage underlyings) row = true := by
  obtain ⟨range, found, low, high⟩ : Covers (underlyingCoverage underlyings) row.2.underlyingTicker row.1.2 :=
    foldl_covers underlyings.keys ∅ (.inr stored)
  rw [worthExamining, Bool.or_eq_true, List.any_eq_true]
  exact .inr ⟨(row.2.underlyingTicker, range), Dict.mem_items.mpr found, by simp [low, high]⟩

theorem updateFor_bar {row : OptionRow} (absent : underlyingKey row ∉ underlyings) :
    updateFor job underlyings row = none := by
  unfold updateFor computeForRow
  rw [AList.lookup_eq_none.mpr absent]
  dsimp only
  split <;> rfl

theorem computeForRow_fetch {rows : List OptionRow} {row : OptionRow} (member : row ∈ rows) :
    job.computeForRow (fetchUnderlyings underlyings rows) row = job.computeForRow underlyings row := by
  have fetched : (fetchUnderlyings underlyings rows).lookup (underlyingKey row) =
      underlyings.lookup (underlyingKey row) := by
    have listed : underlyingKey row ∈ underlyingKeys rows :=
      List.mem_dedup.mpr (List.mem_map.mpr ⟨row, member, rfl⟩)
    rw [fetchUnderlyings, Dict.lookup_filter]
    simp [listed, Option.filter]
    cases underlyings.lookup (underlyingKey row) <;> rfl
  unfold computeForRow
  rw [fetched]

theorem mapM_isSome {α β : Type*} {f : α → Option β} {rows : List α} :
    (rows.mapM f).isSome ↔ ∀ row ∈ rows, (f row).isSome := by
  induction rows with
  | nil => simp
  | cons row rows ih =>
    rw [List.mapM_cons, List.forall_mem_cons, ← ih]
    cases f row <;> cases rows.mapM f <;> simp

theorem lookup_executeMany {rows : List OptionRow} {update : OptionRow → Option GreeksParams}
    (unique : (rows.map Prod.fst).Nodup) (own : ∀ row ∈ rows, ∀ params ∈ update row, params.key = row.1)
    (options : OptionTable) (key : BarKey) :
    (executeMany options (rows.filterMap update)).lookup key =
      (options.lookup key).map fun stored =>
        ((Dict.firstRow rows key).bind fun row => update (key, row)).elim stored fun params => params.apply stored := by
  induction rows generalizing options with
  | nil => simp [executeMany]
  | cons row rows ih =>
    rw [List.map_cons, List.nodup_cons] at unique
    have rest := ih unique.2 fun other member => own other (List.mem_cons_of_mem _ member)
    rw [Dict.firstRow_cons]
    by_cases same : key = row.1
    · subst same
      have absent : Dict.firstRow rows row.1 = none := Dict.firstRow_eq_none.mpr unique.1
      simp only [absent, Option.bind_none, Option.elim_none, Option.map_id'] at rest
      cases update' : update row with
      | none =>
        rw [List.filterMap_cons_none update', rest]
        simp [update']
      | some params =>
        have keyed := own row (by simp) params update'
        rw [List.filterMap_cons_some update', executeMany, List.foldl_cons, ← executeMany, rest, Dict.lookup_adjust]
        simp [update', keyed]
    · rw [if_neg same, Option.none_or, ← rest]
      cases update' : update row with
      | none => rw [List.filterMap_cons_none update']
      | some params =>
        have keyed := own row (by simp) params update'
        have other : (options.adjust params.key params.apply).lookup key = options.lookup key := by
          rw [Dict.lookup_adjust, keyed, if_neg same]
        rw [List.filterMap_cons_some update', executeMany, List.foldl_cons, ← executeMany, rest,
          ih unique.2 fun other member => own other (List.mem_cons_of_mem _ member), other]

/-- The loop has examined the first `p` served rows and nothing else. -/
structure Reached (job : GreeksBackfillJob) (underlyings : UnderlyingTable) (now : ℤ) (options : OptionTable)
    (p : ℕ) (s : Progress) : Prop where
  within : p ≤ (served underlyings now options).length
  processed : s.summary.rowsProcessed = p
  outcomes : s.summary.outcomes = p
  examined : s.examined = ((served underlyings now options).take p).map Prod.fst
  last : s.last = ((served underlyings now options).take p).getLast?.map sortKey
  table : ∀ key, s.table.lookup key = (options.lookup key).map fun row =>
    if key ∈ ((served underlyings now options).take p).map Prod.fst then examinedRow job underlyings key row else row

theorem Reached.start : Reached job underlyings now options 0 { table := options } where
  within := Nat.zero_le _
  processed := rfl
  outcomes := rfl
  examined := rfl
  last := rfl
  table key := by simp

theorem sortKey_le_last {rows : List OptionRow} {last : OptionRow}
    (strict : rows.Pairwise fun a b => sortKey a < sortKey b) (ends : rows.getLast? = some last)
    {row : OptionRow} (member : row ∈ rows) : sortKey row ≤ sortKey last := by
  obtain ⟨front, rfl⟩ := List.getLast?_eq_some_iff.mp ends
  rcases List.mem_append.mp member with before | here
  · exact ((List.pairwise_append.mp strict).2.2 row before last (by simp)).le
  · exact (List.mem_singleton.mp here ▸ le_rfl)

/-- Which rows the cursor admits once the first `p` are examined: the rest, whatever those rows became. -/
theorem Reached.pending {p : ℕ} {s : Progress} (reached : Reached job underlyings now options p s)
    {key : BarKey} {row : OptionBar1m} :
    (s.table.lookup key = some row ∧ awaiting underlyings now (key, row) = true ∧
        (s.last.all fun last => last < sortKey (key, row)) = true) ↔
      (key, row) ∈ (served underlyings now options).drop p := by
  have strict : (served underlyings now options).Pairwise fun a b => sortKey a < sortKey b := served_strict
  have unique : ((served underlyings now options).map Prod.fst).Nodup := served_nodup
  have split := List.take_append_drop p (served underlyings now options)
  rw [← split] at strict unique
  rw [List.map_append, List.nodup_append] at unique
  obtain ⟨front, -, across⟩ := List.pairwise_append.mp strict
  rw [reached.last, reached.table]
  constructor
  · intro premise
    rcases premise with ⟨stored, waiting, after⟩
    have later : key ∉ ((served underlyings now options).take p).map Prod.fst := by
      intro earlier
      obtain ⟨⟨_, old⟩, member, rfl⟩ := List.mem_map.mp earlier
      have ends := List.getLast?_eq_some_getLast (List.ne_nil_of_mem member)
      have beyond := sortKey_le_last front ends member
      rw [ends] at after
      exact absurd (of_decide_eq_true after) (not_lt.mpr beyond)
    simp only [later, if_false, Option.map_id'] at stored
    have listed := mem_served.mpr ⟨stored, waiting⟩
    rw [← split] at listed
    rcases List.mem_append.mp listed with before | rest
    · exact absurd (List.mem_map.mpr ⟨_, before, rfl⟩) later
    · exact rest
  · intro rest
    have listed : (key, row) ∈ served underlyings now options := List.mem_of_mem_drop rest
    obtain ⟨stored, waiting⟩ := mem_served.mp listed
    have later : key ∉ ((served underlyings now options).take p).map Prod.fst := fun earlier =>
      unique.2.2 key earlier key (List.mem_map.mpr ⟨_, rest, rfl⟩) rfl
    refine ⟨by rw [stored, Option.map_some, if_neg later], waiting, ?_⟩
    cases ends : ((served underlyings now options).take p).getLast? with
    | none => rfl
    | some last => exact decide_eq_true (across last (List.mem_of_getLast? ends) (key, row) rest)

theorem Reached.query {p : ℕ} {s : Progress} (reached : Reached job underlyings now options p s) (limit : ℕ) :
    buildBatchQuery limit s.last (retentionCutoff now) (underlyingCoverage underlyings) s.table =
      ((served underlyings now options).drop p).take limit := by
  have unique := filter_nodup s.table fun row => row.2.greeksSource.isNone &&
    worthExamining (retentionCutoff now) (underlyingCoverage underlyings) row &&
      s.last.all fun last => last < sortKey row
  have rest : (((served underlyings now options).drop p).map Prod.fst).Nodup :=
    served_nodup.sublist ((List.drop_sublist p _).map Prod.fst)
  unfold buildBatchQuery
  congr 1
  apply orderBy_eq
  · exact (served_strict.sublist (List.drop_sublist p _)).imp fun less => less.le
  · apply (List.perm_ext_iff_of_nodup (List.Nodup.of_map _ unique) (List.Nodup.of_map _ rest)).mpr
    intro row
    rcases row with ⟨key, row⟩
    rw [← reached.pending, List.mem_filter, Dict.mem_items, Bool.and_eq_true]
    rfl
  · exact sortKey_nodup unique

def batchLimit (job : GreeksBackfillJob) (maxRows : Option ℕ) (p : ℕ) : ℕ :=
  maxRows.elim job.batchSize fun maxRows => min job.batchSize (maxRows - p)

def nextBatch (job : GreeksBackfillJob) (underlyings : UnderlyingTable) (now : ℤ) (options : OptionTable)
    (maxRows : Option ℕ) (p : ℕ) : List OptionRow :=
  ((served underlyings now options).drop p).take (batchLimit job maxRows p)

def BatchFits (job : GreeksBackfillJob) (underlyings : UnderlyingTable) (rows : List OptionRow) : Prop :=
  fetchArguments rows ≤ MAX_STATEMENT_ARGUMENTS ∧ ∀ row ∈ rows, storable job underlyings row = true

theorem storable_iff_fits {rows : List OptionRow} {results : List (Outcome × Option GreeksParams)}
    (computed : rows.map (job.computeForRow underlyings) = results.map some) :
    (∀ row ∈ rows, storable job underlyings row = true) ↔
      (results.filterMap Prod.snd).all GreeksParams.fits = true := by
  have each : (∀ row ∈ rows, storable job underlyings row = true) ↔
      ∀ result ∈ rows.map (job.computeForRow underlyings),
        (result.any fun result => result.2.all GreeksParams.fits) = true := by
    rw [List.forall_mem_map]
    rfl
  rw [each, computed, List.forall_mem_map, List.all_eq_true]
  constructor
  · intro fit params written
    obtain ⟨result, member, shown⟩ := List.mem_filterMap.mp written
    have taken := fit result member
    rwa [Option.any_some, shown, Option.all_some] at taken
  · intro fit result member
    rw [Option.any_some, Option.all_eq_true]
    exact fun params shown => fit params (List.mem_filterMap.mpr ⟨result, member, shown⟩)

theorem isSome_of_storable {row : OptionRow} (taken : storable job underlyings row = true) :
    (job.computeForRow underlyings row).isSome := by
  obtain ⟨result, computed, -⟩ := (Option.any_eq_true _ _).mp taken
  rw [computed, Option.isSome_some]

theorem take_next (rows : List OptionRow) (p limit : ℕ) :
    rows.take (p + ((rows.drop p).take limit).length) = rows.take p ++ (rows.drop p).take limit := by
  have short : (rows.drop p).take (min limit (rows.drop p).length) = (rows.drop p).take limit :=
    List.take_eq_take_iff.mpr (by rw [min_assoc, min_self])
  rw [List.take_add, List.length_take, short]

theorem Reached.extend {p : ℕ} {s : Progress} {maxRows : Option ℕ} {last : OptionRow}
    {results : List (Outcome × Option GreeksParams)} (reached : Reached job underlyings now options p s)
    (ends : (nextBatch job underlyings now options maxRows p).getLast? = some last)
    (computed : (nextBatch job underlyings now options maxRows p).map (job.computeForRow underlyings) =
      results.map some) {table : OptionTable}
    (updated : bulkUpdate s.table (results.filterMap Prod.snd) = some table) (summary : Summary)
    (processed : summary.rowsProcessed = p + (nextBatch job underlyings now options maxRows p).length)
    (counted : summary.outcomes = ((results.map Prod.fst).foldl Summary.count s.summary).outcomes) :
    Reached job underlyings now options (p + (nextBatch job underlyings now options maxRows p).length)
      { table := table
        summary := summary
        last := some (sortKey last)
        examined := s.examined ++ (nextBatch job underlyings now options maxRows p).map Prod.fst } := by
  have joined : (served underlyings now options).take (p + (nextBatch job underlyings now options maxRows p).length) =
      (served underlyings now options).take p ++ nextBatch job underlyings now options maxRows p := take_next _ _ _
  have listed : (nextBatch job underlyings now options maxRows p).Sublist (served underlyings now options) :=
    (List.take_sublist _ _).trans (List.drop_sublist _ _)
  generalize nextBatch job underlyings now options maxRows p = rows at *
  have unique : (rows.map Prod.fst).Nodup := served_nodup.sublist (listed.map Prod.fst)
  have lengths : results.length = rows.length := by
    have same := congrArg List.length computed
    simpa using same.symm
  have written : results.filterMap Prod.snd = rows.filterMap (updateFor job underlyings) := by
    have bound := congrArg (List.filterMap fun result => result.bind Prod.snd) computed
    rw [List.filterMap_map, List.filterMap_map] at bound
    exact bound.symm
  refine ⟨?_, processed, ?_, ?_, ?_, ?_⟩
  · have long := congrArg List.length joined
    have within := reached.within
    rw [List.length_take, List.length_append, List.length_take] at long
    omega
  · rw [counted, Summary.outcomes_counts, reached.outcomes, List.length_map, lengths]
  · show s.examined ++ rows.map Prod.fst = _
    rw [joined, List.map_append, reached.examined]
  · show some (sortKey last) = _
    rw [joined, List.getLast?_append, ends]
    rfl
  · intro key
    show table.lookup key = _
    obtain ⟨-, rfl⟩ := bulkUpdate_eq_some.mp updated
    rw [written, lookup_executeMany unique fun row _ params update => updateFor_key update]
    rw [reached.table, Option.map_map, joined, List.map_append]
    cases stored : options.lookup key with
    | none => rfl
    | some row =>
      simp only [Option.map_some, Function.comp_apply, Option.some_inj, List.mem_append]
      cases found : Dict.firstRow rows key with
      | none =>
        have outside := Dict.firstRow_eq_none.mp found
        simp only [Option.bind_none, Option.elim_none, or_iff_left outside]
      | some hit =>
        have member := Dict.mem_of_firstRow found
        have inside : key ∈ rows.map Prod.fst := List.mem_map.mpr ⟨_, member, rfl⟩
        have fresh : key ∉ ((served underlyings now options).take p).map Prod.fst := by
          have apart : (((served underlyings now options).take (p + rows.length)).map Prod.fst).Nodup :=
            served_nodup.sublist ((List.take_sublist _ _).map Prod.fst)
          rw [joined, List.map_append, List.nodup_append] at apart
          exact fun earlier => apart.2.2 key earlier key inside rfl
        have same := (mem_served.mp (listed.subset member)).1
        rw [stored, Option.some_inj] at same
        subst same
        rw [if_neg fresh, if_pos (.inr inside)]
        rfl

inductive Round (job : GreeksBackfillJob) (underlyings : UnderlyingTable) (now : ℤ) (options : OptionTable)
    (maxRows : Option ℕ) (p : ℕ) (s : Progress) : Iteration → Prop where
  | stops (nothing : nextBatch job underlyings now options maxRows p = [])
      (asked : maxRows = none →
        batchQueryArguments (underlyingCoverage underlyings) s.last ≤ MAX_STATEMENT_ARGUMENTS) :
      Round job underlyings now options maxRows p s .stops
  | raises (blocked : ¬ (batchQueryArguments (underlyingCoverage underlyings) s.last ≤ MAX_STATEMENT_ARGUMENTS ∧
        BatchFits job underlyings (nextBatch job underlyings now options maxRows p))) :
      Round job underlyings now options maxRows p s .raises
  | goesOn (t : Progress) (more : nextBatch job underlyings now options maxRows p ≠ [])
      (asked : batchQueryArguments (underlyingCoverage underlyings) s.last ≤ MAX_STATEMENT_ARGUMENTS)
      (fits : BatchFits job underlyings (nextBatch job underlyings now options maxRows p))
      (reached : Reached job underlyings now options
        (p + (nextBatch job underlyings now options maxRows p).length) t) :
      Round job underlyings now options maxRows p s (.goesOn t)

theorem Reached.round {p : ℕ} {s : Progress} (reached : Reached job underlyings now options p s)
    (maxRows : Option ℕ) :
    Round job underlyings now options maxRows p s
      (job.iteration underlyings (retentionCutoff now) (underlyingCoverage underlyings) maxRows s) := by
  unfold iteration
  rw [reached.processed]
  split
  · next capped =>
    cases maxRows with
    | none => cases capped
    | some maxRows =>
      have full : maxRows - p = 0 := Nat.sub_eq_zero_of_le (by simpa using capped)
      exact .stops (by simp [nextBatch, batchLimit, full]) nofun
  · dsimp only
    rw [← batchLimit]
    split
    · next empty => exact .stops (by rw [nextBatch, empty.2, List.take_zero]) fun free => by simp [free] at empty
    · split
      · next tooMany => exact .raises fun all => absurd all.1 (not_le.mpr tooMany)
      · next asked =>
        rw [reached.query, ← nextBatch]
        have allowed := not_lt.mp asked
        split
        · next nothing => exact .stops (List.getLast?_eq_none_iff.mp nothing) fun _ => allowed
        · next last ends =>
          split
          · next tooMany => exact .raises fun all => absurd all.2.1 (not_le.mpr tooMany)
          · next fetched =>
            have same (row : OptionRow) (member : row ∈ nextBatch job underlyings now options maxRows p) :
                job.computeForRow (fetchUnderlyings underlyings
                  (nextBatch job underlyings now options maxRows p)) row = job.computeForRow underlyings row :=
              computeForRow_fetch member
            split
            · next raised =>
              apply Round.raises
              intro all
              have each := mapM_isSome.mpr fun row member =>
                (same row member).symm ▸ isSome_of_storable (all.2.2 row member)
              rw [raised] at each
              cases each
            · next results computed =>
              rw [mapM_some_iff, List.map_congr_left same] at computed
              have each := storable_iff_fits computed
              split
              · next overflows =>
                apply Round.raises
                intro all
                rw [bulkUpdate, if_pos (each.mp all.2.2)] at overflows
                cases overflows
              · next table updated =>
                have fit := (bulkUpdate_eq_some.mp updated).1
                refine .goesOn _ (by rintro nothing; rw [nothing] at ends; cases ends) allowed
                  ⟨not_lt.mp fetched, each.mpr fit⟩ (reached.extend ends computed updated _ ?_ ?_)
                · simp [reached.processed]
                · rfl

end OptionsProof.Greeks
