import OptionsData.Api.Routes

namespace OptionsProof.Pages

open Kit OptionsModel

def items {ρ : Type} : Except HttpError (PageResponse ρ) → Option (List ρ)
  | .ok response => some response.items
  | .error _ => none

/-- A client that asks for offsets 0, limit, 2·limit, … until a page is short gets each matching row once, whichever
order the database chooses for each request. -/
def Complete {ρ κ : Type} [LinearOrder κ]
    (answer : (Query ρ κ → List ρ) → ℕ → Except HttpError (PageResponse ρ)) (key : ρ → κ) (limit : ℕ)
    (matching : List ρ) : Prop :=
  ∀ arranged : ℕ → List ρ, (∀ k, Arranges key matching (arranged k)) → ∃ fuel all,
    collect (fun k => items (answer (fun _ => arranged k) (k * limit))) limit fuel 0 = some all ∧ all.Perm matching

theorem complete_iff {ρ κ : Type} [LinearOrder κ]
    {answer : (Query ρ κ → List ρ) → ℕ → Except HttpError (PageResponse ρ)} {key : ρ → κ} {limit : ℕ}
    {matching : List ρ} {accepted : Prop} (positive : accepted → 0 < limit) (distinct : matching.Nodup)
    (answers : accepted → ∀ arranged offset,
      items (answer (fun _ => arranged) offset) = some (page arranged offset limit))
    (refuses : ¬ accepted → ∀ arranged offset, items (answer (fun _ => arranged) offset) = none) :
    Complete answer key limit matching ↔ accepted ∧ ∀ j, ¬ TiedAt key matching (j * limit) := by
  have pages (ok : accepted) (arranged : ℕ → List ρ) :
      (fun k => items (answer (fun _ => arranged k) (k * limit))) =
        fun k => some (page (arranged k) (k * limit) limit) :=
    funext fun k => answers ok (arranged k) (k * limit)
  constructor
  · intro complete
    have ok : accepted := by
      by_contra refused
      obtain ⟨fuel, all, collected, -⟩ :=
        complete (fun _ => orderBy key matching) fun _ => ⟨orderBy_perm key matching, orderBy_ordered key matching⟩
      cases fuel with
      | zero => cases collected
      | succ fuel =>
        obtain ⟨rows, answered, -⟩ := Option.bind_eq_some_iff.mp collected
        cases (refuses refused _ _).symm.trans answered
    refine ⟨ok, (collect_complete_iff (positive ok) distinct).mp fun arranged arranges => ?_⟩
    have collected := complete arranged arranges
    rw [pages ok] at collected
    exact collected
  · intro premise arranged arranges
    rcases premise with ⟨ok, free⟩
    rw [pages ok]
    exact (collect_complete_iff (positive ok) distinct).mpr free arranged arranges

theorem bucketInterval_isSome {agg : String} (valid : agg ∈ AGG_PERIODS) (coarse : agg ≠ "1m") :
    ∃ interval, bucketInterval agg = some interval := by
  simp only [AGG_PERIODS, List.mem_cons, List.not_mem_nil, or_false] at valid
  rcases valid with rfl | rfl | rfl | rfl | rfl | rfl | rfl
  · exact absurd rfl coarse
  all_goals exact ⟨_, rfl⟩

theorem limitOk_pos {limit : ℕ} (bounded : limitOk limit = true) : 0 < limit := by
  simp only [limitOk, Bool.and_eq_true, decide_eq_true_eq] at bounded
  exact bounded.1

theorem items_checked {ρ : Type} (limit : ℕ) (agg : String) (start end_ : ℤ)
    (answer : Except HttpError (PageResponse ρ)) :
    items (if !limitOk limit then .error (.unprocessable "limit")
      else if agg ∉ AGG_PERIODS then .error (.badRequest (invalidAgg agg))
      else if end_ < start then .error (.badRequest "start must be <= end")
      else answer) =
      if limitOk limit = true ∧ agg ∈ AGG_PERIODS ∧ start ≤ end_ then items answer else none := by
  by_cases bounded : limitOk limit = true
  · by_cases valid : agg ∈ AGG_PERIODS
    · by_cases forward : start ≤ end_
      · simp [bounded, valid, forward, not_lt.mpr forward]
      · simp [bounded, valid, forward, not_le.mp forward, items]
    · simp [bounded, valid, items]
  · simp [bounded, items]

section OptionBars

variable (timeBucket : String → ℤ → ℤ) (table : OptionTable) (request : OptionBarsRequest)

def optionBarsAccepted : Prop :=
  limitOk request.limit = true ∧ request.agg ∈ AGG_PERIODS ∧ request.start ≤ request.end_

def matchingOptionBars : List OptionRow :=
  (buildOptionBarsQuery timeBucket request table).elim [] Query.rows

def groupOf (row : OptionRow) : OptionGroup :=
  ⟨row.1.2, row.1.1, row.2.underlyingTicker, row.2.expirationDate, row.2.strike, row.2.right⟩

theorem optionBars_nodup (interval : String) (rows : List OptionRow) :
    (optionBars timeBucket interval rows).Nodup := by
  apply List.Nodup.of_map groupOf
  have same : (optionBars timeBucket interval rows).map groupOf =
      (groups (optionGroup timeBucket interval) rows).map Prod.fst := by
    rw [optionBars, grouped, List.map_map]
    rfl
  rw [same]
  exact groups_nodup _ _

theorem matchingOptionBars_nodup : (matchingOptionBars timeBucket table request).Nodup := by
  have stored : (table.items.filter request.conditions).Nodup :=
    (List.Nodup.of_map Prod.fst table.items_nodup).filter _
  unfold matchingOptionBars buildOptionBarsQuery
  dsimp only
  split
  · exact stored
  · cases bucketInterval request.agg with
    | none => exact List.nodup_nil
    | some interval => exact optionBars_nodup timeBucket interval _

theorem buildOptionBarsQuery_valid (valid : request.agg ∈ AGG_PERIODS) :
    buildOptionBarsQuery timeBucket request table =
      some ⟨matchingOptionBars timeBucket table request, barTime, request.limit, request.offset⟩ := by
  unfold matchingOptionBars buildOptionBarsQuery
  dsimp only
  split
  · rfl
  · next coarse =>
    obtain ⟨interval, known⟩ := bucketInterval_isSome valid coarse
    rw [known]
    rfl

/-- GET /options/bars pages completely exactly if it accepts the request and no page ends between two matching bars
of one time. -/
theorem optionBars_complete_iff :
    Complete (fun choose offset => getOptionBars timeBucket choose table { request with offset := offset }) barTime
        request.limit (matchingOptionBars timeBucket table request) ↔
      optionBarsAccepted request ∧
        ∀ j, ¬ TiedAt barTime (matchingOptionBars timeBucket table request) (j * request.limit) := by
  apply complete_iff (fun accepted => limitOk_pos accepted.1) (matchingOptionBars_nodup timeBucket table request)
  · intro accepted arranged offset
    have built := buildOptionBarsQuery_valid timeBucket table { request with offset := offset } accepted.2.1
    rw [getOptionBars, items_checked, built]
    exact if_pos accepted
  · intro refused arranged offset
    rw [getOptionBars, items_checked]
    exact if_neg refused

end OptionBars

section UnderlyingBars

variable (timeBucket : String → ℤ → ℤ) (table : UnderlyingTable) (request : UnderlyingBarsRequest)

def underlyingBarsAccepted : Prop :=
  limitOk request.limit = true ∧ request.agg ∈ AGG_PERIODS ∧ request.start ≤ request.end_

def matchingUnderlyingBars : List UnderlyingRow :=
  (buildUnderlyingBarsQuery timeBucket request table).elim [] Query.rows

theorem times_nodup {rows : List UnderlyingRow} {ticker : String} (distinct : (rows.map Prod.fst).Nodup)
    (single : ∀ row ∈ rows, row.1.1 = ticker) : (rows.map barTime).Nodup := by
  have different : rows.Pairwise fun a b => a.1 ≠ b.1 := List.pairwise_map.mp distinct
  refine List.pairwise_map.mpr (different.imp_of_mem fun {a b} one two other same => other ?_)
  exact Prod.ext ((single a one).trans (single b two).symm) same

theorem matchingUnderlyingBars_times : ((matchingUnderlyingBars timeBucket table request).map barTime).Nodup := by
  have stored : ((table.items.filter request.conditions).map Prod.fst).Nodup :=
    (List.filter_sublist.map Prod.fst).nodup table.items_nodup
  have single (row : UnderlyingRow) (member : row ∈ table.items.filter request.conditions) :
      row.1.1 = request.ticker := by
    have passes := (List.mem_filter.mp member).2
    simp only [UnderlyingBarsRequest.conditions, Bool.and_eq_true, decide_eq_true_eq] at passes
    exact passes.1.1
  unfold matchingUnderlyingBars buildUnderlyingBarsQuery
  dsimp only
  split
  · exact times_nodup stored single
  · cases bucketInterval request.agg with
    | none => exact List.nodup_nil
    | some interval =>
      let grouped := groups (underlyingGroup timeBucket interval) (table.items.filter request.conditions)
      have keys : (underlyingBars timeBucket interval (table.items.filter request.conditions)).map Prod.fst =
          grouped.map Prod.fst := by
        rw [underlyingBars, Kit.grouped, List.map_map]
        rfl
      have distinct : ((underlyingBars timeBucket interval
          (table.items.filter request.conditions)).map Prod.fst).Nodup := keys ▸ groups_nodup _ _
      have grouped (row : UnderlyingRow)
          (member : row ∈ underlyingBars timeBucket interval (table.items.filter request.conditions)) :
          row.1.1 = request.ticker := by
        have listed : row.1 ∈ grouped.map Prod.fst := keys ▸ List.mem_map_of_mem member
        rw [groups_keys, List.mem_dedup] at listed
        obtain ⟨source, stored, same⟩ := List.mem_map.mp listed
        rw [← same]
        exact single source stored
      exact times_nodup distinct grouped

theorem buildUnderlyingBarsQuery_valid (valid : request.agg ∈ AGG_PERIODS) :
    buildUnderlyingBarsQuery timeBucket request table =
      some ⟨matchingUnderlyingBars timeBucket table request, barTime, request.limit, request.offset⟩ := by
  unfold matchingUnderlyingBars buildUnderlyingBarsQuery
  dsimp only
  split
  · rfl
  · next coarse =>
    obtain ⟨interval, known⟩ := bucketInterval_isSome valid coarse
    rw [known]
    rfl

/-- GET /underlying/bars has no ties, so it pages completely whenever it accepts the request. -/
theorem underlyingBars_complete_iff :
    Complete (fun choose offset => getUnderlyingBars timeBucket choose table { request with offset := offset }) barTime
        request.limit (matchingUnderlyingBars timeBucket table request) ↔ underlyingBarsAccepted request := by
  have times := matchingUnderlyingBars_times timeBucket table request
  have free (j : ℕ) := not_tiedAt_of_distinct times (j * request.limit)
  rw [← and_iff_left (a := underlyingBarsAccepted request) free]
  apply complete_iff (fun accepted => limitOk_pos accepted.1) (List.Nodup.of_map barTime times)
  · intro accepted arranged offset
    have built := buildUnderlyingBarsQuery_valid timeBucket table { request with offset := offset } accepted.2.1
    rw [getUnderlyingBars, items_checked, built]
    exact if_pos accepted
  · intro refused arranged offset
    rw [getUnderlyingBars, items_checked]
    exact if_neg refused

end UnderlyingBars

section Contracts

variable (table : ContractTable) (request : ContractsRequest)

def contractsAccepted : Prop := limitOk request.limit = true ∧ request.reversed = false

theorem matchingContracts_nodup : (contractsQuery request table).rows.Nodup :=
  (List.Nodup.of_map Prod.fst table.items_nodup).filter _

/-- GET /contracts pages completely exactly if it accepts the request and no page ends between two matching contracts
of one expiration and strike. -/
theorem contracts_complete_iff :
    Complete (fun choose offset => getContracts choose table { request with offset := offset }) expirationStrike
        request.limit (contractsQuery request table).rows ↔
      contractsAccepted request ∧
        ∀ j, ¬ TiedAt expirationStrike (contractsQuery request table).rows (j * request.limit) := by
  apply complete_iff (fun accepted => limitOk_pos accepted.1) (matchingContracts_nodup table request)
  · intro accepted arranged offset
    rcases accepted with ⟨bounded, forward⟩
    have same : ({ request with offset := offset } : ContractsRequest).reversed = request.reversed := rfl
    simp only [getContracts, bounded, Bool.not_true, Bool.false_eq_true, if_false, same, forward]
    rfl
  · intro refused arranged offset
    unfold getContracts
    split
    · rfl
    · next bounded =>
      split
      · rfl
      · next forward => exact absurd ⟨by simpa using bounded, Bool.eq_false_of_not_eq_true forward⟩ refused

end Contracts

/-- The three endpoints: the bars of one ticker have distinct times, but option bars and contracts can tie. -/
theorem paging_complete_iff (timeBucket : String → ℤ → ℤ) (options : OptionTable) (bars : OptionBarsRequest)
    (underlyings : UnderlyingTable) (underlying : UnderlyingBarsRequest) (contracts : ContractTable)
    (chain : ContractsRequest) :
    (Complete (fun choose offset => getOptionBars timeBucket choose options { bars with offset := offset }) barTime
        bars.limit (matchingOptionBars timeBucket options bars) ↔
      optionBarsAccepted bars ∧
        ∀ j, ¬ TiedAt barTime (matchingOptionBars timeBucket options bars) (j * bars.limit)) ∧
    (Complete (fun choose offset => getUnderlyingBars timeBucket choose underlyings
        { underlying with offset := offset }) barTime underlying.limit
        (matchingUnderlyingBars timeBucket underlyings underlying) ↔ underlyingBarsAccepted underlying) ∧
    (Complete (fun choose offset => getContracts choose contracts { chain with offset := offset }) expirationStrike
        chain.limit (contractsQuery chain contracts).rows ↔
      contractsAccepted chain ∧
        ∀ j, ¬ TiedAt expirationStrike (contractsQuery chain contracts).rows (j * chain.limit)) :=
  ⟨optionBars_complete_iff timeBucket options bars, underlyingBars_complete_iff timeBucket underlyings underlying,
    contracts_complete_iff contracts chain⟩

def callAt (strike : ℚ) : OptionBar1m :=
  { underlyingTicker := "SPY", expirationDate := 0, strike := strike, right := .call }

def oneMinute : OptionTable := Dict.assign ∅ [(("C450", 0), callAt 450), (("C455", 0), callAt 455)]

theorem tied_bars_incomplete :
    ¬ ∀ timeBucket table request, optionBarsAccepted request →
      Complete (fun choose offset => getOptionBars timeBucket choose table { request with offset := offset }) barTime
        request.limit (matchingOptionBars timeBucket table request) := by
  intro all
  let request : OptionBarsRequest := { ticker := "SPY", start := 0, end_ := 60000, limit := 1 }
  have complete := all (fun _ time => time) oneMinute request ⟨by decide, by decide, by decide⟩
  have free := ((optionBars_complete_iff (fun _ time => time) oneMinute request).mp complete).2 1
  exact free ⟨0, by decide +kernel, by decide +kernel⟩

end OptionsProof.Pages
