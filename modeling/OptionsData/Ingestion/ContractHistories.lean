import OptionsData.Ingestion.ContractManager

namespace OptionsProof.ContractHistories

open Kit OptionsModel

variable {tracked : Tracked} {cfg : TickerConfig} {answers : TickerAnswers} {mgr : ContractManager} {cid : String}
  {rc : ResolvedContract}

def newCandidates (tracked : Tracked) (cfg : TickerConfig) (chain : List ChainOption) : List ChainOption :=
  (chain.filter (isCandidate cfg)).filter fun opt => opt.streamerSymbol ∉ tracked

def asked (tracked : Tracked) (cfg : TickerConfig) (chain : List ChainOption) : List String :=
  (newCandidates tracked cfg chain).map ChainOption.streamerSymbol

/-- The chain and the snapshot that a ticker is resolved with, or `none` where one of the two calls raises. -/
def resolution (tracked : Tracked) (cfg : TickerConfig) (answers : TickerAnswers) :
    Option (List ChainOption × Dict String (Option Number)) :=
  answers.chain.bind fun chain =>
    if asked tracked cfg chain = [] then some (chain, ∅)
    else (answers.snapshot (asked tracked cfg chain)).map fun greeks => (chain, greeks)

def carried (tracked : Tracked) (cfg : TickerConfig) (chain : List ChainOption) : List (String × ResolvedContract) :=
  (chain.filter (isCandidate cfg)).filterMap fun opt =>
    (tracked.lookup opt.streamerSymbol).map fun rc => (opt.streamerSymbol, rc)

def resolvedFor (tracked : Tracked) (cfg : TickerConfig) (chain : List ChainOption)
    (greeks : Dict String (Option Number)) : Tracked :=
  Dict.assign (Dict.assign ∅ (carried tracked cfg chain))
    ((newCandidates tracked cfg chain).filterMap (newlyResolved cfg greeks))

theorem resolveTicker_eq : resolveTicker tracked cfg answers =
    (resolution tracked cfg answers).map fun resolved => resolvedFor tracked cfg resolved.1 resolved.2 := by
  rw [resolveTicker, resolution]
  cases answers.chain with
  | none => rfl
  | some chain =>
    simp only [Option.bind_some]
    by_cases none_new : newCandidates tracked cfg chain = []
    · have unasked : asked tracked cfg chain = [] := by rw [asked, none_new, List.map_nil]
      unfold newCandidates at none_new
      rw [if_pos unasked, Option.map_some, resolvedFor, newCandidates, none_new]
      rfl
    · have asks : asked tracked cfg chain ≠ [] := by
        rw [asked, Ne, List.map_eq_nil_iff]
        exact none_new
      unfold newCandidates at none_new
      rw [if_neg asks, if_neg (by rw [List.isEmpty_iff]; exact none_new), Option.map_map]
      rfl

/-- The snapshot has a delta for the option that lies in the band for its right. -/
def InBand (cfg : TickerConfig) (greeks : Dict String (Option Number)) (opt : ChainOption) : Prop :=
  ∃ delta, greeks.lookup opt.streamerSymbol = some (some delta) ∧ inRange cfg (optionRight opt) delta = true

theorem newlyResolved_iff {greeks : Dict String (Option Number)} {opt : ChainOption} :
    newlyResolved cfg greeks opt = some (cid, rc) ↔
      InBand cfg greeks opt ∧ opt.streamerSymbol = cid ∧ rc = resolveOption cfg opt := by
  have skips : inRange cfg (optionRight opt) .nan = false := rfl
  unfold newlyResolved InBand
  rcases greeks.lookup opt.streamerSymbol with - | - | - | delta
  · simp
  · simp [getAttrAny]
  · simp [getAttrAny, isNan, skips]
  · by_cases inside : inRange cfg (optionRight opt) (.val delta) = true
    · simp only [getAttrAny, isNan, inside, Option.bind_some, Option.isSome_some, Bool.not_false, Bool.and_self,
        if_true, Option.some.injEq, Prod.mk.injEq, exists_eq_left', true_and]
      exact and_congr_right fun _ => eq_comm
    · simp [getAttrAny, isNan, inside]

theorem mem_carried {chain : List ChainOption} : (cid, rc) ∈ carried tracked cfg chain ↔
    ∃ opt ∈ chain, isCandidate cfg opt = true ∧ opt.streamerSymbol = cid ∧ tracked.lookup cid = some rc := by
  simp only [carried, List.mem_filterMap, List.mem_filter, Option.map_eq_some_iff, Prod.mk.injEq]
  constructor
  · intro premise
    obtain ⟨opt, ⟨listed, candidate⟩, kept, held, rfl, rfl⟩ := premise
    exact ⟨opt, listed, candidate, rfl, held⟩
  · intro premise
    obtain ⟨opt, listed, candidate, rfl, held⟩ := premise
    exact ⟨opt, ⟨listed, candidate⟩, rc, held, rfl, rfl⟩

theorem mem_newlyResolved {chain : List ChainOption} {greeks : Dict String (Option Number)} :
    (cid, rc) ∈ (newCandidates tracked cfg chain).filterMap (newlyResolved cfg greeks) ↔
      ∃ opt ∈ chain, isCandidate cfg opt = true ∧ opt.streamerSymbol = cid ∧ cid ∉ tracked ∧
        InBand cfg greeks opt ∧ rc = resolveOption cfg opt := by
  simp only [newCandidates, List.mem_filterMap, List.mem_filter, newlyResolved_iff, decide_eq_true_eq]
  constructor
  · intro premise
    obtain ⟨opt, ⟨⟨listed, candidate⟩, untracked⟩, band, rfl, same⟩ := premise
    exact ⟨opt, listed, candidate, rfl, untracked, band, same⟩
  · intro premise
    obtain ⟨opt, listed, candidate, rfl, untracked, band, same⟩ := premise
    exact ⟨opt, ⟨⟨listed, candidate⟩, untracked⟩, band, rfl, same⟩

/-- A candidate of the chain that was tracked already, as it was, or one that is new and in the band. -/
def Entry (tracked : Tracked) (cfg : TickerConfig) (chain : List ChainOption) (greeks : Dict String (Option Number))
    (cid : String) (rc : ResolvedContract) : Prop :=
  ∃ opt ∈ chain, isCandidate cfg opt = true ∧ opt.streamerSymbol = cid ∧
    (tracked.lookup cid = some rc ∨ cid ∉ tracked ∧ InBand cfg greeks opt ∧ rc = resolveOption cfg opt)

section Resolved

variable {chain : List ChainOption} {greeks : Dict String (Option Number)}

theorem entry_of_resolved (held : (resolvedFor tracked cfg chain greeks).lookup cid = some rc) :
    Entry tracked cfg chain greeks cid rc := by
  rcases Dict.of_lookup_assign held with new | ⟨-, old⟩
  · obtain ⟨opt, listed, candidate, same, admitted⟩ := mem_newlyResolved.mp new
    exact ⟨opt, listed, candidate, same, Or.inr admitted⟩
  · rcases Dict.of_lookup_assign old with old | ⟨-, empty⟩
    · obtain ⟨opt, listed, candidate, same, kept⟩ := mem_carried.mp old
      exact ⟨opt, listed, candidate, same, Or.inl kept⟩
    · cases empty

theorem resolved_of_entry (entry : Entry tracked cfg chain greeks cid rc) :
    ∃ kept, (resolvedFor tracked cfg chain greeks).lookup cid = some kept := by
  rw [← Dict.mem_iff, resolvedFor, Dict.mem_assign, Dict.mem_assign]
  obtain ⟨opt, listed, candidate, same, kept | admitted⟩ := entry
  · exact Or.inl (Or.inr (List.mem_map_of_mem (mem_carried.mpr ⟨opt, listed, candidate, same, kept⟩)))
  · exact Or.inr (List.mem_map_of_mem (mem_newlyResolved.mpr ⟨opt, listed, candidate, same, admitted⟩))

end Resolved

def part (tracked : Tracked) (cfg : TickerConfig) (answers : TickerAnswers) : Tracked :=
  (resolveTicker tracked cfg answers).getD (carriedFor tracked cfg)

theorem part_raised (raised : resolution tracked cfg answers = none) :
    part tracked cfg answers = carriedFor tracked cfg := by
  rw [part, resolveTicker_eq, raised]
  rfl

theorem part_resolved {chain : List ChainOption} {greeks : Dict String (Option Number)}
    (resolved : resolution tracked cfg answers = some (chain, greeks)) :
    part tracked cfg answers = resolvedFor tracked cfg chain greeks := by
  rw [part, resolveTicker_eq, resolved]
  rfl

theorem lookup_carriedFor : (carriedFor tracked cfg).lookup cid = some rc ↔
    tracked.lookup cid = some rc ∧ rc.underlyingTicker = cfg.ticker := by
  rw [carriedFor, Dict.lookup_filter, Option.filter_eq_some_iff, decide_eq_true_eq]

theorem resolveAll_merge (mgr : ContractManager) (answers : ℕ → TickerAnswers) :
    resolveAll mgr answers =
      Dict.merge ∅ (mgr.tickers.zipIdx.map fun cfg => part mgr.tracked cfg.1 (answers cfg.2)) := by
  rw [resolveAll, Dict.merge, List.foldl_map]
  rfl

theorem mem_resolveAll {answers : ℕ → TickerAnswers} : cid ∈ resolveAll mgr answers ↔
    ∃ i cfg, mgr.tickers[i]? = some cfg ∧ cid ∈ part mgr.tracked cfg (answers i) := by
  rw [resolveAll_merge, Dict.mem_merge]
  constructor
  · intro premise
    obtain empty | ⟨part, listed, inside⟩ := premise
    · cases empty
    · obtain ⟨⟨cfg, i⟩, member, rfl⟩ := List.mem_map.mp listed
      exact ⟨i, cfg, List.mem_zipIdx_iff_getElem?.mp member, inside⟩
  · intro premise
    obtain ⟨i, cfg, member, inside⟩ := premise
    exact Or.inr ⟨_, List.mem_map.mpr ⟨(cfg, i), List.mem_zipIdx_iff_getElem?.mpr member, rfl⟩, inside⟩

theorem of_lookup_resolveAll {answers : ℕ → TickerAnswers} (held : (resolveAll mgr answers).lookup cid = some rc) :
    ∃ i cfg, mgr.tickers[i]? = some cfg ∧ (part mgr.tracked cfg (answers i)).lookup cid = some rc := by
  rw [resolveAll_merge] at held
  obtain empty | ⟨part, listed, inside⟩ := Dict.of_lookup_merge held
  · cases empty
  · obtain ⟨⟨cfg, i⟩, member, rfl⟩ := List.mem_map.mp listed
    exact ⟨i, cfg, List.mem_zipIdx_iff_getElem?.mp member, inside⟩

theorem chain_of_resolution {chain : List ChainOption} {greeks : Dict String (Option Number)}
    (resolved : resolution tracked cfg answers = some (chain, greeks)) : chain ∈ answers.chain := by
  unfold resolution at resolved
  obtain ⟨given, there, resolved⟩ := Option.bind_eq_some_iff.mp resolved
  split at resolved
  · cases resolved
    exact there
  · obtain ⟨greeks, -, same⟩ := Option.map_eq_some_iff.mp resolved
    cases same
    exact there

theorem part_origin (held : (part tracked cfg answers).lookup cid = some rc) :
    tracked.lookup cid = some rc ∧ (rc.underlyingTicker = cfg.ticker ∨
      ∃ chain ∈ answers.chain, ∃ opt ∈ chain, opt.streamerSymbol = cid) ∨
    ∃ chain ∈ answers.chain, ∃ opt ∈ chain,
      opt.streamerSymbol = cid ∧ cid ∉ tracked ∧ rc = resolveOption cfg opt := by
  cases resolved : resolution tracked cfg answers with
  | none =>
    rw [part_raised resolved, lookup_carriedFor] at held
    exact Or.inl ⟨held.1, Or.inl held.2⟩
  | some given =>
    obtain ⟨chain, greeks⟩ := given
    rw [part_resolved resolved] at held
    have offered := chain_of_resolution resolved
    obtain ⟨opt, listed, -, same, kept | ⟨untracked, -, new⟩⟩ := entry_of_resolved held
    · exact Or.inl ⟨kept, Or.inr ⟨chain, offered, opt, listed, same⟩⟩
    · exact Or.inr ⟨chain, offered, opt, listed, same, untracked, new⟩

/-- Every symbol belongs to the chains of one ticker. -/
def Owned (owner : String → String) (tickers : List TickerConfig) (answers : ℕ → TickerAnswers) : Prop :=
  ∀ i cfg, tickers[i]? = some cfg → ∀ chain ∈ (answers i).chain, ∀ opt ∈ chain, owner opt.streamerSymbol = cfg.ticker

structure Sound (owner : String → String) (tickers : List TickerConfig) (tracked : Tracked) : Prop where
  mine : ∀ cid rc, tracked.lookup cid = some rc → rc.underlyingTicker = owner cid
  configured : ∀ cid rc, tracked.lookup cid = some rc → ∃ cfg ∈ tickers, rc.underlyingTicker = cfg.ticker

theorem part_owner {owner : String → String} {tickers : List TickerConfig} {answers : ℕ → TickerAnswers} {i : ℕ}
    (sound : Sound owner tickers tracked) (owned : Owned owner tickers answers) (member : tickers[i]? = some cfg)
    (held : (part tracked cfg (answers i)).lookup cid = some rc) :
    rc.underlyingTicker = cfg.ticker ∧ owner cid = cfg.ticker := by
  rcases part_origin held with
    ⟨kept, ticker | ⟨chain, offered, opt, listed, rfl⟩⟩ | ⟨chain, offered, opt, listed, rfl, -, rfl⟩
  · exact ⟨ticker, (sound.mine cid rc kept).symm.trans ticker⟩
  · have mine := owned i cfg member chain offered opt listed
    exact ⟨(sound.mine _ rc kept).trans mine, mine⟩
  · exact ⟨rfl, owned i cfg member chain offered opt listed⟩

def HeldFor (tracked : Tracked) (cfg : TickerConfig) (cid : String) (rc : ResolvedContract) : Prop :=
  tracked.lookup cid = some rc ∧ rc.underlyingTicker = cfg.ticker

def TickerRight (tracked current : Tracked) (cfg : TickerConfig) (answers : TickerAnswers) : Prop :=
  match resolution tracked cfg answers with
  | none => ∀ cid rc, HeldFor current cfg cid rc ↔ HeldFor tracked cfg cid rc
  | some (chain, greeks) =>
    (∀ cid rc, HeldFor current cfg cid rc → Entry tracked cfg chain greeks cid rc) ∧
    (∀ cid rc, Entry tracked cfg chain greeks cid rc → ∃ kept, HeldFor current cfg cid kept) ∧
    ∀ symbol ∈ asked tracked cfg chain, symbol ∉ tracked

structure RefreshRight (tracked : Tracked) (tickers : List TickerConfig) (answers : ℕ → TickerAnswers)
    (diff : ContractDiff) : Prop where
  perTicker : ∀ i cfg, tickers[i]? = some cfg → TickerRight tracked diff.current cfg (answers i)
  configured : ∀ cid rc, diff.current.lookup cid = some rc → ∃ cfg ∈ tickers, rc.underlyingTicker = cfg.ticker
  added : ∀ cid, diff.added.lookup cid = if cid ∈ tracked then none else diff.current.lookup cid
  removed : ∀ cid, cid ∈ diff.removed ↔ cid ∈ tracked ∧ cid ∉ diff.current

theorem sound_resolveAll {owner : String → String} {answers : ℕ → TickerAnswers}
    (sound : Sound owner mgr.tickers mgr.tracked) (owned : Owned owner mgr.tickers answers) :
    Sound owner mgr.tickers (resolveAll mgr answers) := by
  constructor
  all_goals intro cid rc held
  all_goals obtain ⟨i, cfg, member, inside⟩ := of_lookup_resolveAll held
  all_goals obtain ⟨mine, owner_⟩ := part_owner sound owned member inside
  · exact mine.trans owner_.symm
  · exact ⟨cfg, List.mem_of_getElem? member, mine⟩

section Refresh

variable {owner : String → String} {answers : ℕ → TickerAnswers}
  (distinct : (mgr.tickers.map TickerConfig.ticker).Nodup) (sound : Sound owner mgr.tickers mgr.tracked)
  (owned : Owned owner mgr.tickers answers)

include distinct sound owned

theorem heldFor_resolveAll {i : ℕ} (member : mgr.tickers[i]? = some cfg) :
    HeldFor (resolveAll mgr answers) cfg cid rc ↔ (part mgr.tracked cfg (answers i)).lookup cid = some rc := by
  have same (j : ℕ) (other : TickerConfig) (member' : mgr.tickers[j]? = some other)
      (ticker : other.ticker = cfg.ticker) : other = cfg ∧ j = i := by
    have bound : i < (mgr.tickers.map TickerConfig.ticker).length := by
      rw [List.length_map]
      exact (List.getElem?_eq_some_iff.mp member).1
    have index : i = j := by
      apply (List.getElem?_inj bound distinct).mp
      rw [List.getElem?_map, List.getElem?_map, member, member', Option.map_some, Option.map_some, ticker]
    subst index
    exact ⟨Option.some.inj (member'.symm.trans member), rfl⟩
  constructor
  · intro premise
    obtain ⟨held, ticker⟩ := premise
    obtain ⟨j, other, member', inside⟩ := of_lookup_resolveAll held
    obtain ⟨mine, -⟩ := part_owner sound owned member' inside
    obtain ⟨rfl, rfl⟩ := same j other member' (mine.symm.trans ticker)
    exact inside
  · intro inside
    obtain ⟨mine, owner_⟩ := part_owner sound owned member inside
    have there : cid ∈ resolveAll mgr answers :=
      mem_resolveAll.mpr ⟨i, cfg, member, (Dict.mem_iff _ _).mpr ⟨rc, inside⟩⟩
    obtain ⟨kept, held⟩ := (Dict.mem_iff _ _).mp there
    obtain ⟨j, other, member', inside'⟩ := of_lookup_resolveAll held
    obtain ⟨-, owner'⟩ := part_owner sound owned member' inside'
    obtain ⟨rfl, rfl⟩ := same j other member' (owner'.symm.trans owner_)
    obtain rfl := Option.some.inj (inside.symm.trans inside')
    exact ⟨held, mine⟩

theorem tickerRight_resolveAll {i : ℕ} (member : mgr.tickers[i]? = some cfg) :
    TickerRight mgr.tracked (resolveAll mgr answers) cfg (answers i) := by
  unfold TickerRight
  simp only [heldFor_resolveAll distinct sound owned member]
  split
  · next raised =>
    intro cid rc
    rw [part_raised raised, lookup_carriedFor, HeldFor]
  · next chain greeks resolved =>
    rw [part_resolved resolved]
    refine ⟨fun cid rc held => entry_of_resolved held, fun cid rc entry => resolved_of_entry entry, ?_⟩
    intro symbol listed
    obtain ⟨opt, new, rfl⟩ := List.mem_map.mp listed
    exact of_decide_eq_true (List.mem_filter.mp new).2

end Refresh

theorem lookup_added (mgr : ContractManager) (resolved : Tracked) (cid : String) :
    (mgr.diff resolved).added.lookup cid = if cid ∈ mgr.tracked then none else resolved.lookup cid := by
  rw [ContractManager.diff, Dict.lookup_filter]
  by_cases present : cid ∈ mgr.tracked
  · simp [present]
  · cases resolved.lookup cid
    all_goals simp [present]

theorem mem_removed (mgr : ContractManager) (resolved : Tracked) (cid : String) :
    cid ∈ (mgr.diff resolved).removed ↔ cid ∈ mgr.tracked ∧ cid ∉ resolved := by
  rw [ContractManager.diff, List.mem_filter, decide_eq_true_eq]
  exact Iff.rfl

abbrev Call := ContractTable × RefreshAnswers

/-- A call that returns hands over its diff; one that raises leaves everything as it was. -/
def call (s : ContractManager × List ContractDiff) (c : Call) : ContractManager × List ContractDiff :=
  match s.1.refresh c.1 c.2 with
  | none => s
  | some (diff, next, _) => (next, s.2 ++ [diff])

def afterCalls (tickers : List TickerConfig) (calls : List Call) : ContractManager × List ContractDiff :=
  calls.foldl call ({ tickers := tickers }, [])

def applyDiff (d : Tracked) (diff : ContractDiff) : Tracked :=
  Dict.assign (d.filter fun cid _ => cid ∉ diff.removed) diff.added.items

def Followed (s : ContractManager × List ContractDiff) : Prop :=
  ∀ cid, (s.2.foldl applyDiff ∅).lookup cid = s.1.tracked.lookup cid


theorem refresh_right {owner : String → String} {answers : ℕ → TickerAnswers}
    (distinct : (mgr.tickers.map TickerConfig.ticker).Nodup) (sound : Sound owner mgr.tickers mgr.tracked)
    (owned : Owned owner mgr.tickers answers) :
    RefreshRight mgr.tracked mgr.tickers answers (mgr.diff (resolveAll mgr answers)) where
  perTicker _ _ member := tickerRight_resolveAll distinct sound owned member
  configured := (sound_resolveAll sound owned).configured
  added := lookup_added mgr _
  removed := mem_removed mgr _

theorem lookup_kept {answers : ℕ → TickerAnswers} (present : cid ∈ mgr.tracked)
    (held : (resolveAll mgr answers).lookup cid = some rc) : mgr.tracked.lookup cid = some rc := by
  obtain ⟨i, cfg, member, inside⟩ := of_lookup_resolveAll held
  rcases part_origin inside with ⟨kept, -⟩ | ⟨-, -, -, -, -, untracked, -⟩
  · exact kept
  · exact absurd present untracked

theorem applyDiff_current {answers : ℕ → TickerAnswers} {d : Tracked}
    (known : ∀ cid, d.lookup cid = mgr.tracked.lookup cid) (cid : String) :
    (applyDiff d (mgr.diff (resolveAll mgr answers))).lookup cid = (resolveAll mgr answers).lookup cid := by
  rw [applyDiff, Dict.lookup_assign _ (Dict.items_nodup _), Dict.firstRow_items, lookup_added, Dict.lookup_filter,
    known]
  by_cases present : cid ∈ mgr.tracked
  · rw [if_pos present, Option.none_or]
    obtain ⟨rc, tracked⟩ := (Dict.mem_iff _ _).mp present
    cases held : (resolveAll mgr answers).lookup cid with
    | none =>
      have gone : cid ∈ (mgr.diff (resolveAll mgr answers)).removed :=
        (mem_removed mgr _ cid).mpr ⟨present, AList.lookup_eq_none.mp held⟩
      simp [tracked, gone]
    | some kept =>
      have stays : cid ∉ (mgr.diff (resolveAll mgr answers)).removed := by
        rw [mem_removed, not_and_not_right]
        exact fun _ => (Dict.mem_iff _ _).mpr ⟨kept, held⟩
      simp [lookup_kept present held, stays]
  · simp [present, AList.lookup_eq_none.mpr present]

theorem call_raised {s : ContractManager × List ContractDiff} {c : Call} (raised : s.1.refresh c.1 c.2 = none) :
    call s c = s := by
  rw [call, raised]

theorem call_returned {s : ContractManager × List ContractDiff} {c : Call} {diff : ContractDiff}
    {next : ContractManager} {written : ContractTable} (returned : s.1.refresh c.1 c.2 = some (diff, next, written)) :
    call s c = (next, s.2 ++ [diff]) := by
  rw [call, returned]

theorem afterCalls_concat (tickers : List TickerConfig) (calls : List Call) (c : Call) :
    afterCalls tickers (calls ++ [c]) = call (afterCalls tickers calls) c := by
  rw [afterCalls, List.foldl_append]
  rfl

structure Holds (owner : String → String) (tickers : List TickerConfig) (s : ContractManager × List ContractDiff) :
    Prop where
  same : s.1.tickers = tickers
  sound : Sound owner tickers s.1.tracked
  followed : Followed s

theorem call_holds {owner : String → String} {tickers : List TickerConfig} {s : ContractManager × List ContractDiff}
    {c : Call} (holds : Holds owner tickers s) (owned : Owned owner tickers c.2.ticker) :
    Holds owner tickers (call s c) := by
  cases answer : s.1.refresh c.1 c.2 with
  | none =>
    rw [call_raised answer]
    exact holds
  | some returned =>
    obtain ⟨diff, next, written⟩ := returned
    obtain ⟨rfl, rfl⟩ := refresh_cases answer
    rw [call_returned answer]
    obtain ⟨rfl, sound, followed⟩ := holds
    refine ⟨rfl, sound_resolveAll sound owned, fun cid => ?_⟩
    rw [List.foldl_append]
    exact applyDiff_current followed cid

theorem afterCalls_holds {owner : String → String} {tickers : List TickerConfig} (calls : List Call)
    (owned : ∀ c ∈ calls, Owned owner tickers c.2.ticker) : Holds owner tickers (afterCalls tickers calls) := by
  induction calls using List.reverseRecOn with
  | nil =>
    refine ⟨rfl, ⟨?_, ?_⟩, fun _ => rfl⟩
    all_goals intro cid rc held
    all_goals cases held
  | append_singleton calls c ih =>
    rw [afterCalls_concat]
    exact call_holds (ih fun earlier member => owned earlier (List.mem_append_left _ member)) (owned c (by simp))

theorem refresh_history (owner : String → String) (tickers : List TickerConfig)
    (distinct : (tickers.map TickerConfig.ticker).Nodup) (calls : List Call) (c : Call)
    (owned : ∀ other ∈ calls ++ [c], Owned owner tickers other.2.ticker) :
    let before := afterCalls tickers calls
    let after := afterCalls tickers (calls ++ [c])
    (before.1.refresh c.1 c.2 = none → after.1.tracked = before.1.tracked) ∧
    ∀ diff next written, before.1.refresh c.1 c.2 = some (diff, next, written) →
      RefreshRight before.1.tracked tickers c.2.ticker diff ∧ after.1.tracked = diff.current ∧
        ∀ cid, (after.2.foldl applyDiff ∅).lookup cid = diff.current.lookup cid := by
  have before := afterCalls_holds calls fun other member => owned other (List.mem_append_left _ member)
  have mine := owned c (by simp)
  rw [afterCalls_concat]
  generalize afterCalls tickers calls = s at before ⊢
  have after := call_holds before mine
  constructor
  · intro raised
    rw [call_raised raised]
  · intro diff next written returned
    have followed := after.followed
    obtain ⟨rfl, rfl⟩ := refresh_cases returned
    rw [call_returned returned] at followed ⊢
    obtain ⟨rfl, sound, -⟩ := before
    exact ⟨refresh_right distinct sound mine, rfl, followed⟩

def spyCall (chain : Option (List ChainOption)) : Call :=
  (∅, { ticker := fun _ => ⟨chain, fun _ => some (Dict.assign ∅ [(".SPY450C", some (.val (1 / 2)))])⟩
        persists := true, now := 0 })

def spy450 : ChainOption := ⟨".SPY450C", 20700, 450, "Call", none, some 5⟩

/-- The first call admits a contract; the chain lookup of the second raises, and the contract is carried over. -/
theorem refresh_history_raised :
    let before := afterCalls [{ ticker := "SPY" }] [spyCall (some [spy450])]
    ".SPY450C" ∈ before.1.tracked ∧ RefreshRight before.1.tracked [{ ticker := "SPY" }] (spyCall none).2.ticker
      (before.1.diff (resolveAll before.1 (spyCall none).2.ticker)) := by
  have owned : ∀ other ∈ [spyCall (some [spy450]), spyCall none],
      Owned (fun _ => "SPY") [{ ticker := "SPY" }] other.2.ticker := by
    intro other listed i cfg member chain answered opt offered
    obtain rfl := List.mem_singleton.mp (List.mem_of_getElem? member)
    rfl
  have history := refresh_history (fun _ => "SPY") [{ ticker := "SPY" }] (by decide) [spyCall (some [spy450])]
    (spyCall none) owned
  exact ⟨by decide +kernel, (history.2 _ _ _ (if_neg (by simp [spyCall]))).1⟩

end OptionsProof.ContractHistories
