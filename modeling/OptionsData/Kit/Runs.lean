import Mathlib

namespace Kit

variable {α : Type*} {test : α → Bool} {items r : List α}

/-- The longest stretches of consecutive items that pass the test, in order. -/
def runs (test : α → Bool) : List α → List (List α)
  | [] => []
  | a :: items =>
    if test a then (a :: items.takeWhile test) :: runs test (items.dropWhile test)
    else runs test items
termination_by items => items.length
decreasing_by
  · have shorter := List.length_dropWhile_le test items
    simp only [List.length_cons]
    omega
  · simp

structure MaximalRun (test : α → Bool) (items before r after : List α) : Prop where
  split : items = before ++ r ++ after
  nonempty : r ≠ []
  passes : ∀ a ∈ r, test a = true
  starts : ∀ a ∈ before.getLast?, test a = false
  stops : ∀ a ∈ after.head?, test a = false

theorem MaximalRun.listed {before after : List α} (run : MaximalRun test items before r after) {a : α}
    (inside : a ∈ r) : a ∈ items := by
  rw [run.split]
  exact List.mem_append_left _ (List.mem_append_right _ inside)

theorem flatten_runs (test : α → Bool) (items : List α) : (runs test items).flatten = items.filter test := by
  fun_induction runs test items with
  | case1 => rfl
  | case2 a items passes ih =>
    have kept : (items.takeWhile test).filter test = items.takeWhile test :=
      List.filter_eq_self.mpr fun b member => List.mem_takeWhile_imp member
    rw [List.flatten_cons, ih, List.filter_cons_of_pos passes, List.cons_append]
    conv_rhs => rw [← List.takeWhile_append_dropWhile (p := test) (l := items), List.filter_append, kept]
  | case3 a items fails ih => rw [ih, List.filter_cons_of_neg fails]

theorem head_dropWhile (test : α → Bool) (items : List α) : ∀ a ∈ (items.dropWhile test).head?, test a = false := by
  have fails := List.head?_dropWhile_not test items
  intro a head
  rw [Option.mem_def.mp head] at fails
  exact fails

theorem MaximalRun.append {before after : List α} (run : MaximalRun test items before r after) (earlier : List α)
    (apart : before = [] → ∀ a ∈ earlier.getLast?, test a = false) :
    MaximalRun test (earlier ++ items) (earlier ++ before) r after where
  split := by rw [run.split, List.append_assoc, List.append_assoc, List.append_assoc]
  nonempty := run.nonempty
  passes := run.passes
  starts a last := by
    cases before with
    | nil =>
      rw [List.append_nil] at last
      exact apart rfl a last
    | cons b before =>
      rw [List.getLast?_append_of_ne_nil _ (List.cons_ne_nil b before)] at last
      exact run.starts a last
  stops := run.stops

theorem mem_runs (member : r ∈ runs test items) : ∃ before after, MaximalRun test items before r after := by
  fun_induction runs test items with
  | case1 => cases member
  | case2 a items passes ih =>
    have whole : a :: items = (a :: items.takeWhile test) ++ items.dropWhile test := by
      rw [List.cons_append, List.takeWhile_append_dropWhile]
    have stops := head_dropWhile test items
    rcases List.mem_cons.mp member with rfl | later
    · refine ⟨[], items.dropWhile test, whole, List.cons_ne_nil _ _, ?_, by simp, stops⟩
      intro b listed
      rcases List.mem_cons.mp listed with rfl | taken
      · exact passes
      · exact List.mem_takeWhile_imp taken
    · obtain ⟨before, after, run⟩ := ih later
      rw [whole]
      refine ⟨_, after, run.append _ fun first => ?_⟩
      -- the rest begins with an item that fails, so no run begins there
      obtain ⟨b, r, rfl⟩ := List.exists_cons_of_ne_nil run.nonempty
      have fails := stops b (by rw [run.split, first]; rfl)
      have does := run.passes b List.mem_cons_self
      rw [fails] at does
      cases does
  | case3 a items fails ih =>
    obtain ⟨before, after, run⟩ := ih member
    refine ⟨[a] ++ before, after, run.append [a] fun _ b last => ?_⟩
    rw [List.getLast?_singleton, Option.mem_some] at last
    rw [← last]
    simpa using fails

theorem dropWhile_append_fails {b : α} (fails : test b = false) (front rest : List α) :
    (front ++ b :: rest).dropWhile test = front.dropWhile test ++ b :: rest := by
  have kept : (b :: rest).dropWhile test = b :: rest := List.dropWhile_cons_of_neg (Bool.not_eq_true _ ▸ fails)
  rw [List.dropWhile_append, kept]
  split
  · next passed => rw [List.isEmpty_iff.mp passed, List.nil_append]
  · rfl

theorem MaximalRun.mem_runs {before after : List α} (run : MaximalRun test items before r after) :
    r ∈ runs test items := by
  fun_induction runs test items generalizing before with
  | case1 =>
    obtain ⟨-, none, -⟩ : before = [] ∧ r = [] ∧ after = [] := by simpa using run.split.symm
    exact absurd none run.nonempty
  | case2 a items passes ih =>
    cases before with
    | nil =>
      obtain ⟨b, rest, rfl⟩ := List.exists_cons_of_ne_nil run.nonempty
      obtain ⟨rfl, rfl⟩ : a = b ∧ items = rest ++ after := by simpa using run.split
      have all (c : α) (listed : c ∈ rest) : test c = true := run.passes c (List.mem_cons_of_mem _ listed)
      have ended : after.takeWhile test = [] := by
        cases after with
        | nil => rfl
        | cons c after => exact List.takeWhile_cons_of_neg (Bool.not_eq_true _ ▸ run.stops c rfl)
      rw [List.takeWhile_append_of_pos all, ended, List.append_nil]
      exact List.mem_cons_self
    | cons b before =>
      obtain ⟨rfl, rfl⟩ : a = b ∧ items = before ++ r ++ after := by simpa using run.split
      rcases List.eq_nil_or_concat before with rfl | ⟨front, c, rfl⟩
      · have fails := run.starts a rfl
        rw [passes] at fails
        cases fails
      · have fails : test c = false := run.starts c (by simp [List.getLast?_cons])
        refine List.mem_cons_of_mem _ (@ih (front.dropWhile test ++ [c]) ⟨?_, run.nonempty, run.passes, ?_, run.stops⟩)
        · simpa using dropWhile_append_fails fails front (r ++ after)
        · simpa using fails
  | case3 a items failed ih =>
    cases before with
    | nil =>
      obtain ⟨b, rest, rfl⟩ := List.exists_cons_of_ne_nil run.nonempty
      obtain ⟨rfl, -⟩ : a = b ∧ items = rest ++ after := by simpa using run.split
      exact absurd (run.passes a List.mem_cons_self) failed
    | cons b before =>
      obtain ⟨-, rfl⟩ : a = b ∧ items = before ++ r ++ after := by simpa using run.split
      refine ih ⟨rfl, run.nonempty, run.passes, fun c last => ?_, run.stops⟩
      obtain ⟨front, rfl⟩ := List.getLast?_eq_some_iff.mp last
      exact run.starts c (by simp [List.getLast?_cons])

theorem exists_run {a : α} (listed : a ∈ items) (passes : test a = true) : ∃ r ∈ runs test items, a ∈ r := by
  have kept : a ∈ items.filter test := List.mem_filter.mpr ⟨listed, passes⟩
  rw [← flatten_runs] at kept
  obtain ⟨r, member, inside⟩ := List.mem_flatten.mp kept
  exact ⟨r, member, inside⟩

section Ordered

variable [LinearOrder α] {before after : List α} {a b c : α}

theorem sorted_consecutive (sorted : items.Pairwise (· < ·)) :
    items.IsChain fun a b => a ∈ items ∧ b ∈ items ∧ a < b ∧ ∀ c ∈ items, c ≤ a ∨ b ≤ c := by
  rw [List.isChain_iff_getElem]
  intro i bound
  have ordered := List.pairwise_iff_getElem.mp sorted
  refine ⟨List.getElem_mem _, List.getElem_mem _, ordered i (i + 1) _ bound i.lt_succ_self, fun c listed => ?_⟩
  obtain ⟨k, within, rfl⟩ := List.mem_iff_getElem.mp listed
  rcases lt_trichotomy k i with early | rfl | late
  · exact Or.inl (ordered k i within _ early).le
  · exact Or.inl le_rfl
  · rcases Nat.eq_or_lt_of_le late with rfl | later
    · exact Or.inr le_rfl
    · exact Or.inr (ordered (i + 1) k bound within later).le

theorem runs_ordered (sorted : items.Pairwise (· < ·)) :
    (runs test items).Pairwise fun r s => ∀ a ∈ r, ∀ b ∈ s, a < b := by
  have kept := sorted.filter test
  rw [← flatten_runs, List.pairwise_flatten] at kept
  exact kept.2

theorem MaximalRun.filter_between (run : MaximalRun test items before r after) (sorted : items.Pairwise (· < ·))
    (first : a ∈ r) (last : b ∈ r) (within : ∀ c ∈ r, a ≤ c ∧ c ≤ b) :
    items.filter (fun c => a ≤ c ∧ c ≤ b) = r := by
  rw [run.split, List.pairwise_append, List.pairwise_append] at sorted
  have earlier : before.filter (fun c => a ≤ c ∧ c ≤ b) = [] := by
    rw [List.filter_eq_nil_iff]
    intro c listed inside
    exact absurd (sorted.1.2.2 c listed a first) (not_lt.mpr (of_decide_eq_true inside).1)
  have later : after.filter (fun c => a ≤ c ∧ c ≤ b) = [] := by
    rw [List.filter_eq_nil_iff]
    intro c listed inside
    exact absurd (sorted.2.2 b (List.mem_append_right _ last) c listed) (not_lt.mpr (of_decide_eq_true inside).2)
  have kept : r.filter (fun c => a ≤ c ∧ c ≤ b) = r := by
    rw [List.filter_eq_self]
    exact fun c listed => decide_eq_true (within c listed)
  rw [run.split, List.filter_append, List.filter_append, earlier, later, kept, List.nil_append, List.append_nil]

theorem MaximalRun.convex (run : MaximalRun test items before r after) (sorted : items.Pairwise (· < ·))
    (first : a ∈ r) (last : b ∈ r) (listed : c ∈ items) (low : a ≤ c) (high : c ≤ b) : c ∈ r := by
  rw [run.split, List.pairwise_append, List.pairwise_append] at sorted
  rw [run.split, List.mem_append, List.mem_append] at listed
  rcases listed with (earlier | inside) | later
  · exact absurd (sorted.1.2.2 c earlier a first) (not_lt.mpr low)
  · exact inside
  · exact absurd (sorted.2.2 b (List.mem_append_right _ last) c later) (not_lt.mpr high)

theorem MaximalRun.extends (run : MaximalRun test items before r after) (sorted : items.Pairwise (· < ·))
    (first : a ∈ r) (listed : b ∈ items) (low : a ≤ b)
    (between : ∀ c ∈ items, a ≤ c → c ≤ b → test c = true) : b ∈ r := by
  rw [run.split, List.pairwise_append, List.pairwise_append] at sorted
  rw [run.split, List.mem_append, List.mem_append] at listed
  rcases listed with (earlier | inside) | later
  · exact absurd (sorted.1.2.2 b earlier a first) (not_lt.mpr low)
  · exact inside
  · cases after with
    | nil => cases later
    | cons c after =>
      have past := sorted.2.2 a (List.mem_append_right _ first) c List.mem_cons_self
      have reached : c ≤ b := by
        rcases List.mem_cons.mp later with rfl | beyond
        · exact le_rfl
        · exact (List.rel_of_pairwise_cons sorted.2.1 beyond).le
      have passes := between c (by rw [run.split]; simp) past.le reached
      have fails := run.stops c rfl
      rw [fails] at passes
      cases passes

theorem between_run_iff (test : α → Bool) (sorted : items.Pairwise (· < ·)) (x : α) :
    (∃ r ∈ runs test items, ∃ a ∈ r, ∃ b ∈ r, a ≤ x ∧ x ≤ b) ↔
      ∃ a ∈ items, ∃ b ∈ items, a ≤ x ∧ x ≤ b ∧ ∀ c ∈ items, a ≤ c → c ≤ b → test c = true := by
  constructor
  · intro premise
    obtain ⟨r, member, a, first, b, last, low, high⟩ := premise
    obtain ⟨before, after, run⟩ := mem_runs member
    exact ⟨a, run.listed first, b, run.listed last, low, high, fun c listed above below =>
      run.passes c (run.convex sorted first last listed above below)⟩
  · intro premise
    obtain ⟨a, first, b, last, low, high, between⟩ := premise
    have ordered := low.trans high
    obtain ⟨r, member, inside⟩ := exists_run first (between a first le_rfl ordered)
    obtain ⟨before, after, run⟩ := mem_runs member
    exact ⟨r, member, a, inside, b, run.extends sorted inside last ordered between, low, high⟩

end Ordered

end Kit
