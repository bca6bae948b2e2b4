import Mathlib

namespace Kit

variable {α : Type*}

def sweep (n : ℕ) (test : α → Bool) (xs : List α) : List α :=
  ((xs.take n).filter fun x => !test x) ++ xs.drop n

/-- How many elements `k` passes have looked at, each from the start of what is left and as far as it reaches there. -/
def frontier (reach : List α → ℕ) (test : α → Bool) (xs : List α) : ℕ → ℕ
  | 0 => 0
  | k + 1 =>
    let m := frontier reach test xs k
    max m (reach (sweep m test xs) + (xs.take m).countP test)

theorem sweep_sublist (n : ℕ) (test : α → Bool) (xs : List α) : (sweep n test xs).Sublist xs := by
  have parts := (List.filter_sublist (l := xs.take n) (p := fun x => !test x)).append (List.Sublist.refl (xs.drop n))
  rwa [List.take_append_drop] at parts

theorem length_kept (test : α → Bool) (xs : List α) :
    (xs.filter fun x => !test x).length + xs.countP test = xs.length := by
  have counts := List.length_eq_countP_add_countP test (l := xs)
  simp only [Bool.not_eq_true, Bool.decide_eq_false] at counts
  rw [← List.countP_eq_length_filter, add_comm, counts]

theorem sweep_idle {n : ℕ} {test : α → Bool} {xs : List α} (idle : ∀ x ∈ xs.take n, test x = false) :
    sweep n test xs = xs := by
  have kept : ((xs.take n).filter fun x => !test x) = xs.take n :=
    List.filter_eq_self.mpr fun x member => by rw [idle x member, Bool.not_false]
  rw [sweep, kept, List.take_append_drop]

theorem sweep_within {n m : ℕ} {test : α → Bool} {xs : List α} (within : n + (xs.take m).countP test ≤ m) :
    sweep n test (sweep m test xs) = sweep m test xs := by
  have kept := length_kept test (xs.take m)
  rw [List.length_take] at kept
  apply sweep_idle
  intro x member
  have left : x ∈ (xs.take m).filter fun x => !test x := by
    rcases le_total m xs.length with inside | beyond
    · rw [min_eq_left inside] at kept
      have short : n ≤ ((xs.take m).filter fun x => !test x).length := by omega
      rw [sweep, List.take_append_of_le_length short] at member
      exact List.mem_of_mem_take member
    · rw [sweep, List.drop_eq_nil_of_le beyond, List.append_nil] at member
      exact List.mem_of_mem_take member
  simpa using (List.mem_filter.mp left).2

theorem sweep_beyond {n m : ℕ} {test : α → Bool} {xs : List α} (within : m ≤ n + (xs.take m).countP test) :
    sweep n test (sweep m test xs) = sweep (n + (xs.take m).countP test) test xs := by
  have kept := length_kept test (xs.take m)
  have idle : ((xs.take m).filter fun x => !test x).filter (fun x => !test x) =
      (xs.take m).filter fun x => !test x := List.filter_filter.trans (by simp)
  rw [List.length_take] at kept
  rcases le_total m xs.length with inside | beyond
  · rw [min_eq_left inside] at kept
    have short : ((xs.take m).filter fun x => !test x).length ≤ n := by omega
    have rest : n + (xs.take m).countP test =
        m + (n - ((xs.take m).filter fun x => !test x).length) := by omega
    rw [rest]
    unfold sweep
    rw [List.take_append, List.drop_append, List.take_of_length_le short, List.drop_eq_nil_of_le short,
      List.filter_append, idle, List.nil_append, List.drop_drop, List.append_assoc, List.take_add,
      List.filter_append, List.append_assoc]
  · rw [min_eq_right beyond] at kept
    have short : ((xs.take m).filter fun x => !test x).length ≤ n := by omega
    have far : xs.length ≤ n + (xs.take m).countP test := beyond.trans within
    unfold sweep
    rw [List.drop_eq_nil_of_le beyond, List.append_nil, List.take_of_length_le short,
      List.drop_eq_nil_of_le short, idle, List.take_of_length_le beyond, List.take_of_length_le,
      List.drop_eq_nil_of_le]
    · rwa [List.take_of_length_le beyond] at far
    · rwa [List.take_of_length_le beyond] at far

theorem sweep_sweep (n m : ℕ) (test : α → Bool) (xs : List α) :
    sweep n test (sweep m test xs) = sweep (max m (n + (xs.take m).countP test)) test xs := by
  rcases le_total m (n + (xs.take m).countP test) with beyond | within
  · rw [max_eq_right beyond, sweep_beyond beyond]
  · rw [max_eq_left within, sweep_within within]

theorem sweep_iterate (reach : List α → ℕ) (test : α → Bool) (xs : List α) (k : ℕ) :
    (fun left => sweep (reach left) test left)^[k] xs = sweep (frontier reach test xs k) test xs := by
  induction k with
  | zero => simp [sweep, frontier]
  | succ k ih =>
    rw [Function.iterate_succ_apply', ih]
    exact sweep_sweep _ _ test xs

theorem mem_sweep {n : ℕ} {test : α → Bool} {xs : List α} {x : α} :
    x ∈ sweep n test xs ↔ (x ∈ xs.take n ∧ test x = false) ∨ x ∈ xs.drop n := by
  simp [sweep]

theorem mem_sweep_of_test {n : ℕ} {test : α → Bool} {xs : List α} {x : α} (holds : test x = true) :
    x ∈ sweep n test xs ↔ x ∈ xs.drop n := by
  simp [sweep, holds]

theorem frontier_stuck {n : ℕ} {reach : List α → ℕ} {test : α → Bool} {xs ys : List α}
    (short : ∀ left, reach left ≤ n) (idle : ∀ x ∈ xs, test x = false) (long : n ≤ xs.length) (k : ℕ) :
    frontier reach test (xs ++ ys) k ≤ n := by
  induction k with
  | zero => exact Nat.zero_le n
  | succ k ih =>
    have none : ((xs ++ ys).take (frontier reach test (xs ++ ys) k)).countP test = 0 := by
      rw [List.take_append_of_le_length (ih.trans long), List.countP_eq_zero]
      intro x member
      simp [idle x (List.mem_of_mem_take member)]
    rw [frontier, none, Nat.add_zero]
    exact max_le ih (short _)

theorem takeWhile_range_spec (test : ℕ → Bool) (n : ℕ) :
    ((List.range n).takeWhile test).length ≤ n ∧ (∀ j < ((List.range n).takeWhile test).length, test j = true) ∧
      (((List.range n).takeWhile test).length < n → test ((List.range n).takeWhile test).length = false) := by
  induction n with
  | zero => simp
  | succ n ih =>
    obtain ⟨within, passed, ends⟩ := ih
    rw [List.range_succ, List.takeWhile_append, List.length_range]
    split
    · next all =>
      rw [all] at passed
      cases here : test n with
      | false => simpa [here] using passed
      | true =>
        have whole : ∀ j < n + 1, test j = true := by
          intro j before
          rcases Nat.lt_succ_iff_lt_or_eq.mp before with earlier | rfl
          · exact passed j earlier
          · exact here
        simpa [here] using whole
    · next short => exact ⟨within.trans n.le_succ, passed, fun _ => ends (lt_of_le_of_ne within short)⟩

end Kit
