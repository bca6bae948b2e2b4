import OptionsData.Kit.Ordered

namespace Kit

variable {ρ κ : Type*}

def page (rows : List ρ) (offset limit : ℕ) : List ρ := (rows.drop offset).take limit

/-- Asks for page after page until one is short; a refused page ends it with nothing. -/
def collect (answer : ℕ → Option (List ρ)) (limit : ℕ) : ℕ → ℕ → Option (List ρ)
  | 0, _ => none
  | fuel + 1, k => (answer k).bind fun rows =>
    if rows.length < limit then some rows else (collect answer limit fuel (k + 1)).map fun more => rows ++ more

theorem collect_pages {answer : ℕ → Option (List ρ)} {limit fuel k j : ℕ} {all one two : List ρ}
    (collected : collect answer limit fuel k = some all) (from_ : k ≤ j)
    (full : ∀ i, k ≤ i → i ≤ j → ∀ rows, answer i = some rows → limit ≤ rows.length)
    (first : answer j = some one) (second : answer (j + 1) = some two) : (one ++ two).Sublist all := by
  induction fuel generalizing k all with
  | zero => cases collected
  | succ fuel ih =>
    obtain ⟨rows, answered, rest⟩ := Option.bind_eq_some_iff.mp collected
    have long := full k le_rfl from_ rows answered
    rw [if_neg (Nat.not_lt.mpr long)] at rest
    obtain ⟨more, later, rfl⟩ := Option.map_eq_some_iff.mp rest
    rcases Nat.eq_or_lt_of_le from_ with rfl | before
    · cases answered.symm.trans first
      refine List.Sublist.append_left ?_ one
      cases fuel with
      | zero => cases later
      | succ fuel =>
        obtain ⟨rows, answered, rest⟩ := Option.bind_eq_some_iff.mp later
        cases answered.symm.trans second
        split at rest
        · cases rest
          exact List.Sublist.refl _
        · obtain ⟨tail, -, rfl⟩ := Option.map_eq_some_iff.mp rest
          exact List.sublist_append_left _ _
    · exact (ih later before fun i low => full i (by omega)).trans (List.sublist_append_right _ _)

variable [LinearOrder κ] {key : ρ → κ} {rows : List ρ}

/-- An order in which a database may return the rows under ORDER BY. -/
def Arranges (key : ρ → κ) (rows arranged : List ρ) : Prop := arranged.Perm rows ∧ Ordered key arranged

def TiedAt (key : ρ → κ) (rows : List ρ) (position : ℕ) : Prop :=
  ∃ x, rows.countP (fun row => key row < x) < position ∧ position < rows.countP (fun row => key row ≤ x)

theorem countP_le_eq (rows : List ρ) (x : κ) :
    rows.countP (fun row => key row ≤ x) =
      rows.countP (fun row => key row < x) + rows.countP (fun row => key row = x) := by
  induction rows with
  | nil => rfl
  | cons row rows ih =>
    simp only [List.countP_cons, ih, decide_eq_true_eq]
    rcases lt_trichotomy (key row) x with less | same | more
    · simp only [less, less.le, less.ne, if_true, if_false]
      omega
    · simp only [same, le_refl, lt_irrefl, if_true, if_false]
      omega
    · simp only [not_le.mpr more, not_lt.mpr more.le, more.ne', if_false]
      omega

theorem not_tiedAt_of_distinct (distinct : (rows.map key).Nodup) (position : ℕ) : ¬ TiedAt key rows position := by
  intro premise
  rcases premise with ⟨x, below, above⟩
  have single := List.nodup_iff_count_le_one.mp distinct x
  rw [List.count, List.countP_map] at single
  have same : rows.countP ((fun y => y == x) ∘ key) = rows.countP fun row => key row = x := rfl
  have split : rows.countP (fun row => key row ≤ x) =
      rows.countP (fun row => key row < x) + rows.countP (fun row => key row = x) := countP_le_eq rows x
  omega

theorem Ordered.front_le {front rest : List ρ} {x : ρ} (ordered : Ordered key (front ++ x :: rest)) {y : ρ}
    (member : y ∈ front ++ [x]) : key y ≤ key x := by
  rcases List.mem_append.mp member with before | here
  · exact (List.pairwise_append.mp ordered).2.2 y before x (by simp)
  · rw [List.mem_singleton.mp here]

theorem Ordered.le_rest {front rest : List ρ} {x : ρ} (ordered : Ordered key (front ++ x :: rest)) {y : ρ}
    (member : y ∈ x :: rest) : key x ≤ key y := by
  rcases List.mem_cons.mp member with rfl | after
  · exact le_rfl
  · exact (List.pairwise_cons.mp (List.pairwise_append.mp ordered).2.1).1 y after

theorem Ordered.swap {front rest : List ρ} {x y : ρ} (ordered : Ordered key (front ++ x :: y :: rest))
    (tied : key x = key y) : Ordered key (front ++ y :: x :: rest) := by
  have same : (front ++ y :: x :: rest).map key = (front ++ x :: y :: rest).map key := by simp [tied]
  unfold Ordered
  rw [← List.pairwise_map, same, List.pairwise_map]
  exact ordered

theorem Ordered.filter_eq_take {arranged : List ρ} (ordered : Ordered key arranged) (x : κ) :
    arranged.filter (fun row => key row ≤ x) = arranged.take (arranged.countP fun row => key row ≤ x) := by
  induction arranged with
  | nil => rfl
  | cons row arranged ih =>
    obtain ⟨first, rest⟩ := List.pairwise_cons.mp ordered
    by_cases small : key row ≤ x
    · rw [List.filter_cons_of_pos (by simpa using small), List.countP_cons_of_pos (by simpa using small),
        List.take_succ_cons, ih rest]
    · have none : arranged.countP (fun row => key row ≤ x) = 0 := by
        rw [List.countP_eq_zero]
        intro other member
        simpa using (lt_of_not_ge small).trans_le (first other member)
      rw [List.filter_cons_of_neg (by simpa using small), List.countP_cons_of_neg (by simpa using small), none,
        ih rest, none, List.take_zero, List.take_zero]

theorem split_at {arranged : List ρ} {position : ℕ} (positive : 0 < position) (within : position ≤ arranged.length) :
    ∃ front x rest, arranged = front ++ x :: rest ∧ front.length + 1 = position := by
  have inside : position - 1 < arranged.length := by omega
  refine ⟨arranged.take (position - 1), arranged[position - 1], arranged.drop (position - 1 + 1), ?_, ?_⟩
  · rw [← List.drop_eq_getElem_cons inside, List.take_append_drop]
  · rw [List.length_take]
    omega

theorem take_perm {arranged other : List ρ} (one : Arranges key rows arranged) (two : Arranges key rows other)
    {position : ℕ} (free : ¬ TiedAt key rows position) : (arranged.take position).Perm (other.take position) := by
  have perm : arranged.Perm other := one.1.trans two.1.symm
  rcases Nat.eq_zero_or_pos position with rfl | positive
  · simp
  rcases Nat.lt_or_ge arranged.length position with beyond | within
  · rw [List.take_of_length_le beyond.le, List.take_of_length_le (perm.length_eq ▸ beyond.le)]
    exact perm
  · obtain ⟨front, x, rest, rfl, size⟩ := split_at positive within
    have below : rows.countP (fun row => key row < key x) < position := by
      have later : (x :: rest).countP (fun row => key row < key x) = 0 := by
        rw [List.countP_eq_zero]
        intro row member
        simpa using one.2.le_rest member
      have few := List.countP_le_length (p := fun row => decide (key row < key x)) (l := front)
      rw [← one.1.countP_eq, List.countP_append, later]
      omega
    have above : position ≤ rows.countP (fun row => key row ≤ key x) := by
      have early : (front ++ [x]).countP (fun row => key row ≤ key x) = (front ++ [x]).length := by
        rw [List.countP_eq_length]
        intro row member
        simpa using one.2.front_le member
      have part : (front ++ [x]).Sublist (front ++ x :: rest) := by simp
      have counted := part.countP_le (p := fun row => decide (key row ≤ key x))
      rw [early, List.length_append, List.length_singleton, size, one.1.countP_eq] at counted
      exact counted
    have exact_ : rows.countP (fun row => key row ≤ key x) = position :=
      le_antisymm (Nat.not_lt.mp fun more => free ⟨key x, below, more⟩) above
    have taken {list : List ρ} (arranges : Arranges key rows list) :
        list.take position = list.filter fun row => key row ≤ key x := by
      rw [arranges.2.filter_eq_take, arranges.1.countP_eq, exact_]
    rw [taken one, taken two]
    exact perm.filter _

theorem tied_neighbours {arranged : List ρ} {position : ℕ} (arranges : Arranges key rows arranged)
    (tied : TiedAt key rows position) :
    ∃ front x y rest, arranged = front ++ x :: y :: rest ∧ front.length + 1 = position ∧ key x = key y := by
  rcases tied with ⟨z, below, above⟩
  rw [← arranges.1.countP_eq] at below above
  have room := List.countP_le_length (p := fun row => decide (key row ≤ z)) (l := arranged)
  obtain ⟨front, x, rest, rfl, size⟩ := split_at (by omega) (above.le.trans room)
  cases rest with
  | nil =>
    rw [List.length_append, List.length_singleton] at room
    omega
  | cons y rest =>
    have regrouped : front ++ x :: y :: rest = (front ++ [x]) ++ y :: rest := by simp
    have atLeast : z ≤ key x := by
      by_contra small
      have early : (front ++ [x]).countP (fun row => key row < z) = (front ++ [x]).length := by
        rw [List.countP_eq_length]
        intro row member
        simpa using (arranges.2.front_le member).trans_lt (not_le.mp small)
      have counted := (List.sublist_append_left (front ++ [x]) (y :: rest)).countP_le
        (p := fun row => decide (key row < z))
      rw [early, ← regrouped, List.length_append, List.length_singleton] at counted
      omega
    have atMost : key y ≤ z := by
      by_contra large
      have later : (y :: rest).countP (fun row => key row ≤ z) = 0 := by
        rw [List.countP_eq_zero]
        intro row member
        rw [regrouped] at arranges
        simpa using (not_le.mp large).trans_le (arranges.2.le_rest member)
      have few := List.countP_le_length (p := fun row => decide (key row ≤ z)) (l := front ++ [x])
      rw [regrouped, List.countP_append, later] at above
      rw [List.length_append, List.length_singleton] at few
      omega
    have ordered : key x ≤ key y := arranges.2.le_rest (by simp)
    exact ⟨front, x, y, rest, rfl, size, le_antisymm ordered (atMost.trans atLeast)⟩

theorem arranges_swap {front rest : List ρ} {x y : ρ} (arranges : Arranges key rows (front ++ x :: y :: rest))
    (tied : key x = key y) : Arranges key rows (front ++ y :: x :: rest) :=
  ⟨((List.Perm.swap x y rest).append_left front).trans arranges.1, arranges.2.swap tied⟩

theorem page_length (rows : List ρ) (offset limit : ℕ) :
    (page rows offset limit).length = min limit (rows.length - offset) := by
  rw [page, List.length_take, List.length_drop]

theorem page_perm {limit k : ℕ} (free : ∀ j, ¬ TiedAt key rows (j * limit)) {arranged whole : List ρ}
    (arranges : Arranges key rows arranged) (one : Arranges key rows whole) :
    (page arranged (k * limit) limit).Perm (page whole (k * limit) limit) := by
  have before := take_perm arranges one (free k)
  have through := take_perm arranges one (free (k + 1))
  rw [Nat.succ_mul, List.take_add, List.take_add] at through
  exact (List.perm_append_left_iff _).mp ((before.symm.append_right _).trans through)

theorem collect_perm {limit : ℕ} (free : ∀ j, ¬ TiedAt key rows (j * limit))
    {arranged : ℕ → List ρ} (arranges : ∀ k, Arranges key rows (arranged k)) {whole : List ρ}
    (one : Arranges key rows whole) {fuel k : ℕ} (reached : k * limit ≤ rows.length)
    (enough : rows.length < (fuel + k) * limit) :
    ∃ all, collect (fun k => some (page (arranged k) (k * limit) limit)) limit fuel k = some all ∧
      all.Perm (whole.drop (k * limit)) := by
  induction fuel generalizing k with
  | zero =>
    rw [Nat.zero_add] at enough
    omega
  | succ fuel ih =>
    have size := page_length (arranged k) (k * limit) limit
    rw [(arranges k).1.length_eq] at size
    have same : (page (arranged k) (k * limit) limit).Perm (page whole (k * limit) limit) :=
      page_perm free (arranges k) one
    rw [collect, Option.bind_some]
    split
    · next short =>
      have all : page whole (k * limit) limit = whole.drop (k * limit) := by
        apply List.take_of_length_le
        rw [List.length_drop, one.1.length_eq]
        omega
      exact ⟨_, rfl, all ▸ same⟩
    · next long =>
      have next : (k + 1) * limit ≤ rows.length := by
        rw [Nat.succ_mul]
        omega
      have count : fuel + 1 + k = fuel + (k + 1) := by omega
      obtain ⟨more, collected, perm⟩ := ih next (count ▸ enough)
      refine ⟨page (arranged k) (k * limit) limit ++ more, by rw [collected, Option.map_some], ?_⟩
      have split : whole.drop (k * limit) = page whole (k * limit) limit ++ whole.drop ((k + 1) * limit) := by
        rw [Nat.succ_mul, ← List.drop_drop, page, List.take_append_drop]
      rw [split]
      exact same.append perm

/-- Every choice of the database gives all rows once exactly if no tie stands across a page boundary. -/
theorem collect_complete_iff {limit : ℕ} (positive : 0 < limit) (distinct : rows.Nodup) :
    (∀ arranged : ℕ → List ρ, (∀ k, Arranges key rows (arranged k)) → ∃ fuel all,
      collect (fun k => some (page (arranged k) (k * limit) limit)) limit fuel 0 = some all ∧ all.Perm rows) ↔
      ∀ j, ¬ TiedAt key rows (j * limit) := by
  have base : Arranges key rows (orderBy key rows) := ⟨orderBy_perm key rows, orderBy_ordered key rows⟩
  constructor
  · intro complete j tied
    obtain ⟨front, x, y, rest, sorted, size, equal⟩ := tied_neighbours base tied
    cases j with
    | zero => omega
    | succ j =>
      rw [sorted] at base
      have swapped := arranges_swap base equal
      let arranged (k : ℕ) : List ρ := if k = j + 1 then front ++ y :: x :: rest else front ++ x :: y :: rest
      have arranges (k : ℕ) : Arranges key rows (arranged k) := by
        by_cases here : k = j + 1 <;> simp [arranged, here, base, swapped]
      obtain ⟨fuel, all, collected, perm⟩ := complete arranged arranges
      have full (i : ℕ) (_ : 0 ≤ i) (early : i ≤ j) (rows' : List ρ)
          (answered : some (page (arranged i) (i * limit) limit) = some rows') : limit ≤ rows'.length := by
        cases answered
        have room : (i + 1) * limit ≤ (j + 1) * limit := Nat.mul_le_mul_right _ (by omega)
        have long : front.length + 2 ≤ (arranged i).length := by
          simp [arranged, show i ≠ j + 1 by omega]
        rw [page_length]
        rw [Nat.succ_mul i] at room
        omega
      have part := collect_pages collected (Nat.zero_le j) full rfl rfl
      have once := part.nodup (perm.nodup_iff.mpr distinct)
      have first : x ∈ page (arranged j) (j * limit) limit := by
        have here : arranged j = front ++ x :: y :: rest := if_neg (by omega)
        have last : j * limit + (front.length - j * limit) = front.length := by
          rw [Nat.succ_mul] at size
          omega
        apply List.mem_of_getElem? (i := front.length - j * limit)
        rw [Nat.succ_mul] at size
        rw [page, here, List.getElem?_take, if_pos (by omega), List.getElem?_drop, last]
        simp
      have second : x ∈ page (arranged (j + 1)) ((j + 1) * limit) limit := by
        have here : arranged (j + 1) = (front ++ [y]) ++ x :: rest := by simp [arranged]
        rw [page, here, ← size, List.drop_append_of_le_length (by simp), List.drop_of_length_le (by simp),
          List.nil_append]
        exact List.mem_take_iff_getElem.mpr ⟨0, by simpa using positive, rfl⟩
      exact (List.nodup_append.mp once).2.2 x first x second rfl
  · intro free arranged arranges
    have enough : rows.length < (rows.length + 1 + 0) * limit := by
      have grows := Nat.le_mul_of_pos_right (rows.length + 1) positive
      rw [Nat.add_zero]
      omega
    obtain ⟨all, collected, perm⟩ := collect_perm free arranges base (by simp) enough
    rw [Nat.zero_mul, List.drop_zero] at perm
    exact ⟨rows.length + 1, all, collected, perm.trans base.1⟩

end Kit
