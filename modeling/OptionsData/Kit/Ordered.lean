import Mathlib

namespace Kit

variable {ρ κ : Type*} [LinearOrder κ]

def Ordered (key : ρ → κ) (rows : List ρ) : Prop := rows.Pairwise fun a b => key a ≤ key b

/-- The rows of a query under ORDER BY, with ties in an arbitrary but fixed order. -/
def orderBy (key : ρ → κ) (rows : List ρ) : List ρ := rows.insertionSort fun a b => key a ≤ key b

theorem orderBy_perm (key : ρ → κ) (rows : List ρ) : (orderBy key rows).Perm rows :=
  List.perm_insertionSort _ _

theorem orderBy_ordered (key : ρ → κ) (rows : List ρ) : Ordered key (orderBy key rows) := by
  have total : Std.Total fun a b : ρ => key a ≤ key b := ⟨fun a b => le_total (key a) (key b)⟩
  have transitive : IsTrans ρ fun a b : ρ => key a ≤ key b := ⟨fun _ _ _ => le_trans⟩
  exact List.pairwise_insertionSort _ rows

theorem Ordered.strict {key : ρ → κ} {rows : List ρ} (ordered : Ordered key rows)
    (distinct : (rows.map key).Nodup) : rows.Pairwise fun a b => key a < key b := by
  have different : rows.Pairwise fun a b => key a ≠ key b := List.pairwise_map.mp distinct
  exact (ordered.and different).imp fun both => lt_of_le_of_ne both.1 both.2

theorem Ordered.eq_of_perm {key : ρ → κ} {rows other : List ρ} (ordered : Ordered key rows)
    (ordered' : Ordered key other) (perm : rows.Perm other) (distinct : (rows.map key).Nodup) : rows = other := by
  have same (a b : ρ) (one : a ∈ rows) (two : b ∈ other) (le : key a ≤ key b) (ge : key b ≤ key a) : a = b :=
    List.inj_on_of_nodup_map distinct one (perm.symm.subset two) (le_antisymm le ge)
  exact List.Perm.eq_of_pairwise same ordered ordered' perm

theorem orderBy_eq {key : ρ → κ} {rows arrangement : List ρ} (ordered : Ordered key arrangement)
    (perm : rows.Perm arrangement) (distinct : (rows.map key).Nodup) : orderBy key rows = arrangement := by
  have sorted := (orderBy_perm key rows).trans perm
  have unique : ((orderBy key rows).map key).Nodup := (((orderBy_perm key rows).map key).nodup_iff).mpr distinct
  exact (orderBy_ordered key rows).eq_of_perm ordered sorted unique

end Kit
