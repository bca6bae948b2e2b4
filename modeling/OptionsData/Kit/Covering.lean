import Mathlib

namespace Kit

structure Piece (α : Type*) where
  first : α
  last : α

variable {α : Type*} [LinearOrder α] {pieces : List (Piece α)}

def Piece.Holds (p : Piece α) (x : α) : Prop := p.first ≤ x ∧ x ≤ p.last

def Forward (pieces : List (Piece α)) : Prop :=
  pieces.Pairwise fun p q => p.first ≤ q.first ∧ p.last ≤ q.last

/-- Each listed point from the first piece on to the last one lies in some piece. -/
def Covers (listed : α → Prop) (pieces : List (Piece α)) : Prop :=
  ∀ x, listed x → (∃ p ∈ pieces, p.first ≤ x) → (∃ p ∈ pieces, x ≤ p.last) → ∃ p ∈ pieces, p.Holds x

def Meets (listed : α → Prop) (p q : Piece α) : Prop := ∀ x, listed x → p.last < x → q.first ≤ x

theorem Covers.meets {listed : α → Prop} {before after : List (Piece α)} {p q : Piece α}
    (forward : Forward (before ++ p :: q :: after)) (proper : ∀ r ∈ before ++ p :: q :: after, r.first ≤ r.last)
    (covers : Covers listed (before ++ p :: q :: after)) : Meets listed p q := by
  intro x isListed past
  by_contra early
  rw [not_le] at early
  have memP : p ∈ before ++ p :: q :: after := by simp
  have memQ : q ∈ before ++ p :: q :: after := by simp
  obtain ⟨r, member, low, high⟩ := covers x isListed ⟨p, memP, (proper p memP).trans past.le⟩
    ⟨q, memQ, early.le.trans (proper q memQ)⟩
  obtain ⟨-, later, earlier⟩ := List.pairwise_append.mp forward
  have afterQ := (List.pairwise_cons.mp (List.pairwise_cons.mp later).2).1
  rcases List.mem_append.mp member with old | new
  · exact absurd (high.trans (earlier r old p (by simp)).2) (not_le.mpr past)
  · rcases List.mem_cons.mp new with rfl | new
    · exact absurd high (not_le.mpr past)
    · rcases List.mem_cons.mp new with rfl | new
      · exact absurd low (not_le.mpr early)
      · exact absurd ((afterQ r new).1.trans low) (not_le.mpr early)

theorem covers_of_meets {listed : α → Prop} (forward : Forward pieces)
    (chained : pieces.IsChain (Meets listed)) : Covers listed pieces := by
  intro x isListed reached ends
  induction pieces with
  | nil => exact absurd reached (by simp)
  | cons p rest ih =>
    obtain ⟨ahead, forward⟩ := List.pairwise_cons.mp forward
    rcases le_or_gt x p.last with inside | past
    · refine ⟨p, List.mem_cons_self, ?_, inside⟩
      obtain ⟨q, member, low⟩ := reached
      rcases List.mem_cons.mp member with rfl | member
      · exact low
      · exact (ahead q member).1.trans low
    · have later : ∃ q ∈ rest, x ≤ q.last := by
        obtain ⟨q, member, high⟩ := ends
        rcases List.mem_cons.mp member with rfl | member
        · exact absurd high (not_le.mpr past)
        · exact ⟨q, member, high⟩
      cases rest with
      | nil => exact absurd later (by simp)
      | cons q rest =>
        obtain ⟨meets, chained⟩ := List.isChain_cons_cons.mp chained
        obtain ⟨r, member, holds⟩ :=
          ih forward chained ⟨q, List.mem_cons_self, meets x isListed past⟩ later
        exact ⟨r, List.mem_cons_of_mem _ member, holds⟩

/-- Pieces that only move forward cover the listed points between their ends exactly when each meets the next. -/
theorem covers_iff {listed : α → Prop} (forward : Forward pieces) (proper : ∀ p ∈ pieces, p.first ≤ p.last) :
    Covers listed pieces ↔ pieces.IsChain (Meets listed) := by
  constructor
  · intro covers
    rw [List.isChain_iff_forall_rel_of_append_cons_cons]
    intro p q before after same
    subst same
    exact covers.meets forward proper
  · exact covers_of_meets forward

end Kit
