import OptionsData.Ingestion.GapDetection

namespace OptionsProof.MaximalGaps

open Kit OptionsModel OptionsProof.GapDetection

variable {z : Zone} {existing : Finset ℤ} {start stop t : ℤ} {g : Gap}

def Covers (g : Gap) (t : ℤ) : Prop := g.start ≤ t ∧ t ≤ g.stop

/-- A stretch of consecutive expected minutes, none of them stored, with a stored minute or an end on either side. -/
def Spans (z : Zone) (existing : Finset ℤ) (start stop : ℤ) (g : Gap) (r : List ℤ) : Prop :=
  (∃ before after, MaximalRun (fun minute => minute ∉ existing) (expectedBarMinutes z start stop) before r after) ∧
    r.head? = some g.start ∧ r.getLast? = some g.stop

structure ListsMaximalGaps (z : Zone) (existing : Finset ℤ) (start stop : ℤ) (gaps : List Gap) : Prop where
  expected : (expectedBarMinutes z start stop).Pairwise (· < ·)
  maximal : ∀ g, g ∈ gaps ↔ ∃ r, Spans z existing start stop g r
  forward : ∀ g ∈ gaps, g.start ≤ g.stop
  increasing : gaps.Pairwise fun g h => g.stop < h.start
  present : ∀ t ∈ expectedBarMinutes z start stop, t ∈ existing → ∀ g ∈ gaps, ¬ Covers g t
  absent : ∀ t ∈ expectedBarMinutes z start stop, t ∉ existing → ∃! g, g ∈ gaps ∧ Covers g t

theorem gapOf_eq {r : List ℤ} (first : r.head? = some g.start) (last : r.getLast? = some g.stop) : gapOf r = g := by
  rw [gapOf, List.headD_eq_head?_getD, List.getLastD_eq_getLast?, first, last]
  rfl

theorem mem_findGaps_iff (quiet : z.QuietAt InSession) :
    g ∈ findGaps z existing start stop 1 ↔ ∃ r, Spans z existing start stop g r := by
  rw [findGaps_one quiet, List.mem_map]
  constructor
  · intro premise
    obtain ⟨r, member, rfl⟩ := premise
    obtain ⟨before, after, run⟩ := mem_runs member
    obtain ⟨first, rest, rfl⟩ := List.exists_cons_of_ne_nil run.nonempty
    refine ⟨_, ⟨before, after, run⟩, rfl, ?_⟩
    rw [gapOf, List.getLastD_cons, List.getLast?_cons, List.getLastD_eq_getLast?]
  · intro premise
    obtain ⟨r, ⟨before, after, run⟩, first, last⟩ := premise
    exact ⟨r, run.mem_runs, gapOf_eq first last⟩

theorem gap_ends (quiet : z.QuietAt InSession) (listed : g ∈ findGaps z existing start stop 1) :
    ∃ r ∈ runs (fun minute => minute ∉ existing) (expectedBarMinutes z start stop),
      gapOf r = g ∧ g.start ∈ r ∧ g.stop ∈ r ∧ ∀ t ∈ r, Covers g t := by
  rw [findGaps_one quiet] at listed
  obtain ⟨r, member, rfl⟩ := List.mem_map.mp listed
  obtain ⟨nonempty, sorted⟩ := runs_sorted quiet member
  exact ⟨r, member, rfl, gapOf_ends nonempty sorted⟩

theorem findGaps_increasing (quiet : z.QuietAt InSession) :
    (findGaps z existing start stop 1).Pairwise fun g h => g.stop < h.start := by
  rw [findGaps_one quiet, List.pairwise_map]
  apply (runs_ordered (expectedBarMinutes_sorted quiet)).imp_of_mem
  intro r s member member' before
  obtain ⟨nonempty, sorted⟩ := runs_sorted quiet member
  obtain ⟨nonempty', sorted'⟩ := runs_sorted quiet member'
  exact before _ (gapOf_ends nonempty sorted).2.1 _ (gapOf_ends nonempty' sorted').1

theorem covered_missing (quiet : z.QuietAt InSession) (expected : t ∈ expectedBarMinutes z start stop)
    (listed : g ∈ findGaps z existing start stop 1) (inside : Covers g t) : t ∉ existing := by
  obtain ⟨r, member, -, first, last, -⟩ := gap_ends quiet listed
  obtain ⟨before, after, run⟩ := mem_runs member
  have held := run.convex (expectedBarMinutes_sorted quiet) first last expected inside.1 inside.2
  exact of_decide_eq_true (run.passes t held)

theorem covering_unique (quiet : z.QuietAt InSession) {h : Gap} (listed : g ∈ findGaps z existing start stop 1)
    (listed' : h ∈ findGaps z existing start stop 1) (inside : Covers g t) (inside' : Covers h t) : g = h := by
  have apart : (findGaps z existing start stop 1).Pairwise fun g h => g.stop < h.start ∨ h.stop < g.start :=
    (findGaps_increasing quiet).imp Or.inl
  have symmetric : Std.Symm fun g h : Gap => g.stop < h.start ∨ h.stop < g.start := ⟨fun _ _ => Or.symm⟩
  by_contra other
  unfold Covers at inside inside'
  rcases apart.forall listed listed' other with before | after <;> omega

theorem missing_covered (quiet : z.QuietAt InSession) (expected : t ∈ expectedBarMinutes z start stop)
    (absent : t ∉ existing) : ∃ g ∈ findGaps z existing start stop 1, Covers g t := by
  obtain ⟨r, member, held⟩ : ∃ r ∈ runs (fun minute => decide (minute ∉ existing))
      (expectedBarMinutes z start stop), t ∈ r := exists_run expected (decide_eq_true absent)
  obtain ⟨nonempty, sorted⟩ := runs_sorted quiet member
  rw [findGaps_one quiet]
  exact ⟨gapOf r, List.mem_map_of_mem member, (gapOf_ends nonempty sorted).2.2 t held⟩

theorem findGaps_maximal (quiet : z.QuietAt InSession) (existing : Finset ℤ) (start stop : ℤ) :
    ListsMaximalGaps z existing start stop (findGaps z existing start stop 1) where
  expected := expectedBarMinutes_sorted quiet
  maximal _ := mem_findGaps_iff quiet
  forward g listed := by
    obtain ⟨r, -, -, -, last, between⟩ := gap_ends quiet listed
    exact (between _ last).1
  increasing := findGaps_increasing quiet
  present t expected stored g listed inside := covered_missing quiet expected listed inside stored
  absent t expected missing := by
    obtain ⟨g, listed, inside⟩ := missing_covered quiet expected missing
    exact ⟨g, ⟨listed, inside⟩, fun h other => covering_unique quiet other.1 listed other.2 inside⟩

/-- A Thursday in winter, with one minute of the afternoon stored. -/
theorem findGaps_maximal_at : ListsMaximalGaps standardTime {1768507320000000} 1768507200000000 1768507500000000
    [⟨1768507200000000, 1768507260000000⟩, ⟨1768507380000000, 1768507500000000⟩] := by
  have found : findGaps standardTime {1768507320000000} 1768507200000000 1768507500000000 1 =
    [⟨1768507200000000, 1768507260000000⟩, ⟨1768507380000000, 1768507500000000⟩] := by decide +kernel
  rw [← found]
  exact findGaps_maximal (standardTime_quiet _) _ _ _

end OptionsProof.MaximalGaps
