import Mathlib

namespace Kit

variable {σ α : Type*}

def run (step : σ → α → Option σ) (s : σ) (actions : List α) : Option σ :=
  actions.foldlM step s

@[simp] theorem run_nil (step : σ → α → Option σ) (s : σ) : run step s [] = some s := rfl

theorem run_cons (step : σ → α → Option σ) (s : σ) (a : α) (actions : List α) :
    run step s (a :: actions) = (step s a).bind fun t => run step t actions := by
  simp [run]

theorem run_append (step : σ → α → Option σ) (s : σ) (first second : List α) :
    run step s (first ++ second) = (run step s first).bind fun t => run step t second := by
  simp [run, List.foldlM_append]

theorem run_concat (step : σ → α → Option σ) (s : σ) (actions : List α) (a : α) :
    run step s (actions ++ [a]) = (run step s actions).bind fun t => step t a := by
  rw [run_append]
  congr 1
  funext t
  rw [run_cons]
  cases step t a <;> rfl

theorem run_cons_some {step : σ → α → Option σ} {s t : σ} {a : α} {actions : List α} :
    run step s (a :: actions) = some t ↔ ∃ u, step s a = some u ∧ run step u actions = some t := by
  rw [run_cons, Option.bind_eq_some_iff]

theorem run_append_some {step : σ → α → Option σ} {s t : σ} {first second : List α} :
    run step s (first ++ second) = some t ↔
      ∃ u, run step s first = some u ∧ run step u second = some t := by
  rw [run_append, Option.bind_eq_some_iff]

theorem run_concat_some {step : σ → α → Option σ} {s t : σ} {actions : List α} {a : α} :
    run step s (actions ++ [a]) = some t ↔
      ∃ u, run step s actions = some u ∧ step u a = some t := by
  rw [run_concat, Option.bind_eq_some_iff]

/-- Every action of the list is taken in a state that meets the guard. -/
def Guarded (step : σ → α → Option σ) (guard : σ → α → Prop) : σ → List α → Prop
  | _, [] => True
  | s, a :: actions => guard s a ∧ ∀ t, step s a = some t → Guarded step guard t actions

theorem Guarded.cons {step : σ → α → Option σ} {guard : σ → α → Prop} {s t : σ} {a : α} {actions : List α}
    (meets : guard s a) (taken : step s a = some t) (rest : Guarded step guard t actions) :
    Guarded step guard s (a :: actions) :=
  ⟨meets, fun _ same => Option.some.inj (taken.symm.trans same) ▸ rest⟩

instance Guarded.decidable {step : σ → α → Option σ} {guard : σ → α → Prop} [∀ s a, Decidable (guard s a)] :
    ∀ s actions, Decidable (Guarded step guard s actions)
  | _, [] => .isTrue trivial
  | s, a :: actions =>
    match taken : step s a with
    | none => decidable_of_iff (guard s a)
        ⟨fun meets => ⟨meets, fun _ same => nomatch taken.symm.trans same⟩, And.left⟩
    | some t =>
      have : Decidable (Guarded step guard t actions) := Guarded.decidable t actions
      decidable_of_iff (guard s a ∧ Guarded step guard t actions)
        ⟨fun meets => ⟨meets.1, fun _ same => Option.some.inj (taken.symm.trans same) ▸ meets.2⟩,
          fun meets => ⟨meets.1, meets.2 t taken⟩⟩

theorem run_guarded_invariant {step : σ → α → Option σ} {guard : σ → α → Prop} {holds : σ → Prop}
    (keep : ∀ s a t, holds s → guard s a → step s a = some t → holds t)
    {s t : σ} {actions : List α} (start : holds s) (guarded : Guarded step guard s actions)
    (reached : run step s actions = some t) : holds t := by
  induction actions generalizing s with
  | nil =>
    cases reached
    exact start
  | cons a actions ih =>
    obtain ⟨u, first, rest⟩ := run_cons_some.mp reached
    exact ih (keep s a u start guarded.1 first) (guarded.2 u first) rest

theorem guarded_of_forall {step : σ → α → Option σ} {guard : σ → α → Prop} {actions : List α}
    (always : ∀ a ∈ actions, ∀ s, guard s a) (s : σ) : Guarded step guard s actions := by
  induction actions generalizing s with
  | nil => trivial
  | cons a actions ih =>
    exact ⟨always a (by simp) s, fun t _ => ih (fun b member => always b (List.mem_cons_of_mem _ member)) t⟩

theorem guarded_of_invariant {step : σ → α → Option σ} {guard : σ → α → Prop} {holds : σ → Prop}
    {allowed : α → Prop} (meets : ∀ s a, holds s → allowed a → guard s a)
    (keep : ∀ s a t, holds s → allowed a → step s a = some t → holds t)
    {s : σ} {actions : List α} (start : holds s) (all : ∀ a ∈ actions, allowed a) :
    Guarded step guard s actions := by
  induction actions generalizing s with
  | nil => trivial
  | cons a actions ih =>
    have first := all a (by simp)
    exact ⟨meets s a start first, fun t taken =>
      ih (keep s a t start first taken) fun b member => all b (List.mem_cons_of_mem _ member)⟩

theorem guarded_congr {step : σ → α → Option σ} {first second : σ → α → Prop} (holds : σ → Prop)
    (allowed : α → Prop) (same : ∀ s a, holds s → allowed a → (first s a ↔ second s a))
    (keep : ∀ s a t, holds s → allowed a → step s a = some t → holds t)
    {s : σ} {actions : List α} (start : holds s) (all : ∀ a ∈ actions, allowed a) :
    Guarded step first s actions ↔ Guarded step second s actions := by
  induction actions generalizing s with
  | nil => exact Iff.rfl
  | cons a actions ih =>
    have now := same s a start (all a List.mem_cons_self)
    have later (t : σ) (taken : step s a = some t) : Guarded step first t actions ↔ Guarded step second t actions :=
      ih (keep s a t start (all a List.mem_cons_self) taken) fun b member => all b (List.mem_cons_of_mem _ member)
    exact and_congr now (forall₂_congr later)

/-- A step that keeps a record of what it does beside the state; the record has no effect on the step. -/
def withRecord {γ : Type*} (step : σ → α → Option σ) (record : σ → γ → α → γ) (s : σ × γ) (a : α) : Option (σ × γ) :=
  (step s.1 a).map fun t => (t, record s.1 s.2 a)

theorem withRecord_some {γ : Type*} {step : σ → α → Option σ} {record : σ → γ → α → γ} {s t : σ × γ} {a : α} :
    withRecord step record s a = some t ↔ step s.1 a = some t.1 ∧ t.2 = record s.1 s.2 a := by
  rw [withRecord, Option.map_eq_some_iff]
  constructor
  · intro premise
    obtain ⟨u, taken, rfl⟩ := premise
    exact ⟨taken, rfl⟩
  · intro premise
    exact ⟨t.1, premise.1, Prod.ext rfl premise.2.symm⟩

theorem run_invariant {step : σ → α → Option σ} {holds : σ → Prop}
    (keep : ∀ s a t, holds s → step s a = some t → holds t)
    {s t : σ} {actions : List α} (start : holds s) (reached : run step s actions = some t) : holds t :=
  run_guarded_invariant (fun s a t h _ => keep s a t h) start (guarded_of_forall (fun _ _ _ => trivial) s) reached

theorem Guarded.append {step : σ → α → Option σ} {guard : σ → α → Prop} {s : σ}
    {first second : List α} (guarded : Guarded step guard s (first ++ second)) :
    Guarded step guard s first ∧ ∀ t, run step s first = some t → Guarded step guard t second := by
  induction first generalizing s with
  | nil => exact ⟨trivial, fun t h => by cases h; exact guarded⟩
  | cons a first ih =>
    refine ⟨⟨guarded.1, fun t taken => (ih (guarded.2 t taken)).1⟩, fun t reached => ?_⟩
    obtain ⟨u, taken, rest⟩ := run_cons_some.mp reached
    exact (ih (guarded.2 u taken)).2 t rest

theorem Guarded.and {step : σ → α → Option σ} {first second : σ → α → Prop} {s : σ} {actions : List α}
    (one : Guarded step first s actions) (other : Guarded step second s actions) :
    Guarded step (fun s a => first s a ∧ second s a) s actions := by
  induction actions generalizing s with
  | nil => trivial
  | cons a actions ih => exact ⟨⟨one.1, other.1⟩, fun t taken => ih (one.2 t taken) (other.2 t taken)⟩

theorem Guarded.imp {step : σ → α → Option σ} {first second : σ → α → Prop} {s : σ} {actions : List α}
    (weaker : ∀ s, ∀ a ∈ actions, first s a → second s a) (guarded : Guarded step first s actions) :
    Guarded step second s actions := by
  induction actions generalizing s with
  | nil => trivial
  | cons a actions ih =>
    have later (u : σ) (b : α) (member : b ∈ actions) := weaker u b (List.mem_cons_of_mem a member)
    exact ⟨weaker s a List.mem_cons_self guarded.1, fun t taken => ih later (guarded.2 t taken)⟩

theorem run_guarded_history {step : σ → α → Option σ} {guard : σ → α → Prop} {s : σ}
    {holds : List α → σ → Prop} (start : holds [] s)
    (keep : ∀ past u a t, holds past u → guard u a → step u a = some t → holds (past ++ [a]) t)
    {t : σ} {actions : List α} (guarded : Guarded step guard s actions)
    (reached : run step s actions = some t) : holds actions t := by
  induction actions using List.reverseRecOn generalizing t with
  | nil =>
    cases reached
    exact start
  | append_singleton past a ih =>
    obtain ⟨u, before, last⟩ := run_concat_some.mp reached
    obtain ⟨earlier, later⟩ := guarded.append
    exact keep past u a t (ih earlier before) (later u before).1 last

theorem run_history {step : σ → α → Option σ} {s : σ} {holds : List α → σ → Prop}
    (start : holds [] s)
    (keep : ∀ past u a t, holds past u → step u a = some t → holds (past ++ [a]) t)
    {t : σ} {actions : List α} (reached : run step s actions = some t) : holds actions t :=
  run_guarded_history start (fun past u a t h _ => keep past u a t h)
    (guarded_of_forall (fun _ _ _ => trivial) s) reached

theorem concat_eq_append_cons {past first rest : List α} {a b : α} :
    past ++ [a] = first ++ b :: rest ↔
      (rest = [] ∧ first = past ∧ b = a) ∨ ∃ rest', rest = rest' ++ [a] ∧ past = first ++ b :: rest' := by
  constructor
  · intro same
    rcases List.eq_nil_or_concat rest with rfl | ⟨rest', last, rfl⟩
    · obtain ⟨rfl, single⟩ := List.append_inj' same rfl
      cases single
      exact .inl ⟨rfl, rfl, rfl⟩
    · have regrouped : past ++ [a] = (first ++ b :: rest') ++ [last] := by simpa using same
      obtain ⟨rfl, single⟩ := List.append_inj' regrouped rfl
      cases single
      exact .inr ⟨rest', List.concat_eq_append, rfl⟩
  · intro premise
    rcases premise with ⟨rfl, rfl, rfl⟩ | ⟨rest', rfl, rfl⟩
    · rfl
    · simp

/-- A state that only an opening action can make open, until a closing one: where the stretch it is in began. -/
theorem run_opened {step : σ → α → Option σ} {opens closes : α → Prop} {isOpen : σ → Prop} {s u : σ}
    {past : List α} (closed : ¬ isOpen s)
    (before : ∀ s a t, step s a = some t → isOpen t → opens a ∨ isOpen s ∧ ¬ closes a)
    (reached : run step s past = some u) (opened : isOpen u) :
    ∃ first a during v, past = first ++ a :: during ∧ opens a ∧ (∀ b ∈ during, ¬ closes b) ∧
      run step s first = some v ∧ run step v (a :: during) = some u := by
  induction past using List.reverseRecOn generalizing u with
  | nil =>
    cases reached
    exact absurd opened closed
  | append_singleton past a ih =>
    obtain ⟨w, earlier, taken⟩ := run_concat_some.mp reached
    rcases before w a u taken opened with opens | ⟨still, going⟩
    · exact ⟨past, a, [], w, rfl, opens, fun _ member => absurd member List.not_mem_nil, earlier,
        run_cons_some.mpr ⟨u, taken, rfl⟩⟩
    · obtain ⟨first, b, during, v, rfl, opens, quiet, began, waiting⟩ := ih earlier still
      refine ⟨first, b, during ++ [a], v, by simp, opens, fun c member => ?_, began, ?_⟩
      · rcases List.mem_append.mp member with earlier | last
        · exact quiet c earlier
        · rwa [List.mem_singleton.mp last]
      · rw [← List.cons_append]
        exact run_concat_some.mpr ⟨w, waiting, taken⟩

/-- What the actions of a run give out, in the order in which they are taken. -/
def outputs {β : Type*} (step : σ → α → Option σ) (output : σ → α → Option β) : σ → List α → List β
  | _, [] => []
  | s, a :: actions => (output s a).toList ++ (step s a).elim [] fun t => outputs step output t actions

theorem outputs_concat {β : Type*} {step : σ → α → Option σ} {output : σ → α → Option β} {s u : σ} {past : List α}
    (reached : run step s past = some u) (a : α) :
    outputs step output s (past ++ [a]) = outputs step output s past ++ (output u a).toList := by
  induction past generalizing s with
  | nil =>
    cases reached
    cases taken : step u a <;> simp [outputs, taken]
  | cons b past ih =>
    obtain ⟨t, first, rest⟩ := run_cons_some.mp reached
    simp only [List.cons_append, outputs, first, Option.elim_some, ih rest, List.append_assoc]

theorem guarded_iff_prefixes {step : σ → α → Option σ} {guard : σ → α → Prop} {s t : σ} {actions : List α}
    (reached : run step s actions = some t) :
    Guarded step guard s actions ↔
      ∀ past a rest u, actions = past ++ a :: rest → run step s past = some u → guard u a := by
  constructor
  · intro guarded past a rest u same before
    subst same
    exact (guarded.append.2 u before).1
  · intro all
    induction actions generalizing s with
    | nil => trivial
    | cons a actions ih =>
      obtain ⟨v, first, rest⟩ := run_cons_some.mp reached
      refine ⟨all [] a actions s rfl rfl, fun w taken => ?_⟩
      obtain rfl : w = v := Option.some.inj (taken.symm.trans first)
      exact ih rest fun past b later u same before =>
        all (a :: past) b later u (by rw [same, List.cons_append]) (run_cons_some.mpr ⟨w, first, before⟩)

/-- A property that each step keeps exactly if it meets a condition. -/
theorem run_guarded_iff {step : σ → α → Option σ} {guard meets : σ → α → Prop} {inside holds : σ → Prop}
    (keep : ∀ s a t, inside s → guard s a → step s a = some t → inside t ∧ (holds t ↔ holds s ∧ meets s a))
    {s t : σ} {actions : List α} (start : inside s) (guarded : Guarded step guard s actions)
    (reached : run step s actions = some t) : inside t ∧ (holds t ↔ holds s ∧ Guarded step meets s actions) := by
  induction actions generalizing s with
  | nil =>
    cases reached
    exact ⟨start, (and_iff_left trivial).symm⟩
  | cons a actions ih =>
    obtain ⟨u, first, rest⟩ := run_cons_some.mp reached
    obtain ⟨within, now⟩ := keep s a u start guarded.1 first
    obtain ⟨finish, later⟩ := ih within (guarded.2 u first) rest
    refine ⟨finish, later.trans ?_⟩
    rw [now, Guarded, and_assoc]
    refine and_congr_right fun _ => and_congr_right fun _ => ⟨fun all v taken => ?_, fun all => all u first⟩
    exact Option.some.inj (first.symm.trans taken) ▸ all

/-- A property that a step keeps exactly if it meets a condition holds all along a run exactly if all its steps do. -/
theorem run_always_guarded_iff {step : σ → α → Option σ} {guard meets : σ → α → Prop} {inside holds : σ → Prop}
    (keep : ∀ s a t, inside s → holds s → guard s a → step s a = some t →
      (holds t ↔ meets s a) ∧ (holds t → inside t))
    {s t : σ} {actions : List α} (start : inside s) (good : holds s) (guarded : Guarded step guard s actions)
    (reached : run step s actions = some t) :
    (∀ past rest u, actions = past ++ rest → run step s past = some u → holds u) ↔ Guarded step meets s actions := by
  induction actions generalizing s with
  | nil =>
    refine iff_of_true (fun past rest u same before => ?_) trivial
    obtain ⟨rfl, -⟩ := List.append_eq_nil_iff.mp same.symm
    cases before
    exact good
  | cons a actions ih =>
    obtain ⟨v, first, later⟩ := run_cons_some.mp reached
    obtain ⟨now, within⟩ := keep s a v start good guarded.1 first
    have still := guarded.2 v first
    constructor
    · intro always
      have kept := always [a] actions v rfl (run_cons_some.mpr ⟨v, first, rfl⟩)
      refine ⟨now.mp kept, fun w taken => ?_⟩
      obtain rfl : w = v := Option.some.inj (taken.symm.trans first)
      exact (ih (within kept) kept still later).mp fun past rest u same before =>
        always (a :: past) rest u (by rw [same, List.cons_append]) (run_cons_some.mpr ⟨w, first, before⟩)
    · intro all past rest u same before
      have kept := now.mpr all.1
      cases past with
      | nil =>
        cases before
        exact good
      | cons b past =>
        obtain ⟨rfl, rest_⟩ := List.cons_eq_cons.mp same
        obtain ⟨w, taken, before⟩ := run_cons_some.mp before
        obtain rfl : w = v := Option.some.inj (taken.symm.trans first)
        exact (ih (within kept) kept still later).mpr (all.2 w first) past rest u rest_ before

theorem run_always_iff {step : σ → α → Option σ} {meets : σ → α → Prop} {inside holds : σ → Prop}
    (keep : ∀ s a t, inside s → holds s → step s a = some t → (holds t ↔ meets s a) ∧ (holds t → inside t))
    {s t : σ} {actions : List α} (start : inside s) (good : holds s) (reached : run step s actions = some t) :
    (∀ past rest u, actions = past ++ rest → run step s past = some u → holds u) ↔ Guarded step meets s actions :=
  run_always_guarded_iff (fun s a t within good _ => keep s a t within good) start good
    (guarded_of_forall (fun _ _ _ => trivial) s) reached

/-- A forward simulation: each step of the first system is matched, under a renaming, by the second. -/
theorem run_simulation {σ' α' : Type*} {step : σ → α → Option σ} {step' : σ' → α' → Option σ'}
    {related : σ → σ' → Prop} {rename : α → α'}
    (simulates : ∀ s s' a t, related s s' → step s a = some t →
      ∃ t', step' s' (rename a) = some t' ∧ related t t')
    {s t : σ} {s' : σ'} {actions : List α} (start : related s s') (reached : run step s actions = some t) :
    ∃ t', run step' s' (actions.map rename) = some t' ∧ related t t' := by
  induction actions generalizing s s' with
  | nil =>
    cases reached
    exact ⟨s', rfl, start⟩
  | cons a actions ih =>
    obtain ⟨u, taken, rest⟩ := run_cons_some.mp reached
    obtain ⟨u', taken', next⟩ := simulates s s' a u start taken
    obtain ⟨t', reached', last⟩ := ih next rest
    exact ⟨t', run_cons_some.mpr ⟨u', taken', reached'⟩, last⟩

end Kit
