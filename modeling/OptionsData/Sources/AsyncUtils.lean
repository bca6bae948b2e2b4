import Mathlib

namespace OptionsModel

/-- A `float` or `Decimal`; the feed writes NaN into a field that has no value. -/
inductive Number where
  | nan
  | val (q : ℚ)
deriving DecidableEq, Repr

def Number.lt : Number → Number → Bool
  | .val a, .val b => a < b
  | _, _ => false

/-- The built-in `max(a, b)` keeps its first argument unless the second compares greater. -/
def Number.max (a b : Number) : Number := if a.lt b then b else a

def Number.min (a b : Number) : Number := if b.lt a then b else a

def Number.add : Number → Number → Number
  | .val a, .val b => .val (a + b)
  | _, _ => .nan

def Number.half : Number → Number
  | .val a => .val (a / 2)
  | .nan => .nan

@[simp] theorem Number.max_val (a b : ℚ) : (Number.val a).max (.val b) = .val (Max.max a b) := by
  rcases lt_or_ge a b with less | atLeast
  · simp [Number.max, Number.lt, less, max_eq_right less.le]
  · simp [Number.max, Number.lt, not_lt.mpr atLeast, max_eq_left atLeast]

@[simp] theorem Number.min_val (a b : ℚ) : (Number.val a).min (.val b) = .val (Min.min a b) := by
  rcases lt_or_ge b a with less | atLeast
  · simp [Number.min, Number.lt, less, min_eq_right less.le]
  · simp [Number.min, Number.lt, not_lt.mpr atLeast, min_eq_left atLeast]

def isNan : Option Number → Bool
  | some .nan => true
  | _ => false

/-- The first of the attributes tried that is present, not `None` and not NaN. -/
def getAttrAny : List (Option Number) → Option Number
  | [] => none
  | value :: names => if value.isSome && !isNan value then value else getAttrAny names

def closeOk : Option Number → Bool
  | some (.val q) => 0 < q
  | _ => false

/-- How an awaited call ends: it returns, raises an `Exception`, or its task is cancelled. -/
inductive Await where
  | returns
  | raises
  | cancelled
deriving DecidableEq, Repr

inductive Ended where
  | returned
  | raised
deriving DecidableEq, Repr

def chunked {α : Type*} (items : List α) (size : ℕ) : List (List α) :=
  (List.range ((items.length + size - 1) / size)).map fun i => (items.drop (i * size)).take size

theorem flatten_pieces {α : Type*} (items : List α) (size count : ℕ) :
    ((List.range count).map fun i => (items.drop (i * size)).take size).flatten = items.take (count * size) := by
  induction count with
  | zero => simp
  | succ count ih => simp [List.range_succ, ih, Nat.succ_mul, List.take_add]

theorem flatten_chunked {α : Type*} (items : List α) {size : ℕ} (positive : 0 < size) :
    (chunked items size).flatten = items := by
  rw [chunked, flatten_pieces]
  apply List.take_of_length_le
  have enough := Nat.div_add_mod (items.length + size - 1) size
  have rest := Nat.mod_lt (items.length + size - 1) positive
  rw [Nat.mul_comm] at enough
  omega

theorem length_le_of_mem_chunked {α : Type*} {items batch : List α} {size : ℕ} (listed : batch ∈ chunked items size) :
    batch.length ≤ size := by
  obtain ⟨i, -, rfl⟩ := List.mem_map.mp listed
  exact List.length_take_le _ _

end OptionsModel
