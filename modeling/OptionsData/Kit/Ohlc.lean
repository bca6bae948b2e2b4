import Mathlib

namespace Kit

structure Ohlc (α : Type*) where
  opening : α
  high : α
  low : α
  close : α
deriving DecidableEq, Repr

namespace Ohlc

variable {α : Type*} [LinearOrder α]

def single (x : α) : Ohlc α := ⟨x, x, x, x⟩

def push (o : Ohlc α) (x : α) : Ohlc α :=
  { o with high := max o.high x, low := min o.low x, close := x }

def summary : List α → Option (Ohlc α)
  | [] => none
  | x :: xs => some (xs.foldl push (single x))

@[simp] theorem summary_nil : summary ([] : List α) = none := rfl

theorem summary_concat (xs : List α) (x : α) :
    summary (xs ++ [x]) = some ((summary xs).elim (single x) fun o => o.push x) := by
  cases xs with
  | nil => rfl
  | cons y ys => simp [summary, List.foldl_append]

theorem summary_eq_none {xs : List α} : summary xs = none ↔ xs = [] := by
  cases xs <;> simp [summary]

theorem foldl_push (xs : List α) (o : Ohlc α) :
    xs.foldl push o =
      ⟨o.opening, xs.foldl max o.high, xs.foldl min o.low, xs.getLastD o.close⟩ := by
  induction xs generalizing o with
  | nil => rfl
  | cons x xs ih => rw [List.foldl_cons, ih, List.getLastD_cons]; rfl

theorem summary_fields (xs : List α) :
    (summary xs).map opening = xs.head? ∧ (summary xs).map high = xs.max? ∧
      (summary xs).map low = xs.min? ∧ (summary xs).map close = xs.getLast? := by
  cases xs with
  | nil => simp
  | cons x xs =>
    simp only [summary, foldl_push, Option.map_some, List.head?_cons, List.max?_cons', List.min?_cons',
      List.getLast?_cons, List.getLastD_eq_getLast?, single, and_self]

end Ohlc

end Kit
