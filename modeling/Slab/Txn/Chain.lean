import Mathlib

/-!
# Chains of before and after values

A journal that records a value before and after each change is a chain when every record
starts from where the one before it stopped.
-/

namespace Txn

variable {τ α : Type} {start stop : τ → α}

/-- Every record starts where the one before it stopped, the first one at `a`. -/
def Linked (start stop : τ → α) (a : α) : List τ → Prop
  | [] => True
  | t :: ts => start t = a ∧ Linked start stop (stop t) ts

/-- Where a chain from `a` stops. -/
def stopOf (stop : τ → α) (a : α) (ts : List τ) : α := (ts.getLast?.map stop).getD a

@[simp] theorem stopOf_nil (a : α) : stopOf stop a [] = a := rfl

@[simp] theorem stopOf_cons (a : α) (t : τ) (ts : List τ) :
    stopOf stop a (t :: ts) = stopOf stop (stop t) ts := by
  cases ts with
  | nil => rfl
  | cons u us => simp [stopOf, List.getLast?_cons]

/-- Two chains are one if the second one starts where the first one stops. -/
theorem linked_append {a : α} {ts us : List τ} :
    Linked start stop a (ts ++ us) ↔
      Linked start stop a ts ∧ Linked start stop (stopOf stop a ts) us := by
  induction ts generalizing a with
  | nil => simp [Linked]
  | cons t ts ih => simp [Linked, ih, and_assoc]

theorem stopOf_append (a : α) (ts us : List τ) :
    stopOf stop a (ts ++ us) = stopOf stop (stopOf stop a ts) us := by
  induction ts generalizing a with
  | nil => rfl
  | cons t ts ih => rw [List.cons_append, stopOf_cons, ih, stopOf_cons]

/-- A record extends a chain iff it starts where the chain stops. -/
theorem linked_append_singleton {a : α} {ts : List τ} {t : τ} :
    Linked start stop a (ts ++ [t]) ↔ Linked start stop a ts ∧ start t = stopOf stop a ts := by
  rw [linked_append, Linked, Linked, and_true]

end Txn
