import Mathlib.Data.List.Basic
import Mathlib.Tactic

/-! A first-in first-out queue of values with identities, bounded from the front, whose entries can
    fail and wait.

    `push` adds a value at the back and then removes the shortest prefix that makes the rest fit
    (`fits_drop_excess`, `not_fits_drop`); a value whose identity is queued already is not added. An
    entry remembers the times that its failures set since it was added: their number is how often it
    was attempted, the last of them is when it is due again. -/

namespace BoundedQueue

/-- A queued value, and what each failure since it was added set as the time of the next attempt. -/
structure Entry (α τ : Type*) where
  value : α
  failures : List τ

variable {α β κ τ : Type*}

/-- The entry of a value that has just been added. -/
def Entry.new (a : α) : Entry α τ := ⟨a, []⟩

/-- How often the entry has failed. -/
def Entry.attempts (e : Entry α τ) : ℕ := e.failures.length

/-- When the entry is due; `start` before its first failure. -/
def Entry.dueAt (start : τ) (e : Entry α τ) : τ := e.failures.getLast?.getD start

/-- The entry after one more failure. -/
def Entry.fail (t : τ) (e : Entry α τ) : Entry α τ := { e with failures := e.failures ++ [t] }

@[simp] theorem Entry.value_fail (t : τ) (e : Entry α τ) : (e.fail t).value = e.value := rfl

@[simp] theorem Entry.attempts_fail (t : τ) (e : Entry α τ) :
    (e.fail t).attempts = e.attempts + 1 := by
  simp [Entry.attempts, Entry.fail]

@[simp] theorem Entry.dueAt_fail (start t : τ) (e : Entry α τ) : (e.fail t).dueAt start = t := by
  simp [Entry.dueAt, Entry.fail]

/-! ### The bound -/

/-- How many elements have to go at the front until the rest fits. -/
def excess (fits : List β → Bool) : List β → ℕ
  | [] => 0
  | x :: xs => if fits (x :: xs) then 0 else excess fits xs + 1

section
variable {fits : List β → Bool}

theorem excess_of_fits {l : List β} (h : fits l = true) : excess fits l = 0 := by
  cases l with
  | nil => rfl
  | cons x xs => rw [excess, if_pos h]

theorem excess_of_not_fits {x : β} {xs : List β} (h : fits (x :: xs) = false) :
    excess fits (x :: xs) = excess fits xs + 1 := by
  rw [excess, if_neg (by simp [h])]

/-- What is left fits. -/
theorem fits_drop_excess (hnil : fits [] = true) :
    ∀ l : List β, fits (l.drop (excess fits l)) = true
  | [] => hnil
  | x :: xs => by
      cases h : fits (x :: xs) with
      | true => rw [excess_of_fits h]; exact h
      | false => rw [excess_of_not_fits h]; exact fits_drop_excess hnil xs

/-- No shorter prefix is enough. -/
theorem not_fits_drop : ∀ (l : List β) {n : ℕ}, n < excess fits l → fits (l.drop n) = false
  | [], _, hn => absurd hn (Nat.not_lt_zero _)
  | x :: xs, n, hn => by
      cases h : fits (x :: xs) with
      | true => rw [excess_of_fits h] at hn; exact absurd hn (Nat.not_lt_zero n)
      | false =>
        cases n with
        | zero => exact h
        | succ n =>
          rw [excess_of_not_fits h] at hn
          exact not_fits_drop xs (Nat.lt_of_succ_lt_succ hn)

theorem excess_map {γ : Type*} (f : γ → β) : ∀ l : List γ,
    excess fits (l.map f) = excess (fun l => fits (l.map f)) l
  | [] => rfl
  | x :: xs => by rw [List.map_cons, excess, excess, excess_map f xs, List.map_cons]

end

/-- Remove the shortest prefix that makes the rest fit; how many elements that are. -/
def evict (fits : List β → Bool) (l : List β) : List β × ℕ := (l.drop (excess fits l), excess fits l)

/-! ### Operations -/

section
variable [DecidableEq κ] (key : α → κ)

/-- The identities in the queue. -/
def keys (q : List (Entry α τ)) : List κ := q.map (fun e => key e.value)

/-- Add a value that is not queued at the back, and make the rest fit; how many entries went. -/
def push (fits : List (Entry α τ) → Bool) (a : α) (q : List (Entry α τ)) :
    List (Entry α τ) × ℕ :=
  if key a ∈ keys key q then (q, 0)
  else evict fits (q ++ [Entry.new a])

/-- The entry failed, and is due again at `t`. -/
def fail (k : κ) (t : τ) (q : List (Entry α τ)) : List (Entry α τ) :=
  q.map (fun e => if key e.value = k then e.fail t else e)

/-- Take the entry out. -/
def remove (k : κ) (q : List (Entry α τ)) : List (Entry α τ) :=
  q.filter (fun e => key e.value ≠ k)

end

/-- The first entry that is due. -/
def ready (due : τ → Bool) (start : τ) (q : List (Entry α τ)) : Option (Entry α τ) :=
  q.find? (fun e => due (e.dueAt start))

end BoundedQueue
