import Mathlib

/-! A `for` loop over a range, whose body may leave it with a result. -/

namespace Loops

variable {σ β : Type*}

/-- `for i in range(first, first + n)`: the body takes the round and the variables to the new
    variables and, where it leaves the loop, its result. -/
def forRange (body : ℕ → σ → σ × Option β) : ℕ → ℕ → σ → σ × Option β
  | _, 0, s => (s, none)
  | i, n + 1, s =>
    match body i s with
    | (s', some b) => (s', some b)
    | (s', none) => forRange body (i + 1) n s'

/-- The rule of the loop: `Inv i` holds at the beginning of round `i`, and `Post i` where round `i`
    leaves the loop. -/
structure Rule (body : ℕ → σ → σ × Option β) (stop : ℕ) (Inv : ℕ → σ → Prop)
    (Post : ℕ → σ → β → Prop) : Prop where
  continues : ∀ {i s s'}, i < stop → Inv i s → body i s = (s', none) → Inv (i + 1) s'
  leaves : ∀ {i s s' b}, i < stop → Inv i s → body i s = (s', some b) → Post i s' b

variable {body : ℕ → σ → σ × Option β} {stop : ℕ} {Inv : ℕ → σ → Prop} {Post : ℕ → σ → β → Prop}

theorem Rule.forRange (rule : Rule body stop Inv Post) : ∀ {n i : ℕ} {s : σ}, i + n = stop →
    Inv i s → (∃ s', forRange body i n s = (s', none) ∧ Inv stop s') ∨
      ∃ k s' b, k < stop ∧ forRange body i n s = (s', some b) ∧ Post k s' b
  | 0, i, s, hstop, hinv => Or.inl ⟨s, rfl, hstop ▸ hinv⟩
  | n + 1, i, s, hstop, hinv => by
      have hi : i < stop := by omega
      rcases hbody : body i s with ⟨s', _ | b⟩
      · have hrest := rule.forRange (n := n) (by omega) (rule.continues hi hinv hbody)
        simpa only [Loops.forRange, hbody] using hrest
      · refine Or.inr ⟨i, s', b, hi, ?_, rule.leaves hi hinv hbody⟩
        simp only [Loops.forRange, hbody]

end Loops
