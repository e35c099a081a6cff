import Mathlib.Data.List.Basic

/-! Machines that answer each input, and what it takes for one to answer like another.

    The relation between their states may speak about the inputs that are still to come, as an
    assumption on the whole sequence does. `run_simulates` turns "each answer is the same exactly if
    it is a good one" into the same for all answers of a run. -/

namespace Transducer

variable {ι σ τ ο : Type*}

/-- The answers to the inputs, and the state after them. -/
def run (step : ι → σ → ο × σ) : List ι → σ → List ο × σ
  | [], s => ([], s)
  | i :: is, s => ((step i s).1 :: (run step is (step i s).2).1, (run step is (step i s).2).2)

@[simp] theorem run_nil (step : ι → σ → ο × σ) (s : σ) : run step [] s = ([], s) := rfl

/-- SIMULATION: the related machine's state stays related, and the answers are the same exactly if
    all answers of the related machine are good. -/
theorem run_simulates {step : ι → σ → ο × σ} {step' : ι → τ → ο × τ}
    {R : List ι → σ → τ → Prop} {good : ο → Prop}
    (hstep : ∀ i is s t, R (i :: is) s t → R is (step i s).2 (step' i t).2 ∧
      ((step i s).1 = (step' i t).1 ↔ good (step' i t).1)) :
    ∀ {is : List ι} {s : σ} {t : τ}, R is s t → R [] (run step is s).2 (run step' is t).2 ∧
      ((run step is s).1 = (run step' is t).1 ↔ ∀ o ∈ (run step' is t).1, good o)
  | [], s, t, h => ⟨h, by simp⟩
  | i :: is, s, t, h => by
      obtain ⟨hnext, hanswer⟩ := hstep i is s t h
      obtain ⟨hlast, hanswers⟩ := run_simulates hstep hnext
      refine ⟨hlast, ?_⟩
      simp only [run, List.cons.injEq, List.forall_mem_cons]
      exact and_congr hanswer hanswers

end Transducer
