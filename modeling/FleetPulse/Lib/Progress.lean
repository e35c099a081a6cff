import FleetPulse.Lib.Interleaving

/-! What a program can be driven to.

    `CanReach P E c Q`: from `c` some steps, each of a process and with an event that `E` allows, lead
    to a configuration with `Q`. One process at a time is driven along (`solo`), parts are put one
    behind the other (`bind`), and a part that makes a measure smaller is repeated until the measure
    is zero (`exhaust`). -/

namespace Interleaving

variable {ι σ Λ ε : Type*} [DecidableEq ι] {P : Program ι σ Λ ε} {E : ι → ε → Prop}
  {c : Config ι σ Λ} {Q R : Config ι σ Λ → Prop}

/-- Some run comes to the configuration. -/
def Reachable (P : Program ι σ Λ ε) (c : Config ι σ Λ) : Prop := ∃ t, Run P t c

def CanReach (P : Program ι σ Λ ε) (E : ι → ε → Prop) (c : Config ι σ Λ)
    (Q : Config ι σ Λ → Prop) : Prop :=
  ∃ t c', Steps P c t c' ∧ (∀ p ∈ t, E p.1 p.2) ∧ Q c'

namespace CanReach

theorem here (h : Q c) : CanReach P E c Q := ⟨[], c, .refl c, nofun, h⟩

theorem bind (h : CanReach P E c Q) (hnext : ∀ c', Q c' → CanReach P E c' R) :
    CanReach P E c R := by
  obtain ⟨t, c', hsteps, hallowed, hq⟩ := h
  obtain ⟨t', c'', hsteps', hallowed', hr⟩ := hnext c' hq
  refine ⟨t ++ t', c'', hsteps.append hsteps', fun p hp => ?_, hr⟩
  exact (List.mem_append.mp hp).elim (hallowed p) (hallowed' p)

theorem mono (h : CanReach P E c Q) (hqr : ∀ c', Q c' → R c') : CanReach P E c R :=
  h.bind (fun c' hq => .here (hqr c' hq))

theorem step {s : σ} {loc : ι → Λ} {i : ι} {e : ε} {s' : σ} {l' : Λ}
    (h : P.step i s (loc i) e s' l') (hallowed : E i e)
    (hnext : CanReach P E ⟨s', Function.update loc i l'⟩ Q) : CanReach P E ⟨s, loc⟩ Q := by
  have hfirst : CanReach P E ⟨s, loc⟩ (fun c' => c' = ⟨s', Function.update loc i l'⟩) :=
    ⟨_, _, .single h, by simpa using hallowed, rfl⟩
  exact hfirst.bind (by rintro _ rfl; exact hnext)

/-- What all the allowed steps lead to holds where they end. -/
theorem also (h : CanReach P E c Q)
    (hall : ∀ t c', Steps P c t c' → (∀ p ∈ t, E p.1 p.2) → R c') :
    CanReach P E c (fun c' => R c' ∧ Q c') := by
  obtain ⟨t, c', hsteps, hallowed, hq⟩ := h
  exact ⟨t, c', hsteps, hallowed, hall t c' hsteps hallowed, hq⟩

/-- What is reached from a reachable configuration is reachable. -/
theorem reachable (h : CanReach P E c Q) (hc : Reachable P c) :
    CanReach P E c (fun c' => Reachable P c' ∧ Q c') := by
  obtain ⟨t₀, hrun⟩ := hc
  exact h.also (fun t c' hsteps _ => ⟨_, hrun.extend hsteps⟩)

/-- EXHAUSTION: as long as the measure can be made smaller, it can be made zero. -/
theorem exhaust {I : Config ι σ Λ → Prop} {μ : Config ι σ Λ → ℕ}
    (hsmaller : ∀ c, I c → μ c ≠ 0 → CanReach P E c (fun c' => I c' ∧ μ c' < μ c)) (hc : I c) :
    CanReach P E c (fun c' => I c' ∧ μ c' = 0) := by
  induction hn : μ c using Nat.strong_induction_on generalizing c with
  | _ n ih =>
    by_cases hzero : μ c = 0
    · exact .here ⟨hc, hzero⟩
    · refine (hsmaller c hc hzero).bind (fun c' h => ?_)
      exact ih (μ c') (hn ▸ h.2) h.1 rfl

end CanReach

/-! ### One process -/

/-- The configuration in which the process `i` is at `l` and the others are where `loc` says. -/
def solo (loc : ι → Λ) (i : ι) (s : σ) (l : Λ) : Config ι σ Λ := ⟨s, Function.update loc i l⟩

theorem solo_self (c : Config ι σ Λ) (i : ι) : solo c.loc i c.shared (c.loc i) = c := by
  rw [solo, Function.update_eq_self]

theorem solo_eq {c : Config ι σ Λ} {i : ι} {l : Λ} (h : c.loc i = l) :
    solo c.loc i c.shared l = c := h ▸ solo_self c i

/-- A process is driven along from where it is. -/
theorem CanReach.of_solo (i : ι) (h : ∀ l, c.loc i = l → CanReach P E (solo c.loc i c.shared l) Q) :
    CanReach P E c Q := by
  have hself := h (c.loc i) rfl
  rwa [solo_self] at hself

theorem Reachable.own {loc : ι → Λ} {i : ι} {s : σ} {l : Λ} {e : ε} {s' : σ} {l' : Λ}
    (hc : Reachable P (solo loc i s l)) (h : P.step i s l e s' l') :
    Reachable P (solo loc i s' l') := by
  obtain ⟨t, hrun⟩ := hc
  have hstep : P.step i s (Function.update loc i l i) e s' l' := by rwa [Function.update_self]
  have hnext := hrun.snoc hstep
  rw [Function.update_idem] at hnext
  exact ⟨_, hnext⟩

theorem CanReach.own {loc : ι → Λ} {i : ι} {s : σ} {l : Λ} {e : ε} {s' : σ} {l' : Λ}
    (h : P.step i s l e s' l') (hallowed : E i e)
    (hnext : CanReach P E (solo loc i s' l') Q) : CanReach P E (solo loc i s l) Q := by
  have hstep : P.step i s (Function.update loc i l i) e s' l' := by rwa [Function.update_self]
  refine .step hstep hallowed ?_
  rwa [Function.update_idem]

end Interleaving
