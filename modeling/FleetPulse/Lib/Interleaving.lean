import Mathlib.Logic.Function.Basic
import Mathlib.Data.List.Basic
import Mathlib.Tactic

/-! Interleavings of any number of processes over one shared state.

    Every process has a local state of its own; one step of a run lets one process change its local
    state and the shared state at once and leaves an event behind. A run keeps the list of those
    events, so a property of a run can speak about what happened before.

    The proof rule is the non-interference one: a shared invariant `I` and a local assertion `L` for
    every process hold throughout when each step keeps `I` and re-establishes the `L` of the process
    that took it (`own`), and leaves the `L` of every other process alone (`stable`). -/

namespace Interleaving

/-- The program that the processes `ι` run on the shared state `σ`. -/
structure Program (ι σ Λ ε : Type*) where
  init : σ
  start : ι → Λ → Prop
  step : ι → σ → Λ → ε → σ → Λ → Prop

/-- The shared state and the local state of every process. -/
structure Config (ι σ Λ : Type*) where
  shared : σ
  loc : ι → Λ

variable {ι σ Λ ε : Type*} [DecidableEq ι] (P : Program ι σ Λ ε)

/-- Finitely many steps from one configuration to another, with their events in order. -/
inductive Steps : Config ι σ Λ → List (ι × ε) → Config ι σ Λ → Prop
  | refl (c) : Steps c [] c
  | snoc {c t s loc i e s' l'} : Steps c t ⟨s, loc⟩ → P.step i s (loc i) e s' l' →
      Steps c (t ++ [(i, e)]) ⟨s', Function.update loc i l'⟩

/-- A configuration in which the program may start. -/
def Initial (c : Config ι σ Λ) : Prop := c.shared = P.init ∧ ∀ i, P.start i (c.loc i)

/-- The runs of the program: the steps from an initial configuration. -/
def Run (t : List (ι × ε)) (c : Config ι σ Λ) : Prop := ∃ c₀, Initial P c₀ ∧ Steps P c₀ t c

variable {P}

theorem Steps.append {c c' : Config ι σ Λ} {t : List (ι × ε)} (h : Steps P c t c') :
    ∀ {t' c''}, Steps P c' t' c'' → Steps P c (t ++ t') c'' := by
  intro t' c'' h'
  induction h' with
  | refl => simpa using h
  | snoc _ hs ih => rw [← List.append_assoc]; exact .snoc ih hs

theorem Steps.single {s : σ} {loc : ι → Λ} {i : ι} {e : ε} {s' : σ} {l' : Λ}
    (h : P.step i s (loc i) e s' l') :
    Steps P ⟨s, loc⟩ [(i, e)] ⟨s', Function.update loc i l'⟩ :=
  .snoc (t := []) (.refl _) h

theorem Run.extend {t t' : List (ι × ε)} {c c' : Config ι σ Λ} (h : Run P t c)
    (h' : Steps P c t' c') : Run P (t ++ t') c' := by
  obtain ⟨c₀, h0, hs⟩ := h
  exact ⟨c₀, h0, hs.append h'⟩

theorem Run.snoc {t : List (ι × ε)} {s : σ} {loc : ι → Λ} {i : ι} {e : ε} {s' : σ} {l' : Λ}
    (h : Run P t ⟨s, loc⟩) (hs : P.step i s (loc i) e s' l') :
    Run P (t ++ [(i, e)]) ⟨s', Function.update loc i l'⟩ :=
  h.extend (.single hs)

/-- One more step of the only process. -/
theorem Run.snoc_single {P : Program Unit σ Λ ε} {t : List (Unit × ε)} {s : σ} {l : Λ} {e : ε}
    {s' : σ} {l' : Λ} (h : Run P t ⟨s, fun _ => l⟩) (hs : P.step () s l e s' l') :
    Run P (t ++ [((), e)]) ⟨s', fun _ => l'⟩ := by
  have hnext := h.snoc hs
  rwa [show Function.update (fun _ => l) () l' = fun _ => l' from
    funext (fun _ => Function.update_self ..)] at hnext

/-- Induction over steps, forwards. -/
theorem Steps.induct {c c' : Config ι σ Λ} {t : List (ι × ε)}
    {p : List (ι × ε) → Config ι σ Λ → Prop} (start : p [] c)
    (step : ∀ t s loc i e s' l', Steps P c t ⟨s, loc⟩ → p t ⟨s, loc⟩ → P.step i s (loc i) e s' l' →
      p (t ++ [(i, e)]) ⟨s', Function.update loc i l'⟩)
    (h : Steps P c t c') : p t c' := by
  induction h with
  | refl => exact start
  | snoc h hs ih => exact step _ _ _ _ _ _ _ h ih hs

/-- Induction over a run: the start, then one step at a time. -/
theorem Run.induct {p : List (ι × ε) → Config ι σ Λ → Prop}
    (start : ∀ c, Initial P c → p [] c)
    (step : ∀ t s loc i e s' l', Run P t ⟨s, loc⟩ → p t ⟨s, loc⟩ → P.step i s (loc i) e s' l' →
      p (t ++ [(i, e)]) ⟨s', Function.update loc i l'⟩)
    {t : List (ι × ε)} {c : Config ι σ Λ} (h : Run P t c) : p t c := by
  obtain ⟨c₀, h0, hs⟩ := h
  induction hs with
  | refl => exact start _ h0
  | snoc h hs ih => exact step _ _ _ _ _ _ _ ⟨_, h0, h⟩ ih hs

/-- NON-INTERFERENCE: a shared invariant and a local assertion of every process, kept by the steps
    of the process itself and by the steps of all the others. -/
theorem Run.outline {I : List (ι × ε) → σ → Prop} {L : ι → List (ι × ε) → σ → Λ → Prop}
    (hI : I [] P.init) (hL : ∀ i l, P.start i l → L i [] P.init l)
    (own : ∀ t s loc i e s' l', Run P t ⟨s, loc⟩ → I t s → L i t s (loc i) →
      P.step i s (loc i) e s' l' → I (t ++ [(i, e)]) s' ∧ L i (t ++ [(i, e)]) s' l')
    (stable : ∀ t s loc i e s' l' j, Run P t ⟨s, loc⟩ → I t s → L i t s (loc i) →
      P.step i s (loc i) e s' l' → j ≠ i → L j t s (loc j) → L j (t ++ [(i, e)]) s' (loc j))
    {t : List (ι × ε)} {c : Config ι σ Λ} (h : Run P t c) :
    I t c.shared ∧ ∀ i, L i t c.shared (c.loc i) := by
  refine Run.induct (p := fun t c => I t c.shared ∧ ∀ i, L i t c.shared (c.loc i)) ?_ ?_ h
  · rintro c ⟨hs, hl⟩
    rw [hs]
    exact ⟨hI, fun i => hL i _ (hl i)⟩
  · rintro t s loc i e s' l' hrun ⟨hi, hl⟩ hstep
    obtain ⟨hi', hl'⟩ := own t s loc i e s' l' hrun hi (hl i) hstep
    refine ⟨hi', fun j => ?_⟩
    by_cases hj : j = i
    · subst hj; simpa using hl'
    · simpa [hj] using stable t s loc i e s' l' j hrun hi (hl i) hstep hj (hl j)

/-- A shared invariant that every step keeps, whatever the local states are. -/
theorem Run.invariant {I : σ → Prop} (hI : I P.init)
    (step : ∀ t s loc i e s' l', Run P t ⟨s, loc⟩ → I s → P.step i s (loc i) e s' l' → I s')
    {t : List (ι × ε)} {c : Config ι σ Λ} (h : Run P t c) : I c.shared :=
  (Run.outline (I := fun _ s => I s) (L := fun _ _ _ _ => True) hI (fun _ _ _ => trivial)
    (fun t s loc i e s' l' hr hi _ hs => ⟨step t s loc i e s' l' hr hi hs, trivial⟩)
    (fun _ _ _ _ _ _ _ _ _ _ _ _ _ _ => trivial) h).1

/-- A preorder that every step of a run respects relates any earlier shared state to any later
    one. -/
theorem Steps.monotone {R : σ → σ → Prop} (refl : ∀ s, R s s)
    (trans : ∀ {a b c}, R a b → R b c → R a c)
    (step : ∀ i s l e s' l', P.step i s l e s' l' → R s s')
    {c c' : Config ι σ Λ} {t : List (ι × ε)} (h : Steps P c t c') : R c.shared c'.shared := by
  induction h with
  | refl => exact refl _
  | snoc _ hs ih => exact trans ih (step _ _ _ _ _ _ hs)

/-- Steps that end with an event pass through the configuration before it. -/
theorem Steps.exists_before {t : List (ι × ε)} {i : ι} {e : ε} {c c' : Config ι σ Λ}
    (h : Steps P c (t ++ [(i, e)]) c') : ∃ s loc s' l', Steps P c t ⟨s, loc⟩ ∧
      P.step i s (loc i) e s' l' ∧ c' = ⟨s', Function.update loc i l'⟩ := by
  generalize ht : t ++ [(i, e)] = t' at h
  cases h with
  | refl => simp at ht
  | snoc h hs =>
    obtain ⟨rfl, hx⟩ := List.append_inj' ht rfl
    cases hx
    exact ⟨_, _, _, _, h, hs, rfl⟩

theorem Run.exists_before {t : List (ι × ε)} {i : ι} {e : ε} {c : Config ι σ Λ}
    (h : Run P (t ++ [(i, e)]) c) : ∃ s loc s' l', Run P t ⟨s, loc⟩ ∧
      P.step i s (loc i) e s' l' ∧ c = ⟨s', Function.update loc i l'⟩ := by
  obtain ⟨c₀, h0, hs⟩ := h
  obtain ⟨s, loc, s', l', hsteps, hstep, hc⟩ := hs.exists_before
  exact ⟨s, loc, s', l', ⟨c₀, h0, hsteps⟩, hstep, hc⟩

/-- Steps pass through a configuration after each part of their events. -/
theorem Steps.split {t' : List (ι × ε)} : ∀ {t : List (ι × ε)} {c c' : Config ι σ Λ},
    Steps P c (t ++ t') c' → ∃ d, Steps P c t d ∧ Steps P d t' c' := by
  induction t' using List.reverseRecOn with
  | nil => exact fun h => ⟨_, by simpa using h, .refl _⟩
  | append_singleton t' x ih =>
    intro t c c' h
    rw [← List.append_assoc] at h
    obtain ⟨s, loc, s', l', hsteps, hstep, rfl⟩ := h.exists_before
    obtain ⟨d, hd, hd'⟩ := ih hsteps
    exact ⟨d, hd, .snoc hd' hstep⟩

theorem Run.split {t t' : List (ι × ε)} {c : Config ι σ Λ} (h : Run P (t ++ t') c) :
    ∃ d, Run P t d ∧ Steps P d t' c := by
  obtain ⟨c₀, h0, hs⟩ := h
  obtain ⟨d, hd, hd'⟩ := hs.split
  exact ⟨d, ⟨c₀, h0, hd⟩, hd'⟩

theorem Steps.eq_of_nil {c c' : Config ι σ Λ} (h : Steps P c [] c') : c = c' := by
  generalize ht : [] = t at h
  cases h with
  | refl => rfl
  | snoc _ _ => simp at ht

/-- Steps that begin with an event pass through the configuration after it. -/
theorem Steps.exists_after {t : List (ι × ε)} {i : ι} {e : ε} {c c' : Config ι σ Λ}
    (h : Steps P c ((i, e) :: t) c') : ∃ s' l', P.step i c.shared (c.loc i) e s' l' ∧
      Steps P ⟨s', Function.update c.loc i l'⟩ t c' := by
  obtain ⟨d, hd, hd'⟩ := Steps.split (t := [(i, e)]) h
  obtain ⟨s, loc, s', l', hnone, hstep, rfl⟩ := Steps.exists_before (t := []) hd
  obtain rfl := hnone.eq_of_nil
  exact ⟨s', l', hstep, hd'⟩

/-- The runs of a program are runs of one that may do more. -/
theorem Run.weaken {Q : Program ι σ Λ ε} (hinit : P.init = Q.init)
    (hstart : ∀ i l, P.start i l → Q.start i l)
    (hstep : ∀ i s l e s' l', P.step i s l e s' l' → Q.step i s l e s' l')
    {t : List (ι × ε)} {c : Config ι σ Λ} (h : Run P t c) : Run Q t c := by
  obtain ⟨c₀, ⟨hs, hl⟩, hsteps⟩ := h
  refine ⟨c₀, ⟨hs.trans hinit, fun i => hstart i _ (hl i)⟩, ?_⟩
  induction hsteps with
  | refl => exact .refl _
  | snoc _ hs ih => exact .snoc ih (hstep _ _ _ _ _ _ hs)

/-- A run that took a step passes through the configurations before and after it. -/
theorem Run.exists_step {t : List (ι × ε)} {c : Config ι σ Λ} (h : Run P t c) {i : ι} {e : ε}
    (hmem : (i, e) ∈ t) : ∃ t₁ t₂ s loc s' l', t = t₁ ++ (i, e) :: t₂ ∧ Run P t₁ ⟨s, loc⟩ ∧
      P.step i s (loc i) e s' l' ∧ Steps P ⟨s', Function.update loc i l'⟩ t₂ c := by
  obtain ⟨t₁, t₂, rfl⟩ := List.append_of_mem hmem
  obtain ⟨d, hd, hsteps⟩ := h.split
  obtain ⟨s', l', hstep, hsteps⟩ := hsteps.exists_after
  exact ⟨t₁, t₂, d.shared, d.loc, s', l', rfl, hd, hstep, hsteps⟩

/-! ### Runs whose steps all meet a condition -/

/-- The program that takes the steps that meet the condition and no others. -/
def Program.restrict (P : Program ι σ Λ ε) (allowed : ι → σ → Λ → ε → Prop) :
    Program ι σ Λ ε where
  init := P.init
  start := P.start
  step i s l e s' l' := P.step i s l e s' l' ∧ allowed i s l e

variable {allowed : ι → σ → Λ → ε → Prop}

theorem Steps.of_restrict {c c' : Config ι σ Λ} {t : List (ι × ε)}
    (h : Steps (P.restrict allowed) c t c') : Steps P c t c' := by
  induction h with
  | refl => exact .refl _
  | snoc _ hs ih => exact .snoc ih hs.1

theorem Run.of_restrict {c : Config ι σ Λ} {t : List (ι × ε)}
    (h : Run (P.restrict allowed) t c) : Run P t c := by
  obtain ⟨c₀, h0, hs⟩ := h
  exact ⟨c₀, h0, hs.of_restrict⟩

/-- A run that never takes a step against the condition is one of the restricted program. -/
theorem Run.restrict {t : List (ι × ε)} {c : Config ι σ Λ} (h : Run P t c)
    (hall : ∀ t₁ i e t₂ s loc s' l', t = t₁ ++ (i, e) :: t₂ → Run P t₁ ⟨s, loc⟩ →
      P.step i s (loc i) e s' l' → Steps P ⟨s', Function.update loc i l'⟩ t₂ c →
      allowed i s (loc i) e) : Run (P.restrict allowed) t c := by
  revert hall
  refine Run.induct (p := fun t c => (∀ t₁ i e t₂ s loc s' l', t = t₁ ++ (i, e) :: t₂ →
    Run P t₁ ⟨s, loc⟩ → P.step i s (loc i) e s' l' →
    Steps P ⟨s', Function.update loc i l'⟩ t₂ c → allowed i s (loc i) e) →
    Run (P.restrict allowed) t c) ?_ ?_ h
  · exact fun c hc _ => ⟨c, hc, .refl c⟩
  · intro t s loc i e s' l' hrun ih hstep hall
    refine (ih ?_).snoc ⟨hstep, hall t i e [] s loc s' l' rfl hrun hstep (.refl _)⟩
    rintro t₁ j e' t₂ s₁ loc₁ s₁' l₁' rfl hrun₁ hstep₁ hsteps
    exact hall t₁ j e' (t₂ ++ [(i, e)]) s₁ loc₁ s₁' l₁' (by simp) hrun₁ hstep₁ (.snoc hsteps hstep)

end Interleaving
