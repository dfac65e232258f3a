/-
Runs of a labelled step relation, kept with the list of their labels.

`Run step init rs s` says that the labels `rs`, in order, lead from
`init` to `s`. A run grows at its end, so that a property of the list
(how many labels of a kind there were, which one came last) can be
carried along with one of the state.

- `Run.induct`: the invariant rule, over label list and state;
- `Run.split`: every prefix of the labels reached a state;
- `Run.unique`: with a deterministic step, only one;
- `Run.mono`: a run of a smaller relation is one of a larger;
- `Run.of_foldlM`: a run of a step function can be computed;
- `Run.exists_of_any`: and so can what holds at its end;
- `Run.of_guarded`: and a run whose steps meet a condition;
- `Run.always_iff`: what holds in all states a run passes through, when
  across each step it is kept exactly under a condition;
- `Run.each_iff`: what holds of all steps of a run, when it holds of a
  step exactly under a condition on where the step starts;
- `Run.and_iff`: a condition on labels, as one on steps;
- `Run.simulated`: when each step is answered by some steps of another
  relation, so is each run;
- `Run.isolated`: two runs with the same visible labels end alike, when a
  hidden step is not noticed and a visible one is repeated alike.
-/
import Mathlib.Tactic.Common
import Mathlib.Data.List.Induction

namespace Runs

variable {σ ρ : Type*} {step step' : σ → ρ → σ → Prop} {init : σ}

inductive Run (step : σ → ρ → σ → Prop) (init : σ) : List ρ → σ → Prop
  | nil : Run step init [] init
  | snoc {rs : List ρ} {s : σ} {r : ρ} {s' : σ} :
      Run step init rs s → step s r s' → Run step init (rs ++ [r]) s'

/-- What holds at the start and across each step holds after a run. -/
theorem Run.induct {I : List ρ → σ → Prop} (hinit : I [] init)
    (hstep : ∀ rs s r s', Run step init rs s → I rs s → step s r s' →
      I (rs ++ [r]) s')
    {rs : List ρ} {s : σ} (h : Run step init rs s) : I rs s := by
  induction h with
  | nil => exact hinit
  | snoc hrun hs ih => exact hstep _ _ _ _ hrun ih hs

/-- The last step of a run. -/
theorem Run.last {rs : List ρ} {r : ρ} {s' : σ}
    (h : Run step init (rs ++ [r]) s') :
    ∃ s, Run step init rs s ∧ step s r s' := by
  generalize hl : rs ++ [r] = l at h
  cases h with
  | nil => simp at hl
  | snoc hrun hs =>
      obtain ⟨rfl, hr⟩ := List.append_inj' hl rfl
      cases hr
      exact ⟨_, hrun, hs⟩

/-- A run passes through a state after each of its prefixes. -/
theorem Run.split {rs rs' : List ρ} {s' : σ}
    (h : Run step init (rs ++ rs') s') :
    ∃ s, Run step init rs s ∧ Run step s rs' s' := by
  induction rs' using List.reverseRecOn generalizing s' with
  | nil =>
      rw [List.append_nil] at h
      exact ⟨s', h, .nil⟩
  | append_singleton rs' r ih =>
      rw [← List.append_assoc] at h
      obtain ⟨t, ht, hs⟩ := h.last
      obtain ⟨s, hrun, hrest⟩ := ih ht
      exact ⟨s, hrun, hrest.snoc hs⟩

/-- A run goes on from where one ended. -/
theorem Run.append {rs rs' : List ρ} {s s' : σ} (h : Run step init rs s)
    (h' : Run step s rs' s') : Run step init (rs ++ rs') s' := by
  induction h' with
  | nil =>
      rw [List.append_nil]
      exact h
  | snoc _ hs ih =>
      rw [← List.append_assoc]
      exact ih.snoc hs

/-- A deterministic step leads to one state. -/
theorem Run.unique (hdet : ∀ s r t t', step s r t → step s r t' → t = t')
    {rs : List ρ} {s t : σ} (hs : Run step init rs s)
    (ht : Run step init rs t) : s = t := by
  induction hs generalizing t with
  | nil =>
      generalize hl : ([] : List ρ) = l at ht
      cases ht with
      | nil => rfl
      | snoc => simp at hl
  | snoc _ hstep ih =>
      obtain ⟨u, hu, hstep'⟩ := ht.last
      have heq := ih hu
      subst heq
      exact hdet _ _ _ _ hstep hstep'

/-- Runs of a smaller relation are runs of a larger one, along the states
that satisfy an invariant of the smaller. -/
theorem Run.mono {I : σ → Prop}
    (hstep : ∀ s r s', I s → step s r s' → step' s r s')
    (hinv : ∀ rs s, Run step init rs s → I s) {rs : List ρ} {s : σ}
    (h : Run step init rs s) : Run step' init rs s := by
  induction h with
  | nil => exact .nil
  | snoc hrun hs ih => exact ih.snoc (hstep _ _ _ (hinv _ _ hrun) hs)

/-- A run of a step function, computed. -/
theorem Run.of_foldlM {f : σ → ρ → Option σ} {rs : List ρ} {s : σ}
    (h : rs.foldlM f init = some s) :
    Run (fun s r s' => f s r = some s') init rs s := by
  induction rs using List.reverseRecOn generalizing s with
  | nil =>
      cases h
      exact .nil
  | append_singleton rs r ih =>
      rw [List.foldlM_append] at h
      obtain ⟨t, ht, hstep⟩ := Option.bind_eq_some_iff.1 h
      refine (ih ht).snoc ?_
      simpa using hstep

/-- A run of a step function to a state of which `I` holds, computed. -/
theorem Run.exists_of_any (f : σ → ρ → Option σ) (start : σ) (rs : List ρ)
    (I : σ → Prop) [DecidablePred I]
    (h : (rs.foldlM f start).any (fun s => decide (I s)) = true) :
    ∃ s, Run (fun s r s' => f s r = some s') start rs s ∧ I s := by
  obtain ⟨s, hs, hend⟩ := (Option.any_eq_true _ _).1 h
  exact ⟨s, .of_foldlM hs, of_decide_eq_true hend⟩

/-- A step function, where a step meets `P`. -/
def guarded (f : σ → ρ → Option σ) (P : σ → ρ → σ → Prop)
    [∀ s r s', Decidable (P s r s')] (s : σ) (r : ρ) : Option σ :=
  (f s r).filter fun s' => decide (P s r s')

/-- A run of a step function whose steps meet a condition. -/
theorem Run.of_guarded {f : σ → ρ → Option σ} {P : σ → ρ → σ → Prop}
    [∀ s r s', Decidable (P s r s')] {rs : List ρ} {s : σ}
    (h : Run (fun s r s' => guarded f P s r = some s') init rs s) :
    Run (fun s r s' => f s r = some s' ∧ P s r s') init rs s := by
  refine h.mono (I := fun _ => True) ?_ fun _ _ _ => trivial
  intro t r t' _ hstep
  obtain ⟨hf, hP⟩ := Option.filter_eq_some_iff.1 hstep
  exact ⟨hf, of_decide_eq_true hP⟩

/-- The same for a relation that the step function computes. -/
theorem Run.exists_of_guarded {f : σ → ρ → Option σ} {P : σ → ρ → σ → Prop}
    [∀ s r s', Decidable (P s r s')]
    (hf : ∀ s r s', f s r = some s' → step s r s') (start : σ) (rs : List ρ)
    (I : σ → Prop) [DecidablePred I]
    (h : (rs.foldlM (guarded f P) start).any (fun s => decide (I s)) = true) :
    ∃ s, Run (fun s r s' => step s r s' ∧ P s r s') start rs s ∧ I s := by
  obtain ⟨s, hrun, hend⟩ := Run.exists_of_any (guarded f P) start rs I h
  refine ⟨s, hrun.of_guarded.mono (I := fun _ => True) ?_ fun _ _ _ => trivial,
    hend⟩
  exact fun s r s' _ hstep => ⟨hf s r s' hstep.1, hstep.2⟩

/-- If a step keeps `I` exactly when it meets `C`, then `I` holds in all
states a run passes through exactly when all its steps meet `C`. -/
theorem Run.always_iff {I : σ → Prop} {C : σ → ρ → Prop}
    (hdet : ∀ s r t t', step s r t → step s r t' → t = t') (hinit : I init)
    (hstep : ∀ rs s r s', Run step init rs s → I s → step s r s' →
      (I s' ↔ C s r))
    {rs : List ρ} {s : σ} (h : Run step init rs s) :
    (∀ rs' t, rs' <+: rs → Run step init rs' t → I t)
      ↔ Run (fun s r s' => step s r s' ∧ C s r) init rs s := by
  have hweak : ∀ {rs s}, Run (fun s r s' => step s r s' ∧ C s r) init rs s →
      Run step init rs s := fun hrun =>
    hrun.mono (I := fun _ => True) (fun _ _ _ _ hs => hs.1) fun _ _ _ => trivial
  constructor
  · intro hall
    induction h with
    | nil => exact .nil
    | @snoc rs s r s' hrun hs ih =>
        have hbefore := hall rs s (List.prefix_append rs [r]) hrun
        have hafter := hall _ s' (List.prefix_refl _) (hrun.snoc hs)
        refine (ih fun rs' t hpre ht => ?_).snoc
          ⟨hs, (hstep _ _ _ _ hrun hbefore hs).1 hafter⟩
        exact hall rs' t (hpre.trans (List.prefix_append rs [r])) ht
  · intro hall rs' t hpre ht
    obtain ⟨rest, rfl⟩ := hpre
    obtain ⟨u, hu, -⟩ := hall.split
    rw [← (hweak hu).unique hdet ht]
    clear hall ht h
    induction hu with
    | nil => exact hinit
    | snoc hrun hs ih => exact (hstep _ _ _ _ (hweak hrun) ih hs.1).2 hs.2

/-- If `P` holds of a step exactly when it meets `C`, then `P` holds of
all steps of a run exactly when all of them meet `C`. -/
theorem Run.each_iff {P : σ → ρ → σ → Prop} {C : σ → ρ → Prop}
    (hdet : ∀ s r t t', step s r t → step s r t' → t = t')
    (hstep : ∀ rs s r s', Run step init rs s → step s r s' →
      (P s r s' ↔ C s r))
    {rs : List ρ} {s : σ} (h : Run step init rs s) :
    (∀ rs' r t t', rs' ++ [r] <+: rs → Run step init rs' t → step t r t' →
        P t r t')
      ↔ Run (fun s r s' => step s r s' ∧ C s r) init rs s := by
  constructor
  · intro hall
    induction h with
    | nil => exact .nil
    | @snoc rs s r s' hrun hs ih =>
        have hlast := hall rs r s s' (List.prefix_refl _) hrun hs
        refine (ih fun rs' r' t t' hpre => ?_).snoc
          ⟨hs, (hstep _ _ _ _ hrun hs).1 hlast⟩
        exact hall rs' r' t t' (hpre.trans (List.prefix_append rs [r]))
  · intro hall rs' r t t' hpre ht hs
    obtain ⟨rest, rfl⟩ := hpre
    obtain ⟨u, hu, -⟩ := hall.split
    obtain ⟨v, hv, hlast⟩ := hu.last
    have hweak : Run step init rs' v :=
      hv.mono (I := fun _ => True) (fun _ _ _ _ hs => hs.1) fun _ _ _ => trivial
    rw [hweak.unique hdet ht] at hlast
    exact (hstep _ _ _ _ ht hs).2 hlast.2

/-- The steps of a run meet a condition on labels if its labels do. -/
theorem Run.and_iff {C : ρ → Prop} {rs : List ρ} {s : σ}
    (h : Run step init rs s) :
    Run (fun s r s' => step s r s' ∧ C r) init rs s ↔ ∀ r ∈ rs, C r := by
  constructor
  · intro hall
    clear h
    induction hall with
    | nil => nofun
    | snoc _ hs ih =>
        intro r hr
        rcases List.mem_append.1 hr with hr | hr
        · exact ih r hr
        · cases List.mem_singleton.1 hr
          exact hs.2
  · intro hall
    induction h with
    | nil => exact .nil
    | @snoc rs s r s' _ hs ih =>
        have hlast := hall r (List.mem_append_right rs (List.mem_singleton_self r))
        exact (ih fun q hq => hall q (List.mem_append_left [r] hq)).snoc
          ⟨hs, hlast⟩

/-- A run is followed by one of another relation, if each of its steps is:
by as many steps as it takes, or none. -/
theorem Run.simulated {τ α : Type*} {follow : τ → α → τ → Prop} {start : τ}
    {R : σ → τ → Prop} (hinit : R init start)
    (hstep : ∀ rs s r s' as t, Run step init rs s → Run follow start as t →
      R s t → step s r s' → ∃ as' t', Run follow t as' t' ∧ R s' t')
    {rs : List ρ} {s : σ} (h : Run step init rs s) :
    ∃ as t, Run follow start as t ∧ R s t := by
  induction h with
  | nil => exact ⟨[], start, .nil, hinit⟩
  | snoc hrun hs ih =>
      obtain ⟨as, t, ht, hR⟩ := ih
      obtain ⟨as', t', ht', hR'⟩ := hstep _ _ _ _ _ _ hrun ht hR hs
      exact ⟨as ++ as', t', ht.append ht', hR'⟩

section Isolation

variable {I : σ → Prop} {R : σ → σ → Prop} {V : ρ → Prop}
  [DecidablePred V]

/-- Isolation of two runs with an invariant `I`; `V` are the visible
labels. The induction is on both
runs: hidden steps at their ends are taken off one at a time, and then the
last visible ones are the same. -/
theorem Run.isolated (hinv : ∀ s r s', I s → step s r s' → I s')
    (hsymm : ∀ s t, R s t → R t s)
    (hhidden : ∀ s r s' t, I s → R s t → ¬ V r → step s r s' → R s' t)
    (hvisible : ∀ s t r s' t', R s t → V r → step s r s' →
      step t r t' → R s' t')
    (hinit : R init init) (hI : I init) {rs rs' : List ρ} {s t : σ}
    (hs : Run step init rs s) (ht : Run step init rs' t)
    (hsame : rs.filter V = rs'.filter V) : R s t := by
  have hkept : ∀ {rs s}, Run step init rs s → I s := fun hrun =>
    hrun.induct (I := fun _ s => I s) hI
      fun _ _ _ _ _ hs hstep => hinv _ _ _ hs hstep
  have hlast : ∀ (l : List ρ) (r : ρ), (l ++ [r]).filter V
      = l.filter V ++ if V r then [r] else [] := by
    intro l r
    rw [List.filter_append]
    by_cases hr : V r
    · simp [hr]
    · simp [hr]
  induction hs generalizing rs' t with
  | nil =>
      -- all steps of the other run are hidden
      induction ht with
      | nil => exact hinit
      | snoc ht hstep ih =>
          rw [hlast] at hsame
          split at hsame
          · simp at hsame
          · next hr =>
            rw [List.append_nil] at hsame
            exact hsymm _ _ (hhidden _ _ _ _ (hkept ht)
              (hsymm _ _ (ih hsame)) hr hstep)
  | @snoc rs s r s' hs hstep ih =>
      rw [hlast] at hsame
      by_cases hr : V r
      · rw [if_pos hr] at hsame
        induction ht with
        | nil => simp at hsame
        | @snoc rs' t r' t' ht hstep' ih' =>
            rw [hlast] at hsame
            by_cases hr' : V r'
            · rw [if_pos hr'] at hsame
              obtain ⟨hbefore, heq⟩ := List.append_inj' hsame rfl
              cases heq
              exact hvisible _ _ _ _ _ (ih ht hbefore) hr hstep hstep'
            · rw [if_neg hr', List.append_nil] at hsame
              exact hsymm _ _ (hhidden _ _ _ _ (hkept ht)
                (hsymm _ _ (ih' hsame)) hr' hstep')
      · rw [if_neg hr, List.append_nil] at hsame
        exact hhidden _ _ _ _ (hkept hs) (ih ht hsame) hr hstep

end Isolation

end Runs
