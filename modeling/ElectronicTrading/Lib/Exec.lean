/-
Programs over a mutable state that may stop with a fault, and the rules
of their pre- and postconditions.

A program is an `EStateM φ σ α`: from a state it either returns a value
and a new state, or stops with a fault `φ`, keeping the state it had
reached. Keeping that state matters: what was written before the fault
(an output log, say) has been written.

# The judgments

- `Spec P x Q E`: from a state with `P`, a returning run of `x` ends in
  `Q` and a faulting one in `E`. Rules by program constructor, no rule
  for loops: the loops verified with it are recursive functions, so the
  rule is induction on their own argument.
- `Keeps I x`: the special case of an invariant.
- `Sim R x y Q`: runs of `x` and `y` from `R`-related states either both
  return, with related values and states, or both fault. It is the
  two-run counterpart, with the same constructor rules.
- `Lockstep R x y V`: the special case of a relation that is kept.

`zoom` runs a program on a part of a larger state.
-/
import Mathlib.Tactic.Common

namespace Exec

variable {φ φ' σ τ α β γ δ : Type}

-- =========================================================== a result

/-- The state in which a program has returned. -/
def returned (result : EStateM.Result φ σ Unit) : Option σ :=
  match result with
  | .ok _ s => some s
  | .error .. => none

theorem returned_eq_some {result : EStateM.Result φ σ Unit} {s : σ}
    (h : returned result = some s) : result = .ok () s := by
  unfold returned at h
  split at h
  · rw [Option.some.inj h]
  · cases h

-- ======================================================= running a part

/-- Run `x` on the part of the state that `view` shows and `put` writes
back. -/
def zoom (view : σ → τ) (put : τ → σ → σ) (x : EStateM φ τ α) :
    EStateM φ σ α := fun s =>
  match x.run (view s) with
  | .ok a t => .ok a (put t s)
  | .error e t => .error e (put t s)

theorem run_zoom (view : σ → τ) (put : τ → σ → σ) (x : EStateM φ τ α)
    (s : σ) : (zoom view put x).run s
      = match x.run (view s) with
        | .ok a t => .ok a (put t s)
        | .error e t => .error e (put t s) := rfl

/-- A part's returning run is the whole's. -/
theorem run_zoom_ok {view : σ → τ} {put : τ → σ → σ}
    {x : EStateM φ τ α} {s : σ} {a : α} {t : τ}
    (h : x.run (view s) = .ok a t) :
    (zoom view put x).run s = .ok a (put t s) := by
  rw [run_zoom, h]

/-- A part's fault is the whole's. -/
theorem run_zoom_error {view : σ → τ} {put : τ → σ → σ}
    {x : EStateM φ τ α} {s : σ} {e : φ} {t : τ}
    (h : x.run (view s) = .error e t) :
    (zoom view put x).run s = .error e (put t s) := by
  rw [run_zoom, h]

/-- A returning run of the whole is one of the part. -/
theorem run_zoom_eq_ok {view : σ → τ} {put : τ → σ → σ}
    {x : EStateM φ τ α} {s s' : σ} {a : α}
    (h : (zoom view put x).run s = .ok a s') :
    ∃ t, x.run (view s) = .ok a t ∧ s' = put t s := by
  rw [run_zoom] at h
  cases hx : x.run (view s) with
  | ok b t =>
      rw [hx] at h
      cases h
      exact ⟨t, rfl, rfl⟩
  | error e t =>
      rw [hx] at h
      cases h

@[simp] theorem run_map (f : α → β) (x : EStateM φ σ α) (s : σ) :
    (f <$> x).run s = match x.run s with
      | .ok a t => .ok (f a) t
      | .error e t => .error e t := rfl

/-- Sequencing after a returning run. -/
theorem run_bind_ok {x : EStateM φ σ α} {f : α → EStateM φ σ β} {s s' : σ}
    {a : α} (h : x.run s = .ok a s') : (x >>= f).run s = (f a).run s' := by
  rw [EStateM.run_bind, h]

/-- Sequencing after a fault. -/
theorem run_bind_error {x : EStateM φ σ α} {f : α → EStateM φ σ β}
    {s s' : σ} {e : φ} (h : x.run s = .error e s') :
    (x >>= f).run s = .error e s' := by
  rw [EStateM.run_bind, h]

/-- A returning sequence is a returning run of each part. -/
theorem run_bind_eq_ok {x : EStateM φ σ α} {f : α → EStateM φ σ β}
    {s s' : σ} {b : β} (h : (x >>= f).run s = .ok b s') :
    ∃ a t, x.run s = .ok a t ∧ (f a).run t = .ok b s' := by
  rw [EStateM.run_bind] at h
  cases hx : x.run s with
  | ok a t => rw [hx] at h; exact ⟨a, t, rfl, h⟩
  | error e t => rw [hx] at h; cases h

-- ================================================= pre/postconditions

/-- What a run of `x` from a state with `P` ends in: `Q` when it
returns, `E` when it faults. -/
def Spec (P : σ → Prop) (x : EStateM φ σ α) (Q : α → σ → Prop)
    (E : φ → σ → Prop) : Prop :=
  ∀ s, P s → match x.run s with
    | .ok a s' => Q a s'
    | .error e s' => E e s'

/-- `x` keeps `I`, however it ends. -/
def Keeps (I : σ → Prop) (x : EStateM φ σ α) : Prop :=
  Spec I x (fun _ => I) (fun _ => I)

section Spec

variable {P : σ → Prop} {Q : α → σ → Prop} {E : φ → σ → Prop}

theorem Spec.pure {a : α} (h : ∀ s, P s → Q a s) :
    Spec P (Pure.pure a : EStateM φ σ α) Q E := h

theorem Spec.bind {x : EStateM φ σ β} {f : β → EStateM φ σ α}
    {M : β → σ → Prop} (hx : Spec P x M E)
    (hf : ∀ b, Spec (M b) (f b) Q E) : Spec P (x >>= f) Q E := by
  intro s hs
  have h := hx s hs
  rw [EStateM.run_bind]
  cases hrun : x.run s with
  | ok b t => rw [hrun] at h; exact hf b t h
  | error e t => rw [hrun] at h; exact h

theorem Spec.throw {e : φ} (h : ∀ s, P s → E e s) :
    Spec P (MonadExcept.throw e : EStateM φ σ α) Q E := h

theorem Spec.mono {P' : σ → Prop} {Q' : α → σ → Prop} {E' : φ → σ → Prop}
    {x : EStateM φ σ α} (h : Spec P' x Q' E') (hP : ∀ s, P s → P' s)
    (hQ : ∀ a s, Q' a s → Q a s) (hE : ∀ e s, E' e s → E e s) :
    Spec P x Q E := by
  intro s hs
  have hx := h s (hP s hs)
  cases hrun : x.run s with
  | ok a t => rw [hrun] at hx; exact hQ a t hx
  | error e t => rw [hrun] at hx; exact hE e t hx

/-- Two things said about one program. -/
theorem Spec.and {P' : σ → Prop} {Q' : α → σ → Prop} {x : EStateM φ σ α}
    (h : Spec P x Q fun _ _ => True) (h' : Spec P' x Q' fun _ _ => True) :
    Spec (fun s => P s ∧ P' s) x (fun a s => Q a s ∧ Q' a s)
      fun _ _ => True := by
  intro s h
  obtain ⟨hs, hs'⟩ := h
  have hx := h s hs
  have hx' := h' s hs'
  cases hrun : x.run s with
  | ok a t => rw [hrun] at hx hx'; exact ⟨hx, hx'⟩
  | error e t => trivial

/-- A program on a part, from what it does there. -/
theorem Spec.zoom {view : σ → τ} {put : τ → σ → σ} {x : EStateM φ τ α}
    (h : ∀ s, P s → match x.run (view s) with
      | .ok a t => Q a (put t s)
      | .error e t => E e (put t s)) :
    Spec P (zoom view put x) Q E := by
  intro s hs
  have hx := h s hs
  rw [run_zoom]
  cases hrun : x.run (view s) with
  | ok a t => rw [hrun] at hx; exact hx
  | error e t => rw [hrun] at hx; exact hx

/-- A program from each state in turn. -/
theorem Spec.of_forall {x : EStateM φ σ α}
    (h : ∀ s, P s → Spec (fun t => t = s) x Q E) : Spec P x Q E :=
  fun s hs => h s hs s rfl

/-- The value a returning run leaves, read off a `Spec`. -/
theorem Spec.of_run_ok {x : EStateM φ σ α} (h : Spec P x Q E) {s s' : σ}
    {a : α} (hs : P s) (hrun : x.run s = .ok a s') : Q a s' := by
  have hx := h s hs
  rw [hrun] at hx
  exact hx

/-- A program that reads its state first. -/
theorem Spec.get_bind {f : σ → EStateM φ σ α}
    (h : ∀ c, P c → Spec P (f c) Q E) :
    Spec P (MonadState.get >>= f) Q E := fun s hs => h s hs s hs

theorem Spec.modify {f : σ → σ} {Q : PUnit → σ → Prop}
    (h : ∀ s, P s → Q ⟨⟩ (f s)) :
    Spec P (modify f : EStateM φ σ PUnit) Q E := h

theorem Spec.ite {c : Prop} [Decidable c] {x y : EStateM φ σ α}
    (hx : c → Spec P x Q E) (hy : ¬c → Spec P y Q E) :
    Spec P (if c then x else y) Q E := by
  split
  · next h => exact hx h
  · next h => exact hy h

end Spec

section Keeps

variable {I : σ → Prop}

theorem Keeps.pure (a : α) : Keeps I (Pure.pure a : EStateM φ σ α) :=
  fun _ hs => hs

theorem Keeps.throw (e : φ) :
    Keeps I (MonadExcept.throw e : EStateM φ σ α) := fun _ hs => hs

theorem Keeps.bind {x : EStateM φ σ β} {f : β → EStateM φ σ α}
    (hx : Keeps I x) (hf : ∀ b, Keeps I (f b)) : Keeps I (x >>= f) :=
  Spec.bind hx hf

theorem Keeps.get_bind {f : σ → EStateM φ σ α}
    (hf : ∀ c, I c → Keeps I (f c)) :
    Keeps I (MonadState.get >>= f) := fun s hs => hf s hs s hs

theorem Keeps.modify {f : σ → σ} (h : ∀ s, I s → I (f s)) :
    Keeps I (modify f : EStateM φ σ PUnit) := h

theorem Keeps.ite {c : Prop} [Decidable c] {x y : EStateM φ σ α}
    (hx : c → Keeps I x) (hy : ¬c → Keeps I y) :
    Keeps I (if c then x else y) := by
  split
  · next h => exact hx h
  · next h => exact hy h

/-- A keeping program, with nothing said about its faults. -/
theorem Keeps.spec {x : EStateM φ σ α} (h : Keeps I x) :
    Spec I x (fun _ => I) fun _ _ => True :=
  Spec.mono h (fun _ h => h) (fun _ _ h => h) fun _ _ _ => trivial

/-- A keeping program, then anything: a fault ends the run. -/
theorem Keeps.bind_spec {x : EStateM φ σ β} {f : β → EStateM φ σ α}
    {Q : α → σ → Prop} (hx : Keeps I x)
    (hf : ∀ b, Spec I (f b) Q fun _ _ => True) :
    Spec I (x >>= f) Q fun _ _ => True := Spec.bind hx.spec hf

/-- What a returning run of a keeping program ends in. -/
theorem Keeps.of_run_ok {x : EStateM φ σ α} (h : Keeps I x) {s s' : σ} {a : α}
    (hs : I s) (hrun : x.run s = .ok a s') : I s' :=
  Spec.of_run_ok h hs hrun

end Keeps

-- ===================================================== lockstep of two

/-- Runs of `x` and `y` from related states return together, with
related results, or fault together. -/
def Sim (R : σ → τ → Prop) (x : EStateM φ σ α) (y : EStateM φ' τ β)
    (Q : α → β → σ → τ → Prop) : Prop :=
  ∀ s t, R s t → match x.run s, y.run t with
    | .ok a s', .ok b t' => Q a b s' t'
    | .error _ _, .error _ _ => True
    | _, _ => False

section Sim

variable {R : σ → τ → Prop} {Q : α → β → σ → τ → Prop}

theorem Sim.pure {a : α} {b : β} (h : ∀ s t, R s t → Q a b s t) :
    Sim R (Pure.pure a : EStateM φ σ α) (Pure.pure b : EStateM φ' τ β) Q := h

theorem Sim.throw (e : φ) (e' : φ') :
    Sim R (MonadExcept.throw e : EStateM φ σ α)
      (MonadExcept.throw e' : EStateM φ' τ β) Q := fun _ _ _ => trivial

theorem Sim.bind {x : EStateM φ σ γ} {y : EStateM φ' τ δ}
    {f : γ → EStateM φ σ α} {g : δ → EStateM φ' τ β}
    {M : γ → δ → σ → τ → Prop} (hxy : Sim R x y M)
    (hfg : ∀ c d, Sim (M c d) (f c) (g d) Q) :
    Sim R (x >>= f) (y >>= g) Q := by
  intro s t hst
  have h := hxy s t hst
  rw [EStateM.run_bind, EStateM.run_bind]
  cases hx : x.run s with
  | ok c s' =>
      cases hy : y.run t with
      | ok d t' => rw [hx, hy] at h; exact hfg c d s' t' h
      | error e t' => rw [hx, hy] at h; exact h.elim
  | error e s' =>
      cases hy : y.run t with
      | ok d t' => rw [hx, hy] at h; exact h.elim
      | error e' t' => trivial

theorem Sim.mono {R' : σ → τ → Prop} {Q' : α → β → σ → τ → Prop}
    {x : EStateM φ σ α} {y : EStateM φ' τ β} (h : Sim R' x y Q')
    (hR : ∀ s t, R s t → R' s t) (hQ : ∀ a b s t, Q' a b s t → Q a b s t) :
    Sim R x y Q := by
  intro s t hst
  have hxy := h s t (hR s t hst)
  cases hx : x.run s with
  | ok c s' =>
      cases hy : y.run t with
      | ok d t' => rw [hx, hy] at hxy; exact hQ _ _ _ _ hxy
      | error e t' => rw [hx, hy] at hxy; exact hxy.elim
  | error e s' =>
      cases hy : y.run t with
      | ok d t' => rw [hx, hy] at hxy; exact hxy.elim
      | error e' t' => trivial

theorem Sim.get_bind {f : σ → EStateM φ σ α} {g : τ → EStateM φ' τ β}
    (h : ∀ c d, R c d → Sim R (f c) (g d) Q) :
    Sim R (MonadState.get >>= f) (MonadState.get >>= g) Q :=
  fun s t hst => h s t hst s t hst

theorem Sim.ite {c d : Prop} [Decidable c] [Decidable d]
    {x x' : EStateM φ σ α} {y y' : EStateM φ' τ β} (hcd : c ↔ d)
    (h : c → Sim R x y Q) (h' : ¬c → Sim R x' y' Q) :
    Sim R (if c then x else x') (if d then y else y') Q := by
  by_cases hc : c
  · rw [if_pos hc, if_pos (hcd.1 hc)]
    exact h hc
  · rw [if_neg hc, if_neg fun hd => hc (hcd.2 hd)]
    exact h' hc

/-- Programs on parts of two states. -/
theorem Sim.zoom {σ' τ' : Type} {view : σ → σ'} {put : σ' → σ → σ}
    {view' : τ → τ'} {put' : τ' → τ → τ} {x : EStateM φ σ' α}
    {y : EStateM φ' τ' β} {R' : σ' → τ' → Prop}
    {Q' : α → β → σ' → τ' → Prop} (hxy : Sim R' x y Q')
    (hR : ∀ s t, R s t → R' (view s) (view' t))
    (hQ : ∀ a b s t s' t', R s t → Q' a b s' t' →
      Q a b (put s' s) (put' t' t)) :
    Sim R (zoom view put x) (zoom view' put' y) Q := by
  intro s t hst
  have h := hxy (view s) (view' t) (hR s t hst)
  rw [run_zoom, run_zoom]
  cases hx : x.run (view s) with
  | ok a s' =>
      cases hy : y.run (view' t) with
      | ok b t' => rw [hx, hy] at h; exact hQ a b s t s' t' hst h
      | error e t' => rw [hx, hy] at h; exact h.elim
  | error e s' =>
      cases hy : y.run (view' t) with
      | ok b t' => rw [hx, hy] at h; exact h.elim
      | error e' t' => trivial

end Sim

/-- Two programs that keep `R`, with results related by `V`. -/
def Lockstep (R : σ → τ → Prop) (x : EStateM φ σ α) (y : EStateM φ' τ β)
    (V : α → β → Prop) : Prop :=
  Sim R x y fun a b s t => V a b ∧ R s t

section Lockstep

variable {R : σ → τ → Prop} {V : α → β → Prop}

theorem Lockstep.pure {a : α} {b : β} (h : V a b) :
    Lockstep R (Pure.pure a : EStateM φ σ α) (Pure.pure b : EStateM φ' τ β)
      V := fun _ _ hst => ⟨h, hst⟩

/-- A lockstep, then anything. -/
theorem Lockstep.bind {x : EStateM φ σ γ} {y : EStateM φ' τ δ}
    {f : γ → EStateM φ σ α} {g : δ → EStateM φ' τ β} {W : γ → δ → Prop}
    {Q : α → β → σ → τ → Prop} (hxy : Lockstep R x y W)
    (hfg : ∀ c d, W c d → Sim R (f c) (g d) Q) :
    Sim R (x >>= f) (y >>= g) Q := by
  refine Sim.bind hxy fun c d => ?_
  intro s t h
  obtain ⟨hcd, hst⟩ := h
  exact hfg c d hcd s t hst

theorem Lockstep.modify {f : σ → σ} {g : τ → τ}
    (h : ∀ s t, R s t → R (f s) (g t)) :
    Lockstep R (modify f : EStateM φ σ PUnit)
      (modify g : EStateM φ' τ PUnit) fun _ _ => True :=
  fun s t hst => ⟨trivial, h s t hst⟩

end Lockstep

end Exec
