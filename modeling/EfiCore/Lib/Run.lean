/-! # Labelled machines and guarded runs

A machine is a set of initial states with a labelled step relation; the label
names what the environment chose or what the step did.  Safety results are about
the states of *guarded* runs: every step of the run meets `ok`, a condition on
the state before the step and on its label.  `Machine.Reach.rule` packages the
induction over such runs once, so a result about all of them is an invariant,
its initial case and one step lemma.
-/

namespace EfiCore.Lib

universe u v w

/-- A labelled transition system with its initial states. -/
structure Machine (σ : Type u) (α : Type v) where
  init : σ → Prop
  step : σ → α → σ → Prop

namespace Machine

variable {σ : Type u} {α : Type v} {M : Machine σ α} {ok : σ → α → Prop}

/-- `M.Reach ok s`: some run whose steps all meet `ok` ends in `s`. -/
inductive Reach (M : Machine σ α) (ok : σ → α → Prop) : σ → Prop
  | start {s} : M.init s → Reach M ok s
  | next {s a s'} : Reach M ok s → ok s a → M.step s a s' → Reach M ok s'

/-- `M.Path ok s as s'`: the labels `as` lead from `s` to `s'`, each step meeting `ok`. -/
inductive Path (M : Machine σ α) (ok : σ → α → Prop) : σ → List α → σ → Prop
  | nil {s} : Path M ok s [] s
  | cons {s a s' as t} : ok s a → M.step s a s' → Path M ok s' as t → Path M ok s (a :: as) t

/-- The guard that asks nothing of a step. -/
def anyStep : σ → α → Prop := fun _ _ => True

/-- An invariant of the steps that meet `ok` holds in every state such steps reach. -/
theorem Reach.rule {I : σ → Prop} (start : ∀ s, M.init s → I s)
    (next : ∀ s a s', I s → ok s a → M.step s a s' → I s') {s : σ} (h : M.Reach ok s) : I s := by
  induction h with
  | start hs => exact start _ hs
  | next _ hok hstep ih => exact next _ _ _ ih hok hstep

theorem Reach.path {s s' : σ} {as : List α} (h : M.Reach ok s) (hp : M.Path ok s as s') :
    M.Reach ok s' := by
  induction hp with
  | nil => exact h
  | cons hok hstep _ ih => exact ih (h.next hok hstep)

theorem Path.append {s s' s'' : σ} {as bs : List α} (h : M.Path ok s as s')
    (h' : M.Path ok s' bs s'') : M.Path ok s (as ++ bs) s'' := by
  induction h with
  | nil => exact h'
  | cons hok hstep _ ih => exact .cons hok hstep (ih h')

/-- A fact that survives every step whose label is not in `E` survives a path without such
    labels.  The invariant `I` of the run is available at each step. -/
theorem Path.persist {I P : σ → Prop} {E : α → Prop}
    (inv : ∀ s a s', I s → ok s a → M.step s a s' → I s')
    (keep : ∀ s a s', I s → ok s a → M.step s a s' → ¬ E a → P s → P s')
    {s s' : σ} {as : List α} (hp : M.Path ok s as s') (hI : I s)
    (hends : ∀ a ∈ as, ¬ E a) (hP : P s) : P s' := by
  induction hp with
  | nil => exact hP
  | cons hok hstep _ ih =>
    have hP' := keep _ _ _ hI hok hstep (hends _ (by simp)) hP
    exact ih (inv _ _ _ hI hok hstep) (fun a ha => hends a (by simp [ha])) hP'

/-- A step-by-step simulation carries over to paths. -/
theorem Path.simulate {τ : Type w} {N : Machine τ α} {R : σ → τ → Prop}
    (sim : ∀ s a s' t, R s t → ok s a → M.step s a s' → ∃ t', N.step t a t' ∧ R s' t')
    {s s' : σ} {as : List α} (hp : M.Path ok s as s') {t : τ} (hR : R s t) :
    ∃ t', N.Path anyStep t as t' ∧ R s' t' := by
  induction hp generalizing t with
  | nil => exact ⟨t, .nil, hR⟩
  | cons hok hstep _ ih =>
    obtain ⟨t', hstep', hR'⟩ := sim _ _ _ t hR hok hstep
    obtain ⟨t'', hpath, hR''⟩ := ih hR'
    exact ⟨t'', .cons trivial hstep' hpath, hR''⟩

end Machine

end EfiCore.Lib
