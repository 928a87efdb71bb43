import Mathlib.Data.List.Basic

/-!
# Runs of a deterministic step function

A system whose nondeterminism has been moved into its actions (which thread
moves, what a device answers, what an adversary sends) is a function
`step : σ → α → σ`, and a run is a fold of it over a list of actions. An
action that is not enabled leaves the state alone, so every list is a run.

`Always` says that a condition on a state and the action about to be taken
holds all along a run, and `run_invariant` is the induction every invariant
of such a system goes through.
-/

namespace Atrib.Lib

variable {σ α : Type*} (step : σ → α → σ)

/-- The state a list of actions leads to. -/
def run (s : σ) (as : List α) : σ := as.foldl step s

@[simp] theorem run_nil (s : σ) : run step s [] = s := rfl

@[simp] theorem run_cons (s : σ) (a : α) (as : List α) :
    run step s (a :: as) = run step (step s a) as := rfl

theorem run_append (s : σ) (as bs : List α) :
    run step s (as ++ bs) = run step (run step s as) bs :=
  List.foldl_append

theorem run_snoc (s : σ) (as : List α) (a : α) :
    run step s (as ++ [a]) = step (run step s as) a := by
  rw [run_append, run_cons, run_nil]

/-- Every action of the run meets `ok` in the state it is taken in. -/
def Always (ok : σ → α → Prop) (s : σ) : List α → Prop
  | [] => True
  | a :: as => ok s a ∧ Always ok (step s a) as

instance instDecidableAlways {ok : σ → α → Prop} [∀ s a, Decidable (ok s a)] :
    ∀ (s : σ) (as : List α), Decidable (Always step ok s as)
  | _, [] => isTrue trivial
  | s, a :: as =>
      have : Decidable (Always step ok (step s a) as) := instDecidableAlways (step s a) as
      inferInstanceAs (Decidable (ok s a ∧ Always step ok (step s a) as))

variable {step}

theorem Always.append {ok : σ → α → Prop} {as bs : List α} :
    ∀ {s : σ}, Always step ok s (as ++ bs) ↔
      Always step ok s as ∧ Always step ok (run step s as) bs := by
  induction as with
  | nil => intro s; simp [Always]
  | cons a as ih => intro s; simp [Always, ih, and_assoc]

theorem Always.initial {ok : σ → α → Prop} {s : σ} {as bs : List α} (hpre : as <+: bs)
    (h : Always step ok s bs) : Always step ok s as := by
  obtain ⟨cs, rfl⟩ := hpre
  exact (Always.append.1 h).1

theorem Always.mono {ok ok' : σ → α → Prop} (hok : ∀ s a, ok s a → ok' s a) {as : List α} :
    ∀ {s : σ}, Always step ok s as → Always step ok' s as := by
  induction as with
  | nil => exact fun _ => trivial
  | cons a as ih => exact fun h => ⟨hok _ a h.1, ih h.2⟩

/-- What every step keeps, a run keeps. -/
theorem run_keeps {inv : σ → Prop} (hstep : ∀ s a, inv s → inv (step s a)) (as : List α) :
    ∀ {s : σ}, inv s → inv (run step s as) := by
  induction as with
  | nil => exact fun hs => hs
  | cons a as ih => exact fun hs => ih (hstep _ a hs)

/-- What one step keeps under `ok`, a run whose steps all meet `ok` keeps. -/
theorem run_invariant {inv : σ → Prop} {ok : σ → α → Prop}
    (hstep : ∀ s a, inv s → ok s a → inv (step s a)) :
    ∀ {as : List α} {s : σ}, inv s → Always step ok s as → inv (run step s as) := by
  intro as
  induction as with
  | nil => intro s hs _; exact hs
  | cons a as ih => intro s hs h; exact ih (hstep s a hs h.1) h.2

end Atrib.Lib
