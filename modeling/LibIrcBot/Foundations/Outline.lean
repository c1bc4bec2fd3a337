import Mathlib.Logic.Function.Basic

/-! # Processes that step over a shared state

Each process stands somewhere. An outline says what holds while a process stands at a place, and which places two
processes can be at together. It is kept by a step when the place that is reached meets its assertion, and when
every place that another process can be at keeps its own one and goes with the place that is reached.
-/
namespace LibIrcBot

/-- What holds while a process is at a place, and which places go together. -/
structure Outline (σ ι κ : Type) where
  Holds : σ → ι → κ → Prop
  Together : ι → κ → ι → κ → Prop
  symm : ∀ p k q l, Together p k q l → Together q l p k

namespace Outline
variable {σ ι κ : Type} (O : Outline σ ι κ)

/-- Every process meets the assertion of its place, and any two are at places that go together. -/
structure Valid (s : σ) (procs : ι → Option κ) : Prop where
  holds : ∀ {p k}, procs p = some k → O.Holds s p k
  together : ∀ {p q k l}, p ≠ q → procs p = some k → procs q = some l → O.Together p k q l

/-- The others keep their assertions, and their places go with another one. -/
def Bears (t : σ) (procs : ι → Option κ) (p : ι) (k : κ) : Prop :=
  ∀ q l, q ≠ p → procs q = some l → O.Holds t q l ∧ O.Together p k q l

variable {O} {s t : σ} {procs : ι → Option κ} {p c : ι} {k k' kc : κ}

theorem Valid.initial (h : ∀ p, procs p = none) : O.Valid s procs where
  holds hp := by rw [h] at hp; cases hp
  together _ hp _ := by rw [h] at hp; cases hp

variable [DecidableEq ι]

/-- A process gets to another place, or comes to its first one. -/
theorem Valid.move (h : O.Valid s procs) (hown : O.Holds t p k) (hbears : O.Bears t procs p k) :
    O.Valid t (Function.update procs p (some k)) where
  holds {q l} hq := by
    by_cases hqp : q = p
    · subst hqp
      rw [Function.update_self] at hq
      cases hq
      exact hown
    · rw [Function.update_of_ne hqp] at hq
      exact (hbears q l hqp hq).1
  together {q r l m} hqr hq hr := by
    by_cases hqp : q = p
    · subst hqp
      rw [Function.update_self] at hq
      cases hq
      rw [Function.update_of_ne hqr.symm] at hr
      exact (hbears r m hqr.symm hr).2
    · rw [Function.update_of_ne hqp] at hq
      by_cases hrp : r = p
      · subst hrp
        rw [Function.update_self] at hr
        cases hr
        exact O.symm _ _ _ _ (hbears q l hqp hq).2
      · rw [Function.update_of_ne hrp] at hr
        exact h.together hqr hq hr

/-- A process ends. -/
theorem Valid.leave (h : O.Valid s procs) (hothers : ∀ q l, q ≠ p → procs q = some l → O.Holds t q l) :
    O.Valid t (Function.update procs p none) where
  holds {q l} hq := by
    by_cases hqp : q = p
    · rw [hqp,Function.update_self] at hq
      cases hq
    · rw [Function.update_of_ne hqp] at hq
      exact hothers q l hqp hq
  together {q r l m} hqr hq hr := by
    have hne : ∀ {x y}, Function.update procs p none x = some y → procs x = some y := by
      intro x y hx
      by_cases hxp : x = p
      · rw [hxp,Function.update_self] at hx
        cases hx
      · rwa [Function.update_of_ne hxp] at hx
    exact h.together hqr (hne hq) (hne hr)

/-- A process gets to another place and starts another process. -/
theorem Valid.fork (h : O.Valid s procs) (hown : O.Holds t p k) (hbears : O.Bears t procs p k)
    (hchild : O.Holds t c kc) (hpair : O.Together c kc p k)
    (hbearc : ∀ q l, q ≠ p → procs q = some l → O.Together c kc q l) :
    O.Valid t (Function.update (Function.update procs p (some k)) c (some kc)) := by
  have hp := h.move hown hbears
  refine hp.move (s := t) hchild fun q l hqc hq => ⟨hp.holds hq,?_⟩
  by_cases hqp : q = p
  · subst hqp
    rw [Function.update_self] at hq
    cases hq
    exact hpair
  · rw [Function.update_of_ne hqp] at hq
    exact hbearc q l hqp hq

end Outline
end LibIrcBot
