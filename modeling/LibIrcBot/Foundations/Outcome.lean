import Mathlib.Logic.Basic
import Mathlib.Tactic.Common

/-! # Outcomes of fallible steps

A step either yields a next state or stops with a fault. `Meets Q E r` says that a
result satisfies `Q` and that a fault satisfies `E`; the rules below follow the
sequencing of the steps.
-/
namespace LibIrcBot.Outcome
universe u v
variable {ε : Type v} {α β σ : Type u}

def Meets (Q : α → Prop) (E : ε → Prop) : Except ε α → Prop
  | .ok a => Q a
  | .error e => E e

@[simp] theorem meets_ok {Q : α → Prop} {E : ε → Prop} {a : α} :
    Meets Q E (.ok a : Except ε α) ↔ Q a := Iff.rfl

@[simp] theorem meets_pure {Q : α → Prop} {E : ε → Prop} {a : α} :
    Meets Q E (pure a : Except ε α) ↔ Q a := Iff.rfl

@[simp] theorem meets_error {Q : α → Prop} {E : ε → Prop} {e : ε} :
    Meets Q E (.error e : Except ε α) ↔ E e := Iff.rfl

/-- Sequencing: the second step only has to handle results of the first. -/
theorem Meets.bind {P : α → Prop} {Q : β → Prop} {E : ε → Prop} {r : Except ε α} {f : α → Except ε β}
    (hr : Meets P E r) (hf : ∀ a, P a → Meets Q E (f a)) : Meets Q E (r >>= f) := by
  cases r with
  | ok a => exact hf a hr
  | error e => exact hr

/-- A sequence that succeeds consists of two steps that do. -/
theorem ok_of_bind {r : Except ε α} {f : α → Except ε β} {b : β} (h : r >>= f = .ok b) : ∃ a, r = .ok a ∧ f a = .ok b := by
  cases r with
  | ok a => exact ⟨a,rfl,h⟩
  | error e => cases h

theorem ok_of_map {r : Except ε α} {f : α → β} {b : β} (h : r.map f = .ok b) : ∃ a, r = .ok a ∧ f a = b := by
  cases r with
  | ok a => exact ⟨a,rfl,Except.ok.inj h⟩
  | error e => cases h

theorem Meets.mono {P Q : α → Prop} {E F : ε → Prop} {r : Except ε α} (h : Meets P E r)
    (hQ : ∀ a, P a → Q a) (hF : ∀ e, E e → F e) : Meets Q F r := by
  cases r with
  | ok a => exact hQ a h
  | error e => exact hF e h

theorem Meets.and {P Q : α → Prop} {E : ε → Prop} {r : Except ε α} (hp : Meets P E r)
    (hq : Meets Q E r) : Meets (fun a => P a ∧ Q a) E r := by
  cases r with
  | ok a => exact ⟨hp,hq⟩
  | error e => exact hp

/-- An invariant of every pass is an invariant of the loop. -/
theorem Meets.foldlM {I : σ → Prop} {E : ε → Prop} {f : σ → α → Except ε σ} {xs : List α}
    (hf : ∀ s, I s → ∀ x ∈ xs, Meets I E (f s x)) {s : σ} (hs : I s) : Meets I E (xs.foldlM f s) := by
  induction xs generalizing s with
  | nil => exact hs
  | cons x xs ih =>
    rw [List.foldlM_cons]
    exact Meets.bind (hf s hs x List.mem_cons_self)
      (fun t ht => ih (fun u hu y hy => hf u hu y (List.mem_cons_of_mem _ hy)) ht)

end LibIrcBot.Outcome
