import LibIrcBot.Foundations.Outcome
import Mathlib.Logic.Relation

/-! # Computations as sequences of elementary effects

A computation that may stop with a fault is traced by a relation if every change it
makes is a sequence of steps of that relation. Invariants of the relation then hold of
the result, and in the state in which a fault arises.
-/
namespace LibIrcBot.Effects
open Relation Outcome
universe u
variable {σ α β : Type u} {φ : Type u} {R S : σ → σ → Prop} {B C : σ → φ × σ → Prop}

/-- From `s` on only steps of `R` happen; `view` finds the state in a result. A fault is
one that `B` allows in a state reached by such steps. -/
def Traced (R : σ → σ → Prop) (B : σ → φ × σ → Prop) (s : σ) (view : α → σ) : Except (φ × σ) α → Prop :=
  Meets (fun a => ReflTransGen R s (view a)) (fun e => ∃ t, ReflTransGen R s t ∧ B t e)

variable {s t : σ} {view : α → σ} {view' : β → σ}

theorem Traced.pure {a : α} (h : ReflTransGen R s (view a)) : Traced R B s view (.ok a) := h

theorem Traced.fault {e : φ × σ} (h : B s e) : Traced R B s view (.error e) := ⟨s,.refl,h⟩

theorem Traced.after (h : ReflTransGen R s t) {r : Except (φ × σ) α} (hr : Traced R B t view r) :
    Traced R B s view r :=
  Meets.mono hr (fun _ ha => h.trans ha) (fun _ ⟨u,hu,he⟩ => ⟨u,h.trans hu,he⟩)

theorem Traced.step (h : R s t) {r : Except (φ × σ) α} (hr : Traced R B t view r) : Traced R B s view r :=
  hr.after (.single h)

theorem Traced.bind {r : Except (φ × σ) α} {f : α → Except (φ × σ) β} (hr : Traced R B s view r)
    (hf : ∀ a, ReflTransGen R s (view a) → Traced R B (view a) view' (f a)) :
    Traced R B s view' (r >>= f) :=
  Meets.bind hr (fun a ha => (hf a ha).after ha)

theorem Traced.mono (hR : ∀ t u, R t u → S t u) (hB : ∀ t e, B t e → C t e) {r : Except (φ × σ) α}
    (h : Traced R B s view r) : Traced S C s view r :=
  Meets.mono h (fun _ ha => ReflTransGen.mono hR _ _ ha)
    (fun e ⟨t,ht,he⟩ => ⟨t,ReflTransGen.mono hR _ _ ht,hB t e he⟩)

/-- Faults that an invariant of the steps excludes need not be allowed for. -/
theorem Traced.faults {I : σ → Prop} (hI : ∀ t u, I t → R t u → I u) (hs : I s)
    (hB : ∀ t e, I t → B t e → C t e) {r : Except (φ × σ) α} (h : Traced R B s view r) :
    Traced R C s view r := by
  refine Meets.mono h (fun _ ha => ha) (fun e ⟨t,ht,he⟩ => ⟨t,ht,hB t e ?_ he⟩)
  clear he
  induction ht with
  | refl => exact hs
  | tail _ h ih => exact hI _ _ ih h

theorem invariant {I : σ → Prop} (hI : ∀ t u, I t → R t u → I u) (hs : I s) (h : ReflTransGen R s t) : I t := by
  induction h with
  | refl => exact hs
  | tail _ h ih => exact hI _ _ ih h

theorem Traced.invariant {I : σ → Prop} (hI : ∀ t u, I t → R t u → I u) (hs : I s) {r : Except (φ × σ) α}
    (h : Traced R B s view r) : Meets (fun a => I (view a)) (fun e => ∃ t, I t ∧ B t e) r :=
  Meets.mono h (fun _ ha => Effects.invariant hI hs ha)
    (fun _ ⟨t,ht,he⟩ => ⟨t,Effects.invariant hI hs ht,he⟩)

end LibIrcBot.Effects
