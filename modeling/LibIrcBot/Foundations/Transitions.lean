import LibIrcBot.Foundations.Outcome
import Mathlib.Data.List.Induction
import Mathlib.Logic.Relation

/-! # Runs of a labelled step function

The states reached from an initial set through steps that each meet a condition on
the label and the state before it. An invariant of such steps holds in all of them.
-/
namespace LibIrcBot.Transitions
variable {σ ι ε : Type*}

/-- The states reached when every step taken meets `C`. -/
inductive Reaches (step : ι → σ → Except ε σ) (C : ι → σ → Prop) (init : σ → Prop) : σ → Prop where
  | start {s : σ} : init s → Reaches step C init s
  | next {s t : σ} {l : ι} : Reaches step C init s → C l s → step l s = .ok t → Reaches step C init t

inductive Run (step : ι → σ → Except ε σ) (C : ι → σ → Prop) : σ → List ι → σ → Prop where
  | nil (s : σ) : Run step C s [] s
  | cons {s t u : σ} {l : ι} {ls : List ι} :
      C l s → step l s = .ok t → Run step C t ls u → Run step C s (l :: ls) u

variable {step : ι → σ → Except ε σ} {C D : ι → σ → Prop} {init I : σ → Prop}

theorem Reaches.invariant (hi : ∀ s, init s → I s)
    (hs : ∀ l s t, I s → C l s → step l s = .ok t → I t) {s : σ} (h : Reaches step C init s) : I s := by
  induction h with
  | start h => exact hi _ h
  | next _ hc he ih => exact hs _ _ _ ih hc he

theorem Reaches.mono (hCD : ∀ l s, C l s → D l s) {s : σ} (h : Reaches step C init s) :
    Reaches step D init s := by
  induction h with
  | start h => exact .start h
  | next _ hc he ih => exact .next ih (hCD _ _ hc) he

/-- A list of labels that meet the condition everywhere, and whose steps all succeed, is a run. -/
theorem Run.ofFold {s t : σ} {ls : List ι} (hC : ∀ l ∈ ls, ∀ s, C l s)
    (h : ls.foldlM (fun s l => step l s) s = .ok t) : Run step C s ls t := by
  induction ls generalizing s with
  | nil =>
    cases h
    exact .nil _
  | cons l ls ih =>
    rw [List.foldlM_cons] at h
    cases hs : step l s with
    | error e =>
      rw [hs] at h
      cases h
    | ok u =>
      rw [hs] at h
      exact .cons (hC l List.mem_cons_self s) hs (ih (fun k hk => hC k (List.mem_cons_of_mem _ hk)) h)

theorem Run.reaches {s t : σ} {ls : List ι} (h : Run step C s ls t) (hs : Reaches step C init s) :
    Reaches step C init t := by
  induction h with
  | nil => exact hs
  | cons hc he _ ih => exact ih (.next hs hc he)

theorem Run.invariant {s t : σ} {ls : List ι} (h : Run step C s ls t)
    (hs : ∀ l s t, I s → C l s → step l s = .ok t → I t) (h0 : I s) : I t := by
  induction h with
  | nil => exact h0
  | cons hc he _ ih => exact ih (hs _ _ _ h0 hc he)

/-- The state behind a list of labels whose steps all meet the condition. -/
def follow (step : ι → σ → Except ε σ) (C : ι → σ → Prop) [∀ l s, Decidable (C l s)] : List ι → σ → Option σ
  | [], s => some s
  | l :: ls, s =>
    if C l s then
      match step l s with
      | .ok t => follow step C ls t
      | .error _ => none
    else none

theorem Reaches.follow [∀ l s, Decidable (C l s)] {s t : σ} {ls : List ι} (h : Reaches step C init s)
    (hf : follow step C ls s = some t) : Reaches step C init t := by
  induction ls generalizing s with
  | nil =>
    cases hf
    exact h
  | cons l ls ih =>
    rw [Transitions.follow] at hf
    split at hf
    · next hc =>
      split at hf
      · next hs => exact ih (.next h hc hs) hf
      · cases hf
    · cases hf

/-- Something that can be checked at the end of a list of labels holds in a state that is reached. -/
theorem Reaches.exists_follow [∀ l s, Decidable (C l s)] {s : σ} {ls : List ι} {P : σ → Bool}
    (h : Reaches step C init s) (hP : (Transitions.follow step C ls s).any P) : ∃ t, Reaches step C init t ∧ P t := by
  obtain ⟨t,ht,hP⟩ := (Option.any_eq_true P _).mp hP
  exact ⟨t,h.follow ht,hP⟩

/-- A sequence of steps of a labelled relation. -/
inductive Path (R : ι → σ → σ → Prop) : List ι → σ → σ → Prop where
  | nil (s : σ) : Path R [] s s
  | snoc {ls : List ι} {s t u : σ} {l : ι} : Path R ls s t → R l t u → Path R (ls ++ [l]) s u

namespace Path
variable {R : ι → σ → σ → Prop} {ls ms : List ι} {l : ι} {s t u : σ}

theorem single (h : R l s t) : Path R [l] s t := .snoc (.nil s) h

theorem append (h : Path R ls s t) (h' : Path R ms t u) : Path R (ls ++ ms) s u := by
  induction h' with
  | nil => simpa using h
  | snoc _ hl ih => simpa using (ih h).snoc hl

theorem snoc_inv (h : Path R (ls ++ [l]) s u) : ∃ t, Path R ls s t ∧ R l t u := by
  generalize hall : ls ++ [l] = all at h
  cases h with
  | nil => simp at hall
  | snoc hls hl =>
    obtain ⟨rfl,hlast⟩ := List.append_inj' hall rfl
    cases hlast
    exact ⟨_,hls,hl⟩

theorem append_inv (h : Path R (ls ++ ms) s u) : ∃ t, Path R ls s t ∧ Path R ms t u := by
  induction ms using List.reverseRecOn generalizing u with
  | nil => exact ⟨u,by simpa using h,.nil u⟩
  | append_singleton ms l ih =>
    rw [← List.append_assoc] at h
    obtain ⟨t,ht,hl⟩ := h.snoc_inv
    obtain ⟨v,hv,hms⟩ := ih ht
    exact ⟨v,hv,hms.snoc hl⟩

/-- The states in front of a step and behind it. -/
theorem cons_inv (h : Path R (ls ++ l :: ms) s u) : ∃ t v, Path R ls s t ∧ R l t v ∧ Path R ms v u := by
  rw [List.append_cons] at h
  obtain ⟨v,hv,hms⟩ := h.append_inv
  obtain ⟨t,ht,hl⟩ := hv.snoc_inv
  exact ⟨t,v,ht,hl,hms⟩

/-- Steps of which each has a label with a property form a path of such labels. -/
theorem ofSteps {P : ι → Prop} (h : Relation.ReflTransGen (fun s t => ∃ l, P l ∧ R l s t) s t) :
    ∃ ls, (∀ l ∈ ls, P l) ∧ Path R ls s t := by
  induction h with
  | refl => exact ⟨[],by simp,.nil s⟩
  | tail _ hl ih =>
    obtain ⟨ls,hP,hls⟩ := ih
    obtain ⟨l,hl,hstep⟩ := hl
    refine ⟨ls ++ [l],fun k hk => ?_,hls.snoc hstep⟩
    rcases List.mem_append.mp hk with hk | hk
    · exact hP k hk
    · rw [List.mem_singleton.mp hk]
      exact hl

end Path
end LibIrcBot.Transitions
