import Mathlib.Data.List.Basic

/-! # A copy of a value that changes before it is granted

One side keeps a copy of a value that the other side decides on. It sets the copy and asks for it at once; what
it hears later is that a value was granted, or that a request was refused, on which it asks for another value.
When nothing is on its way, the copy is the value.
-/
namespace LibIrcBot
universe u

inductive Word (α : Type u) where
  | granted (old : Option α) (new : α)
  | refused
deriving DecidableEq, Repr

/-- The copy, the requests and the words on their way, and the value, if there is one. -/
structure Replica (α : Type u) where
  copy : α
  asked : List α
  words : List (Word α)
  value : Option α

namespace Word
variable {α : Type u}

/-- The words say how a value became another one. -/
inductive Chain : Option α → List (Word α) → Option α → Prop where
  | nil (value : Option α) : Chain value [] value
  | granted {value : Option α} {new : α} {words : List (Word α)} {last : Option α} (h : Chain (some new) words last) :
      Chain value (Word.granted value new :: words) last
  | refused {value : Option α} {words : List (Word α)} {last : Option α} (h : Chain value words last) :
      Chain value (Word.refused :: words) last

theorem Chain.append {first middle last : Option α} {ws vs : List (Word α)} (h : Chain first ws middle)
    (h' : Chain middle vs last) : Chain first (ws ++ vs) last := by
  induction h with
  | nil => exact h'
  | granted _ ih => exact .granted (ih h')
  | refused _ ih => exact .refused (ih h')

variable [DecidableEq α] {bump : α → α}

/-- The copy follows a change of the value that it had, and is replaced after a refusal. -/
def hear (bump : α → α) : Word α → α → α
  | granted (some old) new, copy => if copy = old then new else copy
  | granted none _, copy => copy
  | refused, copy => bump copy

def asks (bump : α → α) : Word α → α → List α
  | granted _ _, _ => []
  | refused, copy => [bump copy]

def hearAll (bump : α → α) : List (Word α) → α → α
  | [], copy => copy
  | word :: words, copy => hearAll bump words (word.hear bump copy)

def asksAll (bump : α → α) : List (Word α) → α → List α
  | [], _ => []
  | word :: words, copy => word.asks bump copy ++ asksAll bump words (word.hear bump copy)

theorem hearAll_append (ws vs : List (Word α)) (copy : α) :
    hearAll bump (ws ++ vs) copy = hearAll bump vs (hearAll bump ws copy) := by
  induction ws generalizing copy with
  | nil => rfl
  | cons word ws ih => exact ih (word.hear bump copy)

theorem asksAll_append (ws vs : List (Word α)) (copy : α) :
    asksAll bump (ws ++ vs) copy = asksAll bump ws copy ++ asksAll bump vs (hearAll bump ws copy) := by
  induction ws generalizing copy with
  | nil => rfl
  | cons word ws ih =>
    rw [List.cons_append,asksAll,asksAll,ih,List.append_assoc]
    rfl

/-- A copy ends up as the value, or as what was asked for last, or no word concerns it. A copy that is the
value in front of the words has to follow it. -/
theorem Chain.follows (bump : α → α) {first last : Option α} {words : List (Word α)} (h : Chain first words last) (copy : α) :
    last = some (hearAll bump words copy) ∨ (asksAll bump words copy).getLast? = some (hearAll bump words copy) ∨
      (first ≠ some copy ∧ asksAll bump words copy = [] ∧ hearAll bump words copy = copy) := by
  induction h generalizing copy with
  | nil value =>
    by_cases hv : value = some copy
    · exact .inl hv
    · exact .inr (.inr ⟨hv,rfl,rfl⟩)
  | @granted value new words last _ ih =>
    have hcases : (value = some copy ∧ (Word.granted value new).hear bump copy = new) ∨
        (value ≠ some copy ∧ (Word.granted value new).hear bump copy = copy) := by
      cases value with
      | none => exact .inr ⟨nofun,rfl⟩
      | some old =>
        by_cases ho : copy = old
        · exact .inl ⟨congrArg some ho.symm,if_pos ho⟩
        · exact .inr ⟨fun he => ho (Option.some.inj he).symm,if_neg ho⟩
    change last = some (hearAll bump words _) ∨ (asksAll bump words _).getLast? = some (hearAll bump words _) ∨
      (value ≠ some copy ∧ asksAll bump words _ = [] ∧ hearAll bump words _ = copy)
    rcases hcases with ⟨_,hnew⟩ | ⟨hne,hold⟩
    · rw [hnew]
      rcases ih new with hlast | hask | ⟨hno,_⟩
      · exact .inl hlast
      · exact .inr (.inl hask)
      · exact absurd rfl hno
    · rw [hold]
      rcases ih copy with hlast | hask | ⟨_,hnone,hsame⟩
      · exact .inl hlast
      · exact .inr (.inl hask)
      · exact .inr (.inr ⟨hne,hnone,hsame⟩)
  | @refused value words last _ ih =>
    change last = some (hearAll bump words (bump copy)) ∨
      (bump copy :: asksAll bump words (bump copy)).getLast? = some (hearAll bump words (bump copy)) ∨ _
    rcases ih (bump copy) with hlast | hask | ⟨_,hnone,hsame⟩
    · exact .inl hlast
    · refine .inr (.inl ?_)
      rw [List.getLast?_cons,hask]
      rfl
    · refine .inr (.inl ?_)
      rw [hnone,hsame]
      rfl

end Word

namespace Replica
variable {α : Type u} [DecidableEq α] {bump : α → α} {r t : Replica α}

inductive Step (bump : α → α) : Replica α → Replica α → Prop where
  | ask {r : Replica α} (x : α) : Step bump r { r with copy := x, asked := r.asked ++ [x] }
  | hear {r : Replica α} {word : Word α} {words : List (Word α)} (h : r.words = word :: words) :
      Step bump r { r with copy := word.hear bump r.copy, asked := r.asked ++ word.asks bump r.copy, words := words }
  /-- The value is asked for again, and the other side says nothing. -/
  | keep {r : Replica α} {x : α} {xs : List α} (h : r.asked = x :: xs) (hv : r.value = some x) :
      Step bump r { r with asked := xs }
  | refuse {r : Replica α} {x : α} {xs : List α} (h : r.asked = x :: xs) :
      Step bump r { r with asked := xs, words := r.words ++ [.refused] }
  | grant {r : Replica α} {x : α} {xs : List α} (h : r.asked = x :: xs) :
      Step bump r { r with asked := xs, words := r.words ++ [.granted r.value x], value := some x }
  /-- The other side changes a value on its own. -/
  | force {r : Replica α} {old : α} (h : r.value = some old) (new : α) :
      Step bump r { r with words := r.words ++ [.granted (some old) new], value := some new }

/-- The copy will be the value, or a request for it is the last one on its way. -/
structure Follows (bump : α → α) (r : Replica α) : Prop where
  chain : ∃ first, Word.Chain first r.words r.value
  ends : r.value = some (Word.hearAll bump r.words r.copy) ∨
    (r.asked ++ Word.asksAll bump r.words r.copy).getLast? = some (Word.hearAll bump r.words r.copy)

/-- A request that is the first one is not the last one, or it is the only one. -/
theorem getLast?_tail {β : Type u} {x y : β} {xs : List β} (h : (x :: xs).getLast? = some y) : xs.getLast? = some y ∨ xs = [] ∧ x = y := by
  cases xs with
  | nil => exact .inr ⟨rfl,Option.some.inj h⟩
  | cons z xs => exact .inl (by rwa [List.getLast?_cons_cons] at h)

/-- At first there is no value, and the copy is asked for. -/
theorem Follows.opened (copy : α) : Follows bump ⟨copy,[copy],[],none⟩ := ⟨⟨none,.nil none⟩,.inr rfl⟩

namespace Follows

theorem ask (h : Follows bump r) (x : α) : Follows bump { r with copy := x, asked := r.asked ++ [x] } := by
  obtain ⟨first,hchain⟩ := h.chain
  refine ⟨⟨first,hchain⟩,?_⟩
  dsimp only
  rcases hchain.follows bump x with hlast | hask | ⟨_,hnone,hsame⟩
  · exact .inl hlast
  · rw [List.getLast?_append,hask]
    exact .inr rfl
  · rw [hnone,hsame,List.append_nil,List.getLast?_concat]
    exact .inr rfl

theorem hear (h : Follows bump r) {word : Word α} {words : List (Word α)} (hw : r.words = word :: words) :
    Follows bump { r with copy := word.hear bump r.copy, asked := r.asked ++ word.asks bump r.copy, words := words } := by
  obtain ⟨⟨first,hchain⟩,hends⟩ := h
  rw [hw] at hchain hends
  refine ⟨?_,?_⟩
  · cases hchain with
    | granted hchain => exact ⟨_,hchain⟩
    | refused hchain => exact ⟨_,hchain⟩
  · rw [Word.hearAll,Word.asksAll,← List.append_assoc] at hends
    exact hends

theorem keep (h : Follows bump r) {x : α} {xs : List α} (hx : r.asked = x :: xs) (hv : r.value = some x) :
    Follows bump { r with asked := xs } := by
  refine ⟨h.chain,?_⟩
  rcases h.ends with hlast | hask
  · exact .inl hlast
  · rw [hx,List.cons_append] at hask
    rcases getLast?_tail hask with hask | ⟨_,he⟩
    · exact .inr hask
    · exact .inl (he ▸ hv)

theorem refuse (h : Follows bump r) (xs : List α) :
    Follows bump { r with asked := xs, words := r.words ++ [.refused] } := by
  obtain ⟨first,hchain⟩ := h.chain
  refine ⟨⟨first,hchain.append (.refused (.nil _))⟩,.inr ?_⟩
  dsimp only
  rw [Word.hearAll_append,Word.asksAll_append,← List.append_assoc]
  change (xs ++ Word.asksAll bump r.words r.copy ++ [bump (Word.hearAll bump r.words r.copy)]).getLast? = _
  rw [List.getLast?_concat]
  rfl

/-- The value changes, and the copy with it if it will have been the value. -/
theorem granted (h : Follows bump r) (x : α) {xs : List α} (hx : r.asked = xs ∨ r.asked = x :: xs) :
    Follows bump { r with asked := xs, words := r.words ++ [.granted r.value x], value := some x } := by
  obtain ⟨first,hchain⟩ := h.chain
  refine ⟨⟨first,hchain.append (.granted (.nil _))⟩,?_⟩
  dsimp only
  rw [Word.hearAll_append,Word.asksAll_append]
  change some x = some ((Word.granted r.value x).hear bump (Word.hearAll bump r.words r.copy)) ∨
    (xs ++ (Word.asksAll bump r.words r.copy ++ [])).getLast? =
      some ((Word.granted r.value x).hear bump (Word.hearAll bump r.words r.copy))
  rw [List.append_nil]
  by_cases hv : r.value = some (Word.hearAll bump r.words r.copy)
  · rw [hv]
    exact .inl (congrArg some (if_pos rfl).symm)
  · have hsame : (Word.granted r.value x).hear bump (Word.hearAll bump r.words r.copy) = Word.hearAll bump r.words r.copy := by
      cases hval : r.value with
      | none => rfl
      | some old => exact if_neg fun he => hv (hval.trans (congrArg some he.symm))
    rw [hsame]
    have hask := h.ends.resolve_left hv
    rcases hx with hx | hx
    · exact .inr (hx ▸ hask)
    · rw [hx,List.cons_append] at hask
      rcases getLast?_tail hask with hask | ⟨_,he⟩
      · exact .inr hask
      · exact .inl (congrArg some he)

theorem step (h : Follows bump r) (hs : Step bump r t) : Follows bump t := by
  cases hs with
  | ask x => exact h.ask x
  | hear hw => exact h.hear hw
  | keep hx hv => exact h.keep hx hv
  | refuse _ => exact h.refuse _
  | grant hx => exact h.granted _ (.inr hx)
  | force hv new => exact hv ▸ h.granted new (.inl rfl)

/-- When nothing is on its way, the copy is the value. -/
theorem settled (h : Follows bump r) (hasked : r.asked = []) (hwords : r.words = []) : r.value = some r.copy := by
  have hends := h.ends
  rw [hwords,hasked] at hends
  rcases hends with hlast | hask
  · exact hlast
  · cases hask

end Follows
end Replica
end LibIrcBot
