import LibIrcBot.Foundations.Framing

/-! # Cutting a list into pieces of equal size

The pieces put together give the list again. A pair of symbols is missing in all of
them exactly if it only occurs across the ends of pieces.
-/
namespace LibIrcBot.Chunks
open Framing
variable {α : Type*} {m n : ℕ} {s : List α}

/-- The pieces of `m` elements, the last one with what is left; at most `n` of them. -/
def chunks (m : ℕ) : ℕ → List α → List (List α)
  | 0, _ => []
  | n + 1, s => if s.isEmpty then [] else s.take m :: chunks m n (s.drop m)

theorem chunks_flatten (hm : 0 < m) (hn : s.length ≤ n) : (chunks m n s).flatten = s := by
  induction n generalizing s with
  | zero => rw [List.length_eq_zero_iff.mp (by omega : s.length = 0)]; rfl
  | succ n ih =>
    rw [chunks]
    split
    · next h => rw [List.isEmpty_iff.mp h]; rfl
    · rw [List.flatten_cons,ih (by rw [List.length_drop]; omega),List.take_append_drop]

theorem chunks_bounds (hm : 0 < m) : ∀ c ∈ chunks m n s, c ≠ [] ∧ c.length ≤ m := by
  induction n generalizing s with
  | zero => simp [chunks]
  | succ n ih =>
    intro c hc
    rw [chunks] at hc
    split at hc
    · simp at hc
    · next h =>
      rcases List.mem_cons.mp hc with rfl | hc
      · refine ⟨?_,List.length_take_le m s⟩
        intro ht
        rcases List.take_eq_nil_iff.mp ht with h0 | h0
        · omega
        · exact h (List.isEmpty_iff.mpr h0)
      · exact ih c hc

/-- The pieces are free of a pair exactly if it only stands across their ends. -/
theorem pairFree_chunks_iff {a b : α} (hm : 0 < m) (hn : s.length ≤ n) :
    (∀ c ∈ chunks m n s, PairFree a b c) ↔
      ∀ i, s[i]? = some a → s[i + 1]? = some b → (i + 1) % m = 0 := by
  induction n generalizing s with
  | zero =>
    rw [List.length_eq_zero_iff.mp (by omega : s.length = 0)]
    simp [chunks]
  | succ n ih =>
    rw [chunks]
    split
    · next h =>
      rw [List.isEmpty_iff.mp h]
      simp
    · have ih := ih (s := s.drop m) (by rw [List.length_drop]; omega)
      rw [List.forall_mem_cons,ih,pairFree_iff]
      constructor
      · rintro ⟨hfirst,hrest⟩ i ha hb
        by_cases hlt : i + 1 < m
        · exact absurd (by rwa [List.getElem?_take_of_lt hlt])
            (hfirst i (by rwa [List.getElem?_take_of_lt (by omega)]))
        · by_cases he : i + 1 = m
          · rw [he,Nat.mod_self]
          · obtain ⟨j,rfl⟩ : ∃ j, i = m + j := ⟨i - m,by omega⟩
            have hr := hrest j (by rwa [List.getElem?_drop]) (by rwa [List.getElem?_drop])
            rwa [Nat.add_assoc,Nat.add_mod_left]
      · intro h
        constructor
        · intro i ha hb
          have hlt : i + 1 < m := by
            by_contra hge
            rw [List.getElem?_take_eq_none (by omega)] at hb
            cases hb
          rw [List.getElem?_take_of_lt (by omega)] at ha
          rw [List.getElem?_take_of_lt hlt] at hb
          have hz := h i ha hb
          rw [Nat.mod_eq_of_lt hlt] at hz
          omega
        · intro j ha hb
          rw [List.getElem?_drop] at ha hb
          have hz := h (m + j) ha hb
          rwa [Nat.add_assoc,Nat.add_mod_left] at hz

end LibIrcBot.Chunks
