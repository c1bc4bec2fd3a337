import Mathlib.Data.List.Infix
import Mathlib.Tactic.Common

/-! # Lines ended by a pair of delimiters

A stream over any alphabet is cut at every occurrence of two fixed, different symbols
that stand next to each other. What is cut off a stream does not depend on the pieces
in which the stream arrives.
-/
namespace LibIrcBot.Framing
variable {α : Type*}

/-- The two symbols of the delimiter never stand next to each other. -/
def PairFree (a b : α) (s : List α) : Prop := ¬ [a,b] <:+: s

instance [DecidableEq α] (a b : α) (s : List α) : Decidable (PairFree a b s) :=
  inferInstanceAs (Decidable (¬ _))

theorem pairFree_nil (a b : α) : PairFree a b [] := by simp [PairFree]

theorem PairFree.mono {a b : α} {s t : List α} (h : PairFree a b t) (hs : s <:+: t) : PairFree a b s :=
  fun hp => h (hp.trans hs)

theorem PairFree.tail {a b x : α} {s : List α} (h : PairFree a b (x :: s)) : PairFree a b s :=
  h.mono (List.suffix_cons x s).isInfix

theorem PairFree.head {a b x y : α} {s : List α} (h : PairFree a b (x :: y :: s)) : ¬ (x = a ∧ y = b) := by
  rintro ⟨rfl,rfl⟩
  exact h ⟨[],s,rfl⟩

theorem pairFree_cons {a b x : α} {s : List α} :
    PairFree a b (x :: s) ↔ ¬ (x = a ∧ s.head? = some b) ∧ PairFree a b s := by
  constructor
  · intro h
    refine ⟨?_,h.tail⟩
    cases s with
    | nil => simp
    | cons y s => simpa using h.head
  · rintro ⟨hx,hs⟩ hp
    rcases List.infix_cons_iff.mp hp with hp | hp
    · cases s with
      | nil => simp at hp
      | cons y s =>
        simp only [List.cons_prefix_cons, List.nil_prefix,and_true] at hp
        exact hx ⟨hp.1.symm,by simp [hp.2]⟩
    · exact hs hp

/-- Two pieces without the pair make one without it unless it straddles their border. -/
theorem pairFree_append {a b : α} {s t : List α} :
    PairFree a b (s ++ t) ↔
      PairFree a b s ∧ PairFree a b t ∧ ¬ (s.getLast? = some a ∧ t.head? = some b) := by
  induction s with
  | nil => simp [pairFree_nil]
  | cons x s ih =>
    rw [List.cons_append,pairFree_cons,pairFree_cons,ih]
    cases s with
    | nil => simp [pairFree_nil]; tauto
    | cons y s => simp only [List.cons_append,List.head?_cons,List.getLast?_cons_cons]; tauto

theorem pair_at {a b : α} {s : List α} {i : ℕ} (ha : s[i]? = some a) (hb : s[i + 1]? = some b) :
    ¬ PairFree a b s := by
  obtain ⟨hi,ha⟩ := List.getElem?_eq_some_iff.mp ha
  obtain ⟨hi',hb⟩ := List.getElem?_eq_some_iff.mp hb
  have hd : s.drop i = a :: b :: s.drop (i + 1 + 1) := by
    rw [List.drop_eq_getElem_cons hi,List.drop_eq_getElem_cons hi',ha,hb]
  intro h
  refine h ⟨s.take i,s.drop (i + 1 + 1),?_⟩
  rw [List.append_assoc,List.cons_append,List.cons_append,List.nil_append,← hd,List.take_append_drop]

theorem pairFree_iff {a b : α} {s : List α} : PairFree a b s ↔ ∀ i, s[i]? = some a → s[i + 1]? ≠ some b := by
  constructor
  · intro h i ha hb
    exact pair_at ha hb h
  · rintro h ⟨pre,suf,rfl⟩
    refine h pre.length ?_ ?_
    · simp
    · rw [List.append_assoc,List.getElem?_append_right (Nat.le_succ _)]
      simp

variable [DecidableEq α]

def push (x : α) : List (List α) × List α → List (List α) × List α
  | ([],rest) => ([],x :: rest)
  | (line :: lines,rest) => ((x :: line) :: lines,rest)

/-- The lines of a stream, without their delimiters, and the unterminated rest. -/
def split (a b : α) : List α → List (List α) × List α
  | [] => ([],[])
  | [x] => ([],[x])
  | x :: y :: s =>
    if x = a ∧ y = b then ([] :: (split a b s).1,(split a b s).2) else push x (split a b (y :: s))

def join (a b : α) (lines : List (List α)) : List α := (lines.map (· ++ [a,b])).flatten

omit [DecidableEq α] in
@[simp] theorem join_nil (a b : α) : join a b [] = [] := rfl

omit [DecidableEq α] in
@[simp] theorem join_cons (a b : α) (line : List α) (lines : List (List α)) :
    join a b (line :: lines) = line ++ a :: b :: join a b lines := by simp [join]

omit [DecidableEq α] in
theorem join_append (a b : α) (xs ys : List (List α)) : join a b (xs ++ ys) = join a b xs ++ join a b ys := by
  simp [join]

variable {a b : α}

theorem split_of_pairFree {s : List α} (h : PairFree a b s) : split a b s = ([],s) := by
  induction s with
  | nil => rfl
  | cons x s ih =>
    cases s with
    | nil => rfl
    | cons y s => rw [split,if_neg h.head,ih h.tail,push]

theorem split_line (hab : a ≠ b) {line : List α} (h : PairFree a b line) (s : List α) :
    split a b (line ++ a :: b :: s) = (line :: (split a b s).1,(split a b s).2) := by
  induction line with
  | nil => rw [List.nil_append,split,if_pos ⟨rfl,rfl⟩]
  | cons x line ih =>
    have ih := ih h.tail
    cases line with
    | nil =>
      rw [List.nil_append] at ih
      rw [List.cons_append,List.nil_append,split,if_neg (fun hp => hab hp.2),ih,push]
    | cons y line =>
      rw [List.cons_append,List.cons_append,split,if_neg h.head,← List.cons_append,ih,push]

theorem split_join (hab : a ≠ b) {lines : List (List α)} (h : ∀ line ∈ lines, PairFree a b line) (s : List α) :
    split a b (join a b lines ++ s) = (lines ++ (split a b s).1,(split a b s).2) := by
  induction lines with
  | nil => rfl
  | cons line lines ih =>
    have ih := ih (fun l hl => h l (List.mem_cons_of_mem _ hl))
    rw [join_cons,List.append_assoc,List.cons_append,List.cons_append,
      split_line hab (h line List.mem_cons_self),ih]
    rfl

/-- The pieces are without the delimiter and put together again give the stream. -/
structure Splits (a b : α) (s : List α) (lines : List (List α)) (rest : List α) : Prop where
  eq : s = join a b lines ++ rest
  lines : ∀ line ∈ lines, PairFree a b line
  rest : PairFree a b rest

theorem splits_split (s : List α) : Splits a b s (split a b s).1 (split a b s).2 := by
  induction s using split.induct a b with
  | case1 => exact ⟨rfl,by simp [split],pairFree_nil a b⟩
  | case2 x => exact ⟨rfl,by simp [split],by simp [split,pairFree_cons,pairFree_nil]⟩
  | case3 x y s hxy ih =>
    rw [split,if_pos hxy,hxy.1,hxy.2]
    refine ⟨?_,?_,ih.rest⟩
    · dsimp only
      rw [join_cons,List.nil_append,List.cons_append,List.cons_append,← ih.eq]
    · intro line hl
      rcases List.mem_cons.mp hl with rfl | hl
      · exact pairFree_nil a b
      · exact ih.lines line hl
  | case4 x y s hxy ih =>
    rw [split,if_neg hxy]
    obtain ⟨heq,hl,hr⟩ := ih
    -- What follows `x` in its piece starts with `y` or is empty.
    cases hs : split a b (y :: s) with
    | mk lines rest =>
      rw [hs] at heq hl hr
      cases lines with
      | nil =>
        refine ⟨by simpa [push] using heq,by simp [push],?_⟩
        simp only [join_nil,List.nil_append] at heq
        rw [push]
        dsimp only at heq ⊢
        rw [← heq]
        exact pairFree_cons.mpr ⟨by simpa using hxy,by rw [heq]; exact hr⟩
      | cons line lines =>
        refine ⟨by simpa [push] using heq,?_,hr⟩
        intro l hm
        rcases List.mem_cons.mp hm with rfl | hm
        · refine pairFree_cons.mpr ⟨?_,hl line List.mem_cons_self⟩
          rintro ⟨rfl,hb⟩
          refine hxy ⟨rfl,?_⟩
          cases line with
          | nil => simp at hb
          | cons z line =>
            simp only [join_cons,List.cons_append,List.cons.injEq] at heq
            simpa [heq.1] using hb
        · exact hl l (List.mem_cons_of_mem _ hm)

theorem Splits.split_eq (hab : a ≠ b) {s : List α} {lines : List (List α)} {rest : List α}
    (h : Splits a b s lines rest) : split a b s = (lines,rest) := by
  rw [h.eq,split_join hab h.lines,split_of_pairFree h.rest,List.append_nil]

/-- A stream cut in two at any place: the rest of the first part is read on in the second. -/
theorem split_append (hab : a ≠ b) (s t : List α) :
    split a b (s ++ t) = ((split a b s).1 ++ (split a b ((split a b s).2 ++ t)).1,
      (split a b ((split a b s).2 ++ t)).2) := by
  have h := splits_split (a := a) (b := b) s
  conv_lhs => rw [h.eq,List.append_assoc,split_join hab h.lines]

/-- What has arrived of a sequence of lines is split into the first of them. -/
theorem split_prefix (hab : a ≠ b) {lines : List (List α)} (h : ∀ line ∈ lines, PairFree a b line) {s t : List α}
    (hs : join a b lines = s ++ t) : (split a b s).1 <+: lines := by
  have hall := split_join hab h []
  rw [List.append_nil,hs,split_append hab] at hall
  have hlines := (Prod.mk.inj hall).1
  rw [show (split a b ([] : List α)).1 = [] from rfl,List.append_nil] at hlines
  exact ⟨_,hlines⟩

/-- What is read on at a cut is no longer than the pieces it ends up in. -/
theorem length_le_of_split {s t : List α} {n : ℕ} (h : PairFree a b s)
    (hl : ∀ line ∈ (split a b (s ++ t)).1, line.length + 2 ≤ n) (hr : (split a b (s ++ t)).2.length ≤ n) :
    s.length ≤ n := by
  have hs := (splits_split (a := a) (b := b) (s ++ t)).eq
  cases hlines : (split a b (s ++ t)).1 with
  | nil =>
    rw [hlines,join_nil,List.nil_append] at hs
    have hlen := congrArg List.length hs
    rw [List.length_append] at hlen
    omega
  | cons line lines =>
    have hline := hl line (by rw [hlines]; exact List.mem_cons_self)
    rw [hlines,join_cons,List.append_assoc] at hs
    by_contra hlt
    -- A longer piece would contain the delimiter behind the first line.
    have hp : line ++ [a,b] <+: s ++ t := by
      rw [hs]
      exact ⟨join a b lines ++ (split a b (s ++ t)).2,by simp⟩
    have hps : line ++ [a,b] <+: s :=
      List.prefix_of_prefix_length_le hp (List.prefix_append s t) (by simp; omega)
    exact h ((List.suffix_append line [a,b]).isInfix.trans hps.isInfix)

end LibIrcBot.Framing
