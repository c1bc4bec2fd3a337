import Mathlib.Data.Int.Notation
import Mathlib.Data.List.TakeDrop
import Mathlib.Tactic.Common

/-! # Memory with checked access

A block has a fixed number of cells, which are unset until something is stored in them.
Every access outside of the block, every read of an unset cell and every result that
does not fit its unsigned type is a fault.
-/
namespace LibIrcBot.Blocks
universe u
variable {α β : Type u}

inductive MemoryFault where
  | outOfBounds
  | unset
  | wraps
  | outOfFuel
deriving DecidableEq, Repr

abbrev Checked := Except MemoryFault

abbrev Block (α : Type*) := List (Option α)

def malloc (n : ℕ) : Block α := List.replicate n none

def load (b : Block α) (i : ℕ) : Checked α :=
  match b[i]? with
  | some (some a) => .ok a
  | some none => .error .unset
  | none => .error .outOfBounds

def store (b : Block α) (i : ℕ) (a : α) : Checked (Block α) :=
  if i < b.length then .ok (b.set i (some a)) else .error .outOfBounds

/-- `n` cells from index `s` of one block to index `d` of another; both may be the same. -/
def memcpy (dst : Block α) (d : ℕ) (src : Block α) (s n : ℕ) : Checked (Block α) :=
  if d + n ≤ dst.length ∧ s + n ≤ src.length then
    .ok (dst.take d ++ (src.drop s).take n ++ dst.drop (d + n))
  else .error .outOfBounds

/-- A result that is stored in an unsigned type with the given number of values. -/
def unsigned (values : ℕ) (n : ℤ) : Checked ℕ :=
  if 0 ≤ n ∧ n < values then .ok n.toNat else .error .wraps

/-- A loop over the indices below `stop` that ends at the first one that satisfies `p`. -/
def search (values : ℕ) (p : ℕ → Checked Bool) (stop : ℤ) : ℕ → ℕ → Checked (Option ℕ)
  | 0, _ => .error .outOfFuel
  | fuel + 1, i =>
    if i < stop then do
      if ← p i then pure (some i)
      else
        let next ← unsigned values (i + 1)
        search values p stop fuel next
    else .ok none

/-- A step without a fault hands on its result. -/
@[simp] theorem ok_bind (a : α) (f : α → Checked β) : ((.ok a : Checked α) >>= f) = f a := rfl

def holding (m : List α) : Block α := m.map some

@[simp] theorem length_malloc (n : ℕ) : (malloc n : Block α).length = n := List.length_replicate

@[simp] theorem length_holding (m : List α) : (holding m).length = m.length := List.length_map _

theorem holding_append (m n : List α) : holding (m ++ n) = holding m ++ holding n := List.map_append

theorem take_holding (m : List α) (n : ℕ) : (holding m).take n = holding (m.take n) := List.map_take.symm

theorem drop_holding (m : List α) (n : ℕ) : (holding m).drop n = holding (m.drop n) := List.map_drop.symm

theorem load_holding {m : List α} {i : ℕ} {a : α} (h : m[i]? = some a) : load (holding m) i = .ok a := by
  rw [load,holding,List.getElem?_map,h]
  rfl

theorem store_holding {m : List α} {i : ℕ} (h : i < m.length) (a : α) :
    store (holding m) i a = .ok (holding (m.set i a)) := by
  rw [store,if_pos (by rwa [length_holding]),holding,holding,List.map_set]

theorem memcpy_ok {dst src : Block α} {d s n : ℕ} (hd : d + n ≤ dst.length) (hs : s + n ≤ src.length) :
    memcpy dst d src s n = .ok (dst.take d ++ (src.drop s).take n ++ dst.drop (d + n)) := if_pos ⟨hd,hs⟩

/-- A copied range that is put into a larger allocation, with one more value behind it. -/
theorem store_memcpy {m : List α} {s n : ℕ} (h : s + n ≤ m.length) (a : α) :
    (memcpy (malloc (n + 1)) 0 (holding m) s n >>= fun b => store b n a) =
      .ok (holding ((m.drop s).take n ++ [a])) := by
  have hlen : (holding ((m.drop s).take n)).length = n := by
    rw [length_holding,List.length_take,List.length_drop]
    omega
  have hroom : n < (holding ((m.drop s).take n) ++ List.replicate 1 none).length := by
    rw [List.length_append,hlen]
    exact Nat.lt_succ_self n
  rw [memcpy_ok (by simp) (by rwa [length_holding])]
  change store _ n a = _
  rw [List.take_zero,List.nil_append,drop_holding,take_holding,Nat.zero_add,malloc,List.drop_replicate,
    Nat.add_sub_cancel_left,store,if_pos hroom]
  congr 1
  rw [List.set_append_right _ _ (Nat.le_of_eq hlen),hlen,Nat.sub_self,holding_append]
  rfl

theorem unsigned_ok {values : ℕ} {n : ℤ} {k : ℕ} (hn : n = k) (hk : k < values) : unsigned values n = .ok k := by
  subst hn
  rw [unsigned,if_pos (by omega)]
  rfl

def Finds (q : ℕ → Bool) (stop : ℤ) (i : ℕ) : Option ℕ → Prop
  | some j => i ≤ j ∧ j < stop ∧ q j ∧ ∀ k, i ≤ k → k < j → q k = false
  | none => ∀ k : ℕ, i ≤ k → k < stop → q k = false

/-- The loop ends without a fault where the test does and the indices fit their type. -/
theorem search_finds {values : ℕ} {p : ℕ → Checked Bool} {q : ℕ → Bool} {stop : ℤ} {fuel i : ℕ}
    (hp : ∀ k : ℕ, i ≤ k → k < stop → p k = .ok (q k)) (hstop : stop < values)
    (hfuel : (stop - i).toNat < fuel) : ∃ r, search values p stop fuel i = .ok r ∧ Finds q stop i r := by
  induction fuel generalizing i with
  | zero => omega
  | succ fuel ih =>
    rw [search]
    by_cases hi : (i : ℤ) < stop
    · rw [if_pos hi,hp i (Nat.le_refl i) hi]
      dsimp only [bind,Except.bind]
      cases hq : q i with
      | true => exact ⟨some i,rfl,Nat.le_refl i,hi,hq,fun k hk hlt => by omega⟩
      | false =>
        have hnext : unsigned values ((i : ℤ) + 1) = .ok (i + 1) := unsigned_ok (by omega) (by omega)
        obtain ⟨r,hr,hf⟩ := ih (i := i + 1) (fun k hk hlt => hp k (by omega) hlt) (by omega)
        rw [hnext]
        refine ⟨r,hr,?_⟩
        have hskip : ∀ k, i ≤ k → (i + 1 ≤ k → q k = false) → q k = false := by
          intro k hk h
          rcases Nat.eq_or_lt_of_le hk with rfl | hlt
          · exact hq
          · exact h hlt
        cases r with
        | none => exact fun k hk hlt => hskip k hk (fun hk => hf k hk hlt)
        | some j =>
          obtain ⟨hij,hj,hqj,hb⟩ := hf
          exact ⟨by omega,hj,hqj,fun k hk hlt => hskip k hk (fun hk => hb k hk hlt)⟩
    · rw [if_neg hi]
      exact ⟨none,rfl,fun k hk hlt => by omega⟩

end LibIrcBot.Blocks
