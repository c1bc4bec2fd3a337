import Mathlib.Data.List.Basic
import Mathlib.Data.Nat.ModEq
import Mathlib.Tactic.Common

/-! # Windows of a circular array

The occupied part of a ring of `capa` slots is the window of `count` slots from
`front` on, read modulo the capacity. Ends move one slot at a time and wrap.
-/
namespace LibIrcBot.Ring
variable {α : Type*}

def advance (capa i : ℕ) : ℕ := if i + 1 = capa then 0 else i + 1

def window (read : ℕ → α) (capa front count : ℕ) : List α :=
  (List.range count).map (fun j => read ((front + j) % capa))

theorem advance_eq {capa i : ℕ} (h : i < capa) : advance capa i = (i + 1) % capa := by
  unfold advance
  split
  · next he => rw [he,Nat.mod_self]
  · rw [Nat.mod_eq_of_lt (by omega)]

theorem advance_lt {capa i : ℕ} (h : i < capa) : advance capa i < capa := by
  unfold advance
  split <;> omega

@[simp] theorem window_zero (read : ℕ → α) (capa front : ℕ) : window read capa front 0 = [] := rfl

@[simp] theorem window_length (read : ℕ → α) (capa front count : ℕ) :
    (window read capa front count).length = count := by simp [window]

theorem window_congr {read read' : ℕ → α} {capa front count : ℕ}
    (h : ∀ j < count, read' ((front + j) % capa) = read ((front + j) % capa)) :
    window read' capa front count = window read capa front count := by
  apply List.map_congr_left
  intro j hj
  exact h j (List.mem_range.mp hj)

/-- Dropping the front slot moves the front to the next slot. -/
theorem window_succ (read : ℕ → α) {capa front : ℕ} (count : ℕ) (h : front < capa) :
    window read capa front (count + 1) = read front :: window read capa (advance capa front) count := by
  unfold window
  rw [List.range_succ_eq_map,List.map_cons,List.map_map,Nat.add_zero,Nat.mod_eq_of_lt h]
  congr 1
  apply List.map_congr_left
  intro j _
  simp only [Function.comp_apply,advance_eq h,Nat.mod_add_mod]
  congr 2
  omega

theorem window_snoc {read : ℕ → α} {capa front count : ℕ} :
    window read capa front (count + 1) =
      window read capa front count ++ [read ((front + count) % capa)] := by
  simp [window,List.range_succ]

/-- Two slots of a window that is not longer than the ring are different. -/
theorem slot_ne {capa front i j : ℕ} (hij : i < j) (hj : j < capa) :
    (front + i) % capa ≠ (front + j) % capa := by
  intro he
  have hm : i ≡ j [MOD capa] := Nat.ModEq.add_left_cancel' front he
  exact hij.ne (hm.eq_of_lt_of_lt (hij.trans hj) hj)

/-- Writing the slot behind the window appends to it. -/
theorem window_push {read read' : ℕ → α} {capa front count : ℕ} (hc : count < capa) {x : α}
    (hb : read' ((front + count) % capa) = x)
    (hr : ∀ i, i < capa → i ≠ (front + count) % capa → read' i = read i) :
    window read' capa front (count + 1) = window read capa front count ++ [x] := by
  rw [window_snoc,hb]
  congr 1
  apply window_congr
  intro j hj
  exact hr _ (Nat.mod_lt _ (by omega)) (slot_ne hj hc)

/-- A window that starts at slot zero does not depend on the capacity. -/
theorem window_grow {read : ℕ → α} {capa capa' count : ℕ} (hc : count ≤ capa) (hg : capa ≤ capa') :
    window read capa' 0 count = window read capa 0 count := by
  apply List.map_congr_left
  intro j hj
  have hj := List.mem_range.mp hj
  rw [Nat.mod_eq_of_lt (by omega),Nat.mod_eq_of_lt (by omega)]

end LibIrcBot.Ring
