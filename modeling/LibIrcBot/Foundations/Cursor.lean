import Mathlib.Data.List.Basic
import Mathlib.Logic.Function.Iterate
import Mathlib.Data.Nat.ModEq

/-! # Cursors over a copied array

A cursor holds the elements that its container had when the cursor was made. Its position
is behind the last element at first, and again each time that the end was reported.
-/
namespace LibIrcBot

structure Cursor (β : Type*) where
  count : ℕ
  pos : ℕ
  items : List β
deriving DecidableEq, Repr

namespace Cursor
variable {β : Type*}

def moveNext (self : Cursor β) : Bool × Cursor β :=
  let pos := if self.pos ≥ self.count then 0 else self.pos + 1
  (pos < self.count,{ self with pos := pos })

def current (self : Cursor β) : Option β := if self.pos ≥ self.count then none else self.items[self.pos]?

def after (self : Cursor β) (n : ℕ) : Cursor β := (fun c => c.moveNext.2)^[n] self

variable {self : Cursor β}

@[simp] theorem moveNext_count (self : Cursor β) : self.moveNext.2.count = self.count := rfl
@[simp] theorem moveNext_items (self : Cursor β) : self.moveNext.2.items = self.items := rfl

theorem moveNext_pos (h : self.pos ≤ self.count) : self.moveNext.2.pos = (self.pos + 1) % (self.count + 1) := by
  by_cases hend : self.pos ≥ self.count
  · have hpos : self.pos = self.count := Nat.le_antisymm h hend
    rw [hpos,Nat.mod_self]
    exact if_pos hend
  · rw [Nat.mod_eq_of_lt (by omega)]
    exact if_neg hend

theorem after_succ (self : Cursor β) (n : ℕ) : self.after (n + 1) = (self.after n).moveNext.2 :=
  Function.iterate_succ_apply' _ n self

theorem after_eq (h : self.pos ≤ self.count) (n : ℕ) :
    self.after n = { self with pos := (self.pos + n) % (self.count + 1) } := by
  induction n with
  | zero =>
    have hpos : (self.pos + 0) % (self.count + 1) = self.pos := Nat.mod_eq_of_lt (by omega)
    rw [hpos]
    rfl
  | succ n ih =>
    have hlt : (self.pos + n) % (self.count + 1) ≤ self.count := Nat.le_of_lt_succ (Nat.mod_lt _ (Nat.succ_pos _))
    have hnext := @moveNext_pos _ { self with pos := (self.pos + n) % (self.count + 1) } hlt
    rw [Nat.mod_add_mod] at hnext
    rw [after_succ,ih]
    exact congrArg (fun pos => { self with pos := pos }) hnext

section Start
variable {count : ℕ} {items : List β}

/-- A fresh cursor goes through its elements in order, reports the end once, and starts over. -/
theorem moveNext_after (h : items.length = count) (n : ℕ) :
    ((⟨count,count,items⟩ : Cursor β).after n).moveNext.1 = decide (n % (count + 1) < count) ∧
      ((⟨count,count,items⟩ : Cursor β).after (n + 1)).current = items[n % (count + 1)]? := by
  have hpos : ((⟨count,count,items⟩ : Cursor β).after (n + 1)).pos = n % (count + 1) := by
    have hsplit : count + (n + 1) = n + (count + 1) := by omega
    rw [after_eq le_rfl,hsplit,Nat.add_mod_right]
  have hcount : ((⟨count,count,items⟩ : Cursor β).after (n + 1)).count = count := by rw [after_eq le_rfl]
  have hitems : ((⟨count,count,items⟩ : Cursor β).after (n + 1)).items = items := by rw [after_eq le_rfl]
  constructor
  · have hreport : ∀ c : Cursor β, c.moveNext.1 = decide (c.moveNext.2.pos < c.moveNext.2.count) := fun _ => rfl
    rw [hreport,← after_succ,hpos,hcount]
  · rw [current,hpos,hcount,hitems]
    by_cases hend : n % (count + 1) ≥ count
    · rw [if_pos hend,List.getElem?_eq_none (h ▸ hend)]
    · rw [if_neg hend]

end Start

end Cursor
end LibIrcBot
