import Mathlib.Data.List.Basic
import Mathlib.Logic.Function.Basic

/-! # Files with record locks

Files have names and contents. A process takes a shared or an exclusive lock on a whole file. The lock belongs to
the process and to the file, not to the name: it ends when the process closes the file or ends, it is not
inherited, and it stays when the name is removed or given to another file.
-/
namespace LibIrcBot

inductive LockMode where
  | shared | exclusive
deriving DecidableEq, Repr

structure FileLock (ι : Type) where
  file : ℕ
  owner : ι
  mode : LockMode
deriving DecidableEq, Repr

/-- The files up to a number that is not used yet. -/
structure Files (ν ι α : Type) where
  named : ν → Option ℕ
  unused : ℕ
  text : ℕ → List α
  locks : List (FileLock ι)

namespace Files
variable {ν ι α : Type}

section Calls
variable [DecidableEq ν] [DecidableEq ι]

def Owns (F : Files ν ι α) (p : ι) (i : ℕ) : Prop := ⟨i,p,.exclusive⟩ ∈ F.locks

instance (F : Files ν ι α) (p : ι) (i : ℕ) : Decidable (F.Owns p i) := inferInstanceAs (Decidable (_ ∈ _))

/-- The locks that a process has on a file are apart from all others. -/
def mine (p : ι) (i : ℕ) (l : FileLock ι) : Bool := l.file = i && l.owner = p

def blocks (p : ι) (mode : LockMode) (i : ℕ) (l : FileLock ι) : Bool :=
  l.file = i && l.owner ≠ p && (mode = .exclusive || l.mode = .exclusive)

def blocker (F : Files ν ι α) (p : ι) (mode : LockMode) (i : ℕ) : Option ι :=
  (F.locks.find? (blocks p mode i)).map FileLock.owner

def lock (F : Files ν ι α) (p : ι) (mode : LockMode) (i : ℕ) : Option (Files ν ι α) :=
  if F.blocker p mode i = none then
    some { F with locks := ⟨i,p,mode⟩ :: F.locks.filter fun l => !mine p i l }
  else none

def close (F : Files ν ι α) (p : ι) (i : ℕ) : Files ν ι α :=
  { F with locks := F.locks.filter fun l => !mine p i l }

def leave (F : Files ν ι α) (p : ι) : Files ν ι α := { F with locks := F.locks.filter fun l => l.owner ≠ p }

/-- The file of a name is opened for writing and emptied; there is one then. -/
def create (F : Files ν ι α) (name : ν) : ℕ × Files ν ι α :=
  match F.named name with
  | some i => (i,{ F with text := Function.update F.text i [] })
  | none => (F.unused,{ F with
      named := Function.update F.named name (some F.unused)
      unused := F.unused + 1
      text := Function.update F.text F.unused [] })

def unlink (F : Files ν ι α) (name : ν) : Files ν ι α := { F with named := Function.update F.named name none }

def write (F : Files ν ι α) (i : ℕ) (cs : List α) : Files ν ι α :=
  { F with text := Function.update F.text i (cs ++ (F.text i).drop cs.length) }

end Calls

variable {F G : Files ν ι α} {p q : ι} {i j : ℕ} {mode : LockMode} {name other : ν} {cs : List α}

/-- The names stand for different files, and all of them have numbers that are in use. -/
structure Distinct (F : Files ν ι α) : Prop where
  bounded : ∀ {name i}, F.named name = some i → i < F.unused
  injective : ∀ {name other i}, F.named name = some i → F.named other = some i → name = other

section Locks
variable [DecidableEq ι]

theorem blocker_eq_none : F.blocker p mode i = none ↔ ∀ l ∈ F.locks, blocks p mode i l = false := by
  simp [blocker]

theorem blocker_isSome (h : F.Owns q i) (hne : q ≠ p) : F.blocker p mode i ≠ none := by
  intro hnone
  have := blocker_eq_none.mp hnone _ h
  simp [blocks,hne] at this

/-- The one who keeps a process from reading has the exclusive lock. -/
theorem owns_of_blocker (h : F.blocker p .shared i = some q) : F.Owns q i ∧ q ≠ p := by
  obtain ⟨l,hl,rfl⟩ := Option.map_eq_some_iff.mp h
  have hmem := List.mem_of_find?_eq_some hl
  have hb := List.find?_some hl
  simp only [blocks,Bool.and_eq_true,decide_eq_true_eq,Bool.or_eq_true,reduceCtorEq,false_or] at hb
  obtain ⟨⟨rfl,hne⟩,hx⟩ := hb
  refine ⟨?_,hne⟩
  rw [Owns,← hx]
  exact hmem

theorem lock_eq_some : F.lock p mode i = some G ↔ F.blocker p mode i = none ∧
    G = { F with locks := ⟨i,p,mode⟩ :: F.locks.filter fun l => !mine p i l } := by
  rw [lock]
  split
  · next h => simp [h,eq_comm]
  · next h => simp [h]

/-- Whoever gets a lock finds no other process with the exclusive one. -/
theorem not_owns_of_lock (h : F.lock p mode i = some G) (hne : q ≠ p) : ¬ F.Owns q i :=
  fun ho => blocker_isSome ho hne (lock_eq_some.mp h).1

theorem owns_of_lock (h : F.lock p .exclusive i = some G) : G.Owns p i := by
  rw [(lock_eq_some.mp h).2]
  exact List.mem_cons_self

theorem lock_keeps (h : F.lock p mode i = some G) (hne : q ≠ p ∨ j ≠ i) : G.Owns q j ↔ F.Owns q j := by
  rw [(lock_eq_some.mp h).2]
  have hmine : mine p i (⟨j,q,.exclusive⟩ : FileLock ι) = false := by
    rcases hne with hne | hne <;> simp [mine,hne]
  constructor
  · intro ho
    rcases List.mem_cons.mp ho with he | ho
    · cases he
      rcases hne with hne | hne <;> exact absurd rfl hne
    · exact (List.mem_filter.mp ho).1
  · intro ho
    exact List.mem_cons_of_mem _ (List.mem_filter.mpr ⟨ho,by rw [hmine]; rfl⟩)

/-- A shared lock makes nobody an owner. -/
theorem owns_of_lock_shared (h : F.lock p .shared i = some G) (ho : G.Owns q j) : F.Owns q j := by
  rw [(lock_eq_some.mp h).2] at ho
  rcases List.mem_cons.mp ho with he | ho
  · cases he
  · exact (List.mem_filter.mp ho).1

theorem close_owns : (F.close p i).Owns q j ↔ F.Owns q j ∧ (q ≠ p ∨ j ≠ i) := by
  simp only [Owns,close,List.mem_filter,mine]
  refine and_congr_right fun _ => ?_
  by_cases hq : q = p <;> by_cases hj : j = i <;> simp [hq,hj]

theorem leave_owns : (F.leave p).Owns q j ↔ F.Owns q j ∧ q ≠ p := by
  simp [Owns,leave,List.mem_filter]

theorem lock_distinct (h : F.lock p mode i = some G) (hF : F.Distinct) : G.Distinct := by
  rw [(lock_eq_some.mp h).2]
  exact ⟨hF.bounded,hF.injective⟩

theorem lock_named (h : F.lock p mode i = some G) : G.named = F.named := by rw [(lock_eq_some.mp h).2]

theorem lock_text (h : F.lock p mode i = some G) : G.text = F.text := by rw [(lock_eq_some.mp h).2]

end Locks

theorem write_text (hne : j ≠ i) : (F.write i cs).text j = F.text j := Function.update_of_ne hne ..

theorem write_empty (h : F.text i = []) : (F.write i cs).text i = cs := by
  simp [write,h]

@[simp] theorem write_owns : (F.write i cs).Owns q j ↔ F.Owns q j := Iff.rfl

section Names
variable [DecidableEq ν]

@[simp] theorem unlink_owns : (F.unlink name).Owns q j ↔ F.Owns q j := Iff.rfl

@[simp] theorem create_locks : (F.create name).2.locks = F.locks := by
  unfold create
  split <;> rfl

@[simp] theorem create_owns : (F.create name).2.Owns q j ↔ F.Owns q j := by
  rw [Owns,Owns,create_locks]

theorem create_text (hne : j ≠ (F.create name).1) : (F.create name).2.text j = F.text j := by
  unfold create at hne ⊢
  split at hne <;> exact Function.update_of_ne hne ..

@[simp] theorem create_empty : (F.create name).2.text (F.create name).1 = [] := by
  unfold create
  split <;> exact Function.update_self ..

theorem create_named (h : F.named name = some i) : (F.create name).1 = i ∧ (F.create name).2.named = F.named := by
  simp [create,h]

@[simp] theorem create_names_file : (F.create name).2.named name = some (F.create name).1 := by
  unfold create
  split
  · next h => exact h
  · exact Function.update_self ..

theorem create_named_other (hne : other ≠ name) : (F.create name).2.named other = F.named other := by
  unfold create
  split
  · rfl
  · exact Function.update_of_ne hne ..

@[simp] theorem unlink_named_self : (F.unlink name).named name = none := Function.update_self ..

theorem unlink_named_other (hne : other ≠ name) : (F.unlink name).named other = F.named other :=
  Function.update_of_ne hne ..

/-- Only a name that has no file gets another one. -/
theorem Distinct.create (h : F.Distinct) : (F.create name).2.Distinct := by
  unfold Files.create
  split
  · exact ⟨h.bounded,h.injective⟩
  · refine ⟨fun {n j} hn => ?_,fun {n m j} hn hm => ?_⟩
    · change Function.update F.named name (some F.unused) n = some j at hn
      by_cases he : n = name
      · rw [he,Function.update_self] at hn
        cases hn
        exact Nat.lt_succ_self _
      · rw [Function.update_of_ne he] at hn
        exact Nat.lt_succ_of_lt (h.bounded hn)
    · change Function.update F.named name (some F.unused) n = some j at hn
      change Function.update F.named name (some F.unused) m = some j at hm
      by_cases hn' : n = name <;> by_cases hm' : m = name
      · rw [hn',hm']
      · rw [hn',Function.update_self] at hn
        cases hn
        rw [Function.update_of_ne hm'] at hm
        exact absurd (h.bounded hm) (Nat.lt_irrefl _)
      · rw [hm',Function.update_self] at hm
        cases hm
        rw [Function.update_of_ne hn'] at hn
        exact absurd (h.bounded hn) (Nat.lt_irrefl _)
      · rw [Function.update_of_ne hn'] at hn
        rw [Function.update_of_ne hm'] at hm
        exact h.injective hn hm

theorem Distinct.unlink (h : F.Distinct) : (F.unlink name).Distinct := by
  have hsub : ∀ {n j}, (F.unlink name).named n = some j → F.named n = some j := by
    intro n j hn
    by_cases he : n = name
    · rw [he,unlink_named_self] at hn
      cases hn
    · rwa [unlink_named_other he] at hn
  exact ⟨fun hn => h.bounded (hsub hn),fun hn hm => h.injective (hsub hn) (hsub hm)⟩

/-- A file that is made for one name is not the file of another one. -/
theorem Distinct.create_ne (h : F.Distinct) (hne : other ≠ name) (hn : F.named other = some j) :
    (F.create name).1 ≠ j := by
  unfold Files.create
  split
  · next i hi => exact fun he => hne (h.injective hn (he ▸ hi))
  · exact fun he => absurd (h.bounded hn) (by rw [← he]; exact Nat.lt_irrefl _)

end Names
end Files
end LibIrcBot
