import LibIrcBot.Foundations.CString
import Mathlib.Data.Int.Notation
import Mathlib.Algebra.Order.Group.Int
import Mathlib.Algebra.BigOperators.Group.List.Basic
import Mathlib.Tactic.Abel

/-! # The blacklist of `client.c`

A table of addresses that the next connection attempts skip. An entry is free while its
length is 0, and each check that finds it takes one of its hits.
-/
namespace LibIrcBot

def BLACKLISTSIZE : ℕ := 32
def BLACKLISTHITS : ℤ := 3
/-- `sizeof (struct sockaddr_storage)`. -/
def STORAGESIZE : ℕ := 128

/-- A `struct sockaddr`, as the bytes its length says. -/
structure Sockaddr where
  bytes : Bytes
  nonempty : 0 < bytes.length
  fits : bytes.length ≤ STORAGESIZE
deriving DecidableEq

def Sockaddr.len (addr : Sockaddr) : ℕ := addr.bytes.length

structure BlacklistEntry where
  len : ℕ
  val : Bytes
  hits : ℤ
deriving DecidableEq, Repr

namespace BlacklistEntry

def fill (addr : Sockaddr) (self : BlacklistEntry) : BlacklistEntry where
  len := addr.len
  val := addr.bytes ++ self.val.drop addr.len
  hits := BLACKLISTHITS

def hit (self : BlacklistEntry) : BlacklistEntry :=
  { self with hits := self.hits - 1, len := if self.hits - 1 = 0 then 0 else self.len }

def Matches (addr : Sockaddr) (self : BlacklistEntry) : Prop :=
  self.len = addr.len ∧ self.val.take addr.len = addr.bytes

instance (addr : Sockaddr) (self : BlacklistEntry) : Decidable (self.Matches addr) :=
  inferInstanceAs (Decidable (_ ∧ _))

def Holds (addr : Sockaddr) (self : BlacklistEntry) : Prop := self.len ≠ 0 ∧ self.val.take self.len = addr.bytes

instance (addr : Sockaddr) (self : BlacklistEntry) : Decidable (self.Holds addr) :=
  inferInstanceAs (Decidable (_ ∧ _))

end BlacklistEntry

namespace Blacklist
open BlacklistEntry

def initial : List BlacklistEntry := List.replicate BLACKLISTSIZE ⟨0,List.replicate STORAGESIZE 0,0⟩

def blacklistAddress (addr : Sockaddr) : List BlacklistEntry → List BlacklistEntry
  | [] => []
  | e :: rest => if e.len ≠ 0 then e :: blacklistAddress addr rest else e.fill addr :: rest

def blacklistcheck (addr : Sockaddr) : List BlacklistEntry → ℤ × List BlacklistEntry
  | [] => (1,[])
  | e :: rest =>
    if e.Matches addr then (0,e.hit :: rest)
    else
      let (rc,rest) := blacklistcheck addr rest
      (rc,e :: rest)

variable {addr other : Sockaddr} {l : List BlacklistEntry}

theorem blacklistAddress_cases (addr : Sockaddr) (l : List BlacklistEntry) :
    (∃ l₁ e l₂, l = l₁ ++ e :: l₂ ∧ e.len = 0 ∧ blacklistAddress addr l = l₁ ++ e.fill addr :: l₂) ∨
      ((∀ e ∈ l, e.len ≠ 0) ∧ blacklistAddress addr l = l) := by
  induction l with
  | nil => exact .inr ⟨by simp,rfl⟩
  | cons e l ih =>
    by_cases he : e.len = 0
    · refine .inl ⟨[],e,l,rfl,he,?_⟩
      rw [blacklistAddress,if_neg (not_not.mpr he),List.nil_append]
    · rw [blacklistAddress,if_pos he]
      rcases ih with ⟨l₁,x,l₂,rfl,hx,heq⟩ | ⟨hall,heq⟩
      · exact .inl ⟨e :: l₁,x,l₂,rfl,hx,by rw [heq,List.cons_append]⟩
      · exact .inr ⟨List.forall_mem_cons.mpr ⟨he,hall⟩,by rw [heq]⟩

theorem blacklistcheck_cases (addr : Sockaddr) (l : List BlacklistEntry) :
    (∃ l₁ e l₂, l = l₁ ++ e :: l₂ ∧ e.Matches addr ∧ blacklistcheck addr l = (0,l₁ ++ e.hit :: l₂)) ∨
      ((∀ e ∈ l, ¬ e.Matches addr) ∧ blacklistcheck addr l = (1,l)) := by
  induction l with
  | nil => exact .inr ⟨by simp,rfl⟩
  | cons e l ih =>
    by_cases he : e.Matches addr
    · refine .inl ⟨[],e,l,rfl,he,?_⟩
      rw [blacklistcheck,if_pos he,List.nil_append]
    · rw [blacklistcheck,if_neg he]
      rcases ih with ⟨l₁,x,l₂,rfl,hx,heq⟩ | ⟨hall,heq⟩
      · exact .inl ⟨e :: l₁,x,l₂,rfl,hx,by rw [heq]; rfl⟩
      · exact .inr ⟨List.forall_mem_cons.mpr ⟨he,hall⟩,by rw [heq]⟩

/-- The storage of an entry keeps its size, and an entry in use has between 1 and 3 hits. -/
structure EntryWf (e : BlacklistEntry) : Prop where
  val : e.val.length = STORAGESIZE
  len : e.len ≤ STORAGESIZE
  hits : e.len ≠ 0 → 1 ≤ e.hits ∧ e.hits ≤ BLACKLISTHITS

theorem fill_wf {e : BlacklistEntry} (h : EntryWf e) (addr : Sockaddr) : EntryWf (e.fill addr) := by
  have hfits := addr.fits
  have hval := h.val
  constructor
  · simp only [fill,List.length_append,List.length_drop,hval]
    exact Nat.add_sub_cancel' hfits
  · exact hfits
  · exact fun _ => ⟨(by decide : (1 : ℤ) ≤ BLACKLISTHITS),le_rfl⟩

theorem hit_wf {e : BlacklistEntry} (h : EntryWf e) (he : e.len ≠ 0) : EntryWf e.hit := by
  obtain ⟨hlow,hhigh⟩ := h.hits he
  constructor
  · exact h.val
  · have hlen := h.len
    dsimp only [hit]
    split <;> omega
  · intro hlen
    have hne : e.hits - 1 ≠ 0 := fun hz => hlen (if_pos hz)
    dsimp only [hit]
    omega

/-- The bytes that `memcmp` finds equal are the address of an entry in use. -/
theorem matches_iff_holds {e : BlacklistEntry} (h : EntryWf e) : e.Matches addr ↔ e.Holds addr := by
  have hpos := addr.nonempty
  constructor
  · rintro ⟨hlen,hval⟩
    refine ⟨?_,hlen ▸ hval⟩
    rw [hlen]
    exact Nat.ne_of_gt hpos
  · rintro ⟨_,hval⟩
    have hlen : e.len = addr.len := by
      have hl := congrArg List.length hval
      rwa [List.length_take,h.val,Nat.min_eq_left h.len] at hl
    exact ⟨hlen,hlen ▸ hval⟩

theorem fill_holds (e : BlacklistEntry) : (e.fill addr).Holds other ↔ addr = other := by
  have hpos := addr.nonempty
  have htake : (e.fill addr).val.take (e.fill addr).len = addr.bytes := List.take_left
  rw [Holds,htake]
  constructor
  · rintro ⟨_,hb⟩
    cases addr
    cases other
    cases hb
    rfl
  · rintro rfl
    exact ⟨Nat.ne_of_gt hpos,rfl⟩

/-- An entry of another address stays one of another address when it is hit. -/
theorem hit_holds {e : BlacklistEntry} (hne : other ≠ addr) (he : e.Holds addr) :
    ¬ e.Holds other ∧ ¬ e.hit.Holds other := by
  have hbytes : addr.bytes ≠ other.bytes := by
    intro hb
    cases addr
    cases other
    cases hb
    exact hne rfl
  constructor
  · exact fun ho => hbytes (he.2.symm.trans ho.2)
  · intro ho
    obtain ⟨hlen,hval⟩ := ho
    have hkeep : e.hit.len = e.len := by
      dsimp only [hit] at hlen ⊢
      split at hlen
      · exact absurd rfl hlen
      · next hz => rw [if_neg hz]
    rw [hkeep] at hval
    exact hbytes (he.2.symm.trans hval)

theorem not_holds_free {e : BlacklistEntry} (he : e.len = 0) : ¬ e.Holds addr := fun h => h.1 he

def held (addr : Sockaddr) (l : List BlacklistEntry) : List BlacklistEntry := l.filter (·.Holds addr)

def hitsLeft (addr : Sockaddr) (l : List BlacklistEntry) : ℤ := ((held addr l).map BlacklistEntry.hits).sum

/-- The table has all its entries, and each of them is well formed. -/
structure Wf (l : List BlacklistEntry) : Prop where
  size : l.length = BLACKLISTSIZE
  entries : ∀ e ∈ l, EntryWf e

theorem initial_wf : Wf initial := by
  constructor
  · exact List.length_replicate
  · intro e he
    rw [List.eq_of_mem_replicate he]
    exact ⟨List.length_replicate,Nat.zero_le _,fun h => absurd rfl h⟩

@[simp] theorem held_append (addr : Sockaddr) (l₁ l₂ : List BlacklistEntry) :
    held addr (l₁ ++ l₂) = held addr l₁ ++ held addr l₂ := List.filter_append ..

theorem held_cons_pos {e : BlacklistEntry} (he : e.Holds addr) (l : List BlacklistEntry) :
    held addr (e :: l) = e :: held addr l := List.filter_cons_of_pos (decide_eq_true he)

theorem held_cons_neg {e : BlacklistEntry} (he : ¬ e.Holds addr) (l : List BlacklistEntry) :
    held addr (e :: l) = held addr l := List.filter_cons_of_neg (by simpa using he)

/-- The table with one entry replaced by another well-formed one. -/
theorem Wf.replace {l₁ l₂ : List BlacklistEntry} {e x : BlacklistEntry} (h : Wf (l₁ ++ e :: l₂)) (hx : EntryWf x) :
    Wf (l₁ ++ x :: l₂) := by
  have hsize := h.size
  constructor
  · rw [← hsize,List.length_append,List.length_append,List.length_cons,List.length_cons]
  · intro y hy
    rcases List.mem_append.mp hy with hy | hy
    · exact h.entries y (List.mem_append_left _ hy)
    · rcases List.mem_cons.mp hy with rfl | hy
      · exact hx
      · exact h.entries y (List.mem_append_right _ (List.mem_cons_of_mem _ hy))

theorem Wf.entry {l₁ l₂ : List BlacklistEntry} {e : BlacklistEntry} (h : Wf (l₁ ++ e :: l₂)) : EntryWf e :=
  h.entries e (List.mem_append_right _ List.mem_cons_self)

theorem blacklistAddress_wf (h : Wf l) (addr : Sockaddr) : Wf (blacklistAddress addr l) := by
  rcases blacklistAddress_cases addr l with ⟨l₁,e,l₂,rfl,_,heq⟩ | ⟨_,heq⟩
  · rw [heq]
    exact h.replace (fill_wf h.entry addr)
  · rwa [heq]

theorem blacklistcheck_wf (h : Wf l) (addr : Sockaddr) : Wf (blacklistcheck addr l).2 := by
  rcases blacklistcheck_cases addr l with ⟨l₁,e,l₂,rfl,he,heq⟩ | ⟨_,heq⟩
  · rw [heq]
    exact h.replace (hit_wf h.entry ((matches_iff_holds h.entry).mp he).1)
  · rwa [heq]

/-- An address that finds a free entry has three hits more. -/
theorem hitsLeft_blacklistAddress (addr : Sockaddr) (l : List BlacklistEntry) :
    hitsLeft addr (blacklistAddress addr l) = hitsLeft addr l + if ∃ e ∈ l, e.len = 0 then BLACKLISTHITS else 0 := by
  rcases blacklistAddress_cases addr l with ⟨l₁,e,l₂,rfl,he,heq⟩ | ⟨hall,heq⟩
  · rw [heq,if_pos ⟨e,List.mem_append_right _ List.mem_cons_self,he⟩,hitsLeft,hitsLeft,held_append,held_append,
      held_cons_pos ((fill_holds e).mpr rfl),held_cons_neg (not_holds_free he)]
    simp only [List.map_append,List.map_cons,List.sum_append,List.sum_cons,fill]
    abel
  · have hnone : ¬ ∃ e ∈ l, e.len = 0 := fun ⟨e,he,hz⟩ => hall e he hz
    rw [heq,if_neg hnone,add_zero]

/-- A check that finds the address takes one hit. -/
theorem hitsLeft_blacklistcheck (h : Wf l) (addr : Sockaddr) :
    hitsLeft addr (blacklistcheck addr l).2 + (if (blacklistcheck addr l).1 = 0 then 1 else 0) = hitsLeft addr l := by
  rcases blacklistcheck_cases addr l with ⟨l₁,e,l₂,rfl,he,heq⟩ | ⟨_,heq⟩
  · have hold := (matches_iff_holds h.entry).mp he
    have hleft : ((held addr [e.hit]).map BlacklistEntry.hits).sum = e.hits - 1 := by
      by_cases hz : e.hits - 1 = 0
      · have hfree : e.hit.len = 0 := if_pos hz
        rw [held_cons_neg (not_holds_free hfree),hz]
        rfl
      · have hlen : e.hit.len = e.len := if_neg hz
        have hkeep : e.hit.Holds addr := by
          rw [Holds,hlen]
          exact hold
        rw [held_cons_pos hkeep]
        exact add_zero _
    have hsplit : l₁ ++ e.hit :: l₂ = l₁ ++ ([e.hit] ++ l₂) := rfl
    rw [heq,if_pos rfl,hitsLeft,hitsLeft]
    dsimp only
    rw [hsplit,held_append,held_append,held_append,held_cons_pos hold]
    simp only [List.map_append,List.map_cons,List.sum_append,List.sum_cons,hleft]
    abel
  · rw [heq,if_neg one_ne_zero,add_zero]

/-- No call leaves another entry behind for an address that it is not about. -/
theorem held_blacklistAddress_ne (hne : other ≠ addr) (l : List BlacklistEntry) :
    held other (blacklistAddress addr l) = held other l := by
  rcases blacklistAddress_cases addr l with ⟨l₁,e,l₂,rfl,he,heq⟩ | ⟨_,heq⟩
  · have hfill : ¬ (e.fill addr).Holds other := fun hf => hne ((fill_holds e).mp hf).symm
    rw [heq,held_append,held_append,held_cons_neg hfill,held_cons_neg (not_holds_free he)]
  · rw [heq]

theorem held_blacklistcheck_ne (h : Wf l) (hne : other ≠ addr) : held other (blacklistcheck addr l).2 = held other l := by
  rcases blacklistcheck_cases addr l with ⟨l₁,e,l₂,rfl,he,heq⟩ | ⟨_,heq⟩
  · obtain ⟨hno,hno'⟩ := hit_holds hne ((matches_iff_holds h.entry).mp he)
    rw [heq]
    dsimp only
    rw [held_append,held_append,held_cons_neg hno,held_cons_neg hno']
  · rw [heq]

/-- A check refuses exactly the addresses that some entry is in use for. -/
theorem blacklistcheck_iff (h : Wf l) : (blacklistcheck addr l).1 = 0 ↔ held addr l ≠ [] := by
  rcases blacklistcheck_cases addr l with ⟨l₁,e,l₂,rfl,he,heq⟩ | ⟨hall,heq⟩
  · rw [heq,held_append,held_cons_pos ((matches_iff_holds h.entry).mp he)]
    simp
  · have hnone : held addr l = [] := by
      refine List.filter_eq_nil_iff.mpr fun e he => ?_
      simpa using fun hold => hall e he ((matches_iff_holds (h.entries e he)).mpr hold)
    rw [heq,hnone]
    simp

/-- A call is dropped exactly when no entry is free. -/
theorem blacklistAddress_dropped : blacklistAddress addr l = l ↔ ∀ e ∈ l, e.len ≠ 0 := by
  rcases blacklistAddress_cases addr l with ⟨l₁,e,l₂,rfl,he,heq⟩ | ⟨hall,heq⟩
  · rw [heq]
    constructor
    · intro hl
      have hee : e.fill addr = e := by simpa using hl
      have hlen := congrArg BlacklistEntry.len hee
      exact absurd (hlen.trans he) (Nat.ne_of_gt addr.nonempty)
    · exact fun hall => absurd he (hall e (List.mem_append_right _ List.mem_cons_self))
  · exact ⟨fun _ => hall,fun _ => heq⟩

end Blacklist
end LibIrcBot
