import LibIrcBot.System.Blacklist
import Mathlib.Algebra.Order.BigOperators.Group.List

/-! # Every ban is paid for

Over any sequence of calls, the checks that refused an address and the hits that its
entries have left add up to three for each time it was blacklisted. Calls for other
addresses take no part in this.
-/
namespace LibIrcBot.Blacklist
open BlacklistEntry

inductive Call where
  | blacklistAddress (addr : Sockaddr)
  | blacklistcheck (addr : Sockaddr)
deriving DecidableEq

def Call.addr : Call → Sockaddr
  | .blacklistAddress addr => addr
  | .blacklistcheck addr => addr

/-- The table, with ghost logs of the calls. -/
structure Bans where
  blacklist : List BlacklistEntry
  /-- `Connection_blacklistAddress` found a free entry. -/
  listed : List Sockaddr
  /-- `blacklistcheck` returned 0. -/
  refused : List Sockaddr
deriving DecidableEq

def Bans.initial : Bans := ⟨Blacklist.initial,[],[]⟩

def Bans.step (self : Bans) : Call → Bans
  | .blacklistAddress addr =>
    { self with
      blacklist := blacklistAddress addr self.blacklist
      listed := if ∃ e ∈ self.blacklist, e.len = 0 then self.listed ++ [addr] else self.listed }
  | .blacklistcheck addr =>
    let (rc,blacklist) := blacklistcheck addr self.blacklist
    { self with blacklist := blacklist, refused := if rc = 0 then self.refused ++ [addr] else self.refused }

def Bans.run (self : Bans) (calls : List Call) : Bans := calls.foldl step self

/-- The table is well formed, and the calls for each address balance. -/
structure Balanced (s : Bans) : Prop where
  wf : Wf s.blacklist
  balance : ∀ addr, (s.refused.count addr : ℤ) + hitsLeft addr s.blacklist = BLACKLISTHITS * s.listed.count addr

variable {s t : Bans} {addr : Sockaddr}

theorem initial_balanced : Balanced .initial := by
  constructor
  · exact initial_wf
  · intro addr
    have hnone : held addr initial = [] := by
      refine List.filter_eq_nil_iff.mpr fun e he => ?_
      rw [List.eq_of_mem_replicate he]
      simpa using not_holds_free rfl
    simp [Bans.initial,hitsLeft,hnone]

theorem hitsLeft_ne (h : Wf s.blacklist) {call : Call} (hne : addr ≠ call.addr) :
    held addr (s.step call).blacklist = held addr s.blacklist := by
  cases call with
  | blacklistAddress other => exact held_blacklistAddress_ne hne _
  | blacklistcheck other => exact held_blacklistcheck_ne h hne

theorem count_snoc_if (c : Prop) [Decidable c] (l : List Sockaddr) (a b : Sockaddr) :
    ((if c then l ++ [a] else l).count b : ℤ) = l.count b + if c ∧ a = b then 1 else 0 := by
  by_cases hc : c
  · simp [hc,List.count_singleton]
  · simp [hc]

theorem Balanced.step (h : Balanced s) (call : Call) : Balanced (s.step call) := by
  cases call with
  | blacklistAddress a =>
    constructor
    · exact blacklistAddress_wf h.wf a
    · intro addr
      have hb := h.balance addr
      dsimp only [Bans.step]
      rw [count_snoc_if]
      by_cases ha : a = addr
      · subst ha
        rw [hitsLeft_blacklistAddress,← add_assoc,hb]
        by_cases hfree : ∃ e ∈ s.blacklist, e.len = 0
        · rw [if_pos hfree,if_pos ⟨hfree,rfl⟩,mul_add,mul_one]
        · rw [if_neg hfree,if_neg (fun hc => hfree hc.1)]
          simp
      · rw [if_neg (fun hc => ha hc.2),hitsLeft,held_blacklistAddress_ne (Ne.symm ha),add_zero]
        exact hb
  | blacklistcheck a =>
    constructor
    · exact blacklistcheck_wf h.wf a
    · intro addr
      have hb := h.balance addr
      dsimp only [Bans.step]
      rw [count_snoc_if]
      by_cases ha : a = addr
      · subst ha
        have hleft := hitsLeft_blacklistcheck h.wf a
        simp only [and_true]
        rw [add_assoc,add_comm (ite _ _ _),hleft]
        exact hb
      · rw [if_neg (fun hc => ha hc.2),hitsLeft,held_blacklistcheck_ne h.wf (Ne.symm ha),add_zero]
        exact hb

theorem Balanced.run (h : Balanced s) (calls : List Call) : Balanced (s.run calls) := by
  induction calls generalizing s with
  | nil => exact h
  | cons call calls ih => exact ih (h.step call)

/-- An address is refused while it has hits left. -/
theorem blacklistcheck_iff_hitsLeft {l : List BlacklistEntry} (h : Wf l) :
    (blacklistcheck addr l).1 = 0 ↔ 0 < hitsLeft addr l := by
  have hpos : ∀ e ∈ held addr l, 0 < e.hits := by
    intro e he
    obtain ⟨hmem,hold⟩ := List.mem_filter.mp he
    exact ((h.entries e hmem).hits (of_decide_eq_true hold).1).1
  rw [blacklistcheck_iff h,hitsLeft]
  generalize held addr l = es at hpos
  induction es with
  | nil => simp
  | cons e es ih =>
    have he := hpos e List.mem_cons_self
    have hsum : 0 ≤ (es.map BlacklistEntry.hits).sum := by
      refine List.sum_nonneg fun x hx => ?_
      obtain ⟨y,hy,rfl⟩ := List.mem_map.mp hx
      exact le_of_lt (hpos y (List.mem_cons_of_mem _ hy))
    simp only [List.map_cons,List.sum_cons,ne_eq,reduceCtorEq,not_false_eq_true,true_iff]
    omega

/-- The checks of an address depend on the hits it has left, and on nothing else. -/
theorem hitsLeft_run (hs : Balanced s) (ht : Balanced t) (h : hitsLeft addr s.blacklist = hitsLeft addr t.blacklist)
    {calls : List Call} (hc : .blacklistAddress addr ∉ calls) : hitsLeft addr (s.run calls).blacklist =
      hitsLeft addr (t.run (calls.filter (·.addr = addr))).blacklist := by
  induction calls generalizing s t with
  | nil => exact h
  | cons call calls ih =>
    obtain ⟨hcall,hcalls⟩ := not_or.mp (mt List.mem_cons.mpr hc)
    by_cases ha : call.addr = addr
    · have hfilter : (call :: calls).filter (·.addr = addr) = call :: calls.filter (·.addr = addr) := by simp [ha]
      rw [hfilter]
      refine ih (hs.step call) (ht.step call) ?_ hcalls
      cases call with
      | blacklistAddress a => exact absurd (congrArg Call.blacklistAddress ha.symm) hcall
      | blacklistcheck a =>
        cases ha
        have hrc : (blacklistcheck a s.blacklist).1 = 0 ↔ (blacklistcheck a t.blacklist).1 = 0 := by
          rw [blacklistcheck_iff_hitsLeft hs.wf,blacklistcheck_iff_hitsLeft ht.wf]
          exact h ▸ Iff.rfl
        have hl := hitsLeft_blacklistcheck hs.wf a
        have hr := hitsLeft_blacklistcheck ht.wf a
        rw [if_congr hrc rfl rfl] at hl
        exact add_right_cancel (hl.trans (h.trans hr.symm))
    · have hfilter : (call :: calls).filter (·.addr = addr) = calls.filter (·.addr = addr) := by simp [ha]
      rw [hfilter]
      refine ih (hs.step call) ht ?_ hcalls
      rw [hitsLeft,hitsLeft_ne hs.wf (Ne.symm ha)]
      exact h

/-- Every entry in use has between one and three hits; a check refuses an address exactly when an entry holds it;
the refusals of an address and the hits it has left are three for each call that listed it; a call is dropped exactly
when all entries are in use; and what is called for other addresses does not show in the checks of an address. -/
theorem banned_for_three_checks (calls : List Call) (addr : Sockaddr) :
    let s := Bans.initial.run calls
    s.blacklist.length = BLACKLISTSIZE ∧ (∀ e ∈ s.blacklist, e.len ≠ 0 → 1 ≤ e.hits ∧ e.hits ≤ 3) ∧
      ((blacklistcheck addr s.blacklist).1 = 0 ↔ ∃ e ∈ s.blacklist, e.Holds addr) ∧
      (s.refused.count addr : ℤ) + hitsLeft addr s.blacklist = 3 * s.listed.count addr ∧
      (blacklistAddress addr s.blacklist = s.blacklist ↔ ∀ e ∈ s.blacklist, e.len ≠ 0) ∧
      (∀ call : Call, call.addr ≠ addr → held addr (s.step call).blacklist = held addr s.blacklist) ∧
      (∀ later : List Call, .blacklistAddress addr ∉ later →
        ((blacklistcheck addr (s.run later).blacklist).1 = 0 ↔
          (blacklistcheck addr (s.run (later.filter (·.addr = addr))).blacklist).1 = 0)) ∧
      (s.refused.count addr : ℤ) ≤ 3 * s.listed.count addr := by
  intro s
  have hs : Balanced s := initial_balanced.run calls
  have hleft : 0 ≤ hitsLeft addr s.blacklist := by
    refine List.sum_nonneg fun x hx => ?_
    obtain ⟨e,he,rfl⟩ := List.mem_map.mp hx
    obtain ⟨hmem,hold⟩ := List.mem_filter.mp he
    have hhits := (hs.wf.entries e hmem).hits (of_decide_eq_true hold).1
    omega
  have hbalance : (s.refused.count addr : ℤ) + hitsLeft addr s.blacklist = 3 * s.listed.count addr := hs.balance addr
  refine ⟨hs.wf.size,fun e he => (hs.wf.entries e he).hits,?_,hbalance,blacklistAddress_dropped,?_,?_,by omega⟩
  · rw [blacklistcheck_iff hs.wf,held,ne_eq,List.filter_eq_nil_iff]
    simp
  · exact fun call hne => hitsLeft_ne hs.wf (Ne.symm hne)
  · intro later hlater
    rw [blacklistcheck_iff_hitsLeft (hs.run later).wf,blacklistcheck_iff_hitsLeft (hs.run _).wf,
      hitsLeft_run hs hs rfl hlater]

end LibIrcBot.Blacklist
