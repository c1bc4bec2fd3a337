import LibIrcBot.Protocol.IrcCommand

/-! # Names of commands

The parser accepts the printed names and nothing else. The printed names are a finite table, so
reading them back is a check of that table; that nothing else is accepted is an argument about
every string, by the two ways the parser has of answering.
-/
namespace LibIrcBot.IrcCommand
open CString

theorem all_get (self : IrcCommand) : all[self.ctorIdx]? = some self := by
  cases self <;> rfl

theorem mem_all (self : IrcCommand) : self ∈ all := List.mem_of_getElem? (all_get self)

/-- Every printed name is read back. -/
theorem parse_names : ∀ self ∈ all, ∀ name ∈ self.str, parse name = self := by
  decide +kernel

/-- The constant that the lookup of a value finds has that value. -/
theorem ofCode_code {n : ℕ} (h : ofCode n ≠ .CMD_UNKNOWN) : (ofCode n).code = n := by
  unfold ofCode at h ⊢
  cases hf : all.find? (fun self => self.code = n) with
  | none => simp [hf] at h
  | some self => simpa using List.find?_some hf

def threeDigits (n : ℕ) : Bytes :=
  [n / 100,n / 10 % 10,n % 10].map fun d => UInt8.ofNat (0x30 + d)

/-- What the numeric path accepts is printed with three digits. -/
theorem str_threeDigits : ∀ self ∈ all, self.str ≠ none → (self.code > 99 && self.code < 200) = false →
    self.str = some (threeDigits self.code) := by
  decide +kernel

theorem digit_of_isdigit {c : UInt8} (h : isdigit c = true) : ∃ d < 10, c = UInt8.ofNat (0x30 + d) := by
  simp only [isdigit,Bool.and_eq_true,decide_eq_true_eq,UInt8.le_iff_toNat_le] at h
  obtain ⟨hl,hu⟩ := h
  simp only [UInt8.reduceToNat] at hl hu
  exact ⟨c.toNat - 0x30,by omega,by rw [Nat.add_sub_cancel' hl,UInt8.ofNat_toNat]⟩

/-- Reading three digits and printing them again gives the same string. -/
theorem threeDigits_atoi {cmd : Bytes} (h : numeric cmd = true) : threeDigits (atoi cmd) = cmd := by
  unfold numeric at h
  split at h
  case h_2 => cases h
  case h_1 a b c =>
    simp only [Bool.and_eq_true] at h
    obtain ⟨x,hx,rfl⟩ := digit_of_isdigit h.1.1
    obtain ⟨y,hy,rfl⟩ := digit_of_isdigit h.1.2
    obtain ⟨z,hz,rfl⟩ := digit_of_isdigit h.2
    have hval : ∀ d < 10, (UInt8.ofNat (0x30 + d)).toNat - 0x30 = d := by
      intro d hd
      rw [UInt8.toNat_ofNat_of_lt' (by simp [UInt8.size]; omega)]
      omega
    simp only [atoi,List.foldl_cons,List.foldl_nil,hval x hx,hval y hy,hval z hz,threeDigits,List.map_cons,
      List.map_nil]
    rw [show (10 * (10 * (10 * 0 + x) + y) + z) / 100 = x by omega,
      show (10 * (10 * (10 * 0 + x) + y) + z) / 10 % 10 = y by omega,
      show (10 * (10 * (10 * 0 + x) + y) + z) % 10 = z by omega]

/-- A chain of comparisons answers with a name of its table. -/
theorem named_mem {cmd : Bytes} {names : List (String × IrcCommand)} {self : IrcCommand}
    (h : named cmd names = self) (hs : self ≠ .CMD_UNKNOWN) : ∃ entry ∈ names, cmd = lit entry.1 ∧ entry.2 = self := by
  induction names with
  | nil => exact absurd h.symm hs
  | cons entry rest ih =>
    obtain ⟨name,other⟩ := entry
    by_cases hc : cmd = lit name
    · exact ⟨(name,other),List.mem_cons_self,hc,by simpa [named,hc] using h⟩
    · obtain ⟨found,hf,he⟩ := ih (by simpa [named,hc] using h)
      exact ⟨found,List.mem_cons_of_mem _ hf,he⟩

/-- A chain whose constants print as the names they stand behind accepts printed names only. -/
theorem named_str {cmd : Bytes} {names : List (String × IrcCommand)} {self : IrcCommand}
    (ht : ∀ entry ∈ names, entry.2.str = some (lit entry.1)) (h : named cmd names = self)
    (hs : self ≠ .CMD_UNKNOWN) : self.str = some cmd := by
  obtain ⟨entry,he,hcmd,hself⟩ := named_mem h hs
  rw [← hself,ht entry he,hcmd]

/-- Whatever the parser accepts is the printed name of what it answers. -/
theorem str_of_parse {cmd : Bytes} {self : IrcCommand} (h : parse cmd = self) (hs : self ≠ .CMD_UNKNOWN) :
    self.str = some cmd := by
  unfold parse at h
  by_cases hn : numeric cmd = true
  · simp only [hn,if_true] at h
    split at h
    case isTrue => exact absurd h.symm hs
    case isFalse hr =>
      simp only [Bool.or_eq_true,decide_eq_true_eq,not_or,Bool.not_eq_true] at hr
      subst h
      have hc := ofCode_code hs
      rw [str_threeDigits _ (mem_all _) hr.2 (by rw [hc]; exact hr.1),hc,threeDigits_atoi hn]
  · simp only [hn,Bool.false_eq_true,if_false] at h
    split at h
    case h_20 => exact absurd h.symm hs
    all_goals exact named_str (by decide) h hs

/-- The parser answers with a command exactly for the printed name of that command. -/
theorem parse_eq_iff (cmd : Bytes) {self : IrcCommand} (hs : self ≠ .CMD_UNKNOWN) :
    parse cmd = self ↔ self.str = some cmd :=
  ⟨fun h => str_of_parse h hs,fun h => parse_names self (mem_all self) cmd h⟩

theorem parse_eq_iff_ping : parse (lit "PING") = .MSG_PING ↔ str .MSG_PING = some (lit "PING") :=
  parse_eq_iff (lit "PING") (by decide)

/-- No string has two readings, and no two commands share a name. -/
theorem str_injective {self other : IrcCommand} {name : Bytes} (h : self.str = some name)
    (ho : other.str = some name) : self = other := by
  rw [← parse_names self (mem_all self) name h,← parse_names other (mem_all other) name ho]

end LibIrcBot.IrcCommand
