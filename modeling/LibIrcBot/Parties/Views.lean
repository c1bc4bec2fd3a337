import LibIrcBot.Parties.NickTables

/-! # What a notice tells the bot

Over the tables and the automaton of a channel stands what the bot knows of it: whether it has the
channel, the set of nicks, and whether it is joined. A notice changes that by a function of its own.
-/
namespace LibIrcBot
open CString Effects Relation Outcome

def UserChange.tell (nicks : Finset Bytes) : UserChange → Finset Bytes
  | .join nick _ => insert nick nicks
  | .part nick _ _ | .quit nick _ _ | .kick nick _ _ => nicks.erase nick
  | .rename nick _ new => if nick ∈ nicks then insert new (nicks.erase nick) else nicks

/-- The nicks of others that the bot reads in a line of names. -/
def NameLine.others (own : Bytes) (line : NameLine) : Finset Bytes := (line.map listed).toFinset.erase own

def Notice.learn (own : Bytes) : Notice → View → View
  | .joined _, view => view
  | .names line, view => { view with nicks := view.nicks ∪ line.others own }
  | .endOfNames, view => { view with joined := true }
  | .parted _ _, view => { view with nicks := view.nicks.erase own }
  | .kicked _ _, view => { view with joined := false }
  | .user change, view => { view with nicks := change.tell view.nicks }

/-- What the bot knows after a notice; the echo of its join makes it create the channel. -/
def Notice.tell (own : Bytes) (n : Notice) (view : Option View) : Option View :=
  match n with
  | .joined _ => some (view.getD ⟨∅,false⟩)
  | n => view.map (n.learn own)

def tellAll (own : Bytes) (notices : List Notice) (view : Option View) : Option View :=
  notices.foldl (fun view notice => notice.tell own view) view

theorem tellAll_append (own : Bytes) (ns ms : List Notice) (a : Option View) :
    tellAll own (ns ++ ms) a = tellAll own ms (tellAll own ns a) := List.foldl_append

section Keys
variable {own channel : Bytes} {table : IBHashTable Bytes Unit}

theorem UserChange.store_keys (h : table.Sized) (change : UserChange) :
    (change.store channel table).Sized ∧ (change.store channel table).keys = change.tell table.keys := by
  cases change with
  | join nick host => exact ⟨h.set _ _ _,h.keys_set _ _ _⟩
  | part nick host reason => exact ⟨h.delete _,h.keys_delete _⟩
  | quit nick host reason => exact ⟨h.delete _,h.keys_delete _⟩
  | kick nick op reason => exact ⟨h.delete _,h.keys_delete _⟩
  | rename nick host new =>
    simp only [UserChange.store,UserChange.tell,h.delete_iff]
    by_cases hmem : nick ∈ table.keys
    · rw [if_pos hmem,if_pos hmem,(h.delete nick).keys_set,h.keys_delete]
      exact ⟨(h.delete nick).set _ _ _,rfl⟩
    · rw [if_neg hmem,if_neg hmem,h.keys_delete,Finset.erase_eq_of_notMem hmem]
      exact ⟨h.delete nick,rfl⟩

theorem NameLine.store_keys (h : table.Sized) (line : NameLine) : (line.store channel own table).Sized ∧
    (line.store channel own table).keys = table.keys ∪ line.others own := by
  induction line generalizing table with
  | nil => exact ⟨h,by simp [NameLine.store,NameLine.others]⟩
  | cons name line ih =>
    rw [NameLine.store,List.foldl_cons]
    by_cases ho : listed name = own
    · have hsame : NameLine.others own (name :: line) = NameLine.others own line := by
        simp [NameLine.others,ho,Finset.erase_insert_eq_erase]
      rw [if_pos ho,hsame]
      exact ih h
    · have hmore : NameLine.others own (name :: line) = insert (listed name) (NameLine.others own line) := by
        simp [NameLine.others,Finset.erase_insert_of_ne ho]
      rw [if_neg ho,hmore,Finset.union_insert,← Finset.insert_union,← h.keys_set (listed name) channel none]
      exact ih (h.set (listed name) channel none)

theorem Notice.store_keys (h : table.Sized) (n : Notice) (joined : Bool) : (n.store channel own table).Sized ∧
    (n.store channel own table).keys = (n.learn own ⟨table.keys,joined⟩).nicks := by
  cases n with
  | names line => exact line.store_keys h
  | parted host reason => exact ⟨h.delete own,h.keys_delete own⟩
  | user change => exact change.store_keys h
  | _ => exact ⟨h,rfl⟩

end Keys

def Notice.op (greetings : ℕ) : Notice → ChanState → ChanState
  | .kicked _ _ => ChanState.kick
  | .endOfNames => (·.enter greetings)
  | _ => id

theorem received_notice {w : World} {self : ChanId} {channel : Bytes} {n : Notice} (hname : (w.chans self).name = channel)
    (hn : n.Valid w.server.nick) : IrcChannel.received self (n.message channel w.server.nick) w =
      n.op (IrcChannel.greetings self w) := by
  unfold IrcChannel.received IrcChannel.Kicks IrcChannel.EndsNames
  subst hname
  cases n with
  | user change =>
    cases change with
    | kick nick op reason =>
      have hne := (hn nick List.mem_cons_self).2
      simp [Notice.message,UserChange.message,IrcMessage.of,Notice.op,hne]
    | _ => simp [Notice.message,UserChange.message,IrcMessage.of,Notice.op]
  | _ => simp [Notice.message,IrcMessage.of,Notice.op]

theorem Notice.op_isJoined (n : Notice) (greetings : ℕ) (own : Bytes) (s : ChanState) (nicks : Finset Bytes) :
    (n.op greetings s).isJoined = (n.learn own ⟨nicks,s.isJoined⟩).joined := by
  cases n with
  | kicked op reason =>
    rw [Notice.op,ChanState.kick]
    split <;> rfl
  | _ => rfl

/-- No notice registers the channel for the end of the connection, or unregisters it. -/
theorem Notice.op_disconnected (n : Notice) (greetings : ℕ) (s : ChanState) :
    (n.op greetings s).disconnected = s.disconnected := by
  cases n with
  | kicked op reason =>
    rw [Notice.op,ChanState.kick]
    split <;> rfl
  | _ => rfl

end LibIrcBot
