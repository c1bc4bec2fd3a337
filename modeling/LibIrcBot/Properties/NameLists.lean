import LibIrcBot.Properties.UserEvents

/-! # Name lists

What a channel learns from a reply to `NAMES`. The status sign `+` is not skipped, so that
a user who is listed with it is stored under another name. When a user leaves, its name is read from the
prefix up to a `!` and into 128 bytes.
-/
namespace LibIrcBot.IrcChannel
open CString

def PLUS : UInt8 := 0x2b

/-- The name in a word of a name list, without any of the three status signs. -/
def listedName (own word : Bytes) : Option Bytes :=
  let sign := word.head?
  let name := if sign = some 0x40 || sign = some 0x25 || sign = some PLUS then word.tail else word
  if name ≠ [] && name ≠ own then some name else none

def Knows (self : ChanId) (w : World) (nick : Bytes) : Prop := ((w.chans self).nicks.get nick).isSome

def LearnsNames (self : ChanId) (nicklist : Bytes) (w w' : World) : Prop :=
  ∀ nick, Knows self w' nick ↔ Knows self w nick ∨ ∃ word ∈ words nicklist, listedName w.server.nick word = some nick

/-- The nick is known, or listed without the sign `+`. -/
def Told (self : ChanId) (nicklist : Bytes) (w : World) (nick : Bytes) : Prop :=
  Knows self w nick ∨ ∃ word ∈ words nicklist, word.head? ≠ some PLUS ∧ listedName w.server.nick word = some nick

/-- For each name that is listed with `+`, the word with the sign is the own nick, or known or listed otherwise, and
the name without it is empty, the own nick, or known or listed otherwise. -/
def PlusHarmless (self : ChanId) (nicklist : Bytes) (w : World) : Prop :=
  ∀ name, PLUS :: name ∈ words nicklist →
    (PLUS :: name = w.server.nick ∨ Told self nicklist w (PLUS :: name) ∨ PLUS :: PLUS :: name ∈ words nicklist) ∧
      (name = [] ∨ name = w.server.nick ∨ Told self nicklist w name ∨ (name.head? = some PLUS ∧ name ∈ words nicklist))

variable {self : ChanId} {w : World} {nicklist : Bytes}

/-- A nick that is stored does not change what is known of others. -/
theorem knows_setNick (nick key : Bytes) : Knows self (setNick self nick w) key ↔ Knows self w key ∨ nick = key := by
  have hchan : ((setNick self nick w).chans self).nicks = ((w.chans self).nicks.set nick (w.chans self).name none).2 := by
    simp only [setNick,World.setChan,Function.update_self]
  rw [Knows,Knows,hchan]
  by_cases hk : key = nick
  · subst hk
    rw [IBHashTable.get_set_self]
    simp
  · rw [IBHashTable.get,IBHashTable.get,IBHashTable.find_set_ne _ _ _ hk]
    simp [Ne.symm hk]

/-- The loop over the words of the list. -/
theorem knows_foldl (ws : List Bytes) (w : World) (key : Bytes) :
    Knows self (ws.foldl (fun w word =>
      match listedNick w.server.nick word with
      | some nick => setNick self nick w
      | none => w) w) key ↔ Knows self w key ∨ ∃ word ∈ ws, listedNick w.server.nick word = some key := by
  induction ws generalizing w with
  | nil => simp
  | cons word ws ih =>
    rw [List.foldl_cons,ih]
    cases hn : listedNick w.server.nick word with
    | none => simp [hn]
    | some nick =>
      have hnick : (setNick self nick w).server.nick = w.server.nick := rfl
      dsimp only
      rw [knows_setNick,hnick]
      simp only [List.mem_cons,exists_eq_or_imp,hn,Option.some.injEq]
      tauto

/-- The two readings of a word differ for the sign `+` only. -/
theorem listedNick_eq {own word : Bytes} (h : word.head? ≠ some PLUS) : listedNick own word = listedName own word := by
  unfold listedNick listedName
  simp only [h,decide_false,Bool.or_false]

theorem listedNick_plus {own name key : Bytes} :
    listedNick own (PLUS :: name) = some key ↔ PLUS :: name ≠ own ∧ PLUS :: name = key := by
  have hat : PLUS ≠ 0x40 ∧ PLUS ≠ 0x25 := by decide
  unfold listedNick
  simp only [List.head?_cons,Option.some.injEq,hat.1,hat.2,decide_false,Bool.or_self,Bool.false_eq_true,if_false]
  by_cases ho : PLUS :: name = own
  · simp [ho]
  · simp [ho]

theorem listedName_plus {own name key : Bytes} :
    listedName own (PLUS :: name) = some key ↔ (name ≠ [] ∧ name ≠ own) ∧ name = key := by
  unfold listedName
  simp only [List.head?_cons,decide_true,Bool.or_true,if_true,List.tail_cons]
  by_cases hn : name ≠ [] ∧ name ≠ own
  · simp [hn.1,hn.2]
  · by_cases h0 : name = []
    · simp [h0]
    · have ho : name = own := by
        by_contra hne
        exact hn ⟨h0,hne⟩
      simp [ho]

/-- A name that a list tells is told without the sign `+`, or listed with it. -/
theorem listed_cases {f : Bytes → Bytes → Option Bytes} {own key : Bytes}
    (hf : ∀ word, word.head? ≠ some PLUS → f own word = listedName own word) :
    (∃ word ∈ words nicklist, f own word = some key) ↔
      (∃ word ∈ words nicklist, word.head? ≠ some PLUS ∧ listedName own word = some key) ∨
        ∃ name, PLUS :: name ∈ words nicklist ∧ f own (PLUS :: name) = some key := by
  constructor
  · rintro ⟨word,hmem,hkey⟩
    by_cases hplus : word.head? = some PLUS
    · obtain ⟨name,rfl⟩ := List.head?_eq_some_iff.mp hplus
      exact .inr ⟨name,hmem,hkey⟩
    · exact .inl ⟨word,hmem,hplus,(hf word hplus).symm.trans hkey⟩
  · rintro (⟨word,hmem,hplus,hkey⟩ | ⟨name,hmem,hkey⟩)
    · exact ⟨word,hmem,(hf word hplus).trans hkey⟩
    · exact ⟨_,hmem,hkey⟩

/-- What another user sends who leaves, is kicked or changes its nick. -/
inductive About (self : ChanId) (nick : Bytes) (x : World) (m : IrcMessage) : Prop where
  | part (host : Bytes) (hc : m.command = .MSG_PART) (hn : m.params[0]? = some (x.chans self).name)
      (hp : m.msgPrefix = some (nick ++ 0x21 :: host))
  | quit (host : Bytes) (hc : m.command = .MSG_QUIT) (hp : m.msgPrefix = some (nick ++ 0x21 :: host))
  | kick (hc : m.command = .MSG_KICK) (hn : m.params[0]? = some (x.chans self).name) (hk : m.params[1]? = some nick)
  | nick (host new : Bytes) (hc : m.command = .MSG_NICK) (hn : m.params = [new]) (hne : new ≠ nick)
      (hp : m.msgPrefix = some (nick ++ 0x21 :: host))

def Finds (self : ChanId) (nick : Bytes) (x : World) (m : IrcMessage) : Prop :=
  Knows self x nick ∧ ∀ env : Env, ∃ y, handleMsg self env m x = .ok y ∧ ¬ Knows self y nick

/-- A later state, in which a user who was stored still is, and the bot has another nick. -/
structure Still (chan : ChanId) (nick : Bytes) (w x : World) : Prop where
  wf : (x.chans chan).nicks.Wf
  known : Knows chan w nick → Knows chan x nick
  other : nick ≠ x.server.nick

/-- Each user of the list is found when it leaves, is kicked or changes its nick. -/
def FindsListed (self : ChanId) (nicklist : Bytes) (w w' : World) : Prop :=
  ∀ word ∈ words nicklist, ∀ nick, listedName w.server.nick word = some nick →
    ∀ x, Still self nick w' x → ∀ m, About self nick x m → Finds self nick x m

/-- The nicks of the list have less than 128 bytes and no `!`. -/
def Readable (nicklist : Bytes) (w : World) : Prop :=
  ∀ word ∈ words nicklist, ∀ nick, listedName w.server.nick word = some nick → nick.length < 128 ∧ 0x21 ∉ nick

theorem sscanfNick_user {nick host : Bytes} (hne : nick ≠ []) :
    sscanfNick (nick ++ 0x21 :: host) = some nick ↔ nick.length < 128 ∧ 0x21 ∉ nick := by
  have hscan : ∀ key, sscanfNick (nick ++ 0x21 :: host) = some key →
      key = ((nick ++ 0x21 :: host).takeWhile (· ≠ 0x21)).take 127 := by
    intro key h
    unfold sscanfNick at h
    split at h
    · cases h
    · exact (Option.some.inj h).symm
  constructor
  · intro h
    have hnick := hscan nick h
    constructor
    · have hlen := congrArg List.length hnick
      rw [List.length_take] at hlen
      omega
    · intro hmem
      rw [hnick] at hmem
      simpa using List.mem_takeWhile_imp (List.mem_of_mem_take hmem)
  · rintro ⟨hlen,hbang⟩
    have hall : ∀ c ∈ nick, decide (c ≠ 0x21) = true := fun c hc => decide_eq_true fun he => hbang (he ▸ hc)
    have htake : ((nick ++ 0x21 :: host).takeWhile (· ≠ 0x21)).take 127 = nick := by
      rw [List.takeWhile_append_of_pos hall,List.takeWhile_cons_of_neg (by simp),List.append_nil,
        List.take_of_length_le (by omega)]
    unfold sscanfNick
    rw [htake]
    cases nick with
    | nil => exact absurd rfl hne
    | cons c nick => rfl

theorem raiseLeft_ok (self : ChanId) (nick : Bytes) (w : World) :
    ∃ y, raiseLeft self nick w = .ok y ∧ y.chans = w.chans := by
  refine ⟨_,raiseLeft_eq self nick w,?_⟩
  have hone : ∀ t : World, t.chans = w.chans → (IrcBot.userParted self nick t).chans = w.chans :=
    fun t ht => (userChanged_chans _ self nick t).trans ht
  exact Function.Iterate.rec (fun t : World => t.chans = w.chans) rfl hone _

section Leaving
variable {nick buf : Bytes} {x : World} {m : IrcMessage}

/-- The string that a message makes the channel look for among its nicks. -/
def lookedUp (env : Env) (m : IrcMessage) : Bytes :=
  if m.command = .MSG_KICK then m.params[1]?.getD [] else (m.msgPrefix.bind sscanfNick).getD env.stackbuf

/-- A step at which the entry of a string is taken out, as far as a certain nick is concerned. -/
structure Takes (chan : ChanId) (buf nick : Bytes) (x y : World) : Prop where
  kept : nick ≠ buf → (Knows chan y nick ↔ Knows chan x nick)
  gone : (x.chans chan).nicks.Wf → nick = buf → ¬ Knows chan y nick

theorem takes_of_chans {y : World} (hy : y.chans = (deleteNick self buf x).2.chans) : Takes self buf nick x y := by
  have hnicks : ((deleteNick self buf x).2.chans self).nicks = ((x.chans self).nicks.delete buf).2.2 := by
    simp only [deleteNick,World.setChan,Function.update_self]
  constructor
  · intro hne
    rw [Knows,Knows,hy,hnicks,IBHashTable.get,IBHashTable.get,IBHashTable.find_delete_ne _ hne]
  · rintro hwf rfl
    rw [Knows,hy,hnicks,IBHashTable.get,IBHashTable.find_delete_self hwf]
    exact Bool.false_ne_true

/-- An entry is taken out, and the bot is told so. -/
theorem deleteNick_takes (buf nick : Bytes) (x : World) : ∃ y, (if (deleteNick self buf x).1 then
    raiseLeft self buf (deleteNick self buf x).2 else .ok (deleteNick self buf x).2) = .ok y ∧
      Takes self buf nick x y := by
  split
  · obtain ⟨y,hy,hchans⟩ := raiseLeft_ok self buf (deleteNick self buf x).2
    exact ⟨y,hy,takes_of_chans hchans⟩
  · exact ⟨_,rfl,takes_of_chans rfl⟩

theorem scanNick_some (env : Env) (hp : m.msgPrefix.isSome) (hc : m.command ≠ .MSG_KICK) (x : World) :
    scanNick env m x = .ok (lookedUp env m) := by
  obtain ⟨msgPrefix,he⟩ := Option.isSome_iff_exists.mp hp
  rw [scanNick,lookedUp,if_neg hc,he]
  rfl

theorem handleQuit_takes (env : Env) (hp : m.msgPrefix.isSome) (hc : m.command ≠ .MSG_KICK) (nick : Bytes) (x : World) :
    ∃ y, handleQuit self env m x = .ok y ∧ Takes self (lookedUp env m) nick x y := by
  rw [handleQuit,scanNick_some env hp hc]
  exact deleteNick_takes (lookedUp env m) nick x

theorem About.takes (h : About self nick x m) (ho : nick ≠ x.server.nick) (env : Env) :
    ∃ y, handleMsg self env m x = .ok y ∧ Takes self (lookedUp env m) nick x y := by
  cases h with
  | part host hc hn hp =>
    obtain ⟨hlen,_⟩ := List.getElem?_eq_some_iff.mp hn
    have hrun : handleMsg self env m x = handleQuit self env m x := by
      simp only [handleMsg,hc,handlePart,if_pos (Nat.ne_of_gt hlen),hn,World.deref,bind,Except.bind,↓reduceIte]
    rw [hrun]
    exact handleQuit_takes env (hp ▸ rfl) (by simp [hc]) nick x
  | quit host hc hp =>
    have hrun : handleMsg self env m x = handleQuit self env m x := by rw [handleMsg,hc]
    rw [hrun]
    exact handleQuit_takes env (hp ▸ rfl) (by simp [hc]) nick x
  | kick hc hn hk =>
    obtain ⟨hlen,_⟩ := List.getElem?_eq_some_iff.mp hk
    have hrun : handleMsg self env m x = if (deleteNick self nick x).1 then
        raiseLeft self nick (deleteNick self nick x).2 else .ok (deleteNick self nick x).2 := by
      simp only [handleMsg,hc,handleKick,if_pos hlen,hn,hk,World.deref,bind,Except.bind,↓reduceIte,if_neg ho]
      rfl
    have hkey : lookedUp env m = nick := by rw [lookedUp,if_pos hc,hk]; rfl
    rw [hrun,hkey]
    exact deleteNick_takes nick nick x
  | nick host new hc hn hne hp =>
    have hrun : handleMsg self env m x = if (deleteNick self (lookedUp env m) x).1 then
        .ok (setNick self new (deleteNick self (lookedUp env m) x).2)
        else .ok (deleteNick self (lookedUp env m) x).2 := by
      simp only [handleMsg,hc,handleNick,hn,List.length_singleton,if_true,bind,Except.bind,
        scanNick_some env (hp ▸ rfl : m.msgPrefix.isSome) (by simp [hc]) x]
      rfl
    have htakes : Takes self (lookedUp env m) nick x (deleteNick self (lookedUp env m) x).2 := takes_of_chans rfl
    rw [hrun]
    split
    · refine ⟨_,rfl,fun hkey => ?_,fun hwf hkey => ?_⟩
      · exact (knows_setNick new nick).trans ((or_iff_left hne).trans (htakes.kept hkey))
      · exact fun hk => htakes.gone hwf hkey (((knows_setNick new nick).trans (or_iff_left hne)).mp hk)
    · exact ⟨_,rfl,htakes⟩

/-- A user is found exactly when its nick can be read from a prefix. -/
theorem finds_iff (hs : Still self nick w x) (hk : Knows self w nick) (hne : nick ≠ []) :
    (∀ m, About self nick x m → Finds self nick x m) ↔ nick.length < 128 ∧ 0x21 ∉ nick := by
  constructor
  · intro h
    have habout : About self nick x ⟨some (nick ++ [0x21]),lit "QUIT",none,[],.MSG_QUIT⟩ := .quit [] rfl rfl
    by_contra hlong
    obtain ⟨_,hfinds⟩ := h _ habout
    let env : Env := { Env.failing with stackbuf := [] }
    obtain ⟨y,hy,hno⟩ := hfinds env
    obtain ⟨z,hz,htakes⟩ := habout.takes hs.other env
    cases hy.symm.trans hz
    refine hno ((htakes.kept fun he => hlong ?_).mpr (hs.known hk))
    rw [lookedUp,if_neg (by simp)] at he
    have hscan : sscanfNick (nick ++ [0x21]) = some nick := by
      cases hc : sscanfNick (nick ++ [0x21]) with
      | none =>
        refine absurd (he.trans ?_) hne
        rw [Option.bind_some,hc]
        rfl
      | some buf =>
        rw [Option.bind_some,hc] at he
        exact congrArg some he.symm
    exact (sscanfNick_user hne).mp hscan
  · rintro hread m hm
    refine ⟨hs.known hk,fun env => ?_⟩
    obtain ⟨y,hy,htakes⟩ := hm.takes hs.other env
    refine ⟨y,hy,htakes.gone hs.wf ?_⟩
    have hscan : ∀ host : Bytes, sscanfNick (nick ++ 0x21 :: host) = some nick := fun _ => (sscanfNick_user hne).mpr hread
    unfold lookedUp
    cases hm with
    | part host hc hn hp | quit host hc hp | nick host new hc hn hne hp =>
      rw [if_neg (by simp [hc]),hp,Option.bind_some,hscan]
      rfl
    | kick hc hn hk =>
      rw [if_pos hc,hk]
      rfl

end Leaving

/-- The loop stores the previous nicks and those of the list, without status signs, exactly when the sign `+` makes no
difference in it. -/
theorem learns_iff {w' : World} (hw : w' = (words nicklist).foldl (fun w word =>
    match listedNick w.server.nick word with
    | some nick => setNick self nick w
    | none => w) w) : LearnsNames self nicklist w w' ↔ PlusHarmless self nicklist w := by
  subst hw
  have hcode : ∀ key, (∃ word ∈ words nicklist, listedNick w.server.nick word = some key) ↔ _ :=
    fun key => listed_cases fun word => listedNick_eq
  have hlisted : ∀ key, (∃ word ∈ words nicklist, listedName w.server.nick word = some key) ↔ _ :=
    fun key => listed_cases fun _ _ => rfl
  simp only [LearnsNames,knows_foldl,hcode,hlisted,listedNick_plus,listedName_plus,← or_assoc]
  change (∀ key, Told self nicklist w key ∨ _ ↔ Told self nicklist w key ∨ _) ↔ _
  constructor
  · intro h name hmem
    constructor
    · by_cases ho : PLUS :: name = w.server.nick
      · exact .inl ho
      · rcases (h (PLUS :: name)).mp (.inr ⟨name,hmem,ho,rfl⟩) with ht | ⟨other,hother,_,rfl⟩
        · exact .inr (.inl ht)
        · exact .inr (.inr hother)
    · by_cases h0 : name = []
      · exact .inl h0
      by_cases ho : name = w.server.nick
      · exact .inr (.inl ho)
      rcases (h name).mpr (.inr ⟨name,hmem,⟨h0,ho⟩,rfl⟩) with ht | ⟨other,hother,_,rfl⟩
      · exact .inr (.inr (.inl ht))
      · exact .inr (.inr (.inr ⟨rfl,hother⟩))
  · intro h key
    constructor
    · rintro (ht | ⟨name,hmem,ho,rfl⟩)
      · exact .inl ht
      · rcases (h name hmem).1 with he | ht | hother
        · exact absurd he ho
        · exact .inl ht
        · exact .inr ⟨PLUS :: name,hother,⟨List.cons_ne_nil _ _,ho⟩,rfl⟩
    · rintro (ht | ⟨name,hmem,⟨h0,ho⟩,rfl⟩)
      · exact .inl ht
      · rcases (h name hmem).2 with he | he | ht | ⟨hhead,hother⟩
        · exact absurd he h0
        · exact absurd he ho
        · exact .inl ht
        · obtain ⟨rest,rfl⟩ := List.head?_eq_some_iff.mp hhead
          exact .inr ⟨rest,hother,ho,rfl⟩

theorem listedName_ne {own word nick : Bytes} (h : listedName own word = some nick) : nick ≠ [] ∧ nick ≠ own := by
  obtain ⟨hname,hnick⟩ := Option.ite_none_right_eq_some.mp h
  rw [Option.some.inj hnick,Bool.and_eq_true,decide_eq_true_eq,decide_eq_true_eq] at hname
  exact hname

/-- Users that are stored are found exactly when their nicks can be read. -/
theorem findsListed_iff {w' : World} (h : LearnsNames self nicklist w w') (hn : w'.server.nick = w.server.nick) :
    FindsListed self nicklist w w' ↔ Readable nicklist w := by
  constructor
  · intro hfinds word hmem nick hword
    obtain ⟨hne,hother⟩ := listedName_ne hword
    let x := w'.setChan self fun c => { c with nicks := ((IBHashTable.create 8).set nick c.name none).2 }
    have hnicks : (x.chans self).nicks = ((IBHashTable.create 8).set nick (w'.chans self).name none).2 := by
      simp only [x,World.setChan,Function.update_self]
    have hstill : Still self nick w' x := by
      refine ⟨?_,fun _ => ?_,fun he => hother (he.trans hn)⟩
      · rw [hnicks]
        exact IBHashTable.set_wf (IBHashTable.create_wf 8) _ _ _
      · rw [Knows,hnicks,IBHashTable.get_set_self]
        rfl
    exact (finds_iff hstill ((h nick).mpr (.inr ⟨word,hmem,hword⟩)) hne).mp (hfinds word hmem nick hword x hstill)
  · intro hread word hmem nick hword x hstill
    have hk := (h nick).mpr (.inr ⟨word,hmem,hword⟩)
    exact (finds_iff hstill hk (listedName_ne hword).1).mpr (hread word hmem nick hword)

theorem foldl_nick (self : ChanId) (ws : List Bytes) (w : World) : (ws.foldl (fun w word =>
    match listedNick w.server.nick word with
    | some nick => setNick self nick w
    | none => w) w).server.nick = w.server.nick := by
  induction ws generalizing w with
  | nil => rfl
  | cons word ws ih =>
    rw [List.foldl_cons,ih]
    split <;> rfl

/-- A reply with four parameters whose third is the name of the channel: the nicks are then the previous ones and those
of the list, without status signs, and each user of the list is found later, exactly when the sign `+` makes no
difference in the list and its nicks can be read from a prefix. -/
theorem namreply_names (env : Env) {msg : IrcMessage} {client symbol : Bytes} (hcmd : msg.command = .RPL_NAMREPLY)
    (hparams : msg.params = [client,symbol,(w.chans self).name,nicklist]) :
    ∃ w', handleMsg self env msg w = .ok w' ∧
      (LearnsNames self nicklist w w' ∧ FindsListed self nicklist w w' ↔
        PlusHarmless self nicklist w ∧ Readable nicklist w) := by
  have hrun : handleMsg self env msg w = .ok ((words nicklist).foldl (fun w word =>
      match listedNick w.server.nick word with
      | some nick => setNick self nick w
      | none => w) w) := by
    rw [handleMsg,hcmd]
    simp only [handleNamreply,hparams]
    change (if (w.chans self).name = (w.chans self).name then _ else _) = _
    rw [if_pos rfl]
    rfl
  refine ⟨_,hrun,?_⟩
  have hlearns : LearnsNames self nicklist w _ ↔ _ := learns_iff rfl
  constructor
  · rintro ⟨hl,hf⟩
    exact ⟨hlearns.mp hl,(findsListed_iff hl (foldl_nick self _ w)).mp hf⟩
  · rintro ⟨hplus,hread⟩
    have hl := hlearns.mpr hplus
    exact ⟨hl,(findsListed_iff hl (foldl_nick self _ w)).mpr hread⟩

theorem plusHarmless_of_none (h : ∀ word ∈ words nicklist, word.head? ≠ some PLUS) : PlusHarmless self nicklist w :=
  fun _ hmem => absurd rfl (h _ hmem)

def listing (nicklist : Bytes) : IrcMessage where
  msgPrefix := some (lit "s")
  rawCmd := lit "353"
  rawParams := some (lit "n = #c :" ++ nicklist)
  params := [lit "n",lit "=",lit "#c",nicklist]
  command := .RPL_NAMREPLY

theorem namreply_names_signs : ∃ w', handleMsg 0 Env.failing (listing (lit "@n  %joe sue @")) World.joined = .ok w' ∧
    LearnsNames 0 (lit "@n  %joe sue @") World.joined w' ∧ FindsListed 0 (lit "@n  %joe sue @") World.joined w' := by
  have hparams : (listing (lit "@n  %joe sue @")).params =
      [lit "n",lit "=",(World.joined.chans 0).name,lit "@n  %joe sue @"] := by decide +kernel
  obtain ⟨w',hw,hiff⟩ := namreply_names Env.failing rfl hparams
  refine ⟨w',hw,hiff.mpr ⟨plusHarmless_of_none (by decide),fun word hmem nick hword => ?_⟩⟩
  have hall : ∀ word ∈ words (lit "@n  %joe sue @"), ∀ nick ∈ listedName World.joined.server.nick word,
      nick.length < 128 ∧ 0x21 ∉ nick := by decide +kernel
  exact hall word hmem nick hword

/-- A user with voice is stored with the sign. -/
theorem namreply_names_voice : ¬ LearnsNames 0 (lit "+joe") World.joined
    (World.result (handleMsg 0 Env.failing (listing (lit "+joe")) World.joined)) := by
  intro h
  have hknown := (h (lit "joe")).mpr (.inr ⟨lit "+joe",by decide,by decide +kernel⟩)
  revert hknown
  unfold Knows
  decide +kernel

end LibIrcBot.IrcChannel
