import LibIrcBot.System.Runs

/-! # The nick in a prefix

A channel reads the nick of a prefix with `sscanf` into a buffer of 128 bytes, the server
and the bot with `strcspn`. They agree on the nicks that `sscanf` stores as a whole.
-/
namespace LibIrcBot
open CString

def BANG : UInt8 := 0x21

def nickOf (msgPrefix : Bytes) : Bytes := msgPrefix.takeWhile (· ≠ BANG)

/-- For messages with this prefix, whatever is on the stack: the channels work with the nick that the bot stores as
the sender of an event, and take themselves for meant exactly when the server does. -/
structure NicksAgree (msgPrefix : Bytes) : Prop where
  sender : ∀ type origin command arg,
    (IrcBot.createBotEvent type origin command (some msgPrefix) arg).sender = some (nickOf msgPrefix)
  key : ∀ (env : Env) (msg : IrcMessage) (w : World), msg.msgPrefix = some msgPrefix →
    IrcChannel.scanNick env msg w = .ok (nickOf msgPrefix)
  own : ∀ (env : Env) (msg : IrcMessage) (w : World), msg.msgPrefix = some msgPrefix →
    ∃ buf own, IrcChannel.scanNick env msg w = .ok buf ∧ IrcServer.ownPrefix msg w = .ok own ∧
      (buf = w.server.nick ↔ own = true)

variable {msgPrefix : Bytes} {msg : IrcMessage} {w : World}

theorem strcspn_bang (s : Bytes) : strcspn s (lit "!") = (nickOf s).length := by
  have hbang : lit "!" = [BANG] := by decide
  have hp : (fun c : UInt8 => decide (c ∉ [BANG])) = fun c => decide (c ≠ BANG) := by
    funext c
    simp
  rw [strcspn,hbang,hp]
  rfl

/-- The nick is the front part of the prefix. -/
theorem take_nickOf (s : Bytes) : s.take (nickOf s).length = nickOf s :=
  List.prefix_iff_eq_take.mp (List.takeWhile_prefix _) |>.symm

/-- `strncmp` and `strcspn` compare the nick of the prefix with the own one. -/
theorem ownPrefix_eq (hp : msg.msgPrefix = some msgPrefix) :
    IrcServer.ownPrefix msg w = .ok (decide (nickOf msgPrefix = w.server.nick)) := by
  have htest : (strncmp msgPrefix w.server.nick w.server.nick.length &&
      decide (strcspn msgPrefix (lit "!") = w.server.nick.length)) = decide (nickOf msgPrefix = w.server.nick) := by
    rw [strcspn_bang,strncmp,List.take_length,Bool.eq_iff_iff]
    simp only [Bool.and_eq_true,beq_iff_eq,decide_eq_true_eq]
    constructor
    · rintro ⟨htake,hlen⟩
      rw [← hlen,take_nickOf] at htake
      exact htake
    · intro he
      rw [← he]
      exact ⟨take_nickOf _,rfl⟩
  rw [IrcServer.ownPrefix,hp]
  exact congrArg Except.ok htest

theorem sender_eq (type : IrcBotEventType) (origin command arg : Option Bytes) :
    (IrcBot.createBotEvent type origin command (some msgPrefix) arg).sender = some (nickOf msgPrefix) := by
  change some (msgPrefix.take (strcspn msgPrefix (lit "!"))) = _
  rw [strcspn_bang,take_nickOf]

/-- What `sscanf` leaves in the buffer. -/
theorem scanNick_buf (env : Env) (hp : msg.msgPrefix = some msgPrefix) : IrcChannel.scanNick env msg w =
    .ok (if nickOf msgPrefix = [] then env.stackbuf else (nickOf msgPrefix).take 127) := by
  have hscan : (sscanfNick msgPrefix).getD env.stackbuf =
      if nickOf msgPrefix = [] then env.stackbuf else (nickOf msgPrefix).take 127 := by
    have hfront : msgPrefix.takeWhile (· ≠ 0x21) = nickOf msgPrefix := rfl
    rw [sscanfNick,hfront]
    cases nickOf msgPrefix with
    | nil => rfl
    | cons c s => rfl
  rw [IrcChannel.scanNick,hp]
  exact congrArg Except.ok hscan

def quitting (msgPrefix : Bytes) : IrcMessage := ⟨some msgPrefix,lit "QUIT",none,[],.MSG_QUIT⟩

/-- The places that extract a nick agree exactly when it has between 1 and 127 bytes. -/
theorem nicks_agree (msgPrefix : Bytes) :
    NicksAgree msgPrefix ↔ 1 ≤ (nickOf msgPrefix).length ∧ (nickOf msgPrefix).length ≤ 127 := by
  constructor
  · intro h
    have hbuf : ∀ env : Env, (if nickOf msgPrefix = [] then env.stackbuf else (nickOf msgPrefix).take 127) =
        nickOf msgPrefix := by
      intro env
      have hkey := h.key env (quitting msgPrefix) World.connected rfl
      rw [scanNick_buf env rfl] at hkey
      exact Except.ok.inj hkey
    by_cases hnil : nickOf msgPrefix = []
    · have hstack := hbuf { Env.failing with stackbuf := [BANG] }
      rw [if_pos hnil,hnil] at hstack
      cases hstack
    · have htake := hbuf .failing
      rw [if_neg hnil] at htake
      have hlen := congrArg List.length htake
      rw [List.length_take] at hlen
      exact ⟨List.length_pos_iff.mpr hnil,by omega⟩
  · rintro ⟨hpos,hlen⟩
    have hnil : nickOf msgPrefix ≠ [] := List.length_pos_iff.mp hpos
    have hkey : ∀ (env : Env) (msg : IrcMessage) (w : World), msg.msgPrefix = some msgPrefix →
        IrcChannel.scanNick env msg w = .ok (nickOf msgPrefix) := by
      intro env msg w hp
      rw [scanNick_buf env hp,if_neg hnil,List.take_of_length_le hlen]
    refine ⟨sender_eq,hkey,fun env msg w hp => ⟨_,_,hkey env msg w hp,ownPrefix_eq hp,?_⟩⟩
    exact decide_eq_true_iff.symm

/-- A prefix that begins with `!` leaves in the buffer what was there before. -/
theorem nicks_agree_empty : ¬ NicksAgree (lit "!u@h") := by
  intro h
  have hkey := h.key { Env.failing with stackbuf := lit "joe" } (quitting (lit "!u@h")) World.connected rfl
  exact absurd (Except.ok.inj hkey) (by decide)

end LibIrcBot
