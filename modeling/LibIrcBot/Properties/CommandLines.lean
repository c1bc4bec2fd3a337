import LibIrcBot.System.Loop

/-! # Commands on the wire

Every string handed to `sendRaw` is formatted by `sendRawCmd` or `IrcServer_sendMsg`.
Whether it is a line of the protocol depends on what is formatted: `snprintf` truncates
behind 512 bytes, and line ends in the arguments stay.
-/
namespace LibIrcBot
open CString Effects Relation Outcome Framing IrcServer

variable {w w' : World}

/-- All commands so far were formatted by one of the two functions. -/
def World.Formatted (w : World) : Prop := ∀ c ∈ w.ghost.commands, IsCommand c

namespace World.Formatted

theorem same (h : w.Formatted) (hc : w'.ghost.commands = w.ghost.commands) : w'.Formatted :=
  fun c hmem => h c (hc ▸ hmem)

theorem sendRaw {command : Option Bytes} (h : w.Formatted) (hc : ∀ c ∈ command, IsCommand c)
    (hs : IrcServer.sendRaw command w = .ok w') : w'.Formatted := by
  cases command with
  | none =>
    have hlog : Meets _ _ (IrcServer.sendRaw none w) := sendNext_commands w
    rw [hs] at hlog
    exact h.same hlog
  | some command =>
    have hlog := sendRaw_commands command w
    rw [hs] at hlog
    intro c hmem
    rw [meets_ok.mp hlog,List.mem_append,List.mem_singleton] at hmem
    rcases hmem with hmem | rfl
    · exact h c hmem
    · exact hc _ rfl

theorem effect (h : w.Formatted) (he : Effect w w') : w'.Formatted := by
  cases he with
  | send _ cmd args hcmd _ hs =>
    obtain ⟨name,hname⟩ := Option.isSome_iff_exists.mp hcmd
    rw [sendRawCmd_eq hname] at hs
    refine h.sendRaw (fun c hc => ?_) hs
    rw [← Option.mem_some.mp hc]
    exact .raw cmd name args hname
  | remove self _ =>
    obtain ⟨_,_,he⟩ := remove_shape (w.chans self).name self w
    rw [he]
    exact h
  | _ => exact h

theorem effects (h : w.Formatted) (he : ReflTransGen Effect w w') : w'.Formatted :=
  Effects.invariant (fun _ _ ht hs => effect ht hs) h he

theorem received (h : w.Formatted) (hr : Received w w') : w'.Formatted := by
  cases hr with
  | change hc =>
    cases hc with
    | call hd => exact h.effects hd.effects
    | send _ command hc hs => exact h.sendRaw hc hs
    | addChannel name _ =>
      obtain ⟨_,_,_,_,_,he⟩ := addChannel_shape name w
      rw [he]
      exact h
    | _ => exact h
  | _ => exact h

theorem action (h : w.Formatted) (ha : Action w w') : w'.Formatted := by
  cases ha with
  | change hc => exact h.received (.change hc)
  | receive _ data hw hr => exact Effects.invariant (fun _ _ hu hs => received hu hs) h hr.steps
  | establish conn hc hq hst =>
    rw [connConnected,if_pos hc]
    exact h
  | close t established hc ht =>
    have hf : (hangUp established w).Formatted := h
    have hlast : t.Formatted := hf.effects (hangUp_effects ht)
    exact hlast
  | connect env hc =>
    rcases connect_shape env hc with he | ⟨fd,conns,_,_,he⟩
    · rw [he]
      exact h
    · rw [he]
      exact h
  | _ => exact h

end World.Formatted

theorem World.Reachable.formatted (h : w.Reachable) : w.Formatted := by
  refine World.Reachable.induct (I := World.Formatted) (fun w hi => ?_) (fun _ _ _ hf ha => hf.action ha) h
  intro c hc
  rw [hi.ghost] at hc
  cases hc

/-- What was formatted for the commands so far fits their lines: the arguments of `sendRawCmd`,
and the recipients and the pieces of texts of `IrcServer_sendMsg`. -/
structure World.Fitting (w : World) : Prop where
  raw : ∀ (cmd : IrcCommand) name args, cmd.str = some name → rawCmd name args ∈ w.ghost.commands →
    FitsLine (name ++ SPACE :: args)
  line : ∀ recipient text action, recipient.length ≤ 255 → text.length ≤ maxchunk recipient action →
    msgLine recipient action text ∈ w.ghost.commands → PairFree CR LF recipient ∧ PairFree CR LF text

theorem lines_iff (h : w.Formatted) : (∀ c ∈ w.ghost.commands, IsLine c) ↔ w.Fitting := by
  constructor
  · intro hl
    constructor
    · intro cmd name args _ hmem
      exact (isLine_rawCmd name args).mp (hl _ hmem)
    · intro recipient text action hr ht hmem
      exact (isLine_msgLine hr ht).mp (hl _ hmem)
  · intro hf c hmem
    cases h c hmem with
    | raw cmd name args hname => exact (isLine_rawCmd name args).mpr (hf.raw cmd name args hname hmem)
    | line recipient text action hr ht =>
      exact (isLine_msgLine hr ht).mpr (hf.line recipient text action hr ht hmem)

/-- The strings handed to `sendRaw` in a run are all lines of the protocol exactly if all of
them were formatted from what fits a line; the peer then splits them into exactly these
commands. For one call of `sendRawCmd` or `IrcServer_sendMsg` its arguments decide. -/
theorem commands_lines (h : w.Reachable) :
    ((∀ c ∈ w.ghost.commands, IsLine c) ↔ w.Fitting) ∧
    (w.Fitting → ∃ bodies, w.ghost.commands = bodies.map (· ++ [CR,LF]) ∧
      split CR LF w.ghost.commands.flatten = (bodies,[])) ∧
    (∀ name args, IsLine (rawCmd name args) ↔ FitsLine (name ++ SPACE :: args)) ∧
    (∀ recipient message action, recipient.length ≤ 255 →
      ((∀ line ∈ msgLines recipient message action, IsLine line) ↔ FitsLines recipient message action)) := by
  have hlines := lines_iff h.formatted
  exact ⟨hlines,fun hf => split_lines (hlines.mpr hf),isLine_rawCmd,fun _ _ _ hr => isLine_msgLines hr⟩

/-- After the first data has been received, NICK and USER have been formatted. -/
theorem commands_lines_login : ∃ w : World, w.Reachable ∧ w.Fitting ∧
    w.ghost.commands = [lit "NICK n" ++ [CR,LF],lit "USER u 0 * :r" ++ [CR,LF]] := by
  have hr : (World.after (Label.iteration (.io [] [3]) 1 2
      (.delivering ⟨lit "x\x0d\n",by decide,by decide⟩)) World.connected).Reachable :=
    World.after_reachable World.connected_reachable (by decide +kernel)
  have hlog : (World.after (Label.iteration (.io [] [3]) 1 2
      (.delivering ⟨lit "x\x0d\n",by decide,by decide⟩)) World.connected).ghost.commands =
        [lit "NICK n" ++ [CR,LF],lit "USER u 0 * :r" ++ [CR,LF]] := by decide +kernel
  refine ⟨_,hr,(commands_lines hr).1.mp ?_,hlog⟩
  rw [hlog]
  simp only [List.forall_mem_cons,isLine_append]
  exact ⟨⟨by decide,by decide⟩,⟨by decide,by decide⟩,nofun⟩

/-- A logged in server joins a channel with a name of 510 bytes. -/
def World.overlong : World := after [.join (List.replicate 510 0x61)] loggedIn

/-- A logged in server sends a message of two lines to a channel. -/
def World.injecting : World := after [.sendMsg (lit "#c") (lit "a\x0d\nQUIT :b") false] loggedIn

/-- The command to join is cut off in front of its line end, and the peer takes the one command
of the message for two. -/
theorem commands_unlike_lines :
    (World.overlong.Reachable ∧ World.overlong.ghost.commands = [lit "JOIN " ++ List.replicate 507 0x61] ∧
      ¬ (∀ c ∈ World.overlong.ghost.commands, IsLine c)) ∧
    (World.injecting.Reachable ∧ ¬ (∀ c ∈ World.injecting.ghost.commands, IsLine c) ∧
      World.injecting.ghost.commands.length = 1 ∧
      split CR LF World.injecting.ghost.commands.flatten = ([lit "PRIVMSG #c :a",lit "QUIT :b"],[])) := by
  have hjoin : World.overlong.ghost.commands = [lit "JOIN " ++ List.replicate 507 0x61] := by decide +kernel
  have hmsg : World.injecting.ghost.commands = [lit "PRIVMSG #c :a\x0d\nQUIT :b" ++ [CR,LF]] := by decide +kernel
  refine ⟨⟨World.after_reachable World.loggedIn_reachable (by decide +kernel),hjoin,fun hl => ?_⟩,
    ⟨World.after_reachable World.loggedIn_reachable (by decide +kernel),fun hl => ?_,?_,?_⟩⟩
  · rw [hjoin,List.forall_mem_singleton] at hl
    obtain ⟨_,body,hbody,_⟩ := hl
    have hlast := congrArg List.getLast? hbody
    rw [List.getLast?_append,List.getLast?_append,List.getLast?_replicate] at hlast
    cases hlast
  · rw [hmsg,List.forall_mem_singleton,isLine_append] at hl
    exact absurd hl.2 (by decide)
  · rw [hmsg]
    rfl
  · rw [hmsg]
    decide

end LibIrcBot
