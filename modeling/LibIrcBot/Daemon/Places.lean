import LibIrcBot.Daemon.Ownership
import LibIrcBot.Foundations.Outline

/-! # Where the processes of one pidfile can be

The stages of a launch and of a daemon, and which of them processes with the same pidfile are at together while
launches do not overlap each other or the end of a daemon. With each phase goes what holds of the files there. A
part of it, and the meeting of a daemon with a launch that makes a file, depends on whether opening and locking only
fail because of what other processes do: `strict`.
-/
namespace LibIrcBot.Daemon

variable {H : Host} {F F' : PidFiles} {P Q : Process} {p q o i j c : ℕ} {a : Answer} {k l kc : Phase}
  {name : String} {strict : Prop}

inductive Stage where
  | idle
  | look
  | sweep
  | make
  | alone
  | parent
  | child1
  | printing (child : ℕ)
  | child2
  | run
  | done
deriving DecidableEq, Repr

def Phase.stage : Phase → Stage
  | .fopenRead | .getLock _ | .setRead _ | .getLockAgain _ | .scan _ _ | .closeRefused _ => .look
  | .unlinkStale _ | .closeStale _ => .sweep
  | .fopenWrite | .setWrite _ | .closeUnlocked _ => .make
  | .fork1 _ | .setsid _ | .fork2 _ | .chdir _ | .closeMain _ _ | .unlinkMain _ => .alone
  | .closeParent _ => .parent
  | .wait1 _ => .child1
  | .printPid _ child | .writePid _ child | .closePid _ child => .printing child
  | .wait2 _ => .child2
  | .main _ => .run
  | .done _ => .done
  | .relay | .returned _ => .idle

def Phase.Settled (k : Phase) : Prop := k.stage = .idle ∨ k.stage = .run

instance (k : Phase) : Decidable k.Settled := inferInstanceAs (Decidable (_ ∨ _))

/-- The pairs of stages other than `idle`; the second process is given. -/
inductive Pair (strict : Prop) (q : ℕ) : Stage → Stage → Prop where
  | look : Pair strict q .look .run
  | make : ¬ strict → Pair strict q .make .run
  | child1 : Pair strict q .parent .child1
  | child2 : Pair strict q (.printing q) .child2
  | done1 : Pair strict q .parent .done
  | done2 (child : ℕ) : Pair strict q (.printing child) .done

/-- The stages at which two processes with the same pidfile are together. -/
def Beside (strict : Prop) (p : ℕ) (s : Stage) (q : ℕ) (t : Stage) : Prop :=
  s = .idle ∨ t = .idle ∨ Pair strict q s t ∨ Pair strict p t s

theorem Beside.symm {s t : Stage} (h : Beside strict p s q t) : Beside strict q t p s := by
  rcases h with h | h | h | h
  · exact .inr (.inl h)
  · exact .inl h
  · exact .inr (.inr (.inr h))
  · exact .inr (.inr (.inl h))

theorem Beside.idle (t : Stage) : Beside strict p .idle q t := .inl rfl

theorem Beside.alone {t : Stage} (h : Beside strict p .alone q t) : t = .idle := by
  rcases h with h | h | h | h
  · cases h
  · exact h
  · cases h
  · cases h

theorem Beside.sweep {t : Stage} (h : Beside strict p .sweep q t) : t = .idle := by
  rcases h with h | h | h | h
  · cases h
  · exact h
  · cases h
  · cases h

theorem Beside.look {t : Stage} (h : Beside strict p .look q t) : t = .idle ∨ t = .run := by
  rcases h with h | h | h | h
  · cases h
  · exact .inl h
  · cases h
    exact .inr rfl
  · cases h

theorem Beside.make {t : Stage} (h : Beside strict p .make q t) : t = .idle ∨ (¬ strict ∧ t = .run) := by
  rcases h with h | h | h | h
  · cases h
  · exact .inl h
  · cases h with
    | make hs => exact .inr ⟨hs,rfl⟩
  · cases h

theorem Beside.parent {t : Stage} (h : Beside strict p .parent q t) : t = .idle ∨ t = .child1 ∨ t = .done := by
  rcases h with h | h | h | h
  · cases h
  · exact .inl h
  · cases h
    · exact .inr (.inl rfl)
    · exact .inr (.inr rfl)
  · cases h

theorem Beside.child1 {t : Stage} (h : Beside strict p .child1 q t) : t = .idle ∨ t = .parent := by
  rcases h with h | h | h | h
  · cases h
  · exact .inl h
  · cases h
  · cases h
    exact .inr rfl

theorem Beside.printing {t : Stage} (h : Beside strict p (.printing c) q t) :
    t = .idle ∨ (t = .child2 ∧ c = q) ∨ t = .done := by
  rcases h with h | h | h | h
  · cases h
  · exact .inl h
  · cases h
    · exact .inr (.inl ⟨rfl,rfl⟩)
    · exact .inr (.inr rfl)
  · cases h

theorem Beside.child2 {t : Stage} (h : Beside strict p .child2 q t) : t = .idle ∨ t = .printing p := by
  rcases h with h | h | h | h
  · cases h
  · exact .inl h
  · cases h
  · cases h
    exact .inr rfl

theorem Beside.run {t : Stage} (h : Beside strict p .run q t) : t = .idle ∨ t = .look ∨ (¬ strict ∧ t = .make) := by
  rcases h with h | h | h | h
  · cases h
  · exact .inl h
  · cases h
  · cases h with
    | look => exact .inr (.inl rfl)
    | make hs => exact .inr (.inr ⟨hs,rfl⟩)

theorem Beside.done {t : Stage} (h : Beside strict p .done q t) : t = .idle ∨ t = .parent ∨ ∃ c, t = .printing c := by
  rcases h with h | h | h | h
  · cases h
  · exact .inl h
  · cases h
  · cases h with
    | done1 => exact .inr (.inl rfl)
    | done2 c => exact .inr (.inr ⟨c,rfl⟩)

/-- There is a file at the phases behind `openpidfile` if there is a pidfile, and no other phases otherwise. -/
def Phase.fits (pidfile : Option String) : Phase → Prop
  | .fork1 pf | .closeParent pf | .wait1 pf | .setsid pf | .fork2 pf | .printPid pf _ | .writePid pf _ | .closePid pf _
  | .wait2 pf | .chdir pf | .main pf | .closeMain pf _ | .done pf => pf.isSome = pidfile.isSome
  | .relay | .unlinkMain _ | .returned _ => True
  | _ => pidfile.isSome

def Phase.bound : Phase → Option ℕ
  | .getLock i | .setRead i | .getLockAgain i | .scan i _ | .setWrite i => some i
  | .fork1 pf | .closeParent pf | .wait1 pf | .setsid pf | .fork2 pf | .printPid pf _ | .writePid pf _ | .closePid pf _
  | .wait2 pf | .chdir pf | .main pf | .closeMain pf _ | .done pf => pf
  | _ => none

def Phase.Content (F : PidFiles) (p : ℕ) : Phase → Prop
  | .setRead i => ∀ o, o ≠ p → ¬ F.Owns o i
  | .getLockAgain _ => False
  | .scan i owner => F.text i = pidLine owner
  | .setWrite i | .fork1 (some i) | .closeParent (some i) | .wait1 (some i) | .setsid (some i) | .fork2 (some i)
  | .printPid (some i) _ | .writePid (some i) _ => F.text i = []
  | .closePid (some i) child => F.text i = pidLine child
  | .wait2 (some i) => (∀ o, o ≠ p → ¬ F.Owns o i) → F.text i = pidLine p
  | .chdir (some i) | .main (some i) => F.text i = pidLine p
  | _ => True

/-- What holds of the files while a process is at a phase. -/
structure Process.Holds (strict : Prop) (F : PidFiles) (p : ℕ) (P : Process) : Prop where
  fits : P.phase.fits P.pidfile
  bound : ∀ {name i}, P.pidfile = some name → P.phase.bound = some i → F.named name = some i
  content : strict → P.phase.Content F p

def places (strict : Prop) : Outline PidFiles ℕ Process where
  Holds := Process.Holds strict
  Together p P q Q := P.pidfile ≠ none → P.pidfile = Q.pidfile → Beside strict p P.phase.stage q Q.phase.stage
  symm _ _ _ _ h hne he := (h (he ▸ hne) he.symm).symm

theorem Phase.MayOwn.bound (h : k.MayOwn i) : k.bound = some i := by
  rcases h with h | rfl
  · cases k <;> first | exact h | cases h
  · rfl

/-- What holds at a phase stays when the contents and the locks of its file do. -/
theorem Phase.Content.frame (h : k.Content F p) (htext : ∀ {i}, k.bound = some i → F'.text i = F.text i)
    (hread : ∀ {i}, k = .setRead i → ∀ o, o ≠ p → F'.Owns o i → F.Owns o i)
    (hwait : ∀ {i}, k = .wait2 (some i) → (∀ o, o ≠ p → ¬ F'.Owns o i) →
      (∀ o, o ≠ p → ¬ F.Owns o i) ∨ F'.text i = pidLine p) : k.Content F' p := by
  cases k
  case setRead i => exact fun o ho hown => h o ho (hread rfl o ho hown)
  case getLockAgain i => exact h
  case scan i o => exact (htext rfl).trans h
  case setWrite i => exact (htext rfl).trans h
  case wait2 pf =>
    cases pf with
    | none => trivial
    | some i => exact fun hno => (hwait rfl hno).elim (fun hold => (htext rfl).trans (h hold)) id
  case fork1 pf | closeParent pf | wait1 pf | setsid pf | fork2 pf | printPid pf _ | writePid pf _ | closePid pf _
    | chdir pf | main pf =>
    cases pf with
    | none => trivial
    | some i => exact (htext rfl).trans h
  all_goals trivial

end LibIrcBot.Daemon
