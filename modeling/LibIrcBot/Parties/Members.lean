import LibIrcBot.Parties.Agreement

/-! # The nicks of a channel

The table of nicks of a channel is filled by the lists of names and changed by what the users do. It is never
cleared while the bot has the channel, and the plus of a voiced user stays in front of the nick, so that it is
the set of users only where no nick of an earlier visit is left and nobody is listed as voiced.
-/
namespace LibIrcBot
open CString Transitions

variable {channel : Bytes} {P P' : Parties} {l : Parties.Label}

/-- The bot changes its nicks as the channel changes its users. -/
theorem UserChange.tell_eq_apply {own : Bytes} {users : Finset Bytes} {change : UserChange} (h : change.Possible own users) :
    change.tell users = change.apply users := by
  cases change with
  | rename nick host new => exact if_pos h.1
  | _ => rfl

namespace Parties

/-- Whenever the server puts the bot on the channel, it lists no name with a plus, and the bot will know no nick
that is not on the channel. -/
def Unstale (channel : Bytes) : Label → Parties → Prop
  | .process _ lines, P => P.sent.head? = some (joinCmd channel) → P.member = false →
      (∀ name ∈ lines.flatten, name.1 ≠ some .plus) ∧ ∀ v ∈ P.told channel, v.nicks ⊆ P.users
  | _, _ => True

instance : ∀ (l : Label) (P : Parties), Decidable (Unstale channel l P)
  | .process _ _, _ => inferInstanceAs (Decidable (_ = _ → _ = _ → (∀ _ ∈ _, _ ≠ _) ∧ ∀ _ ∈ _, (_ : Finset Bytes) ⊆ _))
  | .join, _ | .part, _ | .waitjoin _, _ | .waitrejoin _, _ | .deliver _, _ | .kick _ _, _ | .remove _ _, _
  | .change _, _ | .lose _, _ | .login _ _, _ => inferInstanceAs (Decidable True)

theorem map_listed {names : NameLine} (h : ∀ name ∈ names, name.1 ≠ some .plus) : names.map listed = names.map Prod.snd :=
  List.map_congr_left fun name hname => if_neg (h name hname)

theorem Unstale.kept (hP : P.Sound channel) (h : Unstale channel l P) :
    Kept channel (fun users nicks => nicks = users) l P := by
  refine ⟨?_,fun change nicks hc he => ?_⟩
  · rintro host lines rfl hj hm hl
    obtain ⟨hplus,htold⟩ := h hj hm
    have hsub : ((P.told channel).getD ⟨∅,false⟩).nicks ⊆ P.users := by
      cases ht : P.told channel with
      | none => exact Finset.empty_subset _
      | some v => exact htold v ht
    have hown : P.bot.server.nick ∉ P.users := fun hmem => (hP.users _ hmem).2 rfl
    rw [map_listed hplus,hl,Finset.erase_insert hown]
    exact Finset.union_eq_right.mpr hsub
  · rw [he]
    exact change.tell_eq_apply hc

/-- Nothing makes the nicks of a channel stale, and no echo of a part leaves it joined without the server. -/
def Fresh (channel : Bytes) (l : Label) (P : Parties) : Prop := Unstale channel l P ∧ CorrectedBy false channel l P

instance (l : Label) (P : Parties) : Decidable (Fresh channel l P) := inferInstanceAs (Decidable (_ ∧ _))

end Parties
end LibIrcBot
