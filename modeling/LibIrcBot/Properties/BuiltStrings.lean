import LibIrcBot.Containers.StringBuilder

/-! # What a string builder returns

After any strings the builder returns their concatenation, from a buffer that no byte was written
outside of. A builder that was given no string has no buffer to return.
-/
namespace LibIrcBot.IBStringBuilder
open CString Blocks
open IrcMessage.InMemory (readString readString_holding)

/-- The builder returns the concatenation of the strings, with its NUL within the `capa` bytes allocated. Only a
lack of memory keeps an append from returning. -/
structure Concatenates (strs : List Bytes) : Prop where
  stops : ∀ failure, run strs = .error failure → failure = .memory
  str : ∀ sb, run strs = .ok sb → ∃ buf, sb.str = some buf ∧ readString buf = .ok strs.flatten ∧
    buf.length = sb.capa ∧ strs.flatten.length < sb.capa

theorem readString_starts {buf : Block UInt8} {text : Bytes} (h : Starts buf (text ++ [NUL])) (hs : NUL ∉ text) :
    readString buf = .ok text := by
  obtain ⟨rest,rfl⟩ := h
  induction text with
  | nil => rfl
  | cons c text ih =>
    have hc : c ≠ NUL := fun he => hs (he ▸ List.mem_cons_self)
    have htail := ih (fun hm => hs (List.mem_cons_of_mem _ hm))
    change (if c = NUL then _ else _) = _
    rw [if_neg hc]
    change (readString (holding (text ++ [NUL]) ++ rest) >>= _) = _
    rw [htail,ok_bind]
    rfl

/-- The builder returns the concatenation exactly if something was appended. The appends return as long as a
buffer of the next chunk fits in memory. -/
theorem concatenates_iff (strs : List CStr) :
    (Concatenates (strs.map CStr.bytes) ↔ strs ≠ []) ∧
      ((strs.map CStr.bytes).flatten.length + SBCHUNKSZ ≤ PTRDIFF_MAX → ∃ sb, run (strs.map CStr.bytes) = .ok sb) := by
  have hlen : ∀ s ∈ strs.map CStr.bytes, s.length < PTRDIFF_MAX := List.forall_mem_map.mpr fun s _ => s.object
  have hnul : NUL ∉ (strs.map CStr.bytes).flatten := by
    rw [List.mem_flatten]
    rintro ⟨s,hs,hm⟩
    obtain ⟨str,_,rfl⟩ := List.mem_map.mp hs
    exact str.nulFree hm
  rcases create_holds.appends hlen with ⟨sb,hrun,h,hsome⟩ | ⟨herr,hlarge⟩
  · refine ⟨⟨?_,fun hne => ⟨fun failure hf => ?_,fun sb' hsb => ?_⟩⟩,fun _ => ⟨sb,hrun⟩⟩
    · rintro hc rfl
      obtain ⟨buf,hbuf,_⟩ := hc.str create rfl
      cases hbuf
    · exact absurd (hrun.symm.trans hf) (by simp)
    · obtain rfl : sb = sb' := Except.ok.inj (hrun.symm.trans hsb)
      have hstr := hsome (.inl (by simpa using hne))
      rcases h.buffer with ⟨hnone,_,_⟩ | ⟨buf,hbuf,hstarts,hcapa⟩
      · exact absurd hnone hstr
      · rw [List.nil_append] at hstarts
        have hroom := hstarts.length_le
        rw [List.length_append,List.length_singleton,hcapa] at hroom
        exact ⟨buf,hbuf,readString_starts hstarts hnul,hcapa,hroom⟩
  · rw [List.nil_append] at hlarge
    refine ⟨⟨?_,fun _ => ⟨fun failure hf => ?_,fun sb hsb => ?_⟩⟩,fun hsmall => ?_⟩
    · rintro _ rfl
      cases herr
    · exact (Except.error.inj (herr.symm.trans hf)).symm
    · exact absurd (herr.symm.trans hsb) (by simp)
    · omega

/-- Nothing was appended, and a null pointer is returned. -/
theorem empty_not_concatenates : (run [] = .ok create ∧ create.str = none) ∧ ¬ Concatenates [] := by
  refine ⟨⟨rfl,rfl⟩,fun h => ?_⟩
  obtain ⟨buf,hbuf,_⟩ := h.str create rfl
  cases hbuf

end LibIrcBot.IBStringBuilder
