import LibIrcBot.Containers.Strings

/-! # Splitting what was joined

`IBList_fromString` finds the fields of any string. It therefore finds the words again that
`IB_joinstr` put into one string, where that string has an allocation to itself: the number of words is
counted in an `int`, and the size of the allocation in a `size_t`.
-/
namespace LibIrcBot.Strings
open CString Blocks

variable {delim s : Bytes}

def Lists (list : StringList) (words : List Bytes) : Prop :=
  list.size = words.length ∧ ∀ idx, list.itemAt idx = .ok words[idx]?

/-- The split of a string: a list of its fields, or a null result if there is none. Only a lack of
memory keeps it from returning. -/
structure Splits (delim s : Bytes) : Prop where
  returns : s.length < 288230376151711744 → ∃ r, fromString s delim = .ok r
  stops : ∀ failure, fromString s delim = .error failure → failure = .memory
  null : fromString s delim = .ok none → fields delim s = []
  list : ∀ list, fromString s delim = .ok (some list) → fields delim s ≠ [] ∧ Lists list (fields delim s)

theorem Gathers.lists {list : StringList} {words : List Bytes} (h : Gathers (some list) words) : Lists list words := by
  refine ⟨?_,fun idx => ?_⟩
  · rw [IBList.size,h.2.count,List.length_map]
  · rw [h.2.itemAt,List.getElem?_map]
    cases words[idx]? <;> rfl

theorem fromString_fields (hs : NUL ∉ s) (hlen : s.length < PTRDIFF_MAX) (delim : Bytes) :
    (∃ r, fromString s delim = .ok r ∧ Gathers r (fields delim s)) ∨
      (fromString s delim = .error .memory ∧ 288230376151711744 ≤ s.length) := by
  have h := @splitLoop_fields s delim _ [] [] none []
    (Nat.lt_succ_self s.length) hs hlen rfl
  rw [fromString,copystr_ok hlen,allocated_bind]
  simpa using h

theorem fromString_splits (hs : NUL ∉ s) (hlen : s.length < PTRDIFF_MAX) (delim : Bytes) : Splits delim s := by
  rcases fromString_fields hs hlen delim with ⟨r,hr,hg⟩ | ⟨herr,hlarge⟩
  · exact {
      returns := fun _ => ⟨r,hr⟩
      stops := fun failure hf => absurd (hr.symm.trans hf) (by simp)
      null := by
        intro hnone
        obtain rfl : r = none := Except.ok.inj (hr.symm.trans hnone)
        exact hg
      list := by
        intro list hsome
        obtain rfl : r = some list := Except.ok.inj (hr.symm.trans hsome)
        exact ⟨hg.1,hg.lists⟩ }
  · exact {
      returns := fun hsmall => by omega
      stops := fun failure hf => (Except.error.inj (herr.symm.trans hf)).symm
      null := fun hnone => absurd (herr.symm.trans hnone) (by simp)
      list := fun list hsome => absurd (herr.symm.trans hsome) (by simp) }

/-- Words and a delimiter between them: the delimiter consists of bytes of `delims`, and no word holds one. -/
structure Separates (delim delims : CStr) (words : List CStr) : Prop where
  nonempty : words ≠ []
  between : delim.bytes ≠ []
  subset : ∀ c ∈ delim.bytes, c ∈ delims.bytes
  word : ∀ w ∈ words, w.bytes ≠ []
  apart : ∀ w ∈ words, ∀ c ∈ w.bytes, c ∉ delims.bytes

theorem fields_delims {d : Bytes} (hd : ∀ c ∈ d, c ∈ delim) (s : Bytes) : fields delim (d ++ s) = fields delim s := by
  induction d with
  | nil => rfl
  | cons c d ih =>
    obtain ⟨hc,hd⟩ := List.forall_mem_cons.mp hd
    have h := @fields_append delim [] (d ++ s) c (by simp) hc
    simpa [ih hd] using h

/-- The fields of words with delimiters between them are the words. -/
theorem fields_intercalate {d : Bytes} {words : List Bytes} (hd : d ≠ []) (hsub : ∀ c ∈ d, c ∈ delim)
    (hne : ∀ w ∈ words, w ≠ []) (hw : ∀ w ∈ words, ∀ c ∈ w, c ∉ delim) : fields delim (d.intercalate words) = words := by
  induction words with
  | nil => simp [fields]
  | cons w words ih =>
    obtain ⟨hwne,hne⟩ := List.forall_mem_cons.mp hne
    obtain ⟨hww,hw⟩ := List.forall_mem_cons.mp hw
    have hone : [w].filter (· ≠ []) = [w] := by simp [hwne]
    cases words with
    | nil => rw [List.intercalate_singleton,fields_last hww,hone]
    | cons cur words =>
      obtain ⟨c,d',rfl⟩ := List.exists_cons_of_ne_nil hd
      obtain ⟨hc,hsub'⟩ := List.forall_mem_cons.mp hsub
      rw [List.intercalate_cons_cons,List.append_assoc,List.cons_append,fields_append hww hc,hone,
        fields_delims hsub',ih hne hw]
      rfl

theorem nul_not_mem_intercalate {d : Bytes} {words : List Bytes} (hd : NUL ∉ d) (hw : ∀ w ∈ words, NUL ∉ w) :
    NUL ∉ d.intercalate words := by
  cases words with
  | nil => simp
  | cons w words =>
    obtain ⟨hw,hrest⟩ := List.forall_mem_cons.mp hw
    rw [intercalate_tails,tails,List.mem_append,List.mem_flatMap]
    rintro (h | ⟨cur,hcur,h⟩)
    · exact hw h
    · rcases List.mem_append.mp h with h | h
      · exact hd h
      · exact hrest cur hcur h

/-- Joining fills its allocation with a string, and splitting that string gives the words back. Only a lack
of memory keeps it from returning. -/
structure Undoes (delim delims : Bytes) (words : List Bytes) : Prop where
  stops : ∀ failure, joinstr delim words = .error failure → failure = .memory
  joins : ∀ r, joinstr delim words = .ok r → ∃ s, r = some (holding (s ++ [NUL])) ∧ NUL ∉ s ∧
    fromString s delims ≠ .ok none ∧ ∀ list, fromString s delims = .ok (some list) → Lists list words

/-- The words are no more than an `int` counts, and the size of the allocation does not wrap to one that memory
suffices for. -/
def Fits (delim : Bytes) (words : List Bytes) : Prop :=
  words.length ≤ INT_MAX ∧ (sizeT ((delim.intercalate words).length + 1) ≤ PTRDIFF_MAX →
    (delim.intercalate words).length + 1 < 18446744073709551616)

/-- Splitting at `delims` gives back the words that were joined with a delimiter exactly if their number and the
size of the string fit. Every string is split into its fields. -/
theorem joined_splits_iff {delim delims : CStr} {words : List CStr} (h : Separates delim delims words) :
    (Undoes delim.bytes delims.bytes (words.map CStr.bytes) ↔ Fits delim.bytes (words.map CStr.bytes)) ∧
    (words.length ≤ INT_MAX → (delim.bytes.intercalate (words.map CStr.bytes)).length < PTRDIFF_MAX →
      ∃ r, joinstr delim.bytes (words.map CStr.bytes) = .ok r) ∧
    ∀ str delim : CStr, Splits delim.bytes str.bytes := by
  refine ⟨?_,fun hn hroom => ?_,fun str delim => fromString_splits str.nulFree str.object delim.bytes⟩
  · obtain ⟨first,rest,rfl⟩ := List.exists_cons_of_ne_nil h.nonempty
    have hfields := @fields_intercalate delims.bytes _ ((first :: rest).map CStr.bytes) h.between h.subset
      (List.forall_mem_map.mpr h.word) (List.forall_mem_map.mpr h.apart)
    have hnul : NUL ∉ delim.bytes.intercalate ((first :: rest).map CStr.bytes) :=
      nul_not_mem_intercalate delim.nulFree (List.forall_mem_map.mpr fun w _ => w.nulFree)
    rw [List.map_cons] at hfields hnul ⊢
    generalize rest.map CStr.bytes = rest at hfields hnul ⊢
    by_cases hn : (first.bytes :: rest).length ≤ INT_MAX
    case neg =>
      have hover := @joinstr_overflow delim.bytes _ (Nat.not_le.mp hn)
      exact ⟨fun hu => absurd (hu.stops _ hover) (by simp),fun hf => absurd hf.1 hn⟩
    by_cases hmem : sizeT ((delim.bytes.intercalate (first.bytes :: rest)).length + 1) ≤ PTRDIFF_MAX
    case neg =>
      have herr := @joinstr_memory delim.bytes _ _ hn (Nat.not_le.mp hmem)
      refine ⟨fun _ => ⟨hn,fun hle => absurd hle hmem⟩,fun _ => ⟨fun failure hf => ?_,fun r hr => ?_⟩⟩
      · exact (Except.error.inj (herr.symm.trans hf)).symm
      · exact absurd (herr.symm.trans hr) (by simp)
    by_cases hwraps : (delim.bytes.intercalate (first.bytes :: rest)).length + 1 < 18446744073709551616
    case neg =>
      have hfault := @joinstr_wraps delim.bytes _ _ hn (Nat.not_lt.mp hwraps) hmem
      exact ⟨fun hu => absurd (hu.stops _ hfault) (by simp),fun hf => absurd (hf.2 hmem) hwraps⟩
    have hroom : (delim.bytes.intercalate (first.bytes :: rest)).length < PTRDIFF_MAX := by
      rwa [sizeT_of_lt (by simp) hwraps] at hmem
    have hok := @joinstr_ok delim.bytes _ _ hn hroom
    have hsplits := fromString_splits hnul hroom delims.bytes
    refine ⟨fun _ => ⟨hn,fun _ => hwraps⟩,fun _ => ⟨fun failure hf => ?_,fun r hr => ?_⟩⟩
    · exact absurd (hok.symm.trans hf) (by simp)
    · refine ⟨_,(Except.ok.inj (hok.symm.trans hr)).symm,hnul,fun hnone => ?_,fun list hl => ?_⟩
      · exact absurd (hfields.symm.trans (hsplits.null hnone)) (List.cons_ne_nil _ _)
      · have hlist := (hsplits.list list hl).2
        rwa [hfields] at hlist
  · obtain ⟨first,rest,rfl⟩ := List.exists_cons_of_ne_nil h.nonempty
    exact ⟨_,joinstr_ok (by simpa using hn) hroom⟩

def blank : CStr := ⟨[SPACE],by decide,by decide⟩

def letter : CStr := ⟨[0x61],by decide,by decide⟩

theorem separates_letters {n : ℕ} (hn : n ≠ 0) : Separates blank blank (List.replicate n letter) where
  nonempty := by simpa [List.replicate_eq_nil_iff] using hn
  between := List.cons_ne_nil _ _
  subset _ hc := hc
  word w hw := by
    rw [List.eq_of_mem_replicate hw]
    exact List.cons_ne_nil _ _
  apart w hw c hc := by
    rw [List.eq_of_mem_replicate hw] at hc
    obtain rfl : c = 0x61 := List.mem_singleton.mp hc
    exact fun hm => absurd (List.mem_singleton.mp hm) (by decide)

theorem joined_splits_iff_two : (Undoes blank.bytes blank.bytes [letter.bytes,letter.bytes] ↔
      Fits blank.bytes [letter.bytes,letter.bytes]) ∧ ∀ str delim : CStr, Splits delim.bytes str.bytes :=
  have h := joined_splits_iff (@separates_letters 2 (by decide))
  ⟨h.1,h.2.2⟩

/-- More words than an `int` counts. -/
theorem many_words_overflow : Separates blank blank (List.replicate 2147483648 letter) ∧
    ¬ Undoes blank.bytes blank.bytes ((List.replicate 2147483648 letter).map CStr.bytes) := by
  refine ⟨separates_letters (by decide),fun hu => ?_⟩
  have hover : joinstr blank.bytes ((List.replicate 2147483648 letter).map CStr.bytes) = .error .overflow := by
    refine joinstr_overflow ?_
    rw [List.length_map,List.length_replicate]
    decide
  exact absurd (hu.stops _ hover) (by simp)

end LibIrcBot.Strings
