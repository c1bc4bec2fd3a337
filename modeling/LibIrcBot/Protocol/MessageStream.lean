import LibIrcBot.Protocol.MessageParse

/-! # The messages of a buffer

Successive calls of `IrcMessage_create`, each from the position the one before returned,
find the messages of all terminated lines and stop in front of the unterminated rest.
-/
namespace LibIrcBot.IrcMessage
open CString Framing

/-- The messages of successive calls, with a bound on their number, and the last position. -/
def createAll (buf : Bytes) : ℕ → ℕ → List IrcMessage × ℕ
  | 0, pos => ([],pos)
  | n + 1, pos =>
    let (msg,next) := create buf pos
    if next = pos then (msg.toList,next)
    else
      let (msgs,last) := createAll buf n next
      (msg.toList ++ msgs,last)

theorem scan_bounds {p : ℕ → Bool} {n i j : ℕ} (h : scan p n i = some j) : i ≤ j ∧ j < i + n := by
  induction n generalizing i with
  | zero => cases h
  | succ n ih =>
    rw [scan] at h
    split at h
    · have he := Option.some.inj h
      omega
    · have hb := ih h
      omega

/-- A call either finds no line end and stays where it is, or moves on inside the buffer. -/
theorem create_cases (buf : Bytes) (pos : ℕ) :
    create buf pos = (none,pos) ∨ ∃ msg next, create buf pos = (msg,next) ∧ pos < next ∧ next ≤ buf.length := by
  unfold create
  split
  · exact Or.inl rfl
  · next endpos h =>
    have hb := scan_bounds h
    exact Or.inr ⟨_,_,rfl,by omega,by omega⟩

theorem createAll_eq {n : ℕ} (pre s : Bytes) (hn : s.length < n) :
    createAll (pre ++ s) n pre.length =
      ((split CR LF s).1.filterMap parse,pre.length + s.length - (split CR LF s).2.length) := by
  induction n generalizing pre s with
  | zero => omega
  | succ n ih =>
    obtain ⟨heq,hlines,hrest⟩ := splits_split (a := CR) (b := LF) s
    rw [createAll]
    cases hl : (split CR LF s).1 with
    | nil =>
      rw [hl,join_nil,List.nil_append] at heq
      have hfree : PairFree CR LF ((pre ++ s).drop pre.length) := by
        rw [List.drop_left,heq]
        exact hrest
      rw [create_rest hfree,← heq]
      simp
    | cons line lines =>
      rw [hl] at hlines
      rw [hl,join_cons,List.append_assoc,List.cons_append,List.cons_append] at heq
      have hline := hlines line List.mem_cons_self
      generalize hs' : join CR LF lines ++ (split CR LF s).2 = s' at heq
      subst heq
      have hsplit := split_line cr_ne_lf hline s'
      have ih := ih (pre ++ line ++ [CR,LF]) s' (by simp at hn; omega)
      have hbuf : pre ++ line ++ [CR,LF] ++ s' = pre ++ (line ++ CR :: LF :: s') := by simp
      have hpos : (pre ++ line ++ [CR,LF]).length = pre.length + line.length + 2 := by
        simp only [List.length_append,List.length_cons,List.length_nil]
      rw [hbuf,hpos] at ih
      rw [hsplit] at hl
      rw [create_line hline]
      dsimp only
      rw [if_neg (by omega),ih,hsplit,← parse_eq hline,(List.cons.inj hl).2]
      simp only [List.filterMap_cons,List.length_append,List.length_cons]
      cases parse line <;> simp <;> omega

end LibIrcBot.IrcMessage
