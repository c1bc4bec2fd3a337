import LibIrcBot.Properties.ReceiveFraming

/-! # Fragments of lines

More than 4096 bytes without a line end are thrown away in the middle of their line. What
is left of that line then stands at the start of the receive buffer, where the parser
looks for the next line.
-/
namespace LibIrcBot
open CString Framing Outcome

/-- A message with the number of bytes of the stream in front of the line it was found in. -/
structure Placed where
  start : ℕ
  msg : IrcMessage

namespace IrcMessage

/-- `createAll` with the places of the messages, for a buffer that starts at `base`. -/
def createAllAt (buf : Bytes) (base : ℕ) : ℕ → ℕ → List Placed × ℕ
  | 0, pos => ([],pos)
  | n + 1, pos =>
    let (msg,next) := create buf pos
    if next = pos then (msg.toList.map (Placed.mk (base + pos)),next)
    else
      let (msgs,last) := createAllAt buf base n next
      (msg.toList.map (Placed.mk (base + pos)) ++ msgs,last)

theorem createAllAt_forget (buf : Bytes) (base n pos : ℕ) :
    ((createAllAt buf base n pos).1.map Placed.msg,(createAllAt buf base n pos).2) = createAll buf n pos := by
  induction n generalizing pos with
  | zero => rfl
  | succ n ih =>
    rw [createAllAt,createAll]
    rcases create buf pos with ⟨msg,next⟩
    have ih := ih next
    dsimp only
    split
    · cases msg <;> rfl
    · rw [← ih]
      cases msg <;> simp

end IrcMessage

namespace IrcServer

/-- `feed` with the places of the messages, for a receive buffer that starts at `base`. -/
def feedAt (base : ℕ) (recvbuf data : Bytes) : List Placed × ℕ × Bytes :=
  let buf := recvbuf ++ data
  let (msgs,pos) := IrcMessage.createAllAt buf base (buf.length + 1) 0
  (msgs,base + buf.length - (keepRest buf pos).length,keepRest buf pos)

/-- The messages handed over in a sequence of reads, with their places. -/
def feedsAt : ℕ → Bytes → List Bytes → List Placed
  | _, _, [] => []
  | base, recvbuf, data :: reads =>
    let (msgs,base,recvbuf) := feedAt base recvbuf data
    msgs ++ feedsAt base recvbuf reads

theorem feedsAt_forget (base : ℕ) (recvbuf : Bytes) (reads : List Bytes) :
    (feedsAt base recvbuf reads).map Placed.msg = (feeds recvbuf reads).1 := by
  induction reads generalizing base recvbuf with
  | nil => rfl
  | cons data reads ih =>
    have hall := IrcMessage.createAllAt_forget (recvbuf ++ data) base ((recvbuf ++ data).length + 1) 0
    rw [feedsAt,feeds,feedAt,feed,← hall]
    dsimp only
    rw [List.map_append,ih]

end IrcServer

/-- The bytes in front of a line: none, or some that end with CR LF. -/
def LineStart (pre : Bytes) : Prop := pre = [] ∨ ∃ q, pre = q ++ [CR,LF]

/-- The message is the parse of a complete line of the stream, which stands at its place. -/
def Placed.OfLine (s : Bytes) (p : Placed) : Prop :=
  ∃ pre line suf, s = pre ++ line ++ CR :: LF :: suf ∧ pre.length = p.start ∧ LineStart pre ∧
    PairFree CR LF line ∧ IrcMessage.parse line = some p.msg

/-- The messages of lines that follow each other from a place on. -/
def placeLines : ℕ → List Bytes → List Placed
  | _, [] => []
  | start, line :: lines =>
    (IrcMessage.parse line).toList.map (Placed.mk start) ++ placeLines (start + line.length + 2) lines

theorem placeLines_append (start : ℕ) (xs ys : List Bytes) :
    placeLines start (xs ++ ys) = placeLines start xs ++ placeLines (start + (join CR LF xs).length) ys := by
  induction xs generalizing start with
  | nil => rfl
  | cons line xs ih =>
    rw [List.cons_append,placeLines,placeLines,ih,List.append_assoc,join_cons]
    congr 3
    simp only [List.length_append,List.length_cons]
    omega

/-- The messages in a buffer are those of its lines, at their places. -/
theorem createAllAt_eq {n : ℕ} (base : ℕ) (pre s : Bytes) (hn : s.length < n) :
    (IrcMessage.createAllAt (pre ++ s) base n pre.length).1 = placeLines (base + pre.length) (split CR LF s).1 := by
  induction n generalizing pre s with
  | zero => omega
  | succ n ih =>
    obtain ⟨heq,hlines,hrest⟩ := splits_split (a := CR) (b := LF) s
    rw [IrcMessage.createAllAt]
    cases hl : (split CR LF s).1 with
    | nil =>
      rw [hl,join_nil,List.nil_append] at heq
      have hfree : PairFree CR LF ((pre ++ s).drop pre.length) := by
        rw [List.drop_left,heq]
        exact hrest
      rw [IrcMessage.create_rest hfree]
      simp [placeLines]
    | cons line lines =>
      rw [hl] at hlines
      rw [hl,join_cons,List.append_assoc,List.cons_append,List.cons_append] at heq
      have hline := hlines line List.mem_cons_self
      generalize join CR LF lines ++ (split CR LF s).2 = s' at heq
      subst heq
      have hsplit := split_line cr_ne_lf hline s'
      have ih := ih (pre ++ line ++ [CR,LF]) s' (by simp at hn; omega)
      have hbuf : pre ++ line ++ [CR,LF] ++ s' = pre ++ (line ++ CR :: LF :: s') := by simp
      have hpos : (pre ++ line ++ [CR,LF]).length = pre.length + line.length + 2 := by
        simp only [List.length_append,List.length_cons,List.length_nil]
      rw [hbuf,hpos] at ih
      rw [hsplit] at hl
      rw [IrcMessage.create_line hline]
      dsimp only
      rw [if_neg (by omega),ih,placeLines,IrcMessage.parse_eq hline,(List.cons.inj hl).2,
        show base + (pre.length + line.length + 2) = base + pre.length + line.length + 2 by omega]

/-- The bytes of the reads, cut wherever a read leaves more than 4096 bytes behind the last
line end since the cut before. -/
def overflows : Bytes → List Bytes → List Bytes
  | group, [] => [group]
  | group, data :: reads =>
    if (split CR LF (group ++ data)).2.length > 4096 then (group ++ data) :: overflows [] reads
    else overflows (group ++ data) reads

def placeGroups : ℕ → List Bytes → List Placed
  | _, [] => []
  | start, group :: groups => placeLines start (split CR LF group).1 ++ placeGroups (start + group.length) groups

theorem overflows_flatten (group : Bytes) (reads : List Bytes) :
    (overflows group reads).flatten = group ++ reads.flatten := by
  induction reads generalizing group with
  | nil => simp [overflows]
  | cons data reads ih =>
    rw [overflows]
    split
    · rw [List.flatten_cons,ih]
      simp
    · rw [ih]
      simp

/-- Every part but the last ends with more than 4096 bytes of an open line. -/
theorem overflows_open (group : Bytes) (reads : List Bytes) :
    (overflows group reads).Pairwise fun g _ => (split CR LF g).2.length > 4096 := by
  induction reads generalizing group with
  | nil => exact List.pairwise_singleton _ _
  | cons data reads ih =>
    rw [overflows]
    split
    · next h => exact List.pairwise_cons.mpr ⟨fun _ _ => h,ih []⟩
    · exact ih _

/-- The code hands over the messages in the lines of each part. -/
theorem feedsAt_eq {start base : ℕ} {group recvbuf : Bytes} {lines : List Bytes} (reads : List Bytes)
    (hs : split CR LF group = (lines,recvbuf)) (hb : base = start + (join CR LF lines).length) :
    placeLines start lines ++ IrcServer.feedsAt base recvbuf reads = placeGroups start (overflows group reads) := by
  induction reads generalizing start base group recvbuf lines with
  | nil => rw [overflows,placeGroups,hs,placeGroups,IrcServer.feedsAt]
  | cons data reads ih =>
    have hcut := split_append cr_ne_lf group data
    rw [hs] at hcut
    have heq := (splits_split (a := CR) (b := LF) group).eq
    rw [hs] at heq
    have hlen := congrArg List.length heq
    rw [List.length_append] at hlen
    have hnew := congrArg List.length (splits_split (a := CR) (b := LF) (recvbuf ++ data)).eq
    have hall := createAllAt_eq base [] (recvbuf ++ data) (Nat.lt_succ_self _)
    rw [List.nil_append,List.length_nil,Nat.add_zero] at hall
    have hkeep := congrArg Prod.snd (IrcServer.feed_eq recvbuf data)
    change IrcServer.keepRest (recvbuf ++ data)
      (IrcMessage.createAll (recvbuf ++ data) ((recvbuf ++ data).length + 1) 0).2 = _ at hkeep
    rw [← IrcMessage.createAllAt_forget _ base] at hkeep
    dsimp only at hcut hlen hkeep
    rw [List.length_append,List.length_append] at hnew
    rw [IrcServer.feedsAt,IrcServer.feedAt,overflows]
    dsimp only
    rw [hall,hkeep,hcut,← List.append_assoc,hb,← placeLines_append]
    dsimp only
    by_cases hlong : (split CR LF (recvbuf ++ data)).2.length > 4096
    · rw [if_pos hlong,if_pos hlong,placeGroups,hcut]
      congr 1
      have ih := @ih (start + (group ++ data).length) (start + (group ++ data).length) [] [] [] rfl rfl
      rw [placeLines,List.nil_append] at ih
      rw [← ih]
      congr 1
      simp only [List.length_append,List.length_nil]
      omega
    · rw [if_neg hlong,if_neg hlong]
      refine ih hcut ?_
      simp only [join_append,List.length_append]
      omega

/-- What follows an overflow ends no line, or ends the open line first. -/
def Resumes (group : Bytes) : Prop := PairFree CR LF group ∨ [CR,LF] <+: group

section Places
variable {s pre suf : Bytes} {lines : List Bytes}

theorem lineStart_snoc (pre line : Bytes) : LineStart (pre ++ line ++ [CR,LF]) := Or.inr ⟨pre ++ line,rfl⟩

/-- Behind an open line of two bytes or more no line starts. -/
theorem not_lineStart (h : 2 ≤ (split CR LF s).2.length) : ¬ LineStart (pre ++ s) := by
  have hs := splits_split (a := CR) (b := LF) s
  rintro (he | ⟨q,hq⟩)
  · rw [(List.append_eq_nil_iff.mp he).2] at h
    exact absurd h (by decide)
  · rw [hs.eq,← List.append_assoc] at hq
    have hrest : (split CR LF s).2 <:+ q ++ [CR,LF] := hq ▸ List.suffix_append _ _
    have hend : [CR,LF] <:+ (split CR LF s).2 :=
      List.suffix_of_suffix_length_le (List.suffix_append q [CR,LF]) hrest h
    exact hs.rest hend.isInfix

/-- The place of a message determines the bytes in front of it. -/
theorem Placed.OfLine.lineStart {p : Placed} (h : p.OfLine (pre ++ suf)) (hp : p.start = pre.length) : LineStart pre := by
  obtain ⟨pre',line,suf',hs,hlen,hstart,_⟩ := h
  rw [List.append_assoc] at hs
  obtain rfl : pre = pre' := List.append_inj_left hs (hp ▸ hlen.symm)
  exact hstart

theorem placeLines_ofLine (hs : s = pre ++ join CR LF lines ++ suf) (hfree : ∀ line ∈ lines, PairFree CR LF line) :
    (∀ p ∈ placeLines pre.length lines, p.OfLine s) ↔ ∀ line ∈ lines.head?, line ≠ [] → LineStart pre := by
  induction lines generalizing pre with
  | nil => simp [placeLines]
  | cons line lines ih =>
    have hline := hfree line List.mem_cons_self
    have hs' : s = pre ++ line ++ [CR,LF] ++ join CR LF lines ++ suf := by
      rw [hs,join_cons]
      simp
    have hrest := ih hs' (fun l hl => hfree l (List.mem_cons_of_mem _ hl))
    have hlen : (pre ++ line ++ [CR,LF]).length = pre.length + line.length + 2 := by
      simp only [List.length_append,List.length_cons,List.length_nil]
    rw [hlen] at hrest
    have hparse := IrcMessage.parse_eq hline
    constructor
    · intro h l hl hne
      obtain rfl : line = l := Option.some.inj hl
      rw [if_neg hne] at hparse
      have hof := h ⟨pre.length,IrcMessage.ofLine line⟩ (by rw [placeLines,hparse]; simp)
      rw [hs,List.append_assoc] at hof
      exact hof.lineStart rfl
    · intro h p hp
      rw [placeLines,List.mem_append] at hp
      rcases hp with hp | hp
      · obtain ⟨m,hm,rfl⟩ := List.mem_map.mp hp
        have hsome : IrcMessage.parse line = some m := Option.mem_toList.mp hm
        have hne : line ≠ [] := by
          intro hnil
          rw [hparse,if_pos hnil] at hsome
          cases hsome
        exact ⟨pre,line,join CR LF lines ++ suf,by rw [hs,join_cons]; simp,rfl,h line rfl hne,hline,hsome⟩
      · exact hrest.mpr (fun _ _ _ => lineStart_snoc pre line) p hp

/-- Nothing is handed over from the open line exactly if the first line found is empty or missing. -/
theorem resumes_iff (group : Bytes) : Resumes group ↔ ∀ line ∈ (split CR LF group).1.head?, line = [] := by
  have hs := splits_split (a := CR) (b := LF) group
  generalize split CR LF group = r at hs
  obtain ⟨lines,rest⟩ := r
  have heq := hs.eq
  have hsplit := hs.split_eq cr_ne_lf
  cases lines with
  | nil =>
    simp only [List.head?_nil,Option.not_mem_none,false_implies,implies_true,iff_true]
    exact Or.inl (by rw [heq]; exact hs.rest)
  | cons line lines =>
    simp only [join_cons,List.append_assoc,List.cons_append] at heq
    simp only [List.head?_cons,Option.mem_def,Option.some.injEq,forall_eq']
    constructor
    · rintro (hfree | ⟨t,ht⟩)
      · exact absurd ⟨line,join CR LF lines ++ rest,by rw [heq]; simp⟩ hfree
      · rw [← ht,List.cons_append,List.cons_append,List.nil_append] at hsplit
        have hline := split_line cr_ne_lf (pairFree_nil CR LF) t
        rw [List.nil_append,hsplit] at hline
        exact (List.cons.inj (congrArg Prod.fst hline)).1
    · rintro rfl
      exact Or.inr ⟨join CR LF lines ++ rest,heq.symm⟩

end Places

theorem placeGroups_ofLine {s pre : Bytes} {groups : List Bytes} (hs : s = pre ++ groups.flatten)
    (hopen : groups.Pairwise fun g _ => (split CR LF g).2.length > 4096) :
    (∀ p ∈ placeGroups pre.length groups, p.OfLine s) ↔
      (∀ g ∈ groups.head?, LineStart pre ∨ Resumes g) ∧ ∀ g ∈ groups.tail, Resumes g := by
  induction groups generalizing pre with
  | nil => simp [placeGroups]
  | cons g groups ih =>
    obtain ⟨hg,hopen⟩ := List.pairwise_cons.mp hopen
    have hsplit := splits_split (a := CR) (b := LF) g
    have hs' : s = pre ++ join CR LF (split CR LF g).1 ++ ((split CR LF g).2 ++ groups.flatten) := by
      conv_lhs => rw [hs,List.flatten_cons,hsplit.eq]
      simp
    have hlines := placeLines_ofLine hs' hsplit.lines
    have hrest := @ih (pre ++ g) (by rw [hs]; simp) hopen
    rw [List.length_append] at hrest
    -- Behind an overflow no line starts, so that only the bytes that follow decide.
    have hnext : (∀ h ∈ groups.head?, LineStart (pre ++ g) ∨ Resumes h) ↔ ∀ h ∈ groups.head?, Resumes h := by
      refine forall₂_congr (fun h hh => ⟨fun ho => ho.resolve_left ?_,Or.inr⟩)
      exact not_lineStart (by have := hg h (List.mem_of_mem_head? hh); omega)
    have hfirst : (∀ line ∈ (split CR LF g).1.head?, line ≠ [] → LineStart pre) ↔ LineStart pre ∨ Resumes g := by
      rw [resumes_iff]
      by_cases hp : LineStart pre
      · simp [hp]
      · simp [hp]
    simp only [placeGroups,List.mem_append,or_imp,forall_and,List.head?_cons,Option.mem_def,Option.some.injEq,
      forall_eq',List.tail_cons]
    rw [hlines,hfirst,hrest,hnext]
    cases groups with
    | nil => simp
    | cons g' groups => simp

/-- The messages handed over are those of complete lines exactly if what follows each
overflow ends no line before the next one, or ends the open line first. -/
theorem feedsAt_ofLine (reads : List Bytes) :
    (∀ p ∈ IrcServer.feedsAt 0 [] reads, p.OfLine reads.flatten) ↔ ∀ g ∈ (overflows [] reads).tail, Resumes g := by
  have heq := @feedsAt_eq 0 0 [] [] [] reads rfl rfl
  rw [placeLines,List.nil_append] at heq
  have hplace := @placeGroups_ofLine reads.flatten [] _ (overflows_flatten [] reads).symm
    (overflows_open [] reads)
  rw [List.length_nil] at hplace
  rw [heq,hplace]
  exact and_iff_right (fun _ _ => Or.inl (Or.inl rfl))

namespace IrcServer

/-- From an empty receive buffer on, the messages that reach `handleMessage` stand at known
places of the stream. Each of them is the parse of a complete line exactly if no overflow
is followed by a line end other than that of the open line, up to the next overflow. -/
theorem no_fragment_iff {w : World} {conn : ConnId} (reads : List (Env × Bytes)) (hw : w.Online)
    (hc : w.server.conn = some conn) (hempty : w.server.recvbuf = [])
    (hcut : ∀ read ∈ reads, read.2 ≠ [] ∧ read.2.length ≤ 4096) :
    Meets (fun w' => w'.ghost.handled = w.ghost.handled ++ (feedsAt 0 [] (bytesOf reads)).map Placed.msg)
      (fun e => e.2.ghost.handled <+: w.ghost.handled ++ (feedsAt 0 [] (bytesOf reads)).map Placed.msg ∧
        ∃ env, FromHandling env e) (receive conn reads w) ∧
    ((∀ p ∈ feedsAt 0 [] (bytesOf reads), p.OfLine (bytesOf reads).flatten) ↔
      ∀ g ∈ (overflows [] (bytesOf reads)).tail, Resumes g) := by
  refine ⟨?_,feedsAt_ofLine _⟩
  have hspec := receive_spec hw hc (by simp [hempty]) (fun read hr => (hcut read hr).2)
  rw [hempty] at hspec
  rw [feedsAt_forget]
  exact hspec.mono (fun _ h => h.1) (fun _ h => h)

/-- A stream of short lines in reads that cut them. -/
theorem no_fragment_cutReads : (feedsAt 0 [] (bytesOf cutReads)).length = 1 ∧
    ∀ p ∈ feedsAt 0 [] (bytesOf cutReads), p.OfLine (bytesOf cutReads).flatten := by
  have hc : World.connected.server.conn = some 0 := by decide +kernel
  have h := no_fragment_iff cutReads ⟨by decide +kernel,by decide +kernel⟩ hc (by decide +kernel)
    (by simp [cutReads]; decide)
  refine ⟨by decide,h.2.mpr ?_⟩
  rw [show overflows [] (bytesOf cutReads) = [lit ":a NOTICE x\x0d\n\x0d\nre"] by decide]
  simp

def overlongReads : List (Env × Bytes) :=
  [(Env.failing,List.replicate 4096 0x61),(Env.failing,[0x61]),(Env.failing,lit "QUIT :x\x0d\n")]

/-- The end of the line is handed over as a message. -/
theorem no_fragment_overlong :
    ¬ ∀ p ∈ feedsAt 0 [] (bytesOf overlongReads), p.OfLine (bytesOf overlongReads).flatten := by
  have hfree : ∀ n, PairFree CR LF (List.replicate n 0x61) := by
    intro n h
    have hcr : CR ∈ List.replicate n 0x61 := h.subset List.mem_cons_self
    exact absurd (List.eq_of_mem_replicate hcr) (by decide)
  have hone : List.replicate 4096 (0x61 : UInt8) ++ [0x61] = List.replicate 4097 0x61 := List.replicate_succ'.symm
  have hgroups : overflows [] (bytesOf overlongReads) = [List.replicate 4097 0x61,lit "QUIT :x\x0d\n"] := by
    change overflows [] [List.replicate 4096 0x61,[0x61],lit "QUIT :x\x0d\n"] = _
    rw [overflows,List.nil_append,split_of_pairFree (hfree _),if_neg (by rw [List.length_replicate]; decide),
      overflows,hone,split_of_pairFree (hfree _),if_pos (by rw [List.length_replicate]; decide),overflows,
      if_neg (by decide),overflows]
    rfl
  rw [feedsAt_ofLine,hgroups]
  intro h
  exact absurd (h (lit "QUIT :x\x0d\n") (List.mem_singleton.mpr rfl)) (by unfold Resumes; decide)

end IrcServer
end LibIrcBot
