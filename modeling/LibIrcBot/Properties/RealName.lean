import LibIrcBot.System.Runs

/-! # The real name of the login

Without a configured real name the login takes it from a password entry, where an ampersand stands for
the user name with a capital. The capital is written at the position the ampersand had.
-/
namespace LibIrcBot
open CString
namespace IrcServer

def COMMA : UInt8 := 0x2c
def AMPERSAND : UInt8 := 0x26

def fullName (passwd : Passwd) : Bytes := passwd.pw_gecos.takeWhile (· ≠ COMMA)

/-- The real name an entry stands for: its first ampersand is the user name with a capital. -/
def expand (passwd : Passwd) : Bytes :=
  match (fullName passwd).dropWhile (· ≠ AMPERSAND) with
  | [] => (fullName passwd).take (NMBUFSZ - 1)
  | _ :: tail =>
    ((fullName passwd).takeWhile (· ≠ AMPERSAND) ++ passwd.pw_name.modifyHead toupper ++ tail).take (NMBUFSZ - 1)

/-- The ampersand stands in the buffer, and what takes its place starts with the letter to be a capital: the user
name is not empty, or nothing behind it changes in the buffer. -/
def Expands (passwd : Passwd) : Prop :=
  ∀ front tail, fullName passwd = front ++ AMPERSAND :: tail → AMPERSAND ∉ front →
    front.length < NMBUFSZ ∧
      (passwd.pw_name ≠ [] ∨ front.length = NMBUFSZ - 1 ∨ ∀ c ∈ tail.head?, toupper c = c)

theorem takeWhile_ne {x : UInt8} {front : Bytes} (h : x ∉ front) (tail : Bytes) :
    (front ++ x :: tail).takeWhile (· ≠ x) = front := by
  rw [List.takeWhile_append_of_pos (fun y hy => by simpa using fun he : y = x => h (he ▸ hy))]
  simp

theorem dropWhile_ne {x : UInt8} {front : Bytes} (h : x ∉ front) (tail : Bytes) :
    (front ++ x :: tail).dropWhile (· ≠ x) = x :: tail := by
  rw [List.dropWhile_append_of_pos (fun y hy => by simpa using fun he : y = x => h (he ▸ hy))]
  simp

theorem strcspn_singleton (s : Bytes) (x : UInt8) : strcspn s [x] = (s.takeWhile (· ≠ x)).length := by
  rw [strcspn]
  congr 2
  funext y
  simp

/-- Cutting at the first comma leaves what is in front of it. -/
theorem cut_comma (s : Bytes) : s.take (strcspn s (lit ",")) = s.takeWhile (· ≠ COMMA) := by
  rw [show lit "," = [COMMA] by decide,strcspn_singleton]
  exact (List.prefix_iff_eq_take.mp (List.takeWhile_prefix _)).symm

theorem modify_front (front l : Bytes) (f : UInt8 → UInt8) :
    (front ++ l).modify front.length f = front ++ l.modifyHead f := by
  induction front with
  | nil => cases l <;> rfl
  | cons c front ih => rw [List.cons_append,List.length_cons,List.modify_succ_cons,ih,List.cons_append]

section Ampersand
variable {passwd : Passwd} {front tail : Bytes}

/-- The entry without an ampersand is copied. -/
theorem gecosName_plain (h : AMPERSAND ∉ fullName passwd) : gecosName passwd = some ((fullName passwd).take 63) := by
  have hpos : strcspn (fullName passwd) (lit "&") = (fullName passwd).length := by
    rw [show lit "&" = [AMPERSAND] by decide,strcspn_singleton,
      List.takeWhile_eq_self_iff.mpr (fun y hy => by simpa using fun he : y = AMPERSAND => h (he ▸ hy))]
  unfold gecosName
  rw [cut_comma,← fullName]
  dsimp only
  rw [hpos,if_neg (Nat.lt_irrefl _)]
  rfl

/-- The capital is written at the length of what is in front of the ampersand. -/
theorem gecosName_ampersand (hname : fullName passwd = front ++ AMPERSAND :: tail) (hfront : AMPERSAND ∉ front) :
    gecosName passwd = if front.length < NMBUFSZ then
      some ((front ++ (passwd.pw_name ++ tail).modifyHead toupper).take 63) else none := by
  have hpos : strcspn (fullName passwd) (lit "&") = front.length := by
    rw [show lit "&" = [AMPERSAND] by decide,strcspn_singleton,hname,takeWhile_ne hfront]
  unfold gecosName
  rw [cut_comma,← fullName]
  dsimp only
  rw [hpos,hname,if_pos (by simp)]
  have htail : (front ++ AMPERSAND :: tail).drop (front.length + 1) = tail := by
    rw [← List.drop_drop,List.drop_left]
    rfl
  rw [List.take_left,htail,List.append_assoc,snprintf,← List.take_modify,modify_front]
  rfl

theorem expand_plain (h : AMPERSAND ∉ fullName passwd) : expand passwd = (fullName passwd).take 63 := by
  have hdrop : (fullName passwd).dropWhile (· ≠ AMPERSAND) = [] :=
    List.dropWhile_eq_nil_iff.mpr (fun y hy => by simpa using fun he : y = AMPERSAND => h (he ▸ hy))
  rw [expand,hdrop]
  rfl

theorem expand_ampersand (hname : fullName passwd = front ++ AMPERSAND :: tail) (hfront : AMPERSAND ∉ front) :
    expand passwd = (front ++ (passwd.pw_name.modifyHead toupper ++ tail)).take 63 := by
  rw [expand,hname,dropWhile_ne hfront,takeWhile_ne hfront]
  dsimp only
  rw [List.append_assoc]
  rfl

/-- The two names agree if the user name is not empty, or if no capital is seen behind the place of an empty one. -/
theorem capital_iff (name : Bytes) (hfront : front.length < NMBUFSZ) :
    (front ++ (name ++ tail).modifyHead toupper).take 63 = (front ++ (name.modifyHead toupper ++ tail)).take 63 ↔
      name ≠ [] ∨ front.length = NMBUFSZ - 1 ∨ ∀ c ∈ tail.head?, toupper c = c := by
  simp only [NMBUFSZ] at hfront ⊢
  cases name with
  | cons c name => simp
  | nil =>
    rw [List.take_append,List.take_append,List.append_cancel_left_eq,List.modifyHead_nil,List.nil_append]
    cases tail with
    | nil => simp
    | cons c tail =>
      rcases Nat.eq_or_lt_of_le (Nat.le_of_lt_succ hfront) with hlast | hlt
      · simp [hlast]
      · obtain ⟨n,hn⟩ : ∃ n, 63 - front.length = n + 1 := ⟨62 - front.length,by omega⟩
        rw [hn]
        simp [Nat.ne_of_lt hlt]

end Ampersand

theorem gecosName_iff (passwd : Passwd) : gecosName passwd = some (expand passwd) ↔ Expands passwd := by
  by_cases h : AMPERSAND ∈ fullName passwd
  · obtain ⟨front,tail,hname,hfront⟩ := List.eq_append_cons_of_mem h
    have hunique : Expands passwd ↔ front.length < NMBUFSZ ∧
        (passwd.pw_name ≠ [] ∨ front.length = NMBUFSZ - 1 ∨ ∀ c ∈ tail.head?, toupper c = c) := by
      refine ⟨fun he => he front tail hname hfront,fun he front' tail' hname' hfront' => ?_⟩
      have hf : front' = front := by
        rw [← takeWhile_ne hfront' tail',← hname',hname,takeWhile_ne hfront]
      subst hf
      have ht : tail' = tail := by simpa using hname'.symm.trans hname
      rwa [ht]
    rw [gecosName_ampersand hname hfront,expand_ampersand hname hfront,hunique]
    by_cases hlt : front.length < NMBUFSZ
    · rw [if_pos hlt,Option.some_inj,capital_iff _ hlt]
      exact (and_iff_right hlt).symm
    · rw [if_neg hlt]
      simp [hlt]
  · rw [gecosName_plain h,expand_plain h]
    refine ⟨fun _ front tail hname _ => ?_,fun _ => rfl⟩
    exact absurd (by rw [hname]; simp) h

def entry (env : Env) (w : World) : Option Passwd :=
  match w.server.user with
  | some user => (env.getpwnam user).orElse fun _ => env.getpwuid
  | none => (env.getpwuid.orElse fun _ => env.getpwnam (lit "nobody")).orElse fun _ => env.getpwuid

/-- The login fails exactly where the buffer is left, and has the name in the buffer otherwise. -/
theorem loginNames_eq {env : Env} {w : World} {passwd : Passwd} (hname : w.server.realname = none)
    (hentry : entry env w = some passwd) : ∃ user, loginNames env w =
      match gecosName passwd with
      | some realname => .ok (user,realname)
      | none => .error (.outOfBounds,w) := by
  unfold entry at hentry
  unfold loginNames
  rw [hname]
  cases hu : w.server.user with
  | some user =>
    rw [hu] at hentry
    dsimp only at hentry
    refine ⟨user,?_⟩
    simp only [Option.isNone_some,Bool.false_eq_true,if_false,Option.orElse_none]
    cases hg : gecosName passwd <;> simp only [hentry,hg]
  | none =>
    rw [hu] at hentry
    refine ⟨(env.getpwuid.map Passwd.pw_name).getD (lit "nobody"),?_⟩
    simp only [Option.isNone_none,if_true]
    cases hp : env.getpwuid with
    | some entry =>
      rw [hp] at hentry
      obtain rfl : entry = passwd := Option.some.inj hentry
      cases hg : gecosName entry <;> simp only [Option.orElse_some,hg]
    | none =>
      rw [hp] at hentry
      dsimp only at hentry
      cases hg : gecosName passwd <;> simp only [Option.map_none,Option.getD_none,hentry,hg]

/-- The real name of the login is what the entry stands for, with every byte written in the buffer, exactly if
the ampersand stands in the buffer and the letter behind it is to be a capital. -/
theorem realName_iff {env : Env} {w : World} {passwd : Passwd} (hname : w.server.realname = none)
    (hentry : entry env w = some passwd) :
    (∃ user, loginNames env w = .ok (user,expand passwd)) ↔ Expands passwd := by
  obtain ⟨user,hlogin⟩ := loginNames_eq hname hentry
  rw [← gecosName_iff,hlogin]
  cases gecosName passwd <;> simp

end IrcServer

def Env.oneUser (passwd : Passwd) : Env where
  sockErr := false
  sslConnect := .done
  read := .want .wantRead
  write := .want .wantWrite
  socket := none
  getpwuid := some passwd
  getpwnam _ := some passwd
  stackbuf := []

/-- A bot without a real name. -/
def World.nameless : World := World.create (.create (lit "s") (lit "n") (some (lit "u")) none false) []

namespace IrcServer

theorem realName_iff_joe :
    (∃ user, loginNames (.oneUser ⟨lit "joe",lit "& Doe,,"⟩) World.nameless = .ok (user,expand ⟨lit "joe",lit "& Doe,,"⟩)) ↔
      Expands ⟨lit "joe",lit "& Doe,,"⟩ :=
  realName_iff rfl rfl

def lateAmpersand : Passwd := ⟨lit "joe",List.replicate 64 0x61 ++ [AMPERSAND]⟩

theorem lateAmpersand_leaves : loginNames (.oneUser lateAmpersand) World.nameless = .error (.outOfBounds,World.nameless) ∧
    ¬ ∃ user, loginNames (.oneUser lateAmpersand) World.nameless = .ok (user,expand lateAmpersand) := by
  have hname : fullName lateAmpersand = List.replicate 64 0x61 ++ AMPERSAND :: [] := by decide
  have hleft : gecosName lateAmpersand = none := by
    rw [gecosName_ampersand hname (by decide)]
    rfl
  obtain ⟨user,hlogin⟩ := @loginNames_eq (.oneUser lateAmpersand) World.nameless _ rfl rfl
  rw [hleft] at hlogin
  refine ⟨hlogin,?_⟩
  rw [hlogin]
  simp

end IrcServer
end LibIrcBot
