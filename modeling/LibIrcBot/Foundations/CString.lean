import Mathlib.Data.List.TakeWhile
import Mathlib.Tactic.Common

/-! # Byte strings

A C string is the bytes in front of its terminating NUL. The functions below are those
of the C library that the program uses, on such strings.
-/
namespace LibIrcBot

abbrev Bytes := List UInt8

namespace CString

def lit (s : String) : Bytes := s.toList.map fun c => UInt8.ofNat c.toNat

def NUL : UInt8 := 0
def LF : UInt8 := 0x0a
def CR : UInt8 := 0x0d
def SPACE : UInt8 := 0x20
def COLON : UInt8 := 0x3a

theorem cr_ne_lf : CR ≠ LF := by decide

def cstr (m : Bytes) : Bytes := m.takeWhile (· ≠ NUL)

def strcspn (s reject : Bytes) : ℕ := (s.takeWhile (· ∉ reject)).length

def strncmp (s t : Bytes) (n : ℕ) : Bool := s.take n == t.take n

def snprintf (size : ℕ) (s : Bytes) : Bytes := s.take (size - 1)

/-- `sscanf` with the format `%127[^!]`; `none` when nothing matches, so that nothing is stored. -/
def sscanfNick (s : Bytes) : Option Bytes :=
  match (s.takeWhile (· ≠ 0x21)).take 127 with
  | [] => none
  | nick => some nick

def isdigit (c : UInt8) : Bool := 0x30 ≤ c && c ≤ 0x39

/-- `atoi` on digits. -/
def atoi (s : Bytes) : ℕ := s.foldl (fun n c => 10 * n + (c.toNat - 0x30)) 0

theorem cstr_of_nul_free {m : Bytes} (h : NUL ∉ m) : cstr m = m := by
  rw [cstr,List.takeWhile_eq_self_iff]
  intro b hb
  simpa using fun he : b = NUL => h (he ▸ hb)

theorem cstr_append_nul {m : Bytes} (h : NUL ∉ m) (r : Bytes) : cstr (m ++ NUL :: r) = m := by
  have hm := cstr_of_nul_free h
  rw [cstr] at hm ⊢
  rw [List.takeWhile_append_of_pos (List.takeWhile_eq_self_iff.mp hm)]
  simp

end CString
end LibIrcBot
