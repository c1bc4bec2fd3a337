import LibIrcBot.Protocol.IrcCommand

/-! # The message parser of `ircmessage.c`

`IrcMessage_create` works on the receive buffer by index. The strings of a message are
C strings: they end at the first NUL of the bytes they were copied from.
-/
namespace LibIrcBot
open CString

structure IrcMessage where
  msgPrefix : Option Bytes
  rawCmd : Bytes
  rawParams : Option Bytes
  params : List Bytes
  command : IrcCommand
deriving DecidableEq, Repr

namespace IrcMessage

/-- A loop over `n` indices from `i` on that stops at the first one that satisfies `p`. -/
def scan (p : ℕ → Bool) : ℕ → ℕ → Option ℕ
  | 0, _ => none
  | n + 1, i => if p i then some i else scan p n (i + 1)

/-- The search for the line end. The buffer is the filled part of `recvbuf`. -/
def findEnd (buf : Bytes) (pos : ℕ) : Option ℕ :=
  scan (fun s => buf[s]? = some CR && buf[s + 1]? = some LF) (buf.length - 1 - pos) pos

/-- The search for the space that ends a word, or for the end of the line. -/
def findSpace (buf : Bytes) (currpos endpos : ℕ) : ℕ :=
  (scan (fun e => buf[e]? = some SPACE) (endpos - currpos) currpos).getD endpos

def slice (buf : Bytes) (a b : ℕ) : Bytes := (buf.drop a).take (b - a)

/-- `strsep (&p, " ")`: the memory with the delimiter overwritten, and the new `p`. -/
def strsep (m : Bytes) (p : ℕ) : Bytes × Option ℕ :=
  let i := p + strcspn (cstr (m.drop p)) [SPACE]
  if m[i]? = some SPACE then (m.set i NUL,some (i + 1)) else (m,none)

def paramLoop : ℕ → Bytes → ℕ → List Bytes × Bytes
  | 0, m, _ => ([],m)
  | n + 1, m, p =>
    if m[p]? = some COLON then ([cstr (m.drop (p + 1))],m)
    else
      let (m,next) := strsep m p
      let param := cstr (m.drop p)
      match next with
      | none => ([param],m)
      | some q =>
        let (params,m) := paramLoop n m q
        (param :: params,m)

def skipSpace (buf : Bytes) (e : ℕ) : ℕ := if buf[e]? = some SPACE then e + 1 else e

def readPrefix (buf : Bytes) (pos endpos : ℕ) : Option Bytes × ℕ :=
  if buf[pos]? = some COLON then
    let currpos := pos + 1
    let e := findSpace buf currpos endpos
    (if e > currpos then some (cstr (slice buf currpos e)) else none,skipSpace buf e)
  else (none,pos)

def readParams (buf : Bytes) (currpos endpos : ℕ) : Option Bytes × List Bytes :=
  if currpos < endpos then
    let copy := slice buf currpos endpos
    let (params,m) := paramLoop (copy.length + 1) (copy ++ [NUL]) 0
    -- The second `memcpy` puts the overwritten delimiters back.
    (some (cstr (copy ++ m.drop copy.length)),params)
  else (none,[])

/-- The part of `IrcMessage_create` behind the search for the line end. -/
def createAt (buf : Bytes) (pos endpos : ℕ) : IrcMessage :=
  let (msgPrefix,currpos) := readPrefix buf pos endpos
  let e := findSpace buf currpos endpos
  let rawCmd := cstr (slice buf currpos e)
  let (rawParams,params) := readParams buf (skipSpace buf e) endpos
  { msgPrefix := msgPrefix
    rawCmd := rawCmd
    rawParams := rawParams
    params := params
    command := IrcCommand.parse rawCmd }

/-- `IrcMessage_create`: the message, if any, and the new position. -/
def create (buf : Bytes) (pos : ℕ) : Option IrcMessage × ℕ :=
  match findEnd buf pos with
  | none => (none,pos)
  | some endpos => (if endpos = pos then none else some (createAt buf pos endpos),endpos + 2)

end IrcMessage
end LibIrcBot
