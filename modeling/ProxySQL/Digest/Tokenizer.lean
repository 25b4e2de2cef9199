/-
  ProxySQL.Digest.Tokenizer

  `mysql_query_digest` and `is_digit_string` (`tokenizer.c`): the query is copied
  into a buffer of `len + 1` bytes, with literals replaced by `?`, comments cut
  out and runs of whitespace collapsed.

  Pointers into the buffer are offsets from its start, and `s` is an offset into
  the query.  Every access is checked: reading the query at or behind `len`,
  writing outside the buffer and moving a pointer below its start all fail.
-/
import ProxySQL.Lib.Block
import ProxySQL.Lib.While

namespace ProxySQL.Digest

open Lib

/-! ## Characters -/

/-- The byte of an ASCII character. -/
def ch (c : Char) : Byte := BitVec.ofNat 8 c.toNat

def quoteChar : Byte := 0x27
def backslashChar : Byte := 0x5c
def tabChar : Byte := 0x09
def newlineChar : Byte := 0x0a
def returnChar : Byte := 0x0d

/-- `c >= lo && c <= hi`. -/
def isBetween (lo hi : Char) (c : Byte) : Bool := (ch lo).toNat ≤ c.toNat && c.toNat ≤ (ch hi).toNat

/-- `is_normal_char`. -/
def isNormalChar (c : Byte) : Bool :=
  isBetween 'a' 'z' c || isBetween 'A' 'Z' c || isBetween '0' '9' c || c == ch '$' || c == ch '_'

/-- `is_token_char`. -/
def isTokenChar (c : Byte) : Bool := !isNormalChar c

/-- `is_space_char`. -/
def isSpaceChar (c : Byte) : Bool :=
  c == ch ' ' || c == tabChar || c == newlineChar || c == returnChar

/-- `is_digit_char`. -/
def isDigitChar (c : Byte) : Bool := isBetween '0' '9' c

/-- `is_hex_char`. -/
def isHexChar (c : Byte) : Bool := isBetween '0' '9' c || isBetween 'a' 'f' c || isBetween 'A' 'F' c

/-- `!is_space_char(c) ? c : ' '`. -/
def spaced (c : Byte) : Byte := if !isSpaceChar c then c else ch ' '

/-! ## Checked accesses -/

/-- `*p = b`. -/
def store (r : List Byte) (p : Nat) (b : Byte) : Option (List Byte) :=
  if p < r.length then some (r.set p b) else none

/-- `p - SIZECHAR`. -/
def stepBack (p : Nat) : Option Nat := if p = 0 then none else some (p - 1)

/-- `*(f - 1)`, which is read for the second byte only. -/
def byteBefore (r : List Byte) (f i : Nat) : Option Byte :=
  if i = 1 then (stepBack f).bind fun p => r[p]? else some 0

/-- The loop of `is_digit_string`, with `n` bytes to go. -/
def isDigitStringLoop (r : List Byte) : (n f i : Nat) → (isHex : Bool) → Option Bool
  | 0, _, _, _ => some true
  | n + 1, f, i, isHex => do
    let c ← r[f]?
    let before ← byteBefore r f i
    if i = 1 ∧ before = ch '0' ∧ (c = ch 'x' ∨ c = ch 'X') then isDigitStringLoop r n (f + 1) (i + 1) true
    else if !isHex && !isDigitChar c then some false
    else if isHex && !isHexChar c then some false
    else isDigitStringLoop r n (f + 1) (i + 1) isHex

/-- `is_digit_string(f, t)`; it would run away from `t < f`. -/
def isDigitString (r : List Byte) (f t : Nat) : Option Bool :=
  if f = t then r[f]?.map isDigitChar
  else if t < f then none
  else isDigitStringLoop r (t - f) f 0 false

/-! ## The loop -/

/-- What `flag` stands for, 0 to 4. -/
inductive Flag where
  | token | comment | hash | quoted | number
  deriving DecidableEq, Repr

/-- The locals of `mysql_query_digest`. -/
structure State where
  i : Nat
  s : Nat
  r : List Byte
  pR : Nat
  pRT : Nat
  prevChar : Byte
  qutrChar : Byte
  flag : Flag
  /-- `break` has been executed -/
  left : Bool
  deriving DecidableEq, Repr

/-- The locals before the loop; `r` is the block as `g_malloc` returns it. -/
def State.start (r : List Byte) : State :=
  { i := 0, s := 0, r := r, pR := 0, pRT := 0, prevChar := 0, qutrChar := 0, flag := .token, left := false }

/-- COPY CHAR, the end of a round. -/
def copyChar (query : List Byte) (st : State) : Option State := do
  let c ← query[st.s]?
  let r ← store st.r st.pR (spaced c)
  some { st with r := r, pR := st.pR + 1, prevChar := c, s := st.s + 1, i := st.i + 1 }

/-- `p_r = p_r_t; *p_r++ = '?'`. -/
def putMark (st : State) : Option State := do
  let r ← store st.r st.pRT (ch '?')
  some { st with r := r, pR := st.pRT + 1 }

/-- START: a round with `flag == 0`. -/
def startToken (query : List Byte) (st : State) : Option State := do
  let st := { st with pRT := st.pR }
  let c ← query[st.s]?
  if st.prevChar = ch '/' ∧ c = ch '*' then copyChar query { st with flag := .comment }
  else if c = ch '#' then copyChar query { st with flag := .hash }
  else if c = quoteChar ∨ c = ch '"' then copyChar query { st with flag := .quoted, qutrChar := c }
  else if isTokenChar st.prevChar ∧ isDigitChar c then
    if query.length = st.i + 1 then some { st with flag := .number }
    else copyChar query { st with flag := .number }
  else if isSpaceChar st.prevChar ∧ isSpaceChar c then
    let r ← store st.r st.pR (ch ' ')
    some { st with flag := .token, prevChar := ch ' ', r := r, s := st.s + 1, i := st.i + 1 }
  else copyChar query { st with flag := .token }

/-- `*s == qutr_char && (len == i+1 || *(s + SIZECHAR) != qutr_char)`, with `c` for `*s`. -/
def closesString (query : List Byte) (st : State) (c : Byte) : Option Bool :=
  if c = st.qutrChar then
    if query.length = st.i + 1 then some true else query[st.s + 1]?.map (· != st.qutrChar)
  else some false

/-- The branch of `flag == 3`. -/
def inQuoted (query : List Byte) (st : State) : Option State := do
  let c ← query[st.s]?
  if query.length = st.i + 1 then
    let st ← putMark st
    some { st with flag := .token, left := true }
  else if st.pR > st.pRT + 1 ∧
      ((st.prevChar = backslashChar ∧ c = backslashChar) ∨ (st.prevChar = backslashChar ∧ c = st.qutrChar) ∨
        (st.prevChar = st.qutrChar ∧ c = st.qutrChar)) then
    some { st with prevChar := ch 'X', s := st.s + 1, i := st.i + 1 }
  else if ← closesString query st c then
    let st ← putMark st
    some { st with flag := .token, s := if st.i < query.length then st.s + 1 else st.s, i := st.i + 1 }
  else copyChar query st

/-- The branch of `flag == 4`. -/
def inNumber (query : List Byte) (st : State) : Option State :=
  if st.pRT = st.pR then do
    let r ← store st.r st.pR (ch '?')
    some { st with r := r, pR := st.pR + 1, i := st.i + 1 }
  else do
    let c ← query[st.s]?
    if isTokenChar c ∨ query.length = st.i + 1 then
      if ← isDigitString st.r st.pRT st.pR then
        let st ← putMark st
        if query.length = st.i + 1 then
          if isTokenChar c then
            let r ← store st.r st.pR c
            some { st with r := r, pR := st.pR + 1, i := st.i + 1 }
          else some { st with i := st.i + 1 }
        else copyChar query { st with flag := .token }
      else copyChar query { st with flag := .token }
    else copyChar query st

/-- PROCESS and FINISH: a round with another flag. -/
def inToken (query : List Byte) (st : State) : Option State := do
  let c ← query[st.s]?
  if (st.flag = .comment ∧ st.prevChar = ch '*' ∧ c = ch '/') ∨
      (st.flag = .hash ∧ (c = newlineChar ∨ c = returnChar)) then
    let p ← if st.flag = .comment then stepBack st.pRT else some st.pRT
    some { st with pR := p, prevChar := ch ' ', flag := .token, s := st.s + 1, i := st.i + 1 }
  else if st.flag = .quoted then inQuoted query st
  else if st.flag = .number then inNumber query st
  else copyChar query st

/-- One round of the loop. -/
def round (query : List Byte) (st : State) : Option State :=
  if st.flag = .token then startToken query st else inToken query st

/-- The loop's condition. -/
def running (query : List Byte) (st : State) : Bool := st.i < query.length && !st.left

/-- `mysql_query_digest`, with the block that `g_malloc` returns and a bound on the rounds: the block at the
    end. -/
def mysqlQueryDigest (query r : List Byte) (rounds : Nat) : Option (List Byte) := do
  let st ← whileLoop (running query) (round query) rounds (State.start r)
  store st.r st.pR 0

end ProxySQL.Digest
