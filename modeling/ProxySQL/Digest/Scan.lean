/-
  ProxySQL.Digest.Scan

  What `mysql_query_digest` computes, without its buffer: a scanner that reads
  the query character by character and keeps the output as a list.

  The output is in two parts while a comment, a string or a number is being
  read: `base` is what stood there when it began (up to `p_r_t`) and `cur` what
  has been copied since (up to `p_r`).  Closing a comment or replacing a literal
  drops `cur`.

  Every round of the code is a step of the scanner, apart from the one that
  finds a digit at the end of the query and leaves it to the next round.  From
  this the code's accesses are safe, the loop ends, and the string it leaves in
  the buffer is the scanner's output.
-/
import ProxySQL.Digest.Tokenizer
import Mathlib.Data.List.Basic
import Mathlib.Tactic.SplitIfs

namespace ProxySQL.Digest

open Lib List

/-! ## The scanner -/

/-- `is_digit_string` from its `i`-th byte on; `prev` is the byte before. -/
def digitsFrom (i : Nat) (prev : Byte) (isHex : Bool) : List Byte → Bool
  | [] => true
  | c :: w =>
    if i = 1 ∧ prev = ch '0' ∧ (c = ch 'x' ∨ c = ch 'X') then digitsFrom (i + 1) c true w
    else if !isHex && !isDigitChar c then false
    else if isHex && !isHexChar c then false
    else digitsFrom (i + 1) c isHex w

/-- `is_digit_string` of a string that is not empty. -/
def digitString (w : List Byte) : Bool := digitsFrom 0 0 false w

/-- The scanner's states, one for each value of `flag`. -/
inductive Scan where
  | token (prev : Byte) (out : List Byte)
  | comment (prev : Byte) (base cur : List Byte)
  | hash (base cur : List Byte)
  | quoted (q prev : Byte) (base cur : List Byte)
  | number (base cur : List Byte)

namespace Scan

/-- What has been written. -/
def out : Scan → List Byte
  | token _ out => out
  | comment _ base cur => base ++ cur
  | hash base cur => base ++ cur
  | quoted _ _ base cur => base ++ cur
  | number base cur => base ++ cur

/-- An escaped or doubled quote, or an escaped backslash. -/
def Escaped (q prev c : Byte) : Prop :=
  (prev = backslashChar ∧ c = backslashChar) ∨ (prev = backslashChar ∧ c = q) ∨ (prev = q ∧ c = q)

instance (q prev c : Byte) : Decidable (Escaped q prev c) := by
  unfold Escaped
  infer_instance

/-- The state after `c`, when `rest` is still to come. -/
def next (σ : Scan) (c : Byte) (rest : List Byte) : Scan :=
  match σ with
  | token prev out =>
    if prev = ch '/' ∧ c = ch '*' then comment c out [spaced c]
    else if c = ch '#' then hash out [spaced c]
    else if c = quoteChar ∨ c = ch '"' then quoted c c out [spaced c]
    else if isTokenChar prev ∧ isDigitChar c then
      if rest = [] then token c (out ++ [ch '?']) else number out [spaced c]
    else if isSpaceChar prev ∧ isSpaceChar c then token (ch ' ') out
    else token c (out ++ [spaced c])
  | comment prev base cur =>
    if prev = ch '*' ∧ c = ch '/' then token (ch ' ') base.dropLast
    else comment c base (cur ++ [spaced c])
  | hash base cur =>
    if c = newlineChar ∨ c = returnChar then token (ch ' ') base
    else hash base (cur ++ [spaced c])
  | quoted q prev base cur =>
    if rest = [] then token c (base ++ [ch '?'])
    else if cur.length > 1 ∧ Escaped q prev c then quoted q (ch 'X') base cur
    -- `prev_char` keeps what it was inside the string
    else if c = q ∧ rest.head? ≠ some q then token prev (base ++ [ch '?'])
    else quoted q c base (cur ++ [spaced c])
  | number base cur =>
    if isTokenChar c ∨ rest = [] then
      if digitString cur then
        if rest = [] then token c (base ++ ch '?' :: if isTokenChar c then [c] else [])
        else token c (base ++ [ch '?', spaced c])
      else token c (base ++ cur ++ [spaced c])
    else number base (cur ++ [spaced c])

/-- The output after the rest of the query. -/
def scan : Scan → List Byte → List Byte
  | σ, [] => σ.out
  | σ, c :: rest => scan (σ.next c rest) rest

end Scan

/-- The digest of a query. -/
def digest (query : List Byte) : List Byte := Scan.scan (.token 0 []) query

/-! ## Accesses -/

variable {r s : List Byte} {i rounds : Nat} {prev : Byte} {σ : Scan}

theorem take_set_succ {p : Nat} (b : Byte) (h : p < r.length) :
    (r.set p b).take (p + 1) = r.take p ++ [b] := by
  have hlen : p < (r.set p b).length := by rwa [length_set]
  rw [take_succ_eq_append_getElem hlen, getElem_set_self, take_set_of_le (Nat.le_refl p)]

theorem store_of_lt {p : Nat} (b : Byte) (h : p < r.length) : store r p b = some (r.set p b) :=
  if_pos h

theorem isDigitStringLoop_eq {w tail : List Byte} {f : Nat} {isHex : Bool}
    (hr : r.drop f = w ++ tail) (hi : i ≤ f) (hprev : i = 1 → r[f - 1]? = some prev) :
    isDigitStringLoop r w.length f i isHex = some (digitsFrom i prev isHex w) := by
  induction w generalizing f i prev isHex with
  | nil => rfl
  | cons c w ih =>
    have hc : r[f]? = some c := by
      rw [← head?_drop, hr]
      rfl
    have hdrop : r.drop (f + 1) = w ++ tail := by
      rw [← drop_drop, hr]
      rfl
    have hnext : ∀ isHex', isDigitStringLoop r w.length (f + 1) (i + 1) isHex'
        = some (digitsFrom (i + 1) c isHex' w) := fun isHex' =>
      ih hdrop (by omega) fun _ => hc
    by_cases h1 : i = 1
    · have hbefore : byteBefore r f i = some prev := by
        have hf : f ≠ 0 := by omega
        rw [byteBefore, if_pos h1, stepBack, if_neg hf]
        exact hprev h1
      simp only [length_cons, isDigitStringLoop, hc, hbefore, Option.bind_eq_bind,
        Option.bind_some, hnext, digitsFrom]
      split_ifs <;> rfl
    · -- the byte before does not matter
      have hbefore : byteBefore r f i = some 0 := by rw [byteBefore, if_neg h1]
      simp only [length_cons, isDigitStringLoop, hc, hbefore, Option.bind_eq_bind,
        Option.bind_some, hnext, digitsFrom, h1, false_and, if_false]
      split_ifs <;> rfl

theorem isDigitString_eq {base cur : List Byte} {f t : Nat} (hr : r.take t = base ++ cur)
    (hf : f = base.length) (ht : t = base.length + cur.length) (hcur : cur ≠ []) :
    isDigitString r f t = some (digitString cur) := by
  have hpos : 0 < cur.length := length_pos_iff.2 hcur
  have hdrop : r.drop f = cur ++ r.drop t := by
    calc r.drop f = (base ++ cur ++ r.drop t).drop f := by rw [← hr, take_append_drop]
      _ = cur ++ r.drop t := by rw [append_assoc, hf, drop_left]
  rw [isDigitString, if_neg (by omega), if_neg (by omega), show t - f = cur.length by omega]
  exact isDigitStringLoop_eq hdrop (Nat.zero_le _) (by omega)

/-! ## The code follows the scanner -/

/-- The buffer holds `out`, and not more than has been read. -/
structure Holds (query : List Byte) (st : State) (out : List Byte) : Prop where
  size : st.r.length = query.length + 1
  reading : st.s = st.i
  written : st.r.take st.pR = out
  writing : st.pR = out.length
  behind : st.pR ≤ st.i
  inside : st.i ≤ query.length

/-- The other locals, in each of the scanner's states. -/
def Scan.Locals (st : State) : Scan → Prop
  | token prev out => st.flag = .token ∧ st.prevChar = prev ∧ (prev = ch '/' → out ≠ [])
  | comment prev base _ =>
      st.flag = .comment ∧ st.prevChar = prev ∧ st.pRT = base.length ∧ base ≠ []
  | hash base _ => st.flag = .hash ∧ st.pRT = base.length
  | quoted q prev base cur =>
    st.flag = .quoted ∧ st.prevChar = prev ∧ st.qutrChar = q ∧ st.pRT = base.length ∧ cur ≠ []
  | number base cur => st.flag = .number ∧ st.pRT = base.length ∧ cur ≠ []

/-- The code is where the scanner is. -/
structure Represents (query : List Byte) (st : State) (σ : Scan) : Prop where
  holds : Holds query st σ.out
  locals_ : σ.Locals st
  notLeft : st.left = false

/-- The last round has been made: the buffer holds `out`. -/
structure Ended (query : List Byte) (st : State) (out : List Byte) : Prop where
  size : st.r.length = query.length + 1
  written : st.r.take st.pR = out
  fits : st.pR ≤ query.length
  stopped : running query st = false

/-- A digit has been found at the end of the query, and nothing has been written for it. -/
structure LastDigit (query : List Byte) (st : State) (out : List Byte) : Prop where
  holds : Holds query st out
  number : st.flag = .number
  saved : st.pRT = st.pR
  last : query.length = st.i + 1
  notLeft : st.left = false

section
variable {query : List Byte} {st : State} {c : Byte} {rest out base cur : List Byte}

theorem getElem?_of_drop (hq : query.drop i = c :: rest) : query[i]? = some c := by
  rw [← head?_drop, hq]
  rfl

theorem length_of_drop (hq : query.drop i = c :: rest) : query.length = i + 1 + rest.length := by
  have hlen := congrArg List.length hq
  rw [length_drop, length_cons] at hlen
  omega

theorem last_iff (hq : query.drop i = c :: rest) : query.length = i + 1 ↔ rest = [] := by
  rw [length_of_drop hq, ← length_eq_zero_iff]
  omega

theorem getElem?_next (hq : query.drop i = c :: rest) : query[i + 1]? = rest.head? := by
  rw [← head?_drop, ← drop_drop, hq]
  rfl

theorem Holds.lt_size (h : Holds query st out) : st.pR < st.r.length := by
  have h1 := h.size
  have h2 := h.behind
  have h3 := h.inside
  omega

/-- A round that reads a character and leaves `out'` in the buffer. -/
theorem Holds.read (h : Holds query st out) (hq : query.drop st.i = c :: rest) {st' : State}
    (hi : st'.i = st.i + 1) (hs : st'.s = st.s + 1) (hsize : st'.r.length = query.length + 1)
    (hwritten : st'.r.take st'.pR = out') (hwriting : st'.pR = out'.length)
    (hle : st'.pR ≤ st.pR + 1) : Holds query st' out' := by
  have hlen := length_of_drop hq
  have hbehind := h.behind
  exact ⟨hsize, by rw [hs, hi, h.reading], hwritten, hwriting, by omega, by omega⟩

theorem Holds.cut (h : Holds query st (base ++ cur)) {n : Nat} (hn : n ≤ base.length) :
    st.r.take n = base.take n := by
  have hlen : st.pR = base.length + cur.length := by rw [h.writing, length_append]
  have htake := congrArg (List.take n) h.written
  rwa [take_take, Nat.min_eq_left (by omega), take_append_of_le_length hn] at htake

theorem Holds.copyChar (h : Holds query st out) (hq : query.drop st.i = c :: rest) :
    ∃ r, Digest.copyChar query st =
        some { st with r := r, pR := st.pR + 1, prevChar := c, s := st.s + 1, i := st.i + 1 } ∧
      Holds query { st with r := r, pR := st.pR + 1, prevChar := c, s := st.s + 1, i := st.i + 1 }
        (out ++ [spaced c]) := by
  have hc := getElem?_of_drop hq
  rw [← h.reading] at hc
  refine ⟨st.r.set st.pR (spaced c), ?_, ?_⟩
  · simp only [Digest.copyChar, hc, store_of_lt _ h.lt_size, Option.bind_eq_bind, Option.bind_some]
  · refine h.read hq rfl rfl ?_ ?_ ?_ (Nat.le_refl _)
    · rw [length_set, h.size]
    · rw [take_set_succ _ h.lt_size, h.written]
    · rw [length_append, h.writing, length_singleton]

/-- `p_r = p_r_t; *p_r++ = '?'` replaces what has been copied since. -/
theorem Holds.putMark (h : Holds query st (base ++ cur)) (hpRT : st.pRT = base.length) :
    ∃ r, Digest.putMark st = some { st with r := r, pR := base.length + 1 } ∧
      r.length = query.length + 1 ∧ r.take (base.length + 1) = base ++ [ch '?'] := by
  have hsize := h.lt_size
  have hlen : st.pR = base.length + cur.length := by rw [h.writing, length_append]
  have hlt : st.pRT < st.r.length := by omega
  refine ⟨st.r.set st.pRT (ch '?'), ?_, ?_, ?_⟩
  · simp only [Digest.putMark, store_of_lt _ hlt, Option.bind_eq_bind, Option.bind_some]
    rw [hpRT]
  · rw [length_set, h.size]
  · rw [hpRT] at hlt ⊢
    rw [take_set_succ _ hlt, h.cut (Nat.le_refl _), take_length]

theorem Holds.withFlag (h : Holds query st out) (p : Nat) (f : Flag) (q : Byte) :
    Holds query { st with pRT := p, flag := f, qutrChar := q } out :=
  ⟨h.size, h.reading, h.written, h.writing, h.behind, h.inside⟩

/-- What one round makes of the state, when the scanner goes to `σ'`. -/
inductive Advances (query : List Byte) (st st' : State) (σ' : Scan) : Prop
  | on (h : Represents query st' σ') (hi : st'.i = st.i + 1)
  | last (h : Ended query st' σ'.out) (hlast : query.length = st.i + 1)
  | digit (out : List Byte) (h : LastDigit query st' out) (hout : σ'.out = out ++ [ch '?'])
      (hi : st'.i = st.i) (hflag : st.flag = .token)

/-- The round copies the character, whatever it keeps of the token's start. -/
theorem Represents.copied (h : Represents query st σ) (hq : query.drop st.i = c :: rest) {p : Nat}
    {f : Flag} {q : Byte} (hout : σ'.out = σ.out ++ [spaced c])
    (hlocals : ∀ r, σ'.Locals { st with
      pRT := p, flag := f, qutrChar := q, r := r, pR := st.pR + 1, prevChar := c, s := st.s + 1,
        i := st.i + 1 }) :
    ∃ st', Digest.copyChar query { st with pRT := p, flag := f, qutrChar := q } = some st' ∧
      Advances query st st' σ' := by
  obtain ⟨r, hcopy, hholds⟩ := (h.holds.withFlag p f q).copyChar hq
  exact ⟨_, hcopy, .on ⟨hout ▸ hholds, hlocals r, h.notLeft⟩ rfl⟩

theorem Represents.startToken (h : Represents query st (.token prev out))
    (hq : query.drop st.i = c :: rest) :
    ∃ st', Digest.startToken query st = some st' ∧
    Advances query st st' (Scan.next (.token prev out) c rest) := by
  obtain ⟨hflag, rfl, hne⟩ := h.locals_
  have hc := getElem?_of_drop hq
  rw [← h.holds.reading] at hc
  simp only [Digest.startToken, hc, Option.bind_eq_bind, Option.bind_some, Scan.next]
  by_cases hcomment : st.prevChar = ch '/' ∧ c = ch '*'
  · rw [if_pos hcomment, if_pos hcomment]
    exact h.copied hq rfl fun _ => ⟨rfl, rfl, h.holds.writing, hne hcomment.1⟩
  rw [if_neg hcomment, if_neg hcomment]
  by_cases hhash : c = ch '#'
  · rw [if_pos hhash, if_pos hhash]
    exact h.copied hq rfl fun _ => ⟨rfl, h.holds.writing⟩
  rw [if_neg hhash, if_neg hhash]
  by_cases hquote : c = quoteChar ∨ c = ch '"'
  · rw [if_pos hquote, if_pos hquote]
    exact h.copied hq rfl fun _ => ⟨rfl, rfl, rfl, h.holds.writing, cons_ne_nil _ _⟩
  rw [if_neg hquote, if_neg hquote]
  by_cases hdigit : isTokenChar st.prevChar = true ∧ isDigitChar c = true
  · rw [if_pos hdigit, if_pos hdigit]
    by_cases hlast : rest = []
    · rw [if_pos ((last_iff hq).2 hlast), if_pos hlast]
      exact ⟨_, rfl, .digit out ⟨h.holds.withFlag st.pR .number st.qutrChar, rfl, rfl,
        (last_iff hq).2 hlast, h.notLeft⟩ rfl rfl hflag⟩
    · rw [if_neg (mt (last_iff hq).1 hlast), if_neg hlast]
      exact h.copied hq rfl fun _ => ⟨rfl, h.holds.writing, cons_ne_nil _ _⟩
  rw [if_neg hdigit, if_neg hdigit]
  by_cases hspace : isSpaceChar st.prevChar = true ∧ isSpaceChar c = true
  · rw [if_pos hspace, if_pos hspace, store_of_lt _ h.holds.lt_size, Option.bind_some]
    -- the space is written behind the output, which ends before it
    refine ⟨_, rfl, .on ⟨h.holds.read hq rfl rfl ?_ ?_ h.holds.writing (Nat.le_succ _),
      ⟨rfl, rfl, fun heq => absurd heq (by decide)⟩, h.notLeft⟩ rfl⟩
    · rw [length_set, h.holds.size]
    · rw [take_set_of_le (Nat.le_refl _)]
      exact h.holds.written
  rw [if_neg hspace, if_neg hspace]
  exact h.copied hq rfl fun _ =>
    ⟨rfl, rfl, fun _ => append_ne_nil_of_right_ne_nil _ (cons_ne_nil _ _)⟩

theorem Represents.inComment (h : Represents query st (.comment prev base cur))
    (hq : query.drop st.i = c :: rest) :
    ∃ st', inToken query st = some st' ∧
    Advances query st st' (Scan.next (.comment prev base cur) c rest) := by
  obtain ⟨hflag, hprev, hpRT, hne⟩ := h.locals_
  have hc := getElem?_of_drop hq
  rw [← h.holds.reading] at hc
  simp only [inToken, hc, hflag, hprev, Option.bind_eq_bind, Option.bind_some, Scan.next, true_and,
    reduceCtorEq, false_and, or_false, if_true, if_false]
  by_cases hclose : prev = ch '*' ∧ c = ch '/'
  · have hpos : 0 < base.length := length_pos_iff.2 hne
    have hlen : st.pR = base.length + cur.length := by rw [h.holds.writing, Scan.out, length_append]
    rw [if_pos hclose, if_pos hclose, stepBack, if_neg (by omega), Option.bind_some]
    refine ⟨_, rfl, .on ⟨h.holds.read hq rfl rfl h.holds.size ?_ ?_ ?_,
      ⟨rfl, rfl, fun heq => absurd heq (by decide)⟩, h.notLeft⟩ rfl⟩
    · show st.r.take (st.pRT - 1) = base.dropLast
      rw [hpRT, h.holds.cut (Nat.sub_le _ _), dropLast_eq_take]
    · show st.pRT - 1 = base.dropLast.length
      rw [hpRT, length_dropLast]
    · show st.pRT - 1 ≤ st.pR + 1
      omega
  · rw [if_neg hclose, if_neg hclose]
    exact h.copied hq (append_assoc ..).symm fun _ => ⟨hflag, rfl, hpRT, hne⟩

theorem Represents.inHash (h : Represents query st (.hash base cur))
    (hq : query.drop st.i = c :: rest) :
    ∃ st', inToken query st = some st' ∧
    Advances query st st' (Scan.next (.hash base cur) c rest) := by
  obtain ⟨hflag, hpRT⟩ := h.locals_
  have hc := getElem?_of_drop hq
  rw [← h.holds.reading] at hc
  simp only [inToken, hc, hflag, Option.bind_eq_bind, Option.bind_some, Scan.next, true_and,
    reduceCtorEq, false_and, false_or, if_false]
  by_cases hclose : c = newlineChar ∨ c = returnChar
  · have hlen : st.pR = base.length + cur.length := by rw [h.holds.writing, Scan.out, length_append]
    rw [if_pos hclose, if_pos hclose]
    refine ⟨_, rfl, .on ⟨h.holds.read hq rfl rfl h.holds.size ?_ hpRT ?_,
      ⟨rfl, rfl, fun heq => absurd heq (by decide)⟩, h.notLeft⟩ rfl⟩
    · show st.r.take st.pRT = base
      rw [hpRT, h.holds.cut (Nat.le_refl _), take_length]
    · show st.pRT ≤ st.pR + 1
      omega
  · rw [if_neg hclose, if_neg hclose]
    exact h.copied hq (append_assoc ..).symm fun _ => ⟨hflag, hpRT⟩

theorem Holds.ended (h : Holds query st (base ++ cur)) (hlast : query.length = st.i + 1)
    {st' : State} (hr : r.length = query.length + 1)
    (htake : r.take (base.length + 1) = base ++ [ch '?'])
    (hst' : st'.r = r ∧ st'.pR = base.length + 1) (hstop : running query st' = false) :
    Ended query st' (base ++ [ch '?']) := by
  obtain ⟨rfl, hpR⟩ := hst'
  have hlen : st.pR = base.length + cur.length := by rw [h.writing, length_append]
  have hbehind := h.behind
  exact ⟨hr, by rw [hpR, htake], by omega, hstop⟩

theorem Represents.inQuoted {q : Byte} (h : Represents query st (.quoted q prev base cur))
    (hq : query.drop st.i = c :: rest) :
    ∃ st', Digest.inQuoted query st = some st' ∧
      Advances query st st' (Scan.next (.quoted q prev base cur) c rest) := by
  obtain ⟨hflag, rfl, rfl, hpRT, hne⟩ := h.locals_
  have hc := getElem?_of_drop hq
  have hnext := getElem?_next hq
  rw [← h.holds.reading] at hc hnext
  have hlen : st.pR = base.length + cur.length := by rw [h.holds.writing, Scan.out, length_append]
  have hbehind := h.holds.behind
  have hquery := length_of_drop hq
  have hholds : Holds query st (base ++ cur) := h.holds
  obtain ⟨r, hmark, hr, htake⟩ := hholds.putMark hpRT
  simp only [Digest.inQuoted, hc, Option.bind_eq_bind, Option.bind_some, Scan.next]
  by_cases hlast : rest = []
  · rw [if_pos ((last_iff hq).2 hlast), if_pos hlast, hmark, Option.bind_some]
    refine ⟨_, rfl, .last (h.holds.ended ((last_iff hq).2 hlast) hr htake ⟨rfl, rfl⟩ ?_)
      ((last_iff hq).2 hlast)⟩
    exact Bool.and_false _
  have hnotLast := mt (last_iff hq).1 hlast
  rw [if_neg hnotLast, if_neg hlast]
  have hescape : (st.pR > st.pRT + 1 ∧
      ((st.prevChar = backslashChar ∧ c = backslashChar) ∨
        (st.prevChar = backslashChar ∧ c = st.qutrChar) ∨
        (st.prevChar = st.qutrChar ∧ c = st.qutrChar))) ↔
      (cur.length > 1 ∧ Scan.Escaped st.qutrChar st.prevChar c) := by
    refine and_congr_left' ?_
    omega
  by_cases hskip : cur.length > 1 ∧ Scan.Escaped st.qutrChar st.prevChar c
  · rw [if_pos (hescape.2 hskip), if_pos hskip]
    exact ⟨_, rfl, .on ⟨h.holds.read hq rfl rfl h.holds.size h.holds.written h.holds.writing
      (Nat.le_succ _), ⟨hflag, rfl, rfl, hpRT, hne⟩, h.notLeft⟩ rfl⟩
  rw [if_neg (mt hescape.1 hskip), if_neg hskip]
  have hcloses : closesString query st c =
    some (decide (c = st.qutrChar ∧ rest.head? ≠ some st.qutrChar)) := by
    obtain ⟨d, ds, rfl⟩ := exists_cons_of_ne_nil hlast
    rw [closesString, if_neg hnotLast, hnext]
    by_cases heq : c = st.qutrChar
    · by_cases hd : d = st.qutrChar
      · simp [heq, hd]
      · simp [heq, hd]
    · simp [heq]
  rw [hcloses, Option.bind_some]
  by_cases hclose : c = st.qutrChar ∧ rest.head? ≠ some st.qutrChar
  · have hi : st.i < query.length := by omega
    rw [if_pos (decide_eq_true hclose), if_pos hclose, hmark, Option.bind_some]
    refine ⟨_, rfl, .on ⟨h.holds.read hq rfl (if_pos hi) hr htake ?_ ?_, ⟨rfl, rfl, fun _ => ?_⟩,
      h.notLeft⟩ rfl⟩
    · rw [Scan.out, length_append, length_singleton]
    · show base.length + 1 ≤ st.pR + 1
      omega
    · exact append_ne_nil_of_right_ne_nil _ (cons_ne_nil _ _)
  · rw [if_neg (by rwa [decide_eq_true_iff]), if_neg hclose]
    exact h.copied hq (append_assoc ..).symm fun _ =>
      ⟨hflag, rfl, rfl, hpRT, append_ne_nil_of_left_ne_nil hne _⟩

theorem Represents.inNumber (h : Represents query st (.number base cur))
    (hq : query.drop st.i = c :: rest) :
    ∃ st', Digest.inNumber query st = some st' ∧
    Advances query st st' (Scan.next (.number base cur) c rest) := by
  obtain ⟨hflag, hpRT, hne⟩ := h.locals_
  have hc := getElem?_of_drop hq
  rw [← h.holds.reading] at hc
  have hpos : 0 < cur.length := length_pos_iff.2 hne
  have hlen : st.pR = base.length + cur.length := by rw [h.holds.writing, Scan.out, length_append]
  have hbehind := h.holds.behind
  have hholds : Holds query st (base ++ cur) := h.holds
  obtain ⟨r, hmark, hr, htake⟩ := hholds.putMark hpRT
  have hdigits : isDigitString st.r st.pRT st.pR = some (digitString cur) :=
    isDigitString_eq h.holds.written hpRT hlen hne
  rw [Digest.inNumber, if_neg (by omega)]
  simp only [hc, hdigits, Option.bind_eq_bind, Option.bind_some, Scan.next]
  by_cases hend : isTokenChar c = true ∨ rest = []
  · have hend' : isTokenChar c = true ∨ query.length = st.i + 1 := hend.imp_right (last_iff hq).2
    rw [if_pos hend', if_pos hend]
    cases hdig : digitString cur with
    | false =>
      exact h.copied hq rfl fun _ =>
        ⟨rfl, rfl, fun _ => append_ne_nil_of_right_ne_nil _ (cons_ne_nil _ _)⟩
    | true =>
      rw [if_pos rfl, if_pos rfl, hmark, Option.bind_some]
      by_cases hlast : rest = []
      · have hi := (last_iff hq).2 hlast
        have hstop : ∀ r' pR', running query { st with r := r', pR := pR', i := st.i + 1 } =
          false := by
          intro r' pR'
          simp [running, hi]
        rw [if_pos hi, if_pos hlast]
        cases htoken : isTokenChar c with
        | false =>
          exact ⟨_, rfl, .last (h.holds.ended hi hr htake ⟨rfl, rfl⟩ (hstop _ _)) hi⟩
        | true =>
          have hlt : base.length + 1 < r.length := by omega
          rw [if_pos rfl, if_pos rfl, store_of_lt _ hlt, Option.bind_some]
          refine ⟨_, rfl, .last ⟨?_, ?_, ?_, hstop _ _⟩ hi⟩
          · rw [length_set, hr]
          · rw [take_set_succ _ hlt, htake, append_assoc]
            rfl
          · show base.length + 1 + 1 ≤ query.length
            omega
      · have hmarked : Holds query { st with r := r, pR := base.length + 1, flag := .token }
          (base ++ [ch '?']) :=
          ⟨hr, h.holds.reading, htake, by rw [length_append, length_singleton],
            by show base.length + 1 ≤ st.i; omega, h.holds.inside⟩
        obtain ⟨r', hcopy, hholds⟩ := hmarked.copyChar hq
        rw [if_neg (mt (last_iff hq).1 hlast), if_neg hlast]
        rw [append_assoc] at hholds
        exact ⟨_, hcopy, .on ⟨hholds, ⟨rfl, rfl, fun _ =>
          append_ne_nil_of_right_ne_nil _ (cons_ne_nil _ _)⟩, h.notLeft⟩ rfl⟩
  · have hend' : ¬ (isTokenChar c = true ∨ query.length = st.i + 1) :=
      mt (Or.imp_right (last_iff hq).1) hend
    rw [if_neg hend', if_neg hend]
    exact h.copied hq (append_assoc ..).symm fun _ =>
      ⟨hflag, hpRT, append_ne_nil_of_left_ne_nil hne _⟩

/-- Every round is a step of the scanner. -/
theorem Represents.round (h : Represents query st σ) (hq : query.drop st.i = c :: rest) :
    ∃ st', Digest.round query st = some st' ∧ Advances query st st' (σ.next c rest) := by
  have hc := getElem?_of_drop hq
  rw [← h.holds.reading] at hc
  cases σ with
  | token prev out =>
    rw [Digest.round, if_pos h.locals_.1]
    exact h.startToken hq
  | comment prev base cur =>
    rw [Digest.round, if_neg (by rw [h.locals_.1]; decide)]
    exact h.inComment hq
  | hash base cur =>
    rw [Digest.round, if_neg (by rw [h.locals_.1]; decide)]
    exact h.inHash hq
  | quoted q prev base cur =>
    have hin : inToken query st = Digest.inQuoted query st := by
      simp only [inToken, hc, h.locals_.1, Option.bind_eq_bind, Option.bind_some, reduceCtorEq,
        false_and, or_self, if_false, if_true]
    rw [Digest.round, if_neg (by rw [h.locals_.1]; decide), hin]
    exact h.inQuoted hq
  | number base cur =>
    have hin : inToken query st = Digest.inNumber query st := by
      simp only [inToken, hc, h.locals_.1, Option.bind_eq_bind, Option.bind_some, reduceCtorEq,
        false_and, or_self, if_false, if_true]
    rw [Digest.round, if_neg (by rw [h.locals_.1]; decide), hin]
    exact h.inNumber hq

/-! ## The whole loop -/

/-- What holds before every round and after the last one. -/
inductive LoopInv (query : List Byte) (st : State) : Prop
  | scanning (σ : Scan) (h : Represents query st σ) (hscan : σ.scan (query.drop st.i) =
      digest query)
  | lastDigit (out : List Byte) (h : LastDigit query st out) (hout : out ++ [ch '?'] = digest query)
  | ended (h : Ended query st (digest query))

/-- Two rounds for each character that is left, less one if the first of them has been made. -/
def roundsLeft (query : List Byte) (st : State) : Nat :=
  if running query st then 2 * (query.length - st.i) + (if st.flag = .token then 1 else 0) else 0

theorem roundsLeft_le (query : List Byte) (st : State) :
    roundsLeft query st ≤ 2 * (query.length - st.i) + 1 := by
  unfold roundsLeft
  split_ifs <;> omega

theorem roundsLeft_stopped (h : running query st = false) : roundsLeft query st = 0 := by
  rw [roundsLeft, h, if_neg Bool.false_ne_true]

theorem roundsLeft_running (h : running query st = true) :
    roundsLeft query st = 2 * (query.length - st.i) + (if st.flag = .token then 1 else 0) := by
  rw [roundsLeft, if_pos h]

theorem running_iff : running query st = true ↔ st.i < query.length ∧ st.left = false := by
  rw [running, Bool.and_eq_true, decide_eq_true_iff, Bool.not_eq_true']

/-- The round that the digit at the end of the query was left to. -/
theorem LastDigit.round (h : LastDigit query st out) :
    ∃ st', Digest.round query st = some st' ∧ Ended query st' (out ++ [ch '?']) := by
  have hlast := h.last
  have hbehind := h.holds.behind
  have hsize := h.holds.lt_size
  have hs : st.s < query.length := by
    rw [h.holds.reading]
    omega
  have hflag : ¬ st.flag = .token := by
    rw [h.number]
    decide
  refine ⟨{ st with r := st.r.set st.pR (ch '?'), pR := st.pR + 1, i := st.i + 1 }, ?_, ?_⟩
  · rw [Digest.round, if_neg hflag]
    simp only [inToken, h.number, getElem?_eq_getElem hs, Option.bind_eq_bind, Option.bind_some,
      reduceCtorEq, false_and, or_self, if_false, if_true, inNumber, h.saved, store_of_lt _ hsize]
  · refine ⟨?_, ?_, ?_, ?_⟩
    · rw [length_set, h.holds.size]
    · rw [take_set_succ _ hsize, h.holds.written]
    · show st.pR + 1 ≤ query.length
      omega
    · rw [Bool.eq_false_iff, Ne, running_iff]
      rintro ⟨hlt, -⟩
      have hlt' : st.i + 1 < query.length := hlt
      omega

theorem LoopInv.round (h : LoopInv query st) (hrun : running query st = true) :
    ∃ st', Digest.round query st = some st' ∧ LoopInv query st' ∧
    roundsLeft query st' < roundsLeft query st := by
  obtain ⟨hi, -⟩ := running_iff.1 hrun
  have hpos : 0 < roundsLeft query st := by
    rw [roundsLeft_running hrun]
    omega
  cases h with
  | scanning σ h hscan =>
    obtain ⟨c, rest, hq⟩ := exists_cons_of_ne_nil (l := query.drop st.i) (by
      rw [Ne, drop_eq_nil_iff]
      omega)
    obtain ⟨st', hround, hadv⟩ := h.round hq
    rw [hq] at hscan
    refine ⟨st', hround, ?_⟩
    cases hadv with
    | on h' hi' =>
      have hrest : query.drop st'.i = rest := by rw [hi', ← drop_drop, hq, drop_one, tail_cons]
      refine ⟨.scanning _ h' (by rw [hrest]; exact hscan), ?_⟩
      have hle := roundsLeft_le query st'
      have heq := roundsLeft_running hrun
      omega
    | last h' hlast =>
      obtain rfl := (last_iff hq).1 hlast
      refine ⟨.ended (hscan ▸ h'), ?_⟩
      rw [roundsLeft_stopped h'.stopped]
      exact hpos
    | digit out h' hout hi' hflag =>
      have hlast : query.length = st.i + 1 := hi' ▸ h'.last
      obtain rfl := (last_iff hq).1 hlast
      refine ⟨.lastDigit out h' (hout.symm.trans hscan), ?_⟩
      -- no character has been read, but the first of its two rounds has been made
      have hrun' : running query st' = true := running_iff.2 ⟨by omega, h'.notLeft⟩
      have hflag' : ¬ st'.flag = .token := by
        rw [h'.number]
        decide
      rw [roundsLeft_running hrun', roundsLeft_running hrun, if_pos hflag, if_neg hflag', hi']
      omega
  | lastDigit out h hout =>
    obtain ⟨st', hround, hended⟩ := h.round
    rw [hout] at hended
    refine ⟨st', hround, .ended hended, ?_⟩
    rw [roundsLeft_stopped hended.stopped]
    exact hpos
  | ended h =>
    rw [h.stopped] at hrun
    cases hrun

/-- When the loop is over, the buffer holds the digest. -/
theorem LoopInv.ended_of_stopped (h : LoopInv query st) (hstop : running query st = false) :
    Ended query st (digest query) := by
  cases h with
  | scanning σ h hscan =>
    have hi : st.i = query.length := by
      refine Nat.le_antisymm h.holds.inside (Nat.le_of_not_lt fun hlt => ?_)
      rw [running_iff.2 ⟨hlt, h.notLeft⟩] at hstop
      cases hstop
    have hout : σ.out = digest query := by
      rw [hi, drop_length] at hscan
      exact hscan
    exact ⟨h.holds.size, hout ▸ h.holds.written, hi ▸ h.holds.behind, hstop⟩
  | lastDigit out h hout =>
    have hlast := h.last
    rw [running_iff.2 ⟨by omega, h.notLeft⟩] at hstop
    cases hstop
  | ended h => exact h

theorem LoopInv.start (hr : r.length = query.length + 1) : LoopInv query (State.start r) := by
  refine .scanning (.token 0 []) ⟨⟨hr, rfl, rfl, rfl, Nat.le_refl _, Nat.zero_le _⟩,
    ⟨rfl, rfl, ?_⟩, rfl⟩ rfl
  intro h
  exact absurd h (by decide)

end

/-- `mysql_query_digest` returns the digest, followed by a NUL. -/
theorem mysqlQueryDigest_eq {query : List Byte} (hr : r.length = query.length + 1)
    (hrounds : 2 * query.length + 1 ≤ rounds) :
    ∃ rest, mysqlQueryDigest query r rounds = some (digest query ++ 0 :: rest) ∧
      (digest query).length + rest.length = query.length := by
  obtain ⟨st, hloop, hinv, hstop⟩ := whileLoop_of_invariant (fun st h hrun => LoopInv.round h hrun)
    (LoopInv.start hr) (n := rounds) (Nat.le_trans (roundsLeft_le query _) hrounds)
  have hended := hinv.ended_of_stopped hstop
  have hlt : st.pR < st.r.length := by
    have hsize := hended.size
    have hfits := hended.fits
    omega
  have hpR : (digest query).length = st.pR := by
    rw [← hended.written, length_take]
    omega
  have hset : st.r.set st.pR 0 = digest query ++ 0 :: st.r.drop (st.pR + 1) := by
    rw [set_eq_take_append_cons_drop, if_pos hlt, hended.written]
  refine ⟨st.r.drop (st.pR + 1), ?_, ?_⟩
  · rw [mysqlQueryDigest, hloop, Option.bind_eq_bind, Option.bind_some, store_of_lt _ hlt, hset]
  · rw [length_drop, hended.size, hpR]
    have hfits := hended.fits
    omega

/-- The C string in the block that `mysql_query_digest` returns. -/
def cString (r : List Byte) : List Byte := r.takeWhile fun b => b != 0

theorem cString_append_nul (s rest : List Byte) : cString (s ++ 0 :: rest) = cString s := by
  unfold cString
  induction s with
  | nil => rfl
  | cons b s ih =>
    rw [cons_append, takeWhile_cons, takeWhile_cons, ih]

theorem cString_append_of_mem (h : 0 ∈ s) (t : List Byte) : cString (s ++ t) = cString s := by
  obtain ⟨a, b, rfl⟩ := append_of_mem h
  rw [append_assoc, cons_append, cString_append_nul, cString_append_nul]

theorem cString_append_of_not_mem (h : 0 ∉ s) (t : List Byte) :
    cString (s ++ t) = s ++ cString t := by
  refine takeWhile_append_of_pos fun b hb => ?_
  rw [bne_iff_ne]
  rintro rfl
  exact h hb

theorem length_cString_le (s : List Byte) : (cString s).length ≤ s.length :=
  (takeWhile_sublist _).length_le

/-- For every query the loop ends without an access outside the query or the buffer, and leaves in
    the buffer a string of at most as many characters as the query has. -/
theorem mysqlQueryDigest_safe (query r : List Byte) (rounds : Nat)
    (hr : r.length = query.length + 1) (hrounds : 2 * query.length + 1 ≤ rounds) :
    ∃ r', mysqlQueryDigest query r rounds = some r' ∧ r'.length = query.length + 1 ∧ 0 ∈ r' ∧
      (cString r').length ≤ query.length := by
  obtain ⟨rest, hret, hlen⟩ := mysqlQueryDigest_eq hr hrounds
  refine ⟨_, hret, ?_, ?_, ?_⟩
  · rw [length_append, length_cons]
    omega
  · exact mem_append_right _ mem_cons_self
  · rw [cString_append_nul]
    have hle := length_cString_le (digest query)
    omega

/-- A comment that opens at the first character, and a number at the end. -/
theorem mysqlQueryDigest_safe_comment :
    ∃ r', mysqlQueryDigest [ch '/', ch '*', ch '*', ch '/', ch '7'] (List.replicate 6 0) 11 =
      some r' ∧ r'.length = 6 ∧ 0 ∈ r' ∧ (cString r').length ≤ 5 :=
  mysqlQueryDigest_safe [ch '/', ch '*', ch '*', ch '/', ch '7'] (List.replicate 6 0) 11 rfl
    (by decide)

/-- The string that `mysql_query_digest` returns. -/
def queryDigest (query : List Byte) : Option (List Byte) :=
  (mysqlQueryDigest query (List.replicate (query.length + 1) 0) (2 * query.length + 1)).map cString

/-- What the block contains at first and how many rounds are allowed does not matter. -/
theorem cString_mysqlQueryDigest {query : List Byte} (hr : r.length = query.length + 1)
    (hrounds : 2 * query.length + 1 ≤ rounds) :
    (mysqlQueryDigest query r rounds).map cString = some (cString (digest query)) := by
  obtain ⟨rest, hret, -⟩ := mysqlQueryDigest_eq hr hrounds
  rw [hret, Option.map_some, cString_append_nul]

theorem queryDigest_eq (query : List Byte) : queryDigest query = some (cString (digest query)) :=
  cString_mysqlQueryDigest length_replicate (Nat.le_refl _)

/-! ## The output so far is not read -/

namespace Scan

/-- The state with `a` before its output. -/
def prepend (a : List Byte) : Scan → Scan
  | token prev out => token prev (a ++ out)
  | comment prev base cur => comment prev (a ++ base) cur
  | hash base cur => hash (a ++ base) cur
  | quoted q prev base cur => quoted q prev (a ++ base) cur
  | number base cur => number (a ++ base) cur

/-- The slash that a comment takes away is in the output. -/
def Anchored : Scan → Prop
  | token prev out => prev = ch '/' → out ≠ []
  | comment _ base _ => base ≠ []
  | _ => True

theorem Anchored.next (h : σ.Anchored) (c : Byte) (rest : List Byte) :
    (σ.next c rest).Anchored := by
  have happend : ∀ (out : List Byte) (b : Byte), out ++ [b] ≠ [] := fun out b =>
    append_ne_nil_of_right_ne_nil _ (cons_ne_nil _ _)
  have hspace : ∀ out : List Byte, (token (ch ' ') out).Anchored :=
    fun out heq => absurd heq (by decide)
  cases σ with
  | token prev out =>
    rw [Scan.next]
    split_ifs with hcomment
    · exact h hcomment.1
    · trivial
    · trivial
    · exact fun _ => happend _ _
    · trivial
    · exact hspace _
    · exact fun _ => happend _ _
  | comment prev base cur =>
    rw [Scan.next]
    split_ifs
    · exact hspace _
    · exact h
  | hash base cur =>
    rw [Scan.next]
    split_ifs
    · exact hspace _
    · trivial
  | quoted q prev base cur =>
    rw [Scan.next]
    split_ifs
    · exact fun _ => happend _ _
    · trivial
    · exact fun _ => happend _ _
    · trivial
  | number base cur =>
    rw [Scan.next]
    split_ifs
    · exact fun _ => append_ne_nil_of_right_ne_nil _ (cons_ne_nil _ _)
    · exact fun _ => append_ne_nil_of_right_ne_nil _ (cons_ne_nil _ _)
    · exact fun _ => append_ne_nil_of_right_ne_nil _ (cons_ne_nil _ _)
    · exact fun _ => happend _ _
    · trivial

theorem next_prepend (a : List Byte) (h : σ.Anchored) (c : Byte) (rest : List Byte) :
    (σ.prepend a).next c rest = (σ.next c rest).prepend a := by
  cases σ with
  | token prev out =>
    simp only [prepend, Scan.next]
    split_ifs <;> simp only [append_assoc]
  | comment prev base cur =>
    simp only [prepend, Scan.next, dropLast_append_of_ne_nil h]
    split_ifs <;> rfl
  | hash base cur =>
    simp only [prepend, Scan.next]
    split_ifs <;> rfl
  | quoted q prev base cur =>
    simp only [prepend, Scan.next]
    split_ifs <;> simp only [append_assoc]
  | number base cur =>
    simp only [prepend, Scan.next]
    split_ifs <;> simp only [append_assoc]

theorem out_prepend (a : List Byte) (σ : Scan) : (σ.prepend a).out = a ++ σ.out := by
  cases σ with
  | token prev out => rfl
  | comment prev base cur => exact append_assoc ..
  | hash base cur => exact append_assoc ..
  | quoted q prev base cur => exact append_assoc ..
  | number base cur => exact append_assoc ..

theorem scan_prepend (a : List Byte) (h : σ.Anchored) (w : List Byte) :
    scan (σ.prepend a) w = a ++ scan σ w := by
  induction w generalizing σ with
  | nil => exact out_prepend a σ
  | cons c rest ih => rw [scan, next_prepend a h, ih (h.next c rest), scan]

end Scan

end ProxySQL.Digest
