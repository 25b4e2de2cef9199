/-
  ProxySQL.Digest.Pieces

  Queries as SQL reads them: characters, strings with their escapes, words that
  start with a digit (numbers among them), and comments; and how the scanner
  reads each of them.

  The scanner follows the pieces as long as a few accidents do not put it out
  of step.  `prev_char` is not set at the end of a string, so a star behind a
  string that ends in a slash opens a comment.  The character that ends a
  number is copied without being looked at, so a quote there opens no string.
  The star that opens a comment also counts for closing it, so a comment whose
  body starts with a slash is over after three characters.
-/
import ProxySQL.Digest.Scan
import Mathlib.Data.List.Infix

namespace ProxySQL.Digest

open Lib List

/-! ## Character classes -/

theorem spaceChar_class : ∀ c : Byte, isSpaceChar c = true →
    isTokenChar c = true ∧ isDigitChar c = false ∧ c ≠ ch '/' ∧ c ≠ ch '*' ∧ c ≠ quoteChar ∧ c ≠ ch '"' ∧
      c ≠ ch '#' ∧ c ≠ 0 := by
  decide +kernel

theorem normalChar_class : ∀ c : Byte, isTokenChar c = false →
    isSpaceChar c = false ∧ c ≠ ch '/' ∧ c ≠ ch '*' ∧ c ≠ quoteChar ∧ c ≠ ch '"' ∧ c ≠ ch '#' ∧ c ≠ 0 := by
  decide +kernel

theorem digitChar_class : ∀ c : Byte, isDigitChar c = true → isTokenChar c = false ∧ c ≠ ch '?' := by
  decide +kernel

theorem spaced_of_not_space {c : Byte} (h : isSpaceChar c = false) : spaced c = c := by
  rw [spaced, h, Bool.not_false, if_pos rfl]

theorem spaced_of_space {c : Byte} (h : isSpaceChar c = true) : spaced c = ch ' ' := by
  rw [spaced, h, Bool.not_true, if_neg Bool.false_ne_true]

theorem spaced_of_normal {c : Byte} (h : isTokenChar c = false) : spaced c = c :=
  spaced_of_not_space (normalChar_class c h).1

/-- The two characters that open a string. -/
def IsQuote (c : Byte) : Prop := c = quoteChar ∨ c = ch '"'

instance (c : Byte) : Decidable (IsQuote c) := by
  unfold IsQuote
  infer_instance

theorem IsQuote.ne_backslash {q : Byte} (h : IsQuote q) : q ≠ backslashChar := by
  rcases h with rfl | rfl <;> decide

/-! ## Pieces -/

/-- One character of a string, as it is written there. -/
inductive StrChar where
  | plain (c : Byte)
  | escaped (c : Byte)
  | doubled
  deriving DecidableEq

namespace StrChar

/-- The text, in a string quoted by `q`. -/
def text (q : Byte) : StrChar → List Byte
  | plain c => [c]
  | escaped c => [backslashChar, c]
  | doubled => [q, q]

def Valid (q : Byte) : StrChar → Prop
  | plain c => c ≠ q ∧ c ≠ backslashChar
  | escaped _ => True
  | doubled => True

/-- `prev_char` after it: the second character of a pair may have been skipped. -/
def prev (q : Byte) : StrChar → Byte
  | plain c => c
  | escaped c => if c = backslashChar ∨ c = q then ch 'X' else c
  | doubled => ch 'X'

end StrChar

/-- `prev_char` after a string: what it was before the closing quote. -/
def strPrev (q : Byte) (us : List StrChar) : Byte := us.foldl (fun _ u => u.prev q) q

/-- A piece of a query. -/
inductive Piece where
  | char (c : Byte)
  | str (q : Byte) (us : List StrChar)
  /-- identifier characters that start with a digit -/
  | word (w : List Byte)
  | comment (body : List Byte)

namespace Piece

def text : Piece → List Byte
  | char c => [c]
  | str q us => q :: (us.flatMap (StrChar.text q) ++ [q])
  | word w => w
  | comment body => ch '/' :: ch '*' :: (body ++ [ch '*', ch '/'])

/-- The piece ends with a character of an identifier. -/
def endsIdent : Piece → Bool
  | char c => isNormalChar c
  | str _ _ => false
  | word _ => true
  | comment _ => false

/-- The piece is what SQL reads behind an identifier character (or not) and before `next`. -/
def Lexed (ident : Bool) (next : Option Byte) : Piece → Prop
  | char c =>
      ¬ IsQuote c ∧ c ≠ ch '#' ∧ (isDigitChar c = true → ident = true) ∧ (c = ch '/' → next ≠ some (ch '*'))
  | str q us => IsQuote q ∧ (∀ u ∈ us, u.Valid q) ∧ next ≠ some q
  | word w =>
      ident = false ∧ (∀ d ∈ w.head?, isDigitChar d = true) ∧ w ≠ [] ∧ (∀ c ∈ w, isTokenChar c = false) ∧
      ∀ c ∈ next, isTokenChar c = true
  | comment body => ¬ [ch '*', ch '/'] <:+: body

/-- `prev_char` after the piece, up to the kind of whitespace. -/
def prev : Piece → Byte
  | char c => c
  | str q us => strPrev q us
  | word w => w.getLastD 0
  | comment _ => ch ' '

/-- The scanner, with `prev_char` `p`, is not put out of step by the piece. -/
def InStep (p : Byte) (next : Option Byte) : Piece → Prop
  | char c => ¬ (p = ch '/' ∧ c = ch '*')
  | str _ _ => True
  | word _ => isTokenChar p = true → ∀ c ∈ next, ¬ IsQuote c ∧ c ≠ ch '#'
  | comment body => body.head? ≠ some (ch '/')

/-- A word that is taken for a number is replaced.  At the end of the query its last character is not looked
    at. -/
def replaced (w : List Byte) (atEnd : Bool) : Bool :=
  if atEnd then w.length == 1 || digitString w.dropLast else digitString w

/-- What the digest shows for the piece. -/
def shown (p : Byte) (atEnd : Bool) : Piece → List Byte
  | char c => if isSpaceChar p && isSpaceChar c then [] else [spaced c]
  | str _ _ => [ch '?']
  | word w => if isTokenChar p && replaced w atEnd then [ch '?'] else w
  | comment _ => []

end Piece

/-- The text of a list of pieces. -/
def text (ps : List Piece) : List Byte := ps.flatMap Piece.text

/-- SQL reads `text ps ++ rest` as `ps` and then `rest`. -/
def Lexed : Bool → List Piece → List Byte → Prop
  | _, [], _ => True
  | ident, x :: ps, rest => x.Lexed ident (text ps ++ rest).head? ∧ Lexed x.endsIdent ps rest

/-- The scanner reads `text ps ++ rest` as `ps` and then `rest`, from `prev_char` `p` on. -/
def InStep : Byte → List Piece → List Byte → Prop
  | _, [], _ => True
  | p, x :: ps, rest => x.InStep p (text ps ++ rest).head? ∧ InStep x.prev ps rest

/-- Identifier characters that start with a digit. -/
structure IsWord (w : List Byte) : Prop where
  head : ∀ d ∈ w.head?, isDigitChar d = true
  ne_nil : w ≠ []
  chars : ∀ c ∈ w, isTokenChar c = false

theorem Piece.Lexed.isWord {w : List Byte} {ident : Bool} {next : Option Byte}
    (h : (Piece.word w).Lexed ident next) : IsWord w :=
  ⟨h.2.1, h.2.2.1, h.2.2.2.1⟩

section Decidable

instance (q : Byte) (u : StrChar) : Decidable (u.Valid q) := by
  unfold StrChar.Valid
  split <;> infer_instance

local instance decidableForallMem (w : List Byte) (P : Byte → Prop) [DecidablePred P] :
    Decidable (∀ c ∈ w, P c) :=
  List.decidableBAll P w

instance (ident : Bool) (next : Option Byte) (x : Piece) : Decidable (x.Lexed ident next) := by
  induction x using Piece.casesOn <;> (unfold Piece.Lexed; infer_instance)

instance (p : Byte) (next : Option Byte) (x : Piece) : Decidable (x.InStep p next) := by
  induction x using Piece.casesOn <;> (unfold Piece.InStep; infer_instance)

instance decidableLexed : ∀ ident ps rest, Decidable (Lexed ident ps rest)
  | _, [], _ => isTrue trivial
  | _, x :: ps, rest =>
    have := decidableLexed x.endsIdent ps rest
    inferInstanceAs (Decidable (_ ∧ _))

instance decidableInStep : ∀ p ps rest, Decidable (InStep p ps rest)
  | _, [], _ => isTrue trivial
  | _, x :: ps, rest =>
    have := decidableInStep x.prev ps rest
    inferInstanceAs (Decidable (_ ∧ _))

end Decidable

/-! ## Reading a string -/

section
open Scan
variable {q prev c : Byte} {out base cur rest : List Byte}

/-- Between two characters of a string: no escape is open. -/
structure Between (q prev : Byte) (cur : List Byte) : Prop where
  notBackslash : prev ≠ backslashChar
  notQuote : prev = q → cur.length ≤ 1
  opened : cur ≠ []

theorem Between.not_escaped (h : Between q prev cur) (c : Byte) :
    ¬ (cur.length > 1 ∧ Escaped q prev c) := by
  rintro ⟨hlen, hesc⟩
  rcases hesc with ⟨hb, -⟩ | ⟨hb, -⟩ | ⟨hq, -⟩
  · exact h.notBackslash hb
  · exact h.notBackslash hb
  · have := h.notQuote hq
    omega

theorem next_quoted_copy (h : Between q prev cur) (hrest : rest ≠ [])
    (hopen : ¬ (c = q ∧ rest.head? ≠ some q)) :
    (quoted q prev base cur).next c rest = quoted q c base (cur ++ [spaced c]) := by
  rw [Scan.next, if_neg hrest, if_neg (h.not_escaped c), if_neg hopen]

theorem next_quoted_skip (hlen : 1 < cur.length) (hesc : Escaped q prev c) (hrest : rest ≠ []) :
    (quoted q prev base cur).next c rest = quoted q (ch 'X') base cur := by
  rw [Scan.next, if_neg hrest, if_pos ⟨hlen, hesc⟩]

theorem scan_strChar (base : List Byte) (u : StrChar) (hq : IsQuote q) (hu : u.Valid q)
    (h : Between q prev cur) (hrest : rest ≠ []) : ∃ cur', Between q (u.prev q) cur' ∧
      scan (quoted q prev base cur) (u.text q ++ rest) = scan (quoted q (u.prev q) base cur') rest := by
  have hpos : 0 < cur.length := length_pos_iff.2 h.opened
  have hX : ch 'X' ≠ backslashChar ∧ ch 'X' ≠ q := by rcases hq with rfl | rfl <;> decide
  have hne : ∀ d : Byte, cur ++ [spaced d] ≠ [] := fun d =>
    append_ne_nil_of_right_ne_nil _ (cons_ne_nil _ _)
  have hlen : ∀ d : Byte, 1 < (cur ++ [spaced d]).length := by
    intro d
    rw [length_append, length_singleton]
    omega
  cases u with
  | plain c =>
    refine ⟨cur ++ [spaced c], ⟨hu.2, fun heq => absurd heq hu.1, hne c⟩, ?_⟩
    show scan ((quoted q prev base cur).next c rest) rest = _
    rw [next_quoted_copy h hrest fun hc => hu.1 hc.1]
    rfl
  | escaped c =>
    have hb : (quoted q prev base cur).next backslashChar (c :: rest)
        = quoted q backslashChar base (cur ++ [spaced backslashChar]) :=
      next_quoted_copy h (cons_ne_nil _ _) fun hc => hq.ne_backslash hc.1.symm
    show ∃ cur', _ ∧ scan (((quoted q prev base cur).next backslashChar (c :: rest)).next c rest) rest = _
    rw [hb]
    by_cases hskip : c = backslashChar ∨ c = q
    · have hesc : Escaped q backslashChar c := hskip.imp (⟨rfl, ·⟩) fun hc => .inl ⟨rfl, hc⟩
      refine ⟨cur ++ [spaced backslashChar], ?_, ?_⟩
      · rw [StrChar.prev, if_pos hskip]
        exact ⟨hX.1, fun heq => absurd heq hX.2, hne _⟩
      · rw [StrChar.prev, if_pos hskip, next_quoted_skip (hlen _) hesc hrest]
    · rw [not_or] at hskip
      have hesc : ¬ ((cur ++ [spaced backslashChar]).length > 1 ∧ Escaped q backslashChar c) := by
        rintro ⟨-, ⟨-, hc⟩ | ⟨-, hc⟩ | ⟨-, hc⟩⟩
        · exact hskip.1 hc
        · exact hskip.2 hc
        · exact hskip.2 hc
      refine ⟨cur ++ [spaced backslashChar] ++ [spaced c], ?_, ?_⟩
      · rw [StrChar.prev, if_neg (by rw [not_or]; exact hskip)]
        exact ⟨hskip.1, fun heq => absurd heq hskip.2, append_ne_nil_of_right_ne_nil _ (cons_ne_nil _ _)⟩
      · rw [StrChar.prev, if_neg (by rw [not_or]; exact hskip), Scan.next, if_neg hrest, if_neg hesc,
          if_neg fun hc => hskip.2 hc.1]
  | doubled =>
    have hfirst : (quoted q prev base cur).next q (q :: rest) = quoted q q base (cur ++ [spaced q]) :=
      next_quoted_copy h (cons_ne_nil _ _) fun hc => hc.2 rfl
    refine ⟨cur ++ [spaced q], ⟨hX.1, fun heq => absurd heq hX.2, hne q⟩, ?_⟩
    show scan (((quoted q prev base cur).next q (q :: rest)).next q rest) rest = _
    rw [hfirst, next_quoted_skip (hlen q) (.inr (.inr ⟨rfl, rfl⟩)) hrest]
    rfl

variable {us : List StrChar} {p : Byte} {w tail : List Byte} {ident : Bool}

theorem scan_strChars (hq : IsQuote q) (hus : ∀ u ∈ us, u.Valid q) (h : Between q prev cur)
    (hrest : rest.head? ≠ some q) :
    scan (quoted q prev base cur) (us.flatMap (StrChar.text q) ++ q :: rest)
      = scan (token (us.foldl (fun _ u => u.prev q) prev) (base ++ [ch '?'])) rest := by
  induction us generalizing prev cur with
  | nil =>
    show scan ((quoted q prev base cur).next q rest) rest = _
    by_cases hnil : rest = []
    · rw [Scan.next, if_pos hnil, hnil]
      rfl
    · rw [Scan.next, if_neg hnil, if_neg (h.not_escaped q), if_pos ⟨rfl, hrest⟩]
      rfl
  | cons u us ih =>
    have hmore : us.flatMap (StrChar.text q) ++ q :: rest ≠ [] :=
      append_ne_nil_of_right_ne_nil _ (cons_ne_nil _ _)
    obtain ⟨cur', hcur', hscan⟩ := scan_strChar base u hq (hus u mem_cons_self) h hmore
    rw [flatMap_cons, append_assoc, hscan, ih (fun v hv => hus v (mem_cons_of_mem _ hv)) hcur',
      foldl_cons]

theorem next_token_quote (hq : IsQuote q) : (token p out).next q rest = quoted q q out [spaced q] := by
  have hstar : ¬ (p = ch '/' ∧ q = ch '*') := by
    rintro ⟨-, rfl⟩
    exact absurd hq (by decide)
  have hhash : q ≠ ch '#' := by
    rintro rfl
    exact absurd hq (by decide)
  rw [Scan.next, if_neg hstar, if_neg hhash, if_pos (by exact hq)]

theorem scan_str (hq : IsQuote q) (hus : ∀ u ∈ us, u.Valid q) (hrest : rest.head? ≠ some q) :
    scan (token p out) ((Piece.str q us).text ++ rest) =
    scan (token (strPrev q us) (out ++ [ch '?'])) rest := by
  have htext : (Piece.str q us).text ++ rest = q :: (us.flatMap (StrChar.text q) ++ q :: rest) := by
    rw [Piece.text, cons_append, append_assoc, singleton_append]
  rw [htext, scan, next_token_quote hq]
  exact scan_strChars hq hus ⟨hq.ne_backslash, fun _ => Nat.le_refl _, cons_ne_nil _ _⟩ hrest

/-! ## Reading other characters -/

theorem next_token_plain (hstar : ¬ (p = ch '/' ∧ c = ch '*')) (hhash : c ≠ ch '#') (hquote : ¬ IsQuote c)
    (hdigit : ¬ (isTokenChar p = true ∧ isDigitChar c = true)) :
    (token p out).next c rest =
      if isSpaceChar p = true ∧ isSpaceChar c = true then token (ch ' ') out
      else token c (out ++ [spaced c]) := by
  rw [Scan.next, if_neg hstar, if_neg hhash, if_neg (by exact hquote), if_neg hdigit]

theorem scan_token_space (hp : isSpaceChar p = true) (w : List Byte) :
    scan (token p out) w = scan (token (ch ' ') out) w := by
  cases w with
  | nil => rfl
  | cons c rest =>
    obtain ⟨htoken, -, hslash, -⟩ := spaceChar_class p hp
    have htoken' : isTokenChar (ch ' ') = true := by decide
    have hspace' : isSpaceChar (ch ' ') = true := by decide
    have hslash' : ch ' ' ≠ ch '/' := by decide
    have hnext : (token p out).next c rest = (token (ch ' ') out).next c rest := by
      simp only [Scan.next, hp, htoken, hslash, htoken', hspace', hslash', false_and, if_false]
    rw [scan, scan, hnext]

/-- A character that starts nothing is copied, or left out if it is whitespace behind whitespace. -/
theorem scan_char (hstar : ¬ (p = ch '/' ∧ c = ch '*')) (hhash : c ≠ ch '#') (hquote : ¬ IsQuote c)
    (hdigit : ¬ (isTokenChar p = true ∧ isDigitChar c = true)) :
    scan (token p out) (c :: rest) = scan (token c (out ++ (Piece.char c).shown p false)) rest := by
  rw [scan, next_token_plain hstar hhash hquote hdigit, Piece.shown]
  by_cases hspace : isSpaceChar p = true ∧ isSpaceChar c = true
  · rw [if_pos hspace, if_pos (by rw [Bool.and_eq_true]; exact hspace), append_nil,
      scan_token_space hspace.2]
  · rw [if_neg hspace, if_neg (by rw [Bool.and_eq_true]; exact hspace)]

theorem scan_normal (hp : isTokenChar p = false) (hw : ∀ c ∈ w, isTokenChar c = false) :
    scan (token p out) (w ++ rest) = scan (token (w.getLastD p) (out ++ w)) rest := by
  induction w generalizing p out with
  | nil => rw [append_nil]; rfl
  | cons c w ih =>
    have hc := hw c mem_cons_self
    obtain ⟨hspace, -, hstar, hq, hdq, hhash, -⟩ := normalChar_class c hc
    have hshown : (Piece.char c).shown p false = [c] := by
      rw [Piece.shown, hspace, Bool.and_false, if_neg Bool.false_ne_true, spaced_of_normal hc]
    have hquote : ¬ IsQuote c := by
      rintro (h | h)
      · exact hq h
      · exact hdq h
    have hdigit : ¬ (isTokenChar p = true ∧ isDigitChar c = true) := by
      rw [hp]
      exact fun h => Bool.false_ne_true h.1
    rw [cons_append, scan_char (fun h => hstar h.2) hhash hquote hdigit, hshown,
      ih hc fun d hd => hw d (mem_cons_of_mem _ hd), append_assoc, singleton_append]
    cases w <;> rfl

/-! ## Reading a word -/

theorem scan_number (hw : ∀ c ∈ w, isTokenChar c = false) (hrest : rest ≠ []) :
    scan (number base cur) (w ++ rest) = scan (number base (cur ++ w)) rest := by
  induction w generalizing cur with
  | nil => rw [nil_append, append_nil]
  | cons c w ih =>
    have hc := hw c mem_cons_self
    have hmore : ¬ (isTokenChar c = true ∨ w ++ rest = []) := by
      rw [hc, not_or]
      exact ⟨Bool.false_ne_true, append_ne_nil_of_right_ne_nil _ hrest⟩
    rw [cons_append, scan, Scan.next, if_neg hmore, spaced_of_normal hc,
      ih fun d hd => hw d (mem_cons_of_mem _ hd), append_assoc, singleton_append]

/-- Its end, at the end of the query: the last character is not looked at. -/
theorem scan_number_end (hw : ∀ c ∈ w, isTokenChar c = false) (hne : w ≠ []) :
    scan (number base cur) w = base ++ if digitString (cur ++ w.dropLast) then [ch '?'] else cur ++ w := by
  induction w generalizing cur with
  | nil => exact absurd rfl hne
  | cons c w ih =>
    have hc := hw c mem_cons_self
    cases w with
    | nil =>
      rw [scan, Scan.next, if_pos (.inr rfl), dropLast_singleton, append_nil]
      cases hdig : digitString cur with
      | true =>
        rw [if_pos rfl, if_pos rfl, if_pos rfl, hc, if_neg Bool.false_ne_true]
        rfl
      | false =>
        rw [if_neg Bool.false_ne_true, if_neg Bool.false_ne_true, spaced_of_normal hc]
        exact append_assoc ..
    | cons d w =>
      have hmore : ¬ (isTokenChar c = true ∨ d :: w = []) := by
        rw [hc, not_or]
        exact ⟨Bool.false_ne_true, cons_ne_nil _ _⟩
      rw [scan, Scan.next, if_neg hmore, spaced_of_normal hc,
        ih (fun d hd => hw d (mem_cons_of_mem _ hd)) (cons_ne_nil _ _), dropLast_cons_cons,
        append_assoc, append_assoc]
      rfl

theorem next_token_digit {d : Byte} (hp : isTokenChar p = true) (hd : isDigitChar d = true) :
    (token p out).next d rest = if rest = [] then token d (out ++ [ch '?']) else number out [d] := by
  have hd' := (digitChar_class d hd).1
  obtain ⟨-, -, hstar, hq, hdq, hhash, -⟩ := normalChar_class d hd'
  rw [Scan.next, if_neg fun h => hstar h.2, if_neg hhash, if_neg (not_or.2 ⟨hq, hdq⟩), if_pos ⟨hp, hd⟩,
    spaced_of_normal hd']

/-- A word behind a token character is taken for a number as long as it lasts. -/
theorem scan_word_number (hw : IsWord w) (hp : isTokenChar p = true) (hrest : rest ≠ []) :
    scan (token p out) (w ++ rest) = scan (number out w) rest := by
  obtain ⟨d, w, rfl⟩ := exists_cons_of_ne_nil hw.ne_nil
  rw [cons_append, scan, next_token_digit hp (hw.head d rfl),
    if_neg (append_ne_nil_of_right_ne_nil _ hrest),
    scan_number (fun c hc => hw.chars c (mem_cons_of_mem _ hc)) hrest, singleton_append]

theorem scan_word_end (hw : IsWord w) : scan (token p out) w = out ++ (Piece.word w).shown p true := by
  rw [Piece.shown]
  cases hp : isTokenChar p with
  | false =>
    have hnormal : scan (token p out) (w ++ []) = _ := scan_normal hp hw.chars
    rw [append_nil] at hnormal
    rw [hnormal, Bool.false_and, if_neg Bool.false_ne_true]
    rfl
  | true =>
    obtain ⟨d, w, rfl⟩ := exists_cons_of_ne_nil hw.ne_nil
    rw [scan, next_token_digit hp (hw.head d rfl), Bool.true_and, Piece.replaced, if_pos rfl]
    cases w with
    | nil => rfl
    | cons c w =>
      have hlen : ((d :: c :: w).length == 1) = false := by
        rw [beq_eq_false_iff_ne, length_cons, length_cons]
        omega
      rw [if_neg (cons_ne_nil _ _), scan_number_end (fun e he => hw.chars e (mem_cons_of_mem _ he))
        (cons_ne_nil _ _), hlen, Bool.false_or, dropLast_cons_cons]
      rfl

theorem IsWord.getLastD (hw : IsWord w) (e : Byte) : isTokenChar (w.getLastD e) = false := by
  have hmem : w.getLastD e ∈ w := by
    rw [getLastD_eq_getLast?, getLast?_eq_some_getLast hw.ne_nil]
    exact getLast_mem hw.ne_nil
  exact hw.chars _ hmem

theorem next_token_behind (hp : isTokenChar p = false) (hquote : ¬ IsQuote c) (hhash : c ≠ ch '#') :
    (token p out).next c rest = token c (out ++ [spaced c]) := by
  obtain ⟨hspace, hslash, -⟩ := normalChar_class p hp
  rw [next_token_plain (fun h => hslash h.1) hhash hquote
    (by rw [hp]; exact fun h => Bool.false_ne_true h.1),
    if_neg (by rw [hspace]; exact fun h => Bool.false_ne_true h.1)]

/-- A word that something follows.  If it was taken for a number, what follows must be neither a quote nor a
    hash sign, nor the last character of the query if the number is replaced. -/
theorem scan_word (hw : IsWord w) (hrest : rest ≠ []) (hnext : ∀ c ∈ rest.head?, isTokenChar c = true)
    (hstep : isTokenChar p = true → ∀ c ∈ rest.head?, ¬ IsQuote c ∧ c ≠ ch '#')
    (hlast : isTokenChar p = true → digitString w = true → rest.length ≠ 1) :
    scan (token p out) (w ++ rest) = scan (token (w.getLastD 0) (out ++ (Piece.word w).shown p false))
      rest := by
  rw [Piece.shown, Piece.replaced, if_neg Bool.false_ne_true]
  cases hp : isTokenChar p with
  | false =>
    obtain ⟨d, w, rfl⟩ := exists_cons_of_ne_nil hw.ne_nil
    rw [scan_normal hp hw.chars, Bool.false_and, if_neg Bool.false_ne_true]
    rfl
  | true =>
    obtain ⟨c, rest, rfl⟩ := exists_cons_of_ne_nil hrest
    have hc := hnext c rfl
    obtain ⟨hquote, hhash⟩ := hstep hp c rfl
    -- the character that ends the number is copied, as it would be behind an identifier
    rw [scan_word_number hw hp (cons_ne_nil _ _), Bool.true_and]
    show scan ((number out w).next c rest) rest = scan ((token (w.getLastD 0) _).next c rest) rest
    rw [next_token_behind (hw.getLastD 0) hquote hhash, Scan.next, if_pos (.inl hc)]
    cases hdig : digitString w with
    | true =>
      have hmore : rest ≠ [] := by
        rintro rfl
        exact hlast hp hdig rfl
      rw [if_pos rfl, if_pos rfl, if_neg hmore, append_assoc]
      rfl
    | false => rw [if_neg Bool.false_ne_true, if_neg Bool.false_ne_true]

/-- A number and the last character of the query, which is copied as it is. -/
theorem scan_number_char (hw : IsWord w) (hp : isTokenChar p = true) (hdig : digitString w = true)
    (hc : isTokenChar c = true) : scan (token p out) (w ++ [c]) = out ++ [ch '?', c] := by
  rw [scan_word_number hw hp (cons_ne_nil _ _), scan, Scan.next, if_pos (.inl hc), if_pos hdig, if_pos rfl,
    hc, if_pos rfl]
  rfl

/-! ## Reading a comment -/

/-- The body of a comment and the star and slash that close it. -/
theorem scan_commentBody {body : List Byte} (h : ¬ [ch '*', ch '/'] <:+: p :: body) :
    scan (comment p base cur) (body ++ ch '*' :: ch '/' :: rest) =
    scan (token (ch ' ') base.dropLast) rest := by
  induction body generalizing p cur with
  | nil =>
    have hopen : ¬ (p = ch '*' ∧ ch '*' = ch '/') := fun h => absurd h.2 (by decide)
    rw [nil_append, scan, Scan.next, if_neg hopen, scan, Scan.next, if_pos ⟨rfl, rfl⟩]
  | cons c body ih =>
    have hopen : ¬ (p = ch '*' ∧ c = ch '/') := by
      rintro ⟨rfl, rfl⟩
      exact h ⟨[], body, rfl⟩
    have hbody : ¬ [ch '*', ch '/'] <:+: c :: body := fun hin => h (hin.trans (infix_cons (infix_refl _)))
    rw [cons_append, scan, Scan.next, if_neg hopen, ih hbody]

theorem scan_comment {body : List Byte} (hbody : ¬ [ch '*', ch '/'] <:+: body)
    (hhead : body.head? ≠ some (ch '/')) :
    scan (token p out) ((Piece.comment body).text ++ rest) = scan (token (ch ' ') out) rest := by
  have hin : ¬ [ch '*', ch '/'] <:+: ch '*' :: body := by
    rw [infix_cons_iff]
    rintro (hfront | hin)
    · obtain ⟨t, ht⟩ := hfront
      cases body with
      | nil => cases ht
      | cons c body =>
        rw [cons_append, cons_append, List.cons.injEq, List.cons.injEq] at ht
        exact hhead (congrArg some ht.2.1.symm)
    · exact hbody hin
  have htext : (Piece.comment body).text ++ rest =
    ch '/' :: ch '*' :: (body ++ ch '*' :: ch '/' :: rest) := by
    rw [Piece.text, cons_append, cons_append, append_assoc]
    rfl
  have hslash : (token p out).next (ch '/') (ch '*' :: (body ++ ch '*' :: ch '/' :: rest))
      = token (ch '/') (out ++ [ch '/']) := by
    rw [next_token_plain (fun h => absurd h.2 (by decide)) (by decide) (by decide)
      (fun h => absurd h.2 (by decide)), if_neg fun h => absurd h.2 (by decide)]
    rfl
  rw [htext, scan, hslash, scan, Scan.next, if_pos ⟨rfl, rfl⟩]
  rw [scan_commentBody hin, dropLast_concat]

/-! ## Reading a list of pieces -/

/-- `prev_char` after the pieces. -/
def prevAfter (p : Byte) (ps : List Piece) : Byte := ps.foldl (fun _ x => x.prev) p

/-- What the digest shows for pieces that are not the end of the query. -/
def shownAll : Byte → List Piece → List Byte
  | _, [] => []
  | p, x :: ps => x.shown p false ++ shownAll x.prev ps

theorem text_cons (x : Piece) (ps : List Piece) : text (x :: ps) = x.text ++ text ps := flatMap_cons ..

variable {x : Piece}

theorem Piece.Lexed.prev_of_endsIdent {next : Option Byte} (h : x.Lexed ident next)
    (hident : x.endsIdent = true) : isTokenChar x.prev = false := by
  cases x with
  | char c => exact congrArg (!·) hident
  | str q us => cases hident
  | word w => exact h.isWord.getLastD 0
  | comment body => cases hident

/-- The piece is taken for a number and replaced. -/
def Piece.endsNumber (p : Byte) : Piece → Bool
  | .word w => isTokenChar p && digitString w
  | _ => false

/-- The scanner reads a piece that does not put it out of step.  A word has to be followed by something, and
    a number by more than the last character of the query. -/
theorem scan_piece (hlex : x.Lexed ident rest.head?) (hstep : x.InStep p rest.head?)
    (hident : ident = true → isTokenChar p = false) (hword : ∀ w, x = .word w → rest ≠ [])
    (hlast : x.endsNumber p = true → rest.length ≠ 1) :
    scan (token p out) (x.text ++ rest) = scan (token x.prev (out ++ x.shown p rest.isEmpty)) rest := by
  cases x with
  | char c =>
    obtain ⟨hquote, hhash, hdigit, -⟩ := hlex
    refine scan_char hstep hhash hquote ?_
    rintro ⟨htoken, hd⟩
    rw [hident (hdigit hd)] at htoken
    cases htoken
  | str q us =>
    obtain ⟨hq, hus, hnext⟩ := hlex
    exact scan_str hq hus hnext
  | word w =>
    have hrest : rest ≠ [] := hword w rfl
    rw [isEmpty_eq_false_iff.2 hrest]
    refine scan_word hlex.isWord hrest hlex.2.2.2.2 hstep fun hp hdig => hlast ?_
    exact Bool.and_eq_true_iff.2 ⟨hp, hdig⟩
  | comment body =>
    rw [Piece.shown, append_nil]
    exact scan_comment hlex hstep

variable {ps : List Piece}

theorem scan_pieces (hlex : Lexed ident ps rest) (hstep : InStep p ps rest)
    (hident : ident = true → isTokenChar p = false) (hrest : 2 ≤ rest.length) :
    scan (token p out) (text ps ++ rest) = scan (token (prevAfter p ps) (out ++ shownAll p ps)) rest := by
  induction ps generalizing ident p out with
  | nil => rw [shownAll, append_nil]; rfl
  | cons x ps ih =>
    obtain ⟨hx, hps⟩ := hlex
    obtain ⟨hxstep, hpsstep⟩ := hstep
    have hlen : 2 ≤ (text ps ++ rest).length := by
      rw [length_append]
      omega
    have hne : text ps ++ rest ≠ [] := ne_nil_of_length_pos (by omega)
    rw [text_cons, append_assoc, scan_piece hx hxstep hident (fun _ _ => hne) (fun _ => by omega),
      isEmpty_eq_false_iff.2 hne, ih hps hpsstep hx.prev_of_endsIdent, shownAll, append_assoc]
    rfl

/-! ## The digest of a whole query -/

/-- Nothing, or a string that is not closed (with a backslash at its end or not). -/
def Unclosed (tail : List Byte) : Prop :=
  tail = [] ∨ ∃ (q : Byte) (us : List StrChar) (bs : List Byte), IsQuote q ∧ (∀ u ∈ us, u.Valid q) ∧
    (bs = [] ∨ bs = [backslashChar]) ∧ tail = q :: (us.flatMap (StrChar.text q) ++ bs)

/-- A string that is not closed is replaced, unless it is the quote only. -/
def unclosedShown (tail : List Byte) : List Byte := if tail.length ≤ 1 then tail else [ch '?']

theorem scan_unclosedChars {bs : List Byte} (hq : IsQuote q) (hus : ∀ u ∈ us, u.Valid q)
    (hbs : bs = [] ∨ bs = [backslashChar]) (h : Between q prev cur)
    (hne : us.flatMap (StrChar.text q) ++ bs ≠ []) :
    scan (quoted q prev base cur) (us.flatMap (StrChar.text q) ++ bs) = base ++ [ch '?'] := by
  induction us generalizing prev cur with
  | nil =>
    rcases hbs with rfl | rfl
    · exact absurd rfl hne
    · rfl
  | cons u us ih =>
    have hu := hus u mem_cons_self
    rw [flatMap_cons, append_assoc]
    by_cases hmore : us.flatMap (StrChar.text q) ++ bs = []
    · rw [hmore, append_nil]
      -- the string ends with the last character of `u`
      cases u with
      | plain c =>
        rfl
      | escaped c =>
        show (((quoted q prev base cur).next backslashChar [c]).next c []).out = _
        rw [next_quoted_copy h (cons_ne_nil _ _) fun hc => hq.ne_backslash hc.1.symm, Scan.next, if_pos rfl]
        rfl
      | doubled =>
        show (((quoted q prev base cur).next q [q]).next q []).out = _
        rw [next_quoted_copy h (cons_ne_nil _ _) fun hc => hc.2 rfl, Scan.next, if_pos rfl]
        rfl
    · obtain ⟨cur', hcur', hscan⟩ := scan_strChar base u hq hu h hmore
      rw [hscan, ih (fun v hv => hus v (mem_cons_of_mem _ hv)) hcur' hmore]

theorem scan_unclosed (h : Unclosed tail) : scan (token p out) tail = out ++ unclosedShown tail := by
  rcases h with rfl | ⟨q, us, bs, hq, hus, hbs, rfl⟩
  · exact (append_nil out).symm
  · rw [scan, next_token_quote hq, unclosedShown]
    by_cases hnil : us.flatMap (StrChar.text q) ++ bs = []
    · have hspaced : spaced q = q := by rcases hq with rfl | rfl <;> decide
      rw [hnil, if_pos (show [q].length ≤ 1 from Nat.le_refl 1), hspaced]
      rfl
    · have hlen : ¬ (q :: (us.flatMap (StrChar.text q) ++ bs)).length ≤ 1 := by
        have hpos := length_pos_iff.2 hnil
        rw [length_cons]
        omega
      rw [if_neg hlen]
      exact scan_unclosedChars hq hus hbs ⟨hq.ne_backslash, fun _ => Nat.le_refl _, cons_ne_nil _ _⟩ hnil

/-- The digest of pieces and an unclosed string.  The last character of a query is copied as it is behind a
    number. -/
def render (tail : List Byte) : Byte → List Piece → List Byte
  | _, [] => unclosedShown tail
  | p, x :: ps =>
    x.shown p (text ps ++ tail).isEmpty ++
      if x.endsNumber p = true ∧ (text ps ++ tail).length = 1 then text ps ++ tail
      else render tail x.prev ps

theorem Piece.Lexed.text_ne_nil {next : Option Byte} (h : x.Lexed ident next) : x.text ≠ [] := by
  cases x with
  | char c => exact cons_ne_nil _ _
  | str q us => exact cons_ne_nil _ _
  | word w => exact h.isWord.ne_nil
  | comment body => exact cons_ne_nil _ _

theorem Lexed.eq_nil_of_text (h : Lexed ident ps tail) (htext : text ps = []) : ps = [] := by
  cases ps with
  | nil => rfl
  | cons x ps =>
    exact absurd (append_eq_nil_iff.1 htext).1 h.1.text_ne_nil

theorem scan_render (hlex : Lexed ident ps tail) (hstep : InStep p ps tail)
    (hident : ident = true → isTokenChar p = false) (htail : Unclosed tail) :
    scan (token p out) (text ps ++ tail) = out ++ render tail p ps := by
  induction ps generalizing ident p out with
  | nil => exact scan_unclosed htail
  | cons x ps ih =>
    obtain ⟨hx, hps⟩ := hlex
    obtain ⟨hxstep, hpsstep⟩ := hstep
    rw [text_cons, append_assoc, render]
    by_cases hword : ∃ w, x = .word w ∧ text ps ++ tail = []
    · -- a word at the end of the query
      obtain ⟨w, rfl, hnil⟩ := hword
      obtain ⟨hpsnil, htailnil⟩ := append_eq_nil_iff.1 hnil
      obtain rfl := hps.eq_nil_of_text hpsnil
      rw [hnil, append_nil, if_neg fun h => absurd h.2 (by decide), htailnil]
      show scan (token p out) w = out ++ ((Piece.word w).shown p true ++ [])
      rw [append_nil]
      exact scan_word_end hx.isWord
    by_cases hlast : x.endsNumber p = true ∧ (text ps ++ tail).length = 1
    · -- a number and the last character of the query
      obtain ⟨hnumber, hone⟩ := hlast
      obtain ⟨c, hc⟩ := length_eq_one_iff.1 hone
      rw [if_pos ⟨hnumber, hone⟩]
      cases x with
      | word w =>
        have hnext := hx.2.2.2.2
        obtain ⟨hp, hdig⟩ := Bool.and_eq_true_iff.1 hnumber
        rw [hc] at hnext ⊢
        rw [Piece.shown, Piece.replaced, isEmpty_cons, if_neg Bool.false_ne_true, hp, hdig, Bool.true_and,
          if_pos rfl]
        exact scan_number_char hx.isWord hp hdig (hnext c rfl)
      | char _ | str _ _ | comment _ => cases hnumber
    · rw [if_neg hlast, scan_piece hx hxstep hident (fun w hw hnil => hword ⟨w, hw, hnil⟩)
        (fun hnumber hone => hlast ⟨hnumber, hone⟩), ih hps hpsstep hx.prev_of_endsIdent, append_assoc]

end

end ProxySQL.Digest
