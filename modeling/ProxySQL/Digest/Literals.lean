/-
  ProxySQL.Digest.Literals

  Two queries that differ in the contents of their literals only.

  A literal is replaced, but the last character of a string stays behind in
  `prev_char`: it decides whether whitespace that follows is shown, and whether
  a number that follows is taken for one.  As long as the scanner is in step
  with both queries, their digests are equal just if at every such place the
  two strings end alike.
-/
import ProxySQL.Digest.Pieces

namespace ProxySQL.Digest

open Lib List Option

/-! ## Two queries with corresponding literals -/

/-- What stands at one place of the two queries. -/
inductive Cell where
  | char (c : Byte)
  | str (q : Byte) (us us' : List StrChar)
  | word (w w' : List Byte)

namespace Cell

def left : Cell → Piece
  | char c => .char c
  | str q us _ => .str q us
  | word w _ => .word w

def right : Cell → Piece
  | char c => .char c
  | str q _ us' => .str q us'
  | word _ w' => .word w'

/-- The contents of a string have no quote and no backslash. -/
def Plain (us : List StrChar) : Prop := ∀ u ∈ us, ∃ c, u = .plain c ∧ ¬ IsQuote c ∧ c ≠ backslashChar

/-- The two pieces are equal, or they are strings with plain contents, or unsigned integers. -/
def Corresponds : Cell → Prop
  | char _ => True
  | str _ us us' => us = us' ∨ Plain us ∧ Plain us'
  | word w w' => w = w' ∨ (∀ c ∈ w, isDigitChar c = true) ∧ ∀ c ∈ w', isDigitChar c = true

instance (us : List StrChar) : Decidable (Plain us) := inferInstanceAs (Decidable (∀ _ ∈ _, _))

local instance decidableForallMem (w : List Byte) (P : Byte → Prop) [DecidablePred P] :
    Decidable (∀ c ∈ w, P c) :=
  List.decidableBAll P w

instance (x : Cell) : Decidable x.Corresponds := by
  induction x using Cell.casesOn <;> (unfold Corresponds; infer_instance)

end Cell

/-- The two queries: the cells' pieces, and behind them nothing or an unclosed string. -/
structure LiteralPair where
  cells : List Cell
  tail : List Byte
  corresponds : ∀ x ∈ cells, x.Corresponds
  lexed_left : Lexed false (cells.map Cell.left) tail
  lexed_right : Lexed false (cells.map Cell.right) tail
  unclosed : Unclosed tail

def LiteralPair.left (l : LiteralPair) : List Byte := text (l.cells.map Cell.left) ++ l.tail

def LiteralPair.right (l : LiteralPair) : List Byte := text (l.cells.map Cell.right) ++ l.tail

/-- Words behind `p` and `p'` are shown alike: both are taken for numbers, or neither is and they are equal;
    or they are equal and not replaced in any case. -/
def WordsAlike (p p' : Byte) (w w' : List Byte) (atEnd : Bool) : Prop :=
  (isTokenChar p = isTokenChar p' ∧ (isTokenChar p = true ∨ w = w')) ∨
    (w = w' ∧ Piece.replaced w atEnd = false)

/-- Behind `p` and `p'`, whitespace follows strings that both end in whitespace or both do not, and words
    are shown alike.  What follows a NUL is not part of the digest. -/
def Alike (tail : List Byte) : Byte → Byte → List Cell → Prop
  | _, _, [] => True
  | p, p', .char c :: cells =>
    c = 0 ∨ (isSpaceChar c = true → isSpaceChar p = isSpaceChar p') ∧ Alike tail c c cells
  | _, _, .str q us us' :: cells => Alike tail (strPrev q us) (strPrev q us') cells
  | p, p', .word w w' :: cells =>
    WordsAlike p p' w w' (text (cells.map Cell.left) ++ tail).isEmpty ∧
      Alike tail (w.getLastD 0) (w'.getLastD 0) cells

/-! ## Digits -/

variable {w s : List Byte} {c : Byte}

variable {p : Byte} {w' tail : List Byte} {atEnd ident : Bool} {ps : List Piece}
  {next : Option Byte}

theorem digitsFrom_digits {i : Nat} (hw : ∀ c ∈ w, isDigitChar c = true) :
    digitsFrom i p false w = true := by
  induction w generalizing i p with
  | nil => rfl
  | cons c w ih =>
    have hc := hw c mem_cons_self
    have hx : ¬ (i = 1 ∧ p = ch '0' ∧ (c = ch 'x' ∨ c = ch 'X')) := by
      rintro ⟨-, -, rfl | rfl⟩
      · exact absurd hc (by decide)
      · exact absurd hc (by decide)
    rw [digitsFrom, if_neg hx, hc]
    exact ih fun d hd => hw d (mem_cons_of_mem _ hd)

theorem replaced_digits (hw : ∀ c ∈ w, isDigitChar c = true) (atEnd : Bool) :
    Piece.replaced w atEnd = true := by
  have hdrop : digitString w.dropLast = true := digitsFrom_digits fun c hc => hw c (mem_of_mem_dropLast hc)
  rw [Piece.replaced, hdrop, Bool.or_true, digitString, digitsFrom_digits hw]
  split_ifs <;> rfl

theorem digits_append_inj {s' : List Byte} (hw : ∀ c ∈ w, isDigitChar c = true)
    (hw' : ∀ c ∈ w', isDigitChar c = true) (hs : ∀ c ∈ s.head?, isDigitChar c = false)
    (hs' : ∀ c ∈ s'.head?, isDigitChar c = false) (h : w ++ s = w' ++ s') : w = w' := by
  have htake : ∀ {v t : List Byte}, (∀ c ∈ v, isDigitChar c = true) →
      (∀ c ∈ t.head?, isDigitChar c = false) → (v ++ t).takeWhile isDigitChar = v := by
    intro v t hv ht
    rw [takeWhile_append_of_pos hv]
    cases t with
    | nil => rw [takeWhile_nil, append_nil]
    | cons c t => rw [takeWhile_cons, ht c rfl, if_neg Bool.false_ne_true, append_nil]
  rw [← htake hw hs, h, htake hw' hs']

/-! ## What the digest can start with -/

theorem head?_unclosedShown (h : Unclosed tail) (hc : c ∈ (unclosedShown tail).head?) :
    c = ch '?' ∨ IsQuote c := by
  rcases h with rfl | ⟨q, us, bs, hq, -, -, rfl⟩
  · cases hc
  · rw [unclosedShown] at hc
    split_ifs at hc
    · exact .inr (some.inj hc ▸ hq)
    · exact .inl (some.inj hc).symm

theorem head?_shown_word (hw : IsWord w) (s : List Byte)
     (hc : c ∈ ((Piece.word w).shown p atEnd ++ s).head?) : c = ch '?' ∨ isDigitChar c = true := by
  obtain ⟨d, w, rfl⟩ := exists_cons_of_ne_nil hw.ne_nil
  rw [Piece.shown] at hc
  split_ifs at hc
  · exact .inl (some.inj hc).symm
  · exact .inr (hw.head c hc)

theorem head?_render_space (htail : Unclosed tail)
    (hlex : Lexed ident ps tail) (hp : isSpaceChar p = true) :
    (render tail p ps).head? ≠ some (ch ' ') := by
  induction ps generalizing ident p with
  | nil =>
    intro h
    rcases head?_unclosedShown htail h with h | h
    · exact absurd h (by decide)
    · exact absurd h (by decide)
  | cons x ps ih =>
    obtain ⟨hx, hps⟩ := hlex
    rw [render]
    cases x with
    | char c =>
      rw [if_neg fun h => Bool.false_ne_true h.1, Piece.shown, hp, Bool.true_and]
      cases hc : isSpaceChar c with
      | true =>
        exact ih hps hc
      | false =>
        rw [if_neg Bool.false_ne_true, spaced_of_not_space hc]
        intro h
        rw [some.inj h] at hc
        exact absurd hc (by decide)
    | str q us => exact fun h => absurd (some.inj h) (by decide)
    | comment body =>
      exact ih hps (show isSpaceChar (ch ' ') = true by decide)
    | word w =>
      intro h
      rcases head?_shown_word hx.isWord _ h with h | h
      · exact absurd h (by decide)
      · exact absurd h (by decide)

/-- Behind a word, where no comment follows, the digest does not start with a digit. -/
theorem head?_render_word (htail : Unclosed tail)
    (hlex : Lexed ident ps tail) (hp : isTokenChar p = false)
    (hnext : ∀ c ∈ (text ps ++ tail).head?, isTokenChar c = true)
    (hcomment : ∀ body, ps.head? ≠ some (.comment body)) :
    ∀ c ∈ (render tail p ps).head?, isDigitChar c = false := by
  have htoken : ∀ c, isTokenChar c = true → isDigitChar c = false := by
    intro c hc
    rw [Bool.eq_false_iff]
    intro hd
    rw [(digitChar_class c hd).1] at hc
    cases hc
  cases ps with
  | nil =>
    intro c hc
    rcases head?_unclosedShown htail hc with rfl | rfl | rfl <;> decide
  | cons x ps =>
    obtain ⟨hx, -⟩ := hlex
    rw [render]
    cases x with
    | char c =>
      have hspace := (normalChar_class p hp).1
      rw [if_neg fun h => Bool.false_ne_true h.1, Piece.shown, hspace, Bool.false_and,
        if_neg Bool.false_ne_true]
      intro d hd
      cases hd
      cases hc : isSpaceChar c with
      | true =>
        rw [spaced_of_space hc]
        decide
      | false =>
        rw [spaced_of_not_space hc]
        exact htoken c (hnext c rfl)
    | str q us =>
      intro d hd
      cases hd
      decide
    | comment body => exact absurd rfl (hcomment body)
    | word w =>
      obtain ⟨d, w, rfl⟩ := exists_cons_of_ne_nil hx.isWord.ne_nil
      have htok := hnext d rfl
      rw [hx.isWord.chars d mem_cons_self] at htok
      cases htok

theorem head?_cString (hc : c ∈ (cString s).head?) : c ∈ s.head? := by
  cases s with
  | nil => exact hc
  | cons b s =>
    rw [cString, takeWhile_cons] at hc
    split_ifs at hc
    · exact hc
    · cases hc

/-! ## Comparing two queries -/

theorem left_ne_comment (cells : List Cell) (body : List Byte) :
    (cells.map Cell.left).head? ≠ some (.comment body) := by
  cases cells with
  | nil => exact fun h => by cases h
  | cons x cells => cases x <;> exact fun h => by cases h

theorem right_ne_comment (cells : List Cell) (body : List Byte) :
    (cells.map Cell.right).head? ≠ some (.comment body) := by
  cases cells with
  | nil => exact fun h => by cases h
  | cons x cells => cases x <;> exact fun h => by cases h

section
variable {tail : List Byte} {ident ident' : Bool} {cells : List Cell}

theorem rest_eq_nil_iff (hl : Lexed ident (cells.map Cell.left) tail)
    (hr : Lexed ident' (cells.map Cell.right) tail) :
    text (cells.map Cell.left) ++ tail = [] ↔ text (cells.map Cell.right) ++ tail = [] := by
  rw [append_eq_nil_iff, append_eq_nil_iff]
  refine and_congr_left' ⟨fun h => ?_, fun h => ?_⟩
  · have hnil := map_eq_nil_iff.1 (hl.eq_nil_of_text h)
    rw [hnil]
    rfl
  · have hnil := map_eq_nil_iff.1 (hr.eq_nil_of_text h)
    rw [hnil]
    rfl

theorem str_text_ne_singleton (q c : Byte) (us : List StrChar) (s : List Byte) :
    (Piece.str q us).text ++ s ≠ [c] := by
  intro h
  have hlen := congrArg length h
  rw [Piece.text, length_append, length_cons, length_append, length_singleton,
    length_singleton] at hlen
  omega

theorem word_text_ne_token {w : List Byte} (h : (Piece.word w).Lexed ident next) {c : Byte}
    (hc : isTokenChar c = true) (s t : List Byte) : (Piece.word w).text ++ s ≠ c :: t := by
  obtain ⟨d, w, rfl⟩ := exists_cons_of_ne_nil h.isWord.ne_nil
  intro heq
  obtain rfl := (List.cons.inj heq).1
  rw [h.isWord.chars d mem_cons_self] at hc
  cases hc

theorem rest_eq_singleton_iff (hl : Lexed ident (cells.map Cell.left) tail)
    (hr : Lexed ident' (cells.map Cell.right) tail) {c : Byte} (hc : isTokenChar c = true) :
    text (cells.map Cell.left) ++ tail = [c] ↔ text (cells.map Cell.right) ++ tail = [c] := by
  cases cells with
  | nil => rfl
  | cons x cells =>
    obtain ⟨hxl, hcl⟩ := hl
    obtain ⟨hxr, hcr⟩ := hr
    rw [map_cons, map_cons, text_cons, text_cons, append_assoc, append_assoc]
    cases x with
    | char d =>
      show d :: (text (cells.map Cell.left) ++ tail) = [c] ↔
        d :: (text (cells.map Cell.right) ++ tail) = [c]
      rw [cons_eq_cons, cons_eq_cons, rest_eq_nil_iff hcl hcr]
    | str q us us' => exact iff_of_false (str_text_ne_singleton q c us _) (str_text_ne_singleton q c us' _)
    | word w w' => exact iff_of_false (word_text_ne_token hxl hc _ _) (word_text_ne_token hxr hc _ _)

theorem alike_of_singleton (hl : Lexed ident (cells.map Cell.left) tail) {c p' : Byte}
    (hc : isTokenChar c = true) (hp : isTokenChar p = false) (hp' : isTokenChar p' = false)
    (h : text (cells.map Cell.left) ++ tail = [c]) : Alike tail p p' cells := by
  cases cells with
  | nil => trivial
  | cons x cells =>
    obtain ⟨hxl, hcl⟩ := hl
    rw [map_cons, text_cons, append_assoc] at h
    cases x with
    | char d =>
      have hnil : text (cells.map Cell.left) ++ tail = [] := (List.cons.inj h).2
      obtain rfl := map_eq_nil_iff.1 (hcl.eq_nil_of_text (append_eq_nil_iff.1 hnil).1)
      refine .inr ⟨fun _ => ?_, trivial⟩
      rw [(normalChar_class p hp).1, (normalChar_class p' hp').1]
    | str q us us' => exact absurd h (str_text_ne_singleton q c us _)
    | word w w' => exact absurd h (word_text_ne_token hxl hc _ _)

end

theorem cString_cancel {o s' : List Byte} (ho : 0 ∉ o) :
    cString (o ++ s) = cString (o ++ s') ↔ cString s = cString s' := by
  rw [cString_append_of_not_mem ho, cString_append_of_not_mem ho, append_cancel_left_eq]

section
variable {tail : List Byte} (htail : Unclosed tail) {ident ident' : Bool} {cells : List Cell} {p p' : Byte}
include htail

theorem render_char_alike {c : Byte} (hl : Lexed ident (cells.map Cell.left) tail)
    (hr : Lexed ident' (cells.map Cell.right) tail)
    (ih : cString (render tail c (cells.map Cell.left)) = cString (render tail c (cells.map Cell.right)) ↔
      Alike tail c c cells) :
    cString (render tail p ((Cell.char c :: cells).map Cell.left))
        = cString (render tail p' ((Cell.char c :: cells).map Cell.right)) ↔
      Alike tail p p' (.char c :: cells) := by
  have hrender : ∀ (q : Byte) (ps : List Piece), render tail q (.char c :: ps)
      = (Piece.char c).shown q false ++ render tail c ps := by
    intro q ps
    rw [render, if_neg fun h => Bool.false_ne_true h.1]
    rfl
  show cString (render tail p (.char c :: cells.map Cell.left)) =
    cString (render tail p' (.char c :: cells.map Cell.right))
    ↔ c = 0 ∨ (isSpaceChar c = true → isSpaceChar p = isSpaceChar p') ∧ Alike tail c c cells
  rw [hrender, hrender]
  by_cases hzero : c = 0
  · -- both digests end here
    have hshown : ∀ q, (Piece.char c).shown q false = [0] := by
      intro q
      rw [hzero, Piece.shown, show isSpaceChar 0 = false from rfl, Bool.and_false,
        if_neg Bool.false_ne_true]
      rfl
    rw [hshown, hshown]
    exact iff_of_true rfl (.inl hzero)
  rw [or_iff_right hzero]
  cases hc : isSpaceChar c with
  | false =>
    have hshown : ∀ q, (Piece.char c).shown q false = [c] := by
      intro q
      rw [Piece.shown, hc, Bool.and_false, if_neg Bool.false_ne_true, spaced_of_not_space hc]
    rw [hshown, hshown, cString_cancel (fun h => hzero (mem_singleton.1 h).symm), ih]
    exact (and_iff_right fun h => absurd h Bool.false_ne_true).symm
  | true =>
    have hshown : ∀ q, (Piece.char c).shown q false = if isSpaceChar q then [] else [ch ' '] := by
      intro q
      rw [Piece.shown, hc, Bool.and_true, spaced_of_space hc]
    -- one space more cannot be made up for, as no other space can come behind whitespace
    have hspace : ∀ {ps qs : List Piece} {i : Bool}, Lexed i ps tail →
        cString (render tail c ps) ≠ cString ([ch ' '] ++ render tail c qs) := by
      intro ps qs i hps heq
      rw [cString_append_of_not_mem (by decide)] at heq
      have hhead : ch ' ' ∈ (cString (render tail c ps)).head? := by rw [heq]; rfl
      exact head?_render_space htail hps hc (head?_cString hhead)
    have himp : (true = true → isSpaceChar p = isSpaceChar p') ↔ isSpaceChar p = isSpaceChar p' :=
      ⟨fun h => h rfl, fun h _ => h⟩
    rw [hshown, hshown, himp]
    cases isSpaceChar p with
    | true =>
      cases isSpaceChar p' with
      | true => exact ih.trans (and_iff_right rfl).symm
      | false => exact iff_of_false (hspace hl) (fun h => by cases h.1)
    | false =>
      cases isSpaceChar p' with
      | true => exact iff_of_false (fun h => hspace hr h.symm) (fun h => by cases h.1)
      | false => exact ((cString_cancel (by decide)).trans ih).trans (and_iff_right rfl).symm

omit htail in
theorem render_word_shown {w : List Byte}
    (h : (isTokenChar p && Piece.replaced w (text ps ++ tail).isEmpty) = false) :
    render tail p (.word w :: ps) = w ++ render tail (w.getLastD 0) ps := by
  have hlast : ¬ ((Piece.word w).endsNumber p = true ∧ (text ps ++ tail).length = 1) := by
    rintro ⟨hnumber, hone⟩
    have hempty : (text ps ++ tail).isEmpty = false := by
      obtain ⟨c, hc⟩ := length_eq_one_iff.1 hone
      rw [hc]
      rfl
    rw [hempty, Piece.replaced, if_neg Bool.false_ne_true] at h
    rw [Piece.endsNumber, h] at hnumber
    cases hnumber
  rw [render, if_neg hlast, Piece.shown, h, if_neg Bool.false_ne_true]
  rfl

omit htail in
/-- A word that is replaced: the last character of the query may be copied as it is. -/
theorem render_word_replaced {w : List Byte}
    (h : (isTokenChar p && Piece.replaced w (text ps ++ tail).isEmpty) = true) :
    render tail p (.word w :: ps) = [ch '?'] ++
      if (text ps ++ tail).length = 1 then text ps ++ tail else render tail (w.getLastD 0) ps := by
  have hnumber : (text ps ++ tail).length = 1 → (Piece.word w).endsNumber p = true := by
    intro hone
    obtain ⟨c, hc⟩ := length_eq_one_iff.1 hone
    rw [hc] at h
    exact h
  rw [render, Piece.shown, h, if_pos rfl]
  by_cases hone : (text ps ++ tail).length = 1
  · rw [if_pos ⟨hnumber hone, hone⟩, if_pos hone]
  · rw [if_neg fun h => hone h.2, if_neg hone]
    rfl

omit htail in
/-- In terms of what becomes of the words: both are replaced, or both are shown and equal. -/
theorem wordsAlike_iff {w : List Byte} (hcor : (Cell.word w w').Corresponds) :
    WordsAlike p p' w w' atEnd ↔
      ((isTokenChar p && Piece.replaced w atEnd) = true ∧
        (isTokenChar p' && Piece.replaced w' atEnd) = true) ∨
        ((isTokenChar p && Piece.replaced w atEnd) = false ∧
          (isTokenChar p' && Piece.replaced w' atEnd) = false ∧ w = w') := by
  unfold WordsAlike
  rcases hcor with rfl | ⟨hdigits, hdigits'⟩
  · cases isTokenChar p <;> cases isTokenChar p' <;> cases Piece.replaced w atEnd <;> simp
  · rw [replaced_digits hdigits, replaced_digits hdigits']
    cases isTokenChar p <;> cases isTokenChar p' <;> simp

theorem render_word_alike {w : List Byte} (hcor : (Cell.word w w').Corresponds)
    (hxl : (Piece.word w).Lexed ident (text (cells.map Cell.left) ++ tail).head?)
    (hxr : (Piece.word w').Lexed ident' (text (cells.map Cell.right) ++ tail).head?)
    (hl : Lexed true (cells.map Cell.left) tail) (hr : Lexed true (cells.map Cell.right) tail)
    (ih : cString (render tail (w.getLastD 0) (cells.map Cell.left))
        = cString (render tail (w'.getLastD 0) (cells.map Cell.right)) ↔
      Alike tail (w.getLastD 0) (w'.getLastD 0) cells) :
    cString (render tail p ((Cell.word w w' :: cells).map Cell.left))
        = cString (render tail p' ((Cell.word w w' :: cells).map Cell.right)) ↔
      Alike tail p p' (.word w w' :: cells) := by
  have hw := hxl.isWord
  have hw' := hxr.isWord
  have hnext := hxl.2.2.2.2
  have hnext' := hxr.2.2.2.2
  have hnul : ∀ {v : List Byte}, IsWord v → 0 ∉ v := fun hv h => absurd (hv.chars 0 h) (by decide)
  have hempty : (text (cells.map Cell.right) ++ tail).isEmpty =
    (text (cells.map Cell.left) ++ tail).isEmpty := by
    rw [Bool.eq_iff_iff, List.isEmpty_iff, List.isEmpty_iff, rest_eq_nil_iff hl hr]
  -- a digit and the mark cannot be confused
  have hmark : ∀ {v s t : List Byte}, IsWord v → cString ([ch '?'] ++ s) ≠ cString (v ++ t) := by
    intro v s t hv heq
    rw [cString_append_of_not_mem (by decide), cString_append_of_not_mem (hnul hv)] at heq
    obtain ⟨d, v, rfl⟩ := exists_cons_of_ne_nil hv.ne_nil
    exact (digitChar_class d (hv.head d rfl)).2 (List.cons.inj heq).1.symm
  show cString (render tail p (.word w :: cells.map Cell.left)) =
    cString (render tail p' (.word w' :: cells.map Cell.right))
    ↔ WordsAlike p p' w w' (text (cells.map Cell.left) ++ tail).isEmpty ∧
    Alike tail (w.getLastD 0) (w'.getLastD 0) cells
  generalize hend : (text (cells.map Cell.left) ++ tail).isEmpty = atEnd at hempty
  cases hn : (isTokenChar p && Piece.replaced w atEnd) with
  | true =>
    obtain ⟨hp, hrep⟩ := Bool.and_eq_true_iff.1 hn
    rw [render_word_replaced (by rw [hend]; exact hn)]
    cases hn' : (isTokenChar p' && Piece.replaced w' atEnd) with
    | true =>
      obtain ⟨hp', -⟩ := Bool.and_eq_true_iff.1 hn'
      have halike : WordsAlike p p' w w' atEnd := Or.inl ⟨hp.trans hp'.symm, .inl hp⟩
      rw [render_word_replaced (by rw [hempty]; exact hn'), cString_cancel (by decide),
        and_iff_right halike]
      by_cases hone : (text (cells.map Cell.left) ++ tail).length = 1
      · -- the same character ends both queries
        obtain ⟨c, hc⟩ := length_eq_one_iff.1 hone
        have htoken : isTokenChar c = true := hnext c (by rw [hc]; rfl)
        have hc' := (rest_eq_singleton_iff hl hr htoken).1 hc
        rw [if_pos hone, if_pos (by rw [hc']; rfl), hc, hc']
        exact iff_of_true rfl (alike_of_singleton hl htoken (hw.getLastD 0) (hw'.getLastD 0) hc)
      · have hone' : ¬ (text (cells.map Cell.right) ++ tail).length = 1 := by
          intro h
          obtain ⟨c, hc'⟩ := length_eq_one_iff.1 h
          have htoken : isTokenChar c = true := hnext' c (by rw [hc']; rfl)
          exact hone (by rw [(rest_eq_singleton_iff hl hr htoken).2 hc']; rfl)
        rw [if_neg hone, if_neg hone']
        exact ih
    | false =>
      rw [render_word_shown (by rw [hempty]; exact hn')]
      refine iff_of_false (hmark hw') fun h => ?_
      rw [wordsAlike_iff hcor, hn, hn'] at h
      rcases h.1 with ⟨-, h⟩ | ⟨h, -⟩ <;> cases h
  | false =>
    rw [render_word_shown (by rw [hend]; exact hn)]
    cases hn' : (isTokenChar p' && Piece.replaced w' atEnd) with
    | true =>
      rw [render_word_replaced (by rw [hempty]; exact hn')]
      refine iff_of_false (fun h => hmark hw h.symm) fun h => ?_
      rw [wordsAlike_iff hcor, hn, hn'] at h
      rcases h.1 with ⟨h, -⟩ | ⟨-, h, -⟩ <;> cases h
    | false =>
      rw [render_word_shown (by rw [hempty]; exact hn')]
      have halike : WordsAlike p p' w w' atEnd ↔ w = w' := by
        rw [wordsAlike_iff hcor, hn, hn']
        simp
      rw [halike]
      by_cases heq : w = w'
      · rw [and_iff_right heq]
        rw [← heq] at ih ⊢
        exact (cString_cancel (hnul hw)).trans ih
      · -- two integers that are shown, with no digit behind them
        refine iff_of_false (fun h => heq ?_) fun h => heq h.1
        obtain ⟨hdigits, hdigits'⟩ := hcor.resolve_left heq
        rw [cString_append_of_not_mem (hnul hw), cString_append_of_not_mem (hnul hw')] at h
        exact digits_append_inj hdigits hdigits'
          (fun c hc => head?_render_word htail hl (hw.getLastD 0) hnext (left_ne_comment cells) c
            (head?_cString hc))
          (fun c hc => head?_render_word htail hr (hw'.getLastD 0) hnext' (right_ne_comment cells) c
            (head?_cString hc)) h

/-- What the two queries show is the same string, just if they are alike. -/
theorem render_alike (hcor : ∀ x ∈ cells, x.Corresponds) (hl : Lexed ident (cells.map Cell.left) tail)
    (hr : Lexed ident' (cells.map Cell.right) tail) :
    cString (render tail p (cells.map Cell.left)) = cString (render tail p' (cells.map Cell.right)) ↔
      Alike tail p p' cells := by
  induction cells generalizing ident ident' p p' with
  | nil => exact iff_of_true rfl trivial
  | cons x cells ih =>
    obtain ⟨hxl, hl⟩ := hl
    obtain ⟨hxr, hr⟩ := hr
    have hcells : ∀ y ∈ cells, y.Corresponds := fun y hy => hcor y (mem_cons_of_mem _ hy)
    cases x with
    | char c => exact render_char_alike htail hl hr (ih hcells hl hr)
    | str q us us' =>
      show cString (render tail p (.str q us :: cells.map Cell.left))
        = cString (render tail p' (.str q us' :: cells.map Cell.right)) ↔
        Alike tail (strPrev q us) (strPrev q us') cells
      rw [render, render, if_neg fun h => Bool.false_ne_true h.1, if_neg fun h => Bool.false_ne_true h.1,
        Piece.shown, Piece.shown, cString_cancel (by decide)]
      exact ih hcells hl hr
    | word w w' =>
      exact render_word_alike htail (hcor _ mem_cons_self) hxl hxr hl hr (ih hcells hl hr)

end

/-! ## The digests -/

/-- Two queries that the scanner follows, and that differ in the contents of literals only, have the same
    digest just if they are alike. -/
theorem digest_literals_iff (l : LiteralPair) (hleft : InStep 0 (l.cells.map Cell.left) l.tail)
    (hright : InStep 0 (l.cells.map Cell.right) l.tail) :
    queryDigest l.left = queryDigest l.right ↔ Alike l.tail 0 0 l.cells := by
  have hstart : false = true → isTokenChar 0 = false := fun h => absurd h Bool.false_ne_true
  have hl : digest l.left = [] ++ render l.tail 0 (l.cells.map Cell.left) :=
    scan_render l.lexed_left hleft hstart l.unclosed
  have hr : digest l.right = [] ++ render l.tail 0 (l.cells.map Cell.right) :=
    scan_render l.lexed_right hright hstart l.unclosed
  rw [queryDigest_eq, queryDigest_eq, some.injEq, hl, hr, nil_append, nil_append]
  exact render_alike l.unclosed l.corresponds l.lexed_left l.lexed_right

/-- `'a',1` and `'b',22`. -/
def commaPair : LiteralPair where
  cells :=
    [.str quoteChar [.plain (ch 'a')] [.plain (ch 'b')], .char (ch ','), .word [ch '1'] [ch '2', ch '2']]
  tail := []
  corresponds := by decide +kernel
  lexed_left := by decide +kernel
  lexed_right := by decide +kernel
  unclosed := Or.inl rfl

theorem digest_literals_comma : queryDigest commaPair.left = queryDigest commaPair.right := by
  refine (digest_literals_iff commaPair (by decide +kernel) (by decide +kernel)).2 ?_
  exact .inr ⟨fun h => absurd h (by decide), .inl ⟨rfl, .inl (by decide)⟩, trivial⟩

/-- `'a ' x` and `'b' x`. -/
def spacePair : LiteralPair where
  cells := [.str quoteChar [.plain (ch 'a'), .plain (ch ' ')] [.plain (ch 'b')], .char (ch ' '),
    .char (ch 'x')]
  tail := []
  corresponds := by decide +kernel
  lexed_left := by decide +kernel
  lexed_right := by decide +kernel
  unclosed := Or.inl rfl

/-- The space is lost behind the string that ends in one. -/
theorem digest_literals_space :
    queryDigest spacePair.left = some [ch '?', ch 'x'] ∧
    queryDigest spacePair.right = some [ch '?', ch ' ', ch 'x'] := by
  decide

end ProxySQL.Digest
