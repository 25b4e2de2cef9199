/-
  ProxySQL.Digest.Spacing

  Replacing the whitespace between two tokens by other whitespace and comments.

  The digest shows one space for whitespace, and nothing for a comment, although
  `prev_char` is a space behind both.  So the space is lost when the run that
  comes in place of the whitespace starts with a comment, unless there was no
  space to lose: `prev_char` was whitespace before.
-/
import ProxySQL.Digest.Pieces

namespace ProxySQL.Digest

open Lib List

/-! ## Gaps -/

/-- Whitespace or a comment. -/
def IsGap : Piece → Prop
  | .char c => isSpaceChar c = true
  | .comment body => ¬ [ch '*', ch '/'] <:+: body
  | _ => False

/-- The code finds the end of the comments in `gap`: no body starts with a slash. -/
def CommentsRead (gap : List Piece) : Prop := ∀ body, Piece.comment body ∈ gap → body.head? ≠ some (ch '/')

/-- The run starts with whitespace, not with a comment. -/
def StartsSpace (gap : List Piece) : Prop := ∃ c, gap.head? = some (Piece.char c)

/-- The pieces end with whitespace, with a comment, or with a string whose last character is whitespace. -/
def EndsSpace (pre : List Piece) : Prop := ∃ x, pre.getLast? = some x ∧ isSpaceChar x.prev = true

variable {x : Piece} {gap : List Piece} {p : Byte} {rest : List Byte} {next' : Option Byte}

section
open Scan
variable {out rest : List Byte} {p : Byte}

theorem scan_gapPiece (hx : IsGap x) (hread : ∀ body, x = .comment body → body.head? ≠ some (ch '/')) :
    scan (token p out) (x.text ++ rest) = scan (token (ch ' ') (out ++ x.shown p false)) rest := by
  cases x with
  | char c =>
    obtain ⟨-, hdigit, -, hstar, hq, hdq, hhash, -⟩ := spaceChar_class c hx
    have hnodigit : ¬ (isTokenChar p = true ∧ isDigitChar c = true) := by
      rw [hdigit]
      exact fun h => Bool.false_ne_true h.2
    rw [← scan_token_space hx]
    exact scan_char (fun h => hstar h.2) hhash (not_or.2 ⟨hq, hdq⟩) hnodigit
  | str q us => exact hx.elim
  | word w => exact hx.elim
  | comment body =>
    rw [Piece.shown, append_nil]
    exact scan_comment hx (hread body rfl)

theorem scan_gap_space (hgap : ∀ x ∈ gap, IsGap x) (hread : CommentsRead gap) :
    scan (token (ch ' ') out) (text gap ++ rest) = scan (token (ch ' ') out) rest := by
  induction gap with
  | nil => rfl
  | cons x gap ih =>
    have hx := hgap x mem_cons_self
    have hshown : x.shown (ch ' ') false = [] := by
      cases x with
      | char c =>
        have hc : isSpaceChar c = true := hx
        rw [Piece.shown, hc, Bool.and_true]
        rfl
      | str q us => exact hx.elim
      | word w => exact hx.elim
      | comment body => rfl
    rw [text_cons, append_assoc,
      scan_gapPiece hx fun body h => hread body (h ▸ mem_cons_self ..), hshown, append_nil]
    exact ih (fun y hy => hgap y (mem_cons_of_mem _ hy)) fun body h => hread body (mem_cons_of_mem _ h)

/-- What a gap shows. -/
def gapShown (p : Byte) (gap : List Piece) : List Byte :=
  match gap.head? with
  | some x => x.shown p false
  | none => []

theorem scan_gap (hne : gap ≠ []) (hgap : ∀ x ∈ gap, IsGap x) (hread : CommentsRead gap) :
    scan (token p out) (text gap ++ rest) = scan (token (ch ' ') (out ++ gapShown p gap)) rest := by
  obtain ⟨x, gap, rfl⟩ := exists_cons_of_ne_nil hne
  rw [text_cons, append_assoc,
    scan_gapPiece (hgap x mem_cons_self) fun body h => hread body (h ▸ mem_cons_self ..)]
  exact scan_gap_space (fun y hy => hgap y (mem_cons_of_mem _ hy)) fun body h =>
    hread body (mem_cons_of_mem _ h)

theorem gapShown_startsSpace (hgap : ∀ x ∈ gap, IsGap x) (h : StartsSpace gap) :
    gapShown p gap = if isSpaceChar p then [] else [ch ' '] := by
  obtain ⟨c, hc⟩ := h
  have hspace : isSpaceChar c = true := hgap (.char c) (mem_of_mem_head? hc)
  rw [gapShown, hc]
  simp only [Piece.shown, hspace, Bool.and_true, spaced_of_space hspace]

theorem gapShown_not_startsSpace (hgap : ∀ x ∈ gap, IsGap x) (h : ¬ StartsSpace gap) :
    gapShown p gap = [] := by
  cases gap with
  | nil => rfl
  | cons x gap =>
    have hx := hgap x mem_cons_self
    cases x with
    | char c => exact absurd ⟨c, rfl⟩ h
    | str q us => exact hx.elim
    | word w => exact hx.elim
    | comment body => rfl

end

/-! ## The place -/

theorem isSpaceChar_prevAfter (pre : List Piece) : isSpaceChar (prevAfter 0 pre) = true ↔
    EndsSpace pre := by
  induction pre using List.reverseRecOn with
  | nil =>
    refine ⟨fun h => absurd h (by decide), ?_⟩
    rintro ⟨x, hx, -⟩
    cases hx
  | append_singleton pre x _ =>
    rw [prevAfter, foldl_append, EndsSpace, getLast?_concat]
    exact ⟨fun h => ⟨x, rfl, h⟩, fun ⟨y, hy, h⟩ => Option.some.inj hy ▸ h⟩

variable {ident : Bool} {pre gap : List Piece} {next : Option Byte}

/-- A NUL is shown just where the text has one outside strings and comments. -/
theorem zero_mem_shownAll (hlex : Lexed ident pre rest) :
    0 ∈ shownAll p pre ↔ Piece.char 0 ∈ pre := by
  induction pre generalizing ident p with
  | nil => simp only [shownAll, not_mem_nil]
  | cons x pre ih =>
    obtain ⟨hx, hpre⟩ := hlex
    have hshown : 0 ∈ x.shown p false ↔ Piece.char 0 = x := by
      cases x with
      | char c =>
        rw [Piece.shown, Piece.char.injEq]
        cases hc : isSpaceChar c with
        | false =>
          rw [Bool.and_false, if_neg Bool.false_ne_true, mem_singleton, spaced_of_not_space hc]
        | true =>
          have hne : (0 : Byte) ≠ c := (spaceChar_class c hc).2.2.2.2.2.2.2.symm
          have hspace : (0 : Byte) ≠ ch ' ' := by decide
          rw [Bool.and_true, spaced_of_space hc]
          split_ifs
          · exact iff_of_false not_mem_nil hne
          · exact iff_of_false (fun h => hspace (mem_singleton.1 h)) hne
      | str q us =>
          exact iff_of_false (fun h => absurd (mem_singleton.1 h) (by decide)) (fun h => by cases h)
      | word w =>
        refine iff_of_false (fun h => ?_) (fun h => by cases h)
        rw [Piece.shown] at h
        split_ifs at h
        · exact absurd (mem_singleton.1 h) (by decide)
        · exact absurd (hx.isWord.chars 0 h) (by decide)
      | comment body => exact iff_of_false not_mem_nil (fun h => by cases h)
    rw [shownAll, mem_append, hshown, ih hpre, mem_cons]

/-- A character that a gap starts with. -/
def IsBlank (next : Option Byte) : Prop := ∃ c, next = some c ∧ (isSpaceChar c = true ∨ c = ch '/')

theorem IsBlank.class (h : IsBlank next) :
    ∀ c ∈ next, isTokenChar c = true ∧ c ≠ ch '*' ∧ ¬ IsQuote c ∧ c ≠ ch '#' := by
  obtain ⟨c, rfl, hc⟩ := h
  intro d hd
  obtain rfl := Option.some.inj (Option.mem_def.1 hd)
  rcases hc with hspace | rfl
  · obtain ⟨htoken, -, -, hstar, hq, hdq, hhash, -⟩ := spaceChar_class c hspace
    exact ⟨htoken, hstar, not_or.2 ⟨hq, hdq⟩, hhash⟩
  · decide

theorem Piece.Lexed.of_blank (h : x.Lexed ident next) (hblank : IsBlank next') :
    x.Lexed ident next' := by
  have hclass := hblank.class
  cases x with
  | char c =>
    obtain ⟨hquote, hhash, hdigit, -⟩ := h
    exact ⟨hquote, hhash, hdigit, fun _ heq => (hclass _ heq).2.1 rfl⟩
  | str q us =>
    obtain ⟨hq, hus, -⟩ := h
    exact ⟨hq, hus, fun heq => (hclass _ heq).2.2.1 hq⟩
  | word w =>
    obtain ⟨hident, hhead, hne, hw, -⟩ := h
    exact ⟨hident, hhead, hne, hw, fun c hc => (hclass c hc).1⟩
  | comment body => exact h

theorem Piece.InStep.of_blank (h : x.InStep p next)
    (hblank : IsBlank next') : x.InStep p next' := by
  have hclass := hblank.class
  cases x with
  | char c => exact h
  | str q us => trivial
  | word w => exact fun _ c hc => (hclass c hc).2.2
  | comment body => exact h

theorem head?_text_append (ps : List Piece) (rest rest' : List Byte) :
    (text ps ++ rest).head? = (text ps ++ rest').head? ∨ (text ps ++ rest').head? = rest'.head? := by
  cases htext : text ps with
  | nil => exact .inr rfl
  | cons c w => exact .inl rfl

theorem Lexed.of_blank {rest' : List Byte} (h : Lexed ident pre rest) (hblank : IsBlank rest'.head?) :
    Lexed ident pre rest' := by
  induction pre generalizing ident with
  | nil => trivial
  | cons x pre ih =>
    obtain ⟨hx, hpre⟩ := h
    refine ⟨?_, ih hpre⟩
    rcases head?_text_append pre rest rest' with heq | heq
    · rwa [← heq]
    · rw [heq]
      exact hx.of_blank hblank

theorem InStep.of_blank {rest' : List Byte} (h : InStep p pre rest) (hblank : IsBlank rest'.head?) :
    InStep p pre rest' := by
  induction pre generalizing p with
  | nil => trivial
  | cons x pre ih =>
    obtain ⟨hx, hpre⟩ := h
    refine ⟨?_, ih hpre⟩
    rcases head?_text_append pre rest rest' with heq | heq
    · rwa [← heq]
    · rw [heq]
      exact hx.of_blank hblank

theorem isBlank_gap (hne : gap ≠ []) (hgap : ∀ x ∈ gap, IsGap x) (post : List Byte) :
    IsBlank (text gap ++ post).head? := by
  obtain ⟨x, gap, rfl⟩ := exists_cons_of_ne_nil hne
  have hx := hgap x mem_cons_self
  cases x with
  | char c => exact ⟨c, rfl, .inl hx⟩
  | str q us => exact hx.elim
  | word w => exact hx.elim
  | comment body => exact ⟨ch '/', rfl, .inr rfl⟩

theorem digest_gap {post : List Byte} (hlex : Lexed false pre rest) (hstep : InStep 0 pre rest)
    (hne : gap ≠ []) (hgap : ∀ x ∈ gap, IsGap x) (hread : CommentsRead gap) (hpost : post ≠ []) :
    digest (text pre ++ text gap ++ post)
      = shownAll 0 pre ++ (gapShown (prevAfter 0 pre) gap ++ Scan.scan (.token (ch ' ') []) post) := by
  have hblank := isBlank_gap hne hgap post
  have hlen : 2 ≤ (text gap ++ post).length := by
    have htext : text gap ≠ [] := by
      intro hnil
      obtain ⟨c, hc, -⟩ := isBlank_gap hne hgap []
      rw [hnil] at hc
      cases hc
    have h1 := length_pos_iff.2 htext
    have h2 := length_pos_iff.2 hpost
    rw [length_append]
    omega
  have hframe :=
    Scan.scan_prepend (shownAll 0 pre ++ gapShown (prevAfter 0 pre) gap) (σ := .token (ch ' ') [])
    (fun h => absurd h (by decide)) post
  rw [digest, append_assoc, scan_pieces (hlex.of_blank hblank) (hstep.of_blank hblank)
    (fun h => absurd h Bool.false_ne_true) hlen, scan_gap hne hgap hread, nil_append,
    ← append_assoc, ← hframe, Scan.prepend, append_nil]

theorem text_map_char (ws : List Byte) : text (ws.map Piece.char) = ws := by
  induction ws with
  | nil => rfl
  | cons c ws ih => rw [map_cons, text_cons, ih]; rfl

theorem map_char_gap {ws : List Byte} (hne : ws ≠ []) (hws : ∀ c ∈ ws, isSpaceChar c = true) :
    ws.map Piece.char ≠ [] ∧ (∀ x ∈ ws.map Piece.char, IsGap x) ∧ CommentsRead (ws.map Piece.char) ∧
      StartsSpace (ws.map Piece.char) := by
  refine ⟨fun h => hne (map_eq_nil_iff.1 h), ?_, ?_, ?_⟩
  · intro x hx
    obtain ⟨c, hc, rfl⟩ := mem_map.1 hx
    exact hws c hc
  · intro body hbody
    obtain ⟨c, -, hc⟩ := mem_map.1 hbody
    cases hc
  · obtain ⟨c, ws, rfl⟩ := exists_cons_of_ne_nil hne
    exact ⟨c, rfl⟩

/-- A space is shown for the gap, as for whitespace, just if it starts with whitespace or none is shown for
    that. -/
theorem gapShown_eq_iff (hgap : ∀ x ∈ gap, IsGap x) :
    gapShown p gap = (if isSpaceChar p then [] else [ch ' ']) ↔ StartsSpace gap ∨ isSpaceChar p = true := by
  by_cases hstart : StartsSpace gap
  · exact iff_of_true (gapShown_startsSpace hgap hstart) (.inl hstart)
  · rw [gapShown_not_startsSpace hgap hstart]
    cases isSpaceChar p with
    | true => exact iff_of_true rfl (.inr rfl)
    | false => exact iff_of_false (fun h => by cases h) (fun h => h.elim hstart Bool.false_ne_true)

theorem cString_space_iff {a g g' r : List Byte} (hg : 0 ∉ g) (hg' : 0 ∉ g') :
    cString (a ++ (g ++ r)) = cString (a ++ (g' ++ r)) ↔ g' = g ∨ 0 ∈ a := by
  by_cases ha : 0 ∈ a
  · rw [cString_append_of_mem ha, cString_append_of_mem ha]
    exact iff_of_true rfl (.inr ha)
  · rw [cString_append_of_not_mem ha, cString_append_of_not_mem ha, cString_append_of_not_mem hg,
      cString_append_of_not_mem hg', append_cancel_left_eq, append_cancel_right_eq, eq_comm]
    exact ⟨.inl, fun h => h.resolve_right ha⟩

theorem zero_not_mem_gapShown (hgap : ∀ x ∈ gap, IsGap x) : 0 ∉ gapShown p gap := by
  by_cases hstart : StartsSpace gap
  · rw [gapShown_startsSpace hgap hstart]
    split_ifs <;> decide
  · rw [gapShown_not_startsSpace hgap hstart]
    exact not_mem_nil

/-- Replacing whitespace by a gap leaves the digest alone, just if the gap starts with whitespace, or
    `prev_char` is whitespace before it, or the digest ends before it. -/
theorem digest_spacing_iff (pre gap : List Piece) (ws post : List Byte) (hlex : Lexed false pre ws)
    (hstep : InStep 0 pre ws) (hws : ws ≠ [] ∧ ∀ c ∈ ws, isSpaceChar c = true)
    (hgap : gap ≠ [] ∧ ∀ x ∈ gap, IsGap x) (hread : CommentsRead gap) (hpost : post ≠ []) :
    queryDigest (text pre ++ ws ++ post) = queryDigest (text pre ++ text gap ++ post) ↔
      StartsSpace gap ∨ EndsSpace pre ∨ Piece.char 0 ∈ pre := by
  obtain ⟨hwsne, hwsgap, hwsread, hwsstart⟩ := map_char_gap hws.1 hws.2
  have hspace := digest_gap hlex hstep hwsne hwsgap hwsread hpost
  rw [text_map_char] at hspace
  rw [queryDigest_eq, queryDigest_eq, Option.some.injEq, hspace,
    digest_gap hlex hstep hgap.1 hgap.2 hread hpost,
    cString_space_iff (zero_not_mem_gapShown hwsgap) (zero_not_mem_gapShown hgap.2), zero_mem_shownAll hlex,
    gapShown_startsSpace hwsgap hwsstart, gapShown_eq_iff hgap.2, isSpaceChar_prevAfter, or_assoc]

/-- `a`, a space and `b`; then a tab and a comment for the space. -/
theorem digest_spacing_tab :
    queryDigest (text [Piece.char (ch 'a')] ++ [ch ' '] ++ [ch 'b'])
      = queryDigest (text [Piece.char (ch 'a')] ++ text [Piece.char tabChar, Piece.comment [ch 'x']] ++
        [ch 'b']) := by
  refine (digest_spacing_iff [Piece.char (ch 'a')] [Piece.char tabChar, Piece.comment [ch 'x']]
    [ch ' '] [ch 'b']
    (by decide +kernel) (by decide +kernel) (by decide) ⟨cons_ne_nil _ _, ?_⟩ ?_ (by decide)).2
    (.inl ⟨tabChar, rfl⟩)
  · intro x hx
    rcases mem_cons.1 hx with rfl | hx
    · rfl
    · rw [mem_singleton.1 hx]
      show ¬ [ch '*', ch '/'] <:+: [ch 'x']
      decide
  · intro body hbody
    rcases mem_cons.1 hbody with h | h
    · cases h
    · obtain rfl := Piece.comment.inj (mem_singleton.1 h)
      decide

/-- `a b` and `a/**/b` have different digests. -/
theorem digest_spacing_comment :
    queryDigest [ch 'a', ch ' ', ch 'b'] = some [ch 'a', ch ' ', ch 'b'] ∧
      queryDigest [ch 'a', ch '/', ch '*', ch '*', ch '/', ch 'b'] = some [ch 'a', ch 'b'] := by
  decide

end ProxySQL.Digest
