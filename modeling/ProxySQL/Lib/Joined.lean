/-
  ProxySQL.Lib.Joined

  Lists joined with a separator that is legal inside them.

  The separator is a pair of equal elements `c`.  Around a list without `c` the
  separators can be found again, from the left or from the right.  Between two lists
  that may contain `c` the cut is the only one exactly if no other pair is near
  (`Cuts`), and a list of a known kind without `c` between two separators is the only
  one exactly if no such list stands between two separators further on
  (`joined_unique_iff`).
-/
import Mathlib.Data.List.Infix

namespace Lib

open List

variable {α : Type} {c : α}

/-! ## Lists without the separator -/

theorem append_cons_inj_left {xs ys as bs : List α} (hxs : c ∉ xs) (hys : c ∉ ys)
    (h : xs ++ c :: as = ys ++ c :: bs) : xs = ys ∧ as = bs := by
  rcases append_eq_append_iff.1 h with ⟨ds, rfl, hds⟩ | ⟨ds, rfl, hds⟩
  · cases ds with
    | nil => exact ⟨(append_nil _).symm, (List.cons.inj hds).2⟩
    | cons d ds =>
      cases hds
      exact absurd (mem_append_right _ mem_cons_self) hys
  · cases ds with
    | nil => exact ⟨append_nil _, (List.cons.inj hds).2.symm⟩
    | cons d ds =>
      cases hds
      exact absurd (mem_append_right _ mem_cons_self) hxs

theorem append_cons_inj_right {xs ys as bs : List α} (has : c ∉ as) (hbs : c ∉ bs)
    (h : xs ++ c :: as = ys ++ c :: bs) : xs = ys ∧ as = bs := by
  have hrev := congrArg List.reverse h
  simp only [reverse_append, reverse_cons, append_assoc, singleton_append] at hrev
  obtain ⟨hasbs, hxsys⟩ := append_cons_inj_left (mt mem_reverse.1 has) (mt mem_reverse.1 hbs) hrev
  exact ⟨reverse_injective hxsys, reverse_injective hasbs⟩

theorem append_pair_inj_right {xs ys as bs : List α} (has : c ∉ as) (hbs : c ∉ bs)
    (h : xs ++ [c, c] ++ as = ys ++ [c, c] ++ bs) : xs = ys ∧ as = bs := by
  have hone : (xs ++ [c]) ++ c :: as = (ys ++ [c]) ++ c :: bs := by simpa using h
  obtain ⟨hxs, rfl⟩ := append_cons_inj_right has hbs hone
  exact ⟨(append_inj' hxs rfl).1, rfl⟩

theorem append_pair_inj_left {xs ys as bs : List α} (hxs : c ∉ xs) (hys : c ∉ ys)
    (h : xs ++ [c, c] ++ as = ys ++ [c, c] ++ bs) : xs = ys ∧ as = bs := by
  have hone : xs ++ c :: (c :: as) = ys ++ c :: (c :: bs) := by simpa using h
  obtain ⟨rfl, hrest⟩ := append_cons_inj_left hxs hys hone
  exact ⟨rfl, (List.cons.inj hrest).2⟩

/-! ## Two lists -/

/-- Between `us` and `ss` is the only pair in `us ++ [c, c] ++ ss`. -/
structure Cuts (c : α) (us ss : List α) : Prop where
  before : ¬[c, c] <:+: us
  touchesBefore : ¬[c] <:+ us
  after : ¬[c, c] <:+: ss
  touchesAfter : ¬[c] <+: ss

theorem pair_append_cases {xs ds rest : List α} (h : [c, c] ++ xs = ds ++ rest) :
    (ds = [] ∧ rest = [c, c] ++ xs) ∨ (ds = [c] ∧ rest = c :: xs) ∨ ∃ es, ds = [c, c] ++ es ∧
    xs = es ++ rest := by
  cases ds with
  | nil => exact .inl ⟨rfl, h.symm⟩
  | cons d ds =>
    obtain ⟨hd, h⟩ := List.cons.inj h
    rw [← hd]
    cases ds with
    | nil => exact .inr (.inl ⟨rfl, h.symm⟩)
    | cons e ds =>
      obtain ⟨he, h⟩ := List.cons.inj h
      rw [← he]
      exact .inr (.inr ⟨ds, rfl, h⟩)

theorem Cuts.unique {us ss us' ss' : List α} (h : Cuts c us ss)
    (heq : us' ++ [c, c] ++ ss' = us ++ [c, c] ++ ss) : us' = us ∧ ss' = ss := by
  rw [append_assoc, append_assoc] at heq
  rcases append_eq_append_iff.1 heq with ⟨ds, hus, hds⟩ | ⟨ds, hus, hds⟩
  · -- `us` goes on behind the other cut
    rcases pair_append_cases hds with ⟨rfl, hss⟩ | ⟨rfl, -⟩ | ⟨es, rfl, -⟩
    · exact ⟨by rw [hus, append_nil], (append_cancel_left hss).symm⟩
    · exact absurd ⟨us', hus.symm⟩ h.touchesBefore
    · exact absurd ⟨us', es, by rw [hus, append_assoc]⟩ h.before
  · rcases pair_append_cases hds with ⟨rfl, hss⟩ | ⟨rfl, hss⟩ | ⟨es, rfl, hss⟩
    · exact ⟨by rw [hus, append_nil], append_cancel_left hss⟩
    · exact absurd ⟨ss', (List.cons.inj hss).2⟩ h.touchesAfter
    · exact absurd ⟨es, ss', by rw [hss, append_assoc]⟩ h.after

/-- If the cut is the only one, no other pair is near. -/
theorem cuts_of_unique {us ss : List α}
    (h : ∀ us' ss', us' ++ [c, c] ++ ss' = us ++ [c, c] ++ ss → us' = us) : Cuts c us ss where
  before := by
    rintro ⟨xs, ys, rfl⟩
    have heq := congrArg length (h xs (ys ++ [c, c] ++ ss) (by simp))
    simp only [length_append, length_cons, length_nil] at heq
    omega
  touchesBefore := by
    rintro ⟨xs, rfl⟩
    have heq := congrArg length (h xs (c :: ss) (by simp))
    simp only [length_append, length_cons, length_nil] at heq
    omega
  after := by
    rintro ⟨xs, ys, rfl⟩
    have heq := congrArg length (h (us ++ [c, c] ++ xs) ys (by simp))
    simp only [length_append, length_cons, length_nil] at heq
    omega
  touchesAfter := by
    rintro ⟨ys, rfl⟩
    have heq := congrArg length (h (us ++ [c]) ys (by simp))
    simp only [length_append, length_cons, length_nil] at heq
    omega

/-! ## A list of a known kind among others -/

/-- Four lists, the third of a kind that has no `c` and is not empty. -/
structure Fields (c : α) (kind : List α → Prop) where
  us : List α
  ss : List α
  hs : List α
  as : List α
  kind_hs : kind hs

/-- The lists with separators between them. -/
def Fields.joined {kind : List α → Prop} (f : Fields c kind) : List α :=
  f.us ++ [c, c] ++ f.ss ++ [c, c] ++ f.hs ++ [c, c] ++ f.as

section Fields

variable {kind : List α → Prop} {f g : Fields c kind}

theorem Fields.split (f : Fields c kind) :
    f.joined = (f.us ++ [c, c] ++ f.ss) ++ ([c, c] ++ (f.hs ++ [c, c] ++ f.as)) := by
  simp only [joined, append_assoc]

theorem Fields.eq_of_split (hkind : ∀ xs, kind xs → c ∉ xs) (hcuts : Cuts c f.us f.ss)
    (hfront : g.us ++ [c, c] ++ g.ss = f.us ++ [c, c] ++ f.ss)
    (hback : g.hs ++ [c, c] ++ g.as = f.hs ++ [c, c] ++ f.as) : g = f := by
  obtain ⟨us, ss, hs, as, hhs⟩ := f
  obtain ⟨us', ss', hs', as', hhs'⟩ := g
  obtain ⟨rfl, rfl⟩ := hcuts.unique hfront
  obtain ⟨rfl, rfl⟩ := append_pair_inj_left (hkind _ hhs') (hkind _ hhs) hback
  rfl

theorem not_kind_of_cons (hkind : ∀ xs, kind xs → c ∉ xs) (hne : ∀ xs, kind xs → xs ≠ [])
    {xs ys zs : List α} (hxs : kind xs) : xs ++ ys ≠ c :: zs := by
  intro heq
  cases xs with
  | nil => exact hne [] hxs rfl
  | cons x xs =>
    cases heq
    exact hkind _ hxs mem_cons_self

/-- The lists can be read off the joined list exactly if the cut between the first two is the only
    one and no list of the kind stands between two separators further on. -/
theorem joined_unique_iff (hkind : ∀ xs, kind xs → c ∉ xs) (hne : ∀ xs, kind xs → xs ≠ []) :
    (∀ g : Fields c kind, g.joined = f.joined → g = f) ↔
      Cuts c f.us f.ss ∧ ∀ xs, kind xs → ¬[c, c] ++ xs ++ [c, c] <:+: [c, c] ++ f.as := by
  constructor
  · intro h
    refine ⟨cuts_of_unique fun us' ss' heq => ?_, fun xs hxs hinfix => ?_⟩
    · refine congrArg Fields.us (h { f with us := us', ss := ss' } ?_)
      rw [Fields.split, Fields.split, heq]
    · -- the list further on takes the place of `hs`
      obtain ⟨ds, as', hds⟩ := hinfix
      have heq :=
        h { us := f.us, ss := f.ss ++ [c, c] ++ f.hs ++ ds, hs := xs, as := as',
            kind_hs := hxs } (by
        have hjoined : f.joined = f.us ++ [c, c] ++ f.ss ++ [c, c] ++ f.hs ++ ([c, c] ++ f.as) := by
          simp only [Fields.joined, append_assoc]
        rw [hjoined, ← hds]
        simp only [Fields.joined, append_assoc])
      have hlength := congrArg (fun g => g.ss.length) heq
      simp only [length_append, length_cons, length_nil] at hlength
      omega
  · rintro ⟨hcuts, hfar⟩ g heq
    rw [Fields.split, Fields.split] at heq
    rcases append_eq_append_iff.1 heq with ⟨ds, hfront, hds⟩ | ⟨ds, hfront, hds⟩
    · -- the other separator would be in front of this one
      rcases pair_append_cases hds with ⟨rfl, hback⟩ | ⟨rfl, hback⟩ | ⟨es, rfl, -⟩
      · exact Fields.eq_of_split hkind hcuts (by rw [hfront, append_nil])
          (append_cancel_left hback).symm
      · refine absurd (List.cons.inj hback).2.symm ?_
        rw [append_assoc]
        exact not_kind_of_cons hkind hne g.kind_hs
      · have hfront' : g.us ++ [c, c] ++ (g.ss ++ [c, c] ++ es) = f.us ++ [c, c] ++ f.ss := by
          rw [hfront]
          simp only [append_assoc]
        exact absurd ⟨g.ss, es, (hcuts.unique hfront').2⟩ hcuts.after
    · rcases pair_append_cases hds with ⟨rfl, hback⟩ | ⟨rfl, hback⟩ | ⟨es, rfl, hback⟩
      · exact Fields.eq_of_split hkind hcuts (by rw [hfront, append_nil]) (append_cancel_left hback)
      · refine absurd (List.cons.inj hback).2.symm ?_
        rw [append_assoc]
        exact not_kind_of_cons hkind hne f.kind_hs
      · -- the other separator is behind `hs`, so what follows it is in front of `as` or inside
        rw [append_assoc f.hs] at hback
        rcases append_eq_append_iff.1 hback with ⟨ks, -, hks⟩ | ⟨ks, hhs, hks⟩
        · exact absurd ⟨ks, g.as, by rw [hks]; simp only [append_assoc]⟩ (hfar g.hs g.kind_hs)
        · cases ks with
          | nil => exact absurd ⟨[], g.as, by simpa using hks⟩ (hfar g.hs g.kind_hs)
          | cons k ks =>
            obtain ⟨rfl, -⟩ := List.cons.inj hks
            exact absurd (by rw [hhs]; exact mem_append_right _ mem_cons_self) (hkind _ f.kind_hs)

end Fields

end Lib
