/-
  ProxySQL.Alloc.Windows

  Which stacks make `compact_mem` release a block that is in use.

  `cmpptr` narrows the difference of two pointers to `int`, so slots of different
  blocks may compare equal, and the buffer may hold `NULL` besides.  The loop
  over the sorted buffer looks at the first and the last slot of a block only:
  the block is at risk when `qsort` may bring the two as far apart as they stand
  in a wholly free block (`Matches`).
-/
import ProxySQL.Alloc.Compaction
import Mathlib.Data.List.Count

namespace ProxySQL

open Lib List

/-! ## Narrowed differences -/

variable {c x : Nat}

theorem cmpptr_congr {a b d : Nat} (hac : ((a : Int) - c) % 2 ^ 32 = 0)
    (hbd : ((b : Int) - d) % 2 ^ 32 = 0) : cmpptr a b = cmpptr c d := by
  have hrange := toInt_range ((c : Int) - d)
  have hcongr := toInt_congr ((c : Int) - d)
  exact toInt_eq (by rw [cmpptr]; omega) hrange.1 hrange.2

/-! ## Where the first and the last slot may stand -/

/-- `qsort` may put the last slot of the block at `b` as many places behind the first one as a block
    has slots less one, with an entry behind it: both are in the buffer, and if `cmpptr` orders the
    buffer, there is room among the entries that compare equal to them. -/
structure Matches (n elemSize : Nat) (buff : List Nat) (b : Nat) : Prop where
  first : b ∈ buff
  last : b + lSfcMemBlockSize - elemSize ∈ buff
  longer : n < buff.length
  places : CmpptrOrders buff → ∃ k, 0 < k
    ∧ MayStand CmpLe buff (b + lSfcMemBlockSize - elemSize) k ∧ MayStand CmpLe buff b (k + n - 1)

section Places

variable {n elemSize b : Nat} {buff ys : List Nat}

theorem last_above_first (hpos : 0 < elemSize) (hlt : elemSize < lSfcMemBlockSize) :
    ¬CmpLe (b + lSfcMemBlockSize - elemSize) b := by
  simp only [CmpLe, cmpptr, toInt, Int.bmod, lSfcMemBlockSize] at *
  omega

theorem cmpLe_refl (x : Nat) : CmpLe x x := by
  rw [CmpLe, cmpptr, Int.sub_self]
  decide

theorem matches_of_window (hpos : 0 < elemSize) (hlt : elemSize < lSfcMemBlockSize)
    (hq : Qsorted buff ys) (hwindow : Window n elemSize ys b) : Matches n elemSize buff b := by
  obtain ⟨-, before, mid, after, hafter, rfl, rfl⟩ := hwindow
  have hmem := fun x => (hq.perm.mem_iff (a := x)).1
  have hb := hmem b (by simp)
  have hz := hmem (b + lSfcMemBlockSize - elemSize) (by simp)
  have hlen := hq.perm.length_eq
  have hsome := length_pos_of_ne_nil hafter
  refine ⟨hb, hz, ?_, fun hordered => ⟨after.length, hsome, ?_⟩⟩
  · simp only [length_append, length_cons] at hlen
    omega
  · have hindex : after.length + (mid.length + 2) - 1 = mid.length + 1 + after.length := by omega
    rw [hindex]
    exact (exists_sorted_apart_iff hordered.ordersOn hb hz (last_above_first hpos hlt) _ _).1
      ⟨before, mid, after, hq.perm, hq.sorted hordered, rfl, rfl⟩

/-- A comparison that orders nothing: the two slots may come first. -/
theorem exists_front (hn : 2 ≤ n) (hne : b + lSfcMemBlockSize - elemSize ≠ b)
    (hm : Matches n elemSize buff b) (hunordered : ¬CmpptrOrders buff) :
    ∃ mid after, after ≠ [] ∧ mid.length + 2 = n
      ∧ Qsorted buff (b :: (mid ++ (b + lSfcMemBlockSize - elemSize) :: after)) := by
  have hfirst := perm_cons_erase hm.first
  have hz := (mem_erase_of_ne hne).2 hm.last
  have hlast := perm_cons_erase hz
  obtain ⟨rest, hrest⟩ : ∃ rest, (buff.erase b).erase (b + lSfcMemBlockSize - elemSize) = rest :=
    ⟨_, rfl⟩
  rw [hrest] at hlast
  have hperm := hfirst.trans (hlast.cons b)
  have hlen := hperm.length_eq
  have hlonger := hm.longer
  simp only [length_cons] at hlen
  refine ⟨rest.take (n - 2), rest.drop (n - 2), ?_, ?_, ?_, fun h => absurd h hunordered⟩
  · exact ne_nil_of_length_pos (by rw [length_drop]; omega)
  · rw [length_take]
    omega
  · refine (List.Perm.cons b ?_).trans hperm.symm
    refine perm_middle.trans (List.Perm.cons _ ?_)
    rw [take_append_drop]

/-- The block at `b` starts, in the sorted buffer, within the window of the block at `c`. -/
structure StartsWithin (elemSize : Nat) (ys : List Nat) (b c : Nat) : Prop where
  aligned : c % lSfcMemBlockSize = 0
  first : c ∈ ys
  last : c + lSfcMemBlockSize - elemSize ∈ ys
  above : CmpLe c b
  below : CmpLe b (c + lSfcMemBlockSize - elemSize)

theorem StartsWithin.subset {zs : List Nat} (h : StartsWithin elemSize ys b c) (hsub : ys ⊆ zs) :
    StartsWithin elemSize zs b c :=
  { h with first := hsub h.first, last := hsub h.last }

/-- The loop finds a window of a sorted buffer, or another one within which its block starts. -/
theorem found_or_within (hn : 2 ≤ n) (hsorted : ys.Pairwise CmpLe)
    (hwindow : Window n elemSize ys b) : b ∈ (scanSortBuff n elemSize ys).1
      ∨ ∃ c ∈ (scanSortBuff n elemSize ys).1, StartsWithin elemSize ys b c := by
  induction ys using scanSortBuff.induct n elemSize with
  | case1 =>
    obtain ⟨-, before, mid, after, -, -, heq⟩ := hwindow
    simp at heq
  | case2 v1 rest htest ih =>
    obtain ⟨hv1, mid₁, after₁, hafter₁, hmid₁, rfl⟩ := (scan_test_iff hn).1 htest
    obtain ⟨hb, before, mid, after, hafter, hmid, heq⟩ := hwindow
    rw [scanSortBuff, if_pos htest]
    have hdrop : (mid₁ ++ (v1 + lSfcMemBlockSize - elemSize) :: after₁).drop (n - 1) = after₁ := by
      rw [append_cons, drop_left' (by rw [length_append, length_singleton]; omega)]
    rw [hdrop] at ih ⊢
    rw [append_cons, ← cons_append] at hsorted heq ⊢
    obtain ⟨hhead, hrest, -⟩ := pairwise_append.1 hsorted
    by_cases hlater : Window n elemSize after₁ b
    · rcases ih hrest hlater with h | ⟨c, hc, hwithin⟩
      · exact .inl (mem_cons_of_mem _ h)
      · exact .inr ⟨c, mem_cons_of_mem _ hc, hwithin.subset (subset_append_right _ _)⟩
    · -- The window does not start behind the block just found, so it starts in it.
      have hmem : b ∈ v1 :: (mid₁ ++ [v1 + lSfcMemBlockSize - elemSize]) := by
        rcases append_eq_append_iff.1 heq with ⟨as, -, has⟩ | ⟨bs, hbs, has⟩
        · exact absurd ⟨hb, as, mid, after, hafter, hmid, has⟩ hlater
        · cases bs with
          | nil => exact absurd ⟨hb, [], mid, after, hafter, hmid, has.symm⟩ hlater
          | cons v bs =>
            rw [hbs, (List.cons.inj has).1]
            simp
      obtain ⟨hfirst, hpair⟩ := pairwise_cons.1 hhead
      rcases mem_cons.1 hmem with rfl | hmem
      · exact .inl mem_cons_self
      · refine .inr ⟨v1, mem_cons_self, hv1, by simp, by simp, hfirst b hmem, ?_⟩
        rcases mem_append.1 hmem with hin | hin
        · exact (pairwise_append.1 hpair).2.2 b hin _ (mem_singleton_self _)
        · rw [mem_singleton.1 hin]
          exact cmpLe_refl _
  | case3 v1 rest htest ih =>
    rw [scanSortBuff, if_neg htest]
    obtain ⟨hb, before, mid, after, hafter, hmid, heq⟩ := hwindow
    cases before with
    | nil =>
      cases heq
      exact absurd ((scan_test_iff hn).2 ⟨hb, mid, after, hafter, hmid, rfl⟩) htest
    | cons v before =>
      have hrest := (List.cons.inj heq).2
      rcases ih (pairwise_cons.1 hsorted).2 ⟨hb, before, mid, after, hafter, hmid, hrest⟩ with
        h | ⟨c, hc, hwithin⟩
      · exact .inl h
      · exact .inr ⟨c, hc, hwithin.subset (subset_cons_self _ _)⟩

/-! ## Blocks that compare equal -/

theorem StartsWithin.same (h : StartsWithin elemSize ys b c) (hb : b % lSfcMemBlockSize = 0)
    (hpos : 0 < elemSize) (hlt : elemSize < lSfcMemBlockSize) : ((b : Int) - c) % 2 ^ 32 = 0 := by
  obtain ⟨hc, -, -, habove, hbelow⟩ := h
  simp only [CmpLe, cmpptr, toInt, Int.bmod, lSfcMemBlockSize] at *
  omega

/-- The first and the last slots of two blocks, exchanged. -/
def exchange (elemSize b c : Nat) : Equiv.Perm Nat :=
  (Equiv.swap (b + lSfcMemBlockSize - elemSize) (c + lSfcMemBlockSize - elemSize)).trans
    (Equiv.swap b c)

theorem map_swap_perm {a : Nat} (h : ys.count a = ys.count c) :
    (ys.map (Equiv.swap a c)).Perm ys := by
  refine perm_iff_count.2 fun x => ?_
  have hcount := count_map_of_injective ys _ (Equiv.swap a c).injective (Equiv.swap a c x)
  rw [Equiv.swap_apply_self] at hcount
  rw [hcount, Equiv.swap_apply_def]
  split_ifs with ha hc
  · rw [ha, h]
  · rw [hc, h]
  · rfl

section Exchange

variable {c : Nat} (hb : b % lSfcMemBlockSize = 0) (hc : c % lSfcMemBlockSize = 0)
  (hpos : 0 < elemSize) (hlt : elemSize < lSfcMemBlockSize)

include hb hc hpos hlt

theorem exchange_aligned (hx : x % lSfcMemBlockSize = 0) :
    exchange elemSize b c x = Equiv.swap b c x := by
  have hne : x ≠ b + lSfcMemBlockSize - elemSize ∧ x ≠ c + lSfcMemBlockSize - elemSize := by
    simp only [lSfcMemBlockSize] at *
    omega
  rw [exchange, Equiv.trans_apply, Equiv.swap_apply_of_ne_of_ne hne.1 hne.2]

theorem exchange_unaligned (hx : x % lSfcMemBlockSize ≠ 0) : exchange elemSize b c x
      = Equiv.swap (b + lSfcMemBlockSize - elemSize) (c + lSfcMemBlockSize - elemSize) x := by
  rw [exchange, Equiv.trans_apply, Equiv.swap_apply_of_ne_of_ne]
  all_goals
    rw [Equiv.swap_apply_def]
    split_ifs <;> simp only [lSfcMemBlockSize] at * <;> omega

theorem exchange_aligned_iff (x : Nat) :
    exchange elemSize b c x % lSfcMemBlockSize = 0 ↔ x % lSfcMemBlockSize = 0 := by
  by_cases hx : x % lSfcMemBlockSize = 0
  · rw [exchange_aligned hb hc hpos hlt hx, Equiv.swap_apply_def]
    split_ifs <;> simp [hb, hc, hx]
  · rw [exchange_unaligned hb hc hpos hlt hx, Equiv.swap_apply_def]
    split_ifs <;> simp only [lSfcMemBlockSize] at * <;> omega

theorem exchange_last (hx : x % lSfcMemBlockSize = 0) :
    exchange elemSize b c (x + lSfcMemBlockSize - elemSize)
      = exchange elemSize b c x + lSfcMemBlockSize - elemSize := by
  have hunaligned : (x + lSfcMemBlockSize - elemSize) % lSfcMemBlockSize ≠ 0 := by
    simp only [lSfcMemBlockSize] at *
    omega
  rw [exchange_aligned hb hc hpos hlt hx, exchange_unaligned hb hc hpos hlt hunaligned,
    Equiv.swap_apply_def, Equiv.swap_apply_def]
  split_ifs <;> simp only [lSfcMemBlockSize] at * <;> omega

theorem scan_exchange (n : Nat) (ys : List Nat) :
    (scanSortBuff n elemSize (ys.map (exchange elemSize b c))).1
      = (scanSortBuff n elemSize ys).1.map (exchange elemSize b c) := by
  have htest : ∀ v1 (rest : List Nat), (n < (rest.map (exchange elemSize b c)).length + 1
        ∧ exchange elemSize b c v1 % lSfcMemBlockSize = 0
        ∧ (exchange elemSize b c v1 :: rest.map (exchange elemSize b c))[n - 1]?
          = some (exchange elemSize b c v1 + lSfcMemBlockSize - elemSize))
      ↔ (n < rest.length + 1 ∧ v1 % lSfcMemBlockSize = 0
        ∧ (v1 :: rest)[n - 1]? = some (v1 + lSfcMemBlockSize - elemSize)) := by
    intro v1 rest
    rw [length_map, exchange_aligned_iff hb hc hpos hlt, ← map_cons, getElem?_map]
    refine and_congr_right fun _ => and_congr_right fun halign => ?_
    rw [← exchange_last hb hc hpos hlt halign, ← Option.map_some,
      (Option.map_injective (exchange elemSize b c).injective).eq_iff]
  induction ys using scanSortBuff.induct n elemSize with
  | case1 => simp [scanSortBuff]
  | case2 v1 rest hhit ih =>
    rw [map_cons, scanSortBuff, if_pos ((htest v1 rest).2 hhit), scanSortBuff, if_pos hhit]
    dsimp only
    rw [← map_drop, ih, map_cons]
  | case3 v1 rest hmiss ih =>
    rw [map_cons, scanSortBuff, if_neg fun h => hmiss ((htest v1 rest).1 h), scanSortBuff,
      if_neg hmiss]
    exact ih

end Exchange

theorem exchange_cmpptr (hlt : elemSize < lSfcMemBlockSize)
    (hsame : ((b : Int) - c) % 2 ^ 32 = 0) (x y : Nat) :
    cmpptr (exchange elemSize b c x) (exchange elemSize b c y) = cmpptr x y := by
  have hcongr : ∀ x, (((exchange elemSize b c x : Nat) : Int) - x) % 2 ^ 32 = 0 := by
    intro x
    rw [exchange, Equiv.trans_apply, Equiv.swap_apply_def, Equiv.swap_apply_def]
    split_ifs <;> simp only [lSfcMemBlockSize] at * <;> omega
  exact cmpptr_congr (hcongr x) (hcongr y)

end Places

/-! ## Stacks -/

section Stack

variable {sfc : LSfc} {words : Words} {stk : List Nat} {b : Nat}

theorem buff_nodup (h : sfc.Stacked words stk) :
    ((copyToSortBuff words sfc).filter (· ≠ 0)).Nodup := by
  rw [copyToSortBuff, h.chain.walk_eq, filter_append]
  have hnull : ∀ k, (replicate k 0).filter (· ≠ 0) = [] := fun k => by simp
  rw [hnull, append_nil]
  exact (h.nodup.sublist (take_sublist _ _)).filter _

theorem mem_of_mem_buff (h : sfc.Stacked words stk) (hx : x ∈ copyToSortBuff words sfc)
    (hne : x ≠ 0) : x ∈ stk := by
  rw [copyToSortBuff, h.chain.walk_eq] at hx
  rcases mem_append.1 hx with hx | hx
  · exact mem_of_mem_take hx
  · exact absurd (eq_of_mem_replicate hx) hne

theorem stk_ge (h : sfc.Stacked words stk) (hx : x ∈ stk) : lSfcMemBlockSize ≤ x := by
  obtain ⟨b, hb, hslot⟩ := LSfc.mem_slots.1 (h.slots x hx)
  obtain ⟨hne, halign, -⟩ := h.aligned b hb
  have hle := (blockSlots_within hslot).1
  simp only [lSfcMemBlockSize] at *
  omega

theorem buff_count (h : sfc.Stacked words stk) (hx : x ∈ copyToSortBuff words sfc) (hne : x ≠ 0) :
    (copyToSortBuff words sfc).count x = 1 := by
  have hmem : x ∈ (copyToSortBuff words sfc).filter (· ≠ 0) := mem_filter.2 ⟨hx, by simpa using hne⟩
  rw [← count_eq_one_of_mem (buff_nodup h) hmem, count_filter (by simpa using hne)]

/-- A sorted buffer with a window is, up to blocks that compare equal, one in which it is found. -/
theorem exists_found_of_window (h : sfc.Stacked words stk) {ys : List Nat} (hb : b ≠ 0)
    (hordered : CmpptrOrders (copyToSortBuff words sfc))
    (hq : Qsorted (copyToSortBuff words sfc) ys) (hwindow : Window sfc.perBlock sfc.elemSize ys b) :
    ∃ ys, Qsorted (copyToSortBuff words sfc) ys ∧
    b ∈ (scanSortBuff sfc.perBlock sfc.elemSize ys).1 := by
  have hn : 2 ≤ sfc.perBlock := le_trans (by decide) h.perBlock_ge
  have hpos := h.elemSize_pos
  have hlt : sfc.elemSize < lSfcMemBlockSize := by
    have hle := h.elemSize.mul_le
    omega
  rcases found_or_within hn (hq.sorted hordered) hwindow with hfound | ⟨c, hfound, hwithin⟩
  · exact ⟨ys, hq, hfound⟩
  · have halign := hwindow.1
    have hsame := hwithin.same halign hpos hlt
    have hcount : ∀ x ∈ ys, x ≠ 0 → ys.count x = 1 := by
      intro x hx hne
      rw [hq.perm.count_eq]
      exact buff_count h (hq.perm.mem_iff.1 hx) hne
    obtain ⟨-, before, mid, after, -, -, hys⟩ := hwindow
    have hfirstB : b ∈ ys := by rw [hys]; simp
    have hlastB : b + lSfcMemBlockSize - sfc.elemSize ∈ ys := by rw [hys]; simp
    have hc : c + lSfcMemBlockSize - sfc.elemSize ≠ 0 := by omega
    have hc0 : c ≠ 0 := by
      have hge := stk_ge h (mem_of_mem_buff h (hq.perm.mem_iff.1 hwithin.last) hc)
      omega
    refine ⟨ys.map (exchange sfc.elemSize b c), ⟨List.Perm.trans ?_ hq.perm, fun _ => ?_⟩, ?_⟩
    · rw [exchange, Equiv.coe_trans, ← map_map]
      have hlasts :=
        map_swap_perm ((hcount _ hlastB (by omega)).trans (hcount _ hwithin.last hc).symm)
      refine (map_swap_perm ?_).trans hlasts
      rw [hlasts.count_eq, hlasts.count_eq, hcount b hfirstB hb, hcount c hwithin.first hc0]
    · rw [pairwise_map]
      exact (hq.sorted hordered).imp fun hxy => by rwa [exchange_cmpptr hlt hsame]
    · rw [scan_exchange halign hwithin.aligned hpos hlt]
      refine mem_map.2 ⟨c, hfound, ?_⟩
      rw [exchange_aligned halign hwithin.aligned hpos hlt hwithin.aligned, Equiv.swap_apply_right]

/-- A block that matches is found in some order `qsort` may give. -/
theorem exists_found (h : sfc.Stacked words stk) (hb : b ∈ sfc.memBlocks)
    (hm : Matches sfc.perBlock sfc.elemSize (copyToSortBuff words sfc) b) :
    ∃ ys, Qsorted (copyToSortBuff words sfc) ys ∧
    b ∈ (scanSortBuff sfc.perBlock sfc.elemSize ys).1 := by
  have hn : 2 ≤ sfc.perBlock := le_trans (by decide) h.perBlock_ge
  have hpos := h.elemSize_pos
  have hle := h.elemSize.mul_le
  obtain ⟨hne, halign, -⟩ := h.aligned b hb
  by_cases hordered : CmpptrOrders (copyToSortBuff words sfc)
  · obtain ⟨k, hk, hlast, hfirst⟩ := hm.places hordered
    have hindex : k + sfc.perBlock - 1 = sfc.perBlock - 2 + 1 + k := by omega
    rw [hindex] at hfirst
    obtain ⟨before, mid, after, hperm, hsorted, hmid, hafter⟩ :=
      (exists_sorted_apart_iff hordered.ordersOn hm.first hm.last
        (last_above_first hpos (by omega)) _ _).2 ⟨hlast, hfirst⟩
    refine exists_found_of_window h hne hordered ⟨hperm, fun _ => hsorted⟩
      ⟨halign, before, mid, after, ?_, by omega, rfl⟩
    exact ne_nil_of_length_pos (by omega)
  · obtain ⟨mid, after, hafter, hmid, hq⟩ := exists_front hn (by omega) hm hordered
    exact ⟨_, hq, head_mem_scan hn halign hafter hmid⟩

theorem exists_released (h : sfc.Stacked words stk) (hb : b ∈ sfc.memBlocks)
    (hm : Matches sfc.perBlock sfc.elemSize (copyToSortBuff words sfc) b) :
    ∃ ys, Qsorted (copyToSortBuff words sfc) ys ∧ b ∈ sfc.released words fun _ => ys := by
  obtain ⟨ys, hq, hfound⟩ := exists_found h hb hm
  refine ⟨ys, hq, ?_⟩
  have helems : ¬sfc.elems < 0 := by
    intro hneg
    have hlong := hm.longer
    rw [copyToSortBuff, length_walk] at hlong
    omega
  rw [LSfc.released, if_neg helems]
  exact mem_filter.2 ⟨hb, decide_eq_true hfound⟩

theorem matches_of_released (h : sfc.Stacked words stk) {qsort : List Nat → List Nat}
    (hq : Qsorted (copyToSortBuff words sfc) (qsort (copyToSortBuff words sfc)))
    (hb : b ∈ sfc.released words qsort) :
    b ∈ sfc.memBlocks ∧ Matches sfc.perBlock sfc.elemSize (copyToSortBuff words sfc) b := by
  have hn : 2 ≤ sfc.perBlock := le_trans (by decide) h.perBlock_ge
  have hpos := h.elemSize_pos
  have hle := h.elemSize.mul_le
  rw [LSfc.released] at hb
  split at hb
  · exact absurd hb not_mem_nil
  · obtain ⟨hmem, hfound⟩ := mem_filter.1 hb
    exact ⟨hmem, matches_of_window hpos (by omega) hq
      (window_of_mem_scan hn (of_decide_eq_true hfound))⟩

/-- `compact_mem` releases wholly free blocks only, whatever order `qsort` gives the buffer, if and
    only if no block with a slot in use matches. -/
theorem released_free_iff (h : sfc.Stacked words stk) :
    (∀ qsort, Qsorted (copyToSortBuff words sfc) (qsort (copyToSortBuff words sfc)) →
        ∀ b ∈ sfc.released words qsort, ∀ x ∈ blockSlots sfc.elemSize b, x ∈ stk)
      ↔ ∀ b ∈ sfc.memBlocks, (∃ x ∈ blockSlots sfc.elemSize b, x ∉ stk) →
          ¬Matches sfc.perBlock sfc.elemSize (copyToSortBuff words sfc) b := by
  constructor
  · rintro hfree b hb ⟨x, hx, hused⟩ hm
    obtain ⟨ys, hq, hreleased⟩ := exists_released h hb hm
    exact hused (hfree (fun _ => ys) hq b hreleased x hx)
  · intro hno qsort hq b hb x hx
    obtain ⟨hmem, hm⟩ := matches_of_released h hq hb
    by_contra hused
    exact hno b hmem ⟨x, hx, hused⟩ hm

end Stack

/-- Two blocks 4 GiB apart, one wholly free and one with its first slot free. -/
theorem released_free_far :
    ∃ (sfc : LSfc) (words : Words), sfc.memBlocks = [262144, 262144 + 2 ^ 32]
      ∧ sfc.Stacked words (blockSlots 256 262144 ++ [262144 + 2 ^ 32])
      ∧ ∀ qsort, Qsorted (copyToSortBuff words sfc) (qsort (copyToSortBuff words sfc)) →
          ∀ b ∈ sfc.released words qsort, ∀ x ∈ blockSlots sfc.elemSize b,
            x ∈ blockSlots 256 262144 ++ [262144 + 2 ^ 32] := by
  have hsize : IsElemSize 256 := ⟨5, by decide, by decide⟩
  have hplaced : Placed [262144, 262144 + 2 ^ 32] := ⟨by decide, by decide⟩
  have hbelow : ∀ x ∈ blockSlots 256 262144, x < 524288 := by
    intro x hx
    have hwithin := blockSlots_within hx
    simp only [lSfcMemBlockSize] at hwithin
    omega
  obtain ⟨sfc, words, h, hblocks, helem, hfree, hbuff⟩ := exists_stacked hplaced hsize
    (blockSlots 256 262144 ++ [262144 + 2 ^ 32]) 0
    (nodup_append.2 ⟨nodup_blockSlots (by decide), nodup_singleton _, fun x hx y hy => by
      have hlt := hbelow x hx
      rw [mem_singleton.1 hy]
      omega⟩)
    (fun x hx => by
      rcases mem_append.1 hx with hx | hx
      · exact ⟨262144, by simp, hx⟩
      · exact ⟨262144 + 2 ^ 32, by simp, mem_singleton.1 hx ▸ hsize.first_slot _⟩)
    (by rw [length_append, length_blockSlots]; decide)
  refine ⟨sfc, words, hblocks, h, (released_free_iff h).2 fun b hb hused hm => ?_⟩
  obtain ⟨x, hx, hused⟩ := hused
  rw [helem] at hx
  rw [hblocks] at hb
  rcases mem_cons.1 hb with rfl | hb
  · exact hused (mem_append_left _ hx)
  · -- The last slot of the second block is not in the buffer.
    obtain rfl := mem_singleton.1 hb
    have hlast := hm.last
    rw [hbuff, helem, replicate_zero, append_nil] at hlast
    rcases mem_append.1 hlast with hin | hin
    · exact absurd (hbelow _ hin) (by decide)
    · exact absurd (mem_singleton.1 hin) (by decide)

/-! ## A block in use that is released -/

section Crossed

variable {n elemSize a b c : Nat} {buff : List Nat}

theorem Matches.of_span (hn : 0 < n) (hb : b ∈ buff) (hz : b + lSfcMemBlockSize - elemSize ∈ buff)
    (hlen : buff.length = n + 1) (hlow : ∀ x ∈ buff, CmpLe b x)
    (habove : countAbove CmpLe buff (b + lSfcMemBlockSize - elemSize) ≤ 1)
    (hover : 1 < countFrom CmpLe buff (b + lSfcMemBlockSize - elemSize)) :
    Matches n elemSize buff b := by
  refine ⟨hb, hz, by omega, fun _ => ⟨1, Nat.one_pos, ⟨habove, hover⟩, ?_⟩⟩
  have hleast : countFrom CmpLe buff b = buff.length :=
    countP_eq_length.2 fun x hx => by simpa using hlow x hx
  have hfew : countAbove CmpLe buff b < buff.length :=
    countP_lt_length_iff.2 ⟨b, hb, by simpa using cmpLe_refl b⟩
  constructor
  · omega
  · omega

/-- The first and the last slot of the block at `a`, and all slots of the one at `c` but its
    first. -/
def crossed (elemSize a c : Nat) : List Nat :=
  a :: (a + lSfcMemBlockSize - elemSize) :: (blockSlots elemSize c).erase c

section Facts

variable (hsize : IsElemSize elemSize) (ha : a % lSfcMemBlockSize = 0)
  (hc : c % lSfcMemBlockSize = 0)

include hsize

theorem mem_crossed : x ∈ crossed elemSize a c ↔ x = a ∨ x = a + lSfcMemBlockSize - elemSize
      ∨ x ≠ c ∧ x ∈ blockSlots elemSize c := by
  rw [crossed, mem_cons, mem_cons, (nodup_blockSlots hsize.pos).mem_erase_iff]

theorem length_crossed : (crossed elemSize a c).length = lSfcMemBlockSize / elemSize + 1 := by
  have hge := hsize.perBlock_ge
  simp only [crossed, length_cons, length_erase_of_mem (hsize.first_slot c), length_blockSlots]
  omega

include ha hc

theorem nodup_crossed (hne : a ≠ c) : (crossed elemSize a c).Nodup := by
  have hapart := blocks_apart ha hc hne
  have hle := hsize.mul_le
  have hpos := hsize.pos
  have hout : ∀ x ∈ (blockSlots elemSize c).erase c, x ≠ a ∧
    x ≠ a + lSfcMemBlockSize - elemSize := by
    intro x hx
    have hwithin := blockSlots_within (mem_of_mem_erase hx)
    omega
  refine nodup_cons.2 ⟨?_, nodup_cons.2 ⟨fun hin => (hout _ hin).2 rfl, ?_⟩⟩
  · intro hin
    rcases mem_cons.1 hin with heq | hin
    · omega
    · exact (hout _ hin).1 rfl
  · exact (nodup_blockSlots hpos).erase c

theorem second_not_mem_crossed (hne : a ≠ c) : a + elemSize ∉ crossed elemSize a c := by
  have hapart := blocks_apart ha hc hne
  have hle := hsize.mul_le
  have hpos := hsize.pos
  rw [mem_crossed hsize]
  rintro (heq | heq | ⟨-, hslot⟩)
  · omega
  · omega
  · have hwithin := blockSlots_within hslot
    omega

theorem matches_crossed (hsame : ((a : Int) - c) % 2 ^ 32 = 0) :
    Matches (lSfcMemBlockSize / elemSize) elemSize (crossed elemSize a c) a := by
  have hle := hsize.mul_le
  have hpos := hsize.pos
  have hge := hsize.perBlock_ge
  have hlast : c + (lSfcMemBlockSize - elemSize) ∈ (blockSlots elemSize c).erase c :=
    (mem_erase_of_ne (by omega)).2 (hsize.last_slot c)
  have hall : ∀ x ∈ crossed elemSize a c, CmpLe a x ∧
    CmpLe x (a + lSfcMemBlockSize - elemSize) := by
    intro x hx
    have hoff : ∃ o ≤ lSfcMemBlockSize - elemSize, ((x : Int) - (a + o)) % 2 ^ 32 = 0 := by
      rcases (mem_crossed hsize).1 hx with rfl | rfl | ⟨-, hslot⟩
      · exact ⟨0, Nat.zero_le _, by simp⟩
      · exact ⟨_, Nat.le_refl _, by omega⟩
      · have hwithin := blockSlots_within hslot
        exact ⟨x - c, by omega, by omega⟩
    obtain ⟨o, ho, hx⟩ := hoff
    simp only [CmpLe, cmpptr, toInt, Int.bmod, lSfcMemBlockSize] at *
    omega
  refine Matches.of_span (by omega) mem_cons_self (mem_cons_of_mem _ mem_cons_self)
    (length_crossed hsize) (fun x hx => (hall x hx).1) ?_ ?_
  · rw [countAbove, countP_eq_zero.2 fun x hx => by simpa using (hall x hx).2]
    exact Nat.zero_le 1
  · -- Its own last slot and the one of the other block.
    have hother : CmpLe (a + lSfcMemBlockSize - elemSize) (c + (lSfcMemBlockSize - elemSize)) := by
      simp only [CmpLe, cmpptr, toInt, Int.bmod, lSfcMemBlockSize] at *
      omega
    have hcount : 0 < ((blockSlots elemSize c).erase c).countP fun x =>
        CmpLe (a + lSfcMemBlockSize - elemSize) x :=
      countP_pos_iff.2 ⟨_, hlast, by simpa using hother⟩
    rw [countFrom, crossed, countP_cons, countP_cons_of_pos (by simpa using cmpLe_refl _)]
    omega

end Facts

/-- Two blocks whose addresses are equal in their low halves, among any blocks: with this stack the
    one at `a` may be released while its second slot is in use. -/
theorem exists_used_released {blocks : List Nat} (hplaced : Placed blocks)
    (hsize : IsElemSize elemSize) (ha : a ∈ blocks) (hc : c ∈ blocks) (hne : a ≠ c)
    (hsame : ((a : Int) - c) % 2 ^ 32 = 0) :
    ∃ (sfc : LSfc) (words : Words), sfc.memBlocks = blocks ∧ sfc.elemSize = elemSize
      ∧ sfc.Stacked words (crossed elemSize a c) ∧ sfc.freeCnt = lSfcMemBlockSize / elemSize + 1
      ∧ ∃ ys, Qsorted (copyToSortBuff words sfc) ys ∧ a ∈ sfc.released words (fun _ => ys)
        ∧ a + elemSize ∈ blockSlots elemSize a ∧ a + elemSize ∉ crossed elemSize a c := by
  have haligned := (hplaced.aligned a ha).2.1
  have hcaligned := (hplaced.aligned c hc).2.1
  have hle := hsize.mul_le
  have hlen : (crossed elemSize a c).length = lSfcMemBlockSize / elemSize + 1 :=
    length_crossed hsize
  have hslots : ∀ x ∈ crossed elemSize a c, ∃ b ∈ blocks, x ∈ blockSlots elemSize b := by
    intro x hx
    rcases (mem_crossed hsize).1 hx with rfl | rfl | ⟨-, hslot⟩
    · exact ⟨x, ha, hsize.first_slot x⟩
    · refine ⟨a, ha, ?_⟩
      rw [Nat.add_sub_assoc (by omega)]
      exact hsize.last_slot a
    · exact ⟨c, hc, hslot⟩
  have hfits : (crossed elemSize a c).length + 0 < 2 ^ 31 := by
    have hper := Nat.div_le_self lSfcMemBlockSize elemSize
    simp only [lSfcMemBlockSize] at *
    omega
  obtain ⟨sfc, words, h, hblocks, helem, hfree, hbuff⟩ := exists_stacked hplaced hsize _ 0
    (nodup_crossed hsize haligned hcaligned hne) hslots hfits
  obtain ⟨ys, hq, hreleased⟩ := exists_released h (b := a) (by rw [hblocks]; exact ha) (by
    rw [hbuff, LSfc.perBlock, helem, replicate_zero, append_nil]
    exact matches_crossed hsize haligned hcaligned hsame)
  exact ⟨sfc, words, hblocks, helem, h, by rw [hfree, hlen], ys, hq, hreleased, hsize.second_slot a,
    second_not_mem_crossed hsize haligned hcaligned hne⟩

/-- Two blocks 4 GiB apart: the first one is released while its second slot is in use. -/
theorem releases_used_block :
    ∃ (sfc : LSfc) (words : Words), sfc.memBlocks = [262144, 262144 + 2 ^ 32] ∧ sfc.elemSize = 256
      ∧ sfc.Stacked words (crossed 256 262144 (262144 + 2 ^ 32)) ∧ sfc.freeCnt = 1025
      ∧ ∃ ys, Qsorted (copyToSortBuff words sfc) ys ∧ 262144 ∈ sfc.released words (fun _ => ys)
        ∧ 262400 ∈ blockSlots 256 262144 ∧ 262400 ∉ crossed 256 262144 (262144 + 2 ^ 32) :=
  exists_used_released ⟨by decide, by decide⟩ ⟨5, by decide, by decide⟩ (by simp) (by simp)
    (by decide) (by decide)

end Crossed

end ProxySQL
