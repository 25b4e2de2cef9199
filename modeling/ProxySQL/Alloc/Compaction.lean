/-
  ProxySQL.Alloc.Compaction

  What `compact_mem` releases and what it leaves on the stack.

  The loop over the sorted buffer releases a block when the buffer holds the
  block's first slot and, as many places further as a block has slots less one,
  its last slot (`Window`); it does not look at what stands between them, and it
  stops before the last entry of the buffer.
-/
import ProxySQL.Alloc.Slots

namespace ProxySQL

open Lib List

/-! ## The loop over the sorted buffer -/

/-- The first and the last slot of the block at `b` stand `n - 1` places apart, and something stands
    behind them. -/
def Window (n elemSize : Nat) (buff : List Nat) (b : Nat) : Prop :=
  b % lSfcMemBlockSize = 0 ∧ ∃ before mid after, after ≠ [] ∧ mid.length + 2 = n
    ∧ buff = before ++ b :: (mid ++ (b + lSfcMemBlockSize - elemSize) :: after)

section Scan

variable {n elemSize b : Nat} {buff : List Nat}

theorem scan_test_iff (hn : 2 ≤ n) {v1 : Nat} {rest : List Nat} :
    (n < rest.length + 1 ∧ v1 % lSfcMemBlockSize = 0
        ∧ (v1 :: rest)[n - 1]? = some (v1 + lSfcMemBlockSize - elemSize))
      ↔ v1 % lSfcMemBlockSize = 0 ∧ ∃ mid after, after ≠ [] ∧ mid.length + 2 = n
          ∧ rest = mid ++ (v1 + lSfcMemBlockSize - elemSize) :: after := by
  constructor
  · rintro ⟨hlen, haligned, hlast⟩
    obtain ⟨k, rfl⟩ : ∃ k, n = k + 2 := ⟨n - 2, by omega⟩
    have hlast : rest[k]? = some (v1 + lSfcMemBlockSize - elemSize) := hlast
    obtain ⟨hk, hget⟩ := List.getElem?_eq_some_iff.1 hlast
    refine ⟨haligned, rest.take k, rest.drop (k + 1), ?_, ?_, ?_⟩
    · exact ne_nil_of_length_pos (by rw [length_drop]; omega)
    · rw [length_take]
      omega
    · rw [← hget, getElem_cons_drop, take_append_drop]
  · rintro ⟨haligned, mid, after, hafter, rfl, rfl⟩
    have hpos := length_pos_of_ne_nil hafter
    refine ⟨?_, haligned, ?_⟩
    · simp only [length_append, length_cons]
      omega
    · have hindex : mid.length + 2 - 1 = mid.length + 1 := rfl
      rw [hindex, getElem?_cons_succ, getElem?_append_right (Nat.le_refl _), Nat.sub_self]
      rfl

theorem window_of_mem_scan (hn : 2 ≤ n) (h : b ∈ (scanSortBuff n elemSize buff).1) :
    Window n elemSize buff b := by
  induction buff using scanSortBuff.induct n elemSize with
  | case1 => simp [scanSortBuff] at h
  | case2 v1 rest htest ih =>
    rw [scanSortBuff, if_pos htest] at h
    obtain ⟨haligned, mid, after, hafter, hmid, hrest⟩ := (scan_test_iff hn).1 htest
    rcases mem_cons.1 h with rfl | h
    · exact ⟨haligned, [], mid, after, hafter, hmid, by rw [hrest]; rfl⟩
    · obtain ⟨hb, before, mid', after', hafter', hmid', heq⟩ := ih h
      refine ⟨hb, v1 :: rest.take (n - 1) ++ before, mid', after', hafter', hmid', ?_⟩
      rw [append_assoc, ← heq, cons_append, take_append_drop]
  | case3 v1 rest htest ih =>
    rw [scanSortBuff, if_neg htest] at h
    obtain ⟨hb, before, mid, after, hafter, hmid, heq⟩ := ih h
    exact ⟨hb, v1 :: before, mid, after, hafter, hmid, by rw [heq]; rfl⟩

theorem head_mem_scan (hn : 2 ≤ n) {mid after : List Nat} (hb : b % lSfcMemBlockSize = 0)
    (hafter : after ≠ []) (hmid : mid.length + 2 = n) :
    b ∈ (scanSortBuff n elemSize (b :: (mid ++ (b + lSfcMemBlockSize - elemSize) :: after))).1 := by
  rw [scanSortBuff, if_pos ((scan_test_iff hn).2 ⟨hb, mid, after, hafter, hmid, rfl⟩)]
  exact mem_cons_self ..

theorem scan_eq_nil (hn : 2 ≤ n) (h : (scanSortBuff n elemSize buff).1 = []) :
    (∀ b, ¬Window n elemSize buff b) ∧ (scanSortBuff n elemSize buff).2 = buff := by
  induction buff using scanSortBuff.induct n elemSize with
  | case1 =>
    refine ⟨?_, by simp [scanSortBuff]⟩
    rintro b ⟨-, before, mid, after, -, -, heq⟩
    simp at heq
  | case2 v1 rest htest ih =>
    rw [scanSortBuff, if_pos htest] at h
    exact absurd h (cons_ne_nil _ _)
  | case3 v1 rest htest ih =>
    rw [scanSortBuff, if_neg htest] at h ⊢
    obtain ⟨hno, hsame⟩ := ih h
    refine ⟨?_, congrArg (v1 :: ·) hsame⟩
    rintro b ⟨hb, before, mid, after, hafter, hmid, heq⟩
    cases before with
    | nil =>
      cases heq
      exact htest ((scan_test_iff hn).2 ⟨hb, mid, after, hafter, hmid, rfl⟩)
    | cons v before =>
      exact hno b ⟨hb, before, mid, after, hafter, hmid, (List.cons.inj heq).2⟩

theorem scan_sublist : (scanSortBuff n elemSize buff).1.Sublist buff := by
  induction buff using scanSortBuff.induct n elemSize with
  | case1 => simp [scanSortBuff]
  | case2 v1 rest htest ih =>
    rw [scanSortBuff, if_pos htest]
    exact (ih.trans (drop_sublist _ _)).cons_cons v1
  | case3 v1 rest htest ih =>
    rw [scanSortBuff, if_neg htest]
    exact ih.cons v1

theorem length_scan (hn : 2 ≤ n) : (scanSortBuff n elemSize buff).2.length = buff.length := by
  induction buff using scanSortBuff.induct n elemSize with
  | case1 => simp [scanSortBuff]
  | case2 v1 rest htest ih =>
    rw [scanSortBuff, if_pos htest]
    simp only [length_append, length_replicate, length_cons, ih, length_drop]
    omega
  | case3 v1 rest htest ih =>
    rw [scanSortBuff, if_neg htest]
    simp [ih]

theorem scan_kept_sublist : ((scanSortBuff n elemSize buff).2.filter (· ≠ 0)).Sublist buff := by
  induction buff using scanSortBuff.induct n elemSize with
  | case1 => simp [scanSortBuff]
  | case2 v1 rest htest ih =>
    rw [scanSortBuff, if_pos htest]
    have hzeros : (replicate n 0).filter (· ≠ 0) = [] := by simp
    rw [filter_append, hzeros, nil_append]
    exact (ih.trans (drop_sublist _ _)).cons v1
  | case3 v1 rest htest ih =>
    rw [scanSortBuff, if_neg htest]
    rw [filter_cons]
    split
    · exact ih.cons_cons v1
    · exact ih.cons v1

theorem length_scan_kept (hn : 2 ≤ n) (hnull : ∀ x ∈ buff, x ≠ 0) :
    ((scanSortBuff n elemSize buff).2.filter (· ≠ 0)).length +
      (scanSortBuff n elemSize buff).1.length * n = buff.length := by
  induction buff using scanSortBuff.induct n elemSize with
  | case1 => simp [scanSortBuff]
  | case2 v1 rest htest ih =>
    rw [scanSortBuff, if_pos htest]
    have hzeros : (replicate n 0).filter (· ≠ 0) = [] := by simp
    have hrest := ih fun x hx => hnull x (mem_cons_of_mem _ (mem_of_mem_drop hx))
    rw [length_drop] at hrest
    rw [filter_append, hzeros, nil_append, length_cons, length_cons, Nat.succ_mul]
    omega
  | case3 v1 rest htest ih =>
    rw [scanSortBuff, if_neg htest]
    have hrest := ih fun x hx => hnull x (mem_cons_of_mem _ hx)
    dsimp only
    rw [filter_cons_of_pos (by simpa using hnull v1 mem_cons_self), length_cons,
      length_cons]
    omega

theorem getLast?_scan (hn : 2 ≤ n) : (scanSortBuff n elemSize buff).2.getLast? = buff.getLast? := by
  induction buff using scanSortBuff.induct n elemSize with
  | case1 => simp [scanSortBuff]
  | case2 v1 rest htest ih =>
    have hleft : rest.drop (n - 1) ≠ [] := ne_nil_of_length_pos (by rw [length_drop]; omega)
    have hout : (scanSortBuff n elemSize (rest.drop (n - 1))).2 ≠ [] := by
      refine ne_nil_of_length_pos ?_
      rw [length_scan hn]
      exact length_pos_of_ne_nil hleft
    rw [scanSortBuff, if_pos htest]
    rw [getLast?_append_of_ne_nil _ hout, ih]
    have hsplit : v1 :: rest = (v1 :: rest.take (n - 1)) ++ rest.drop (n - 1) := by
      rw [cons_append, take_append_drop]
    rw [hsplit, getLast?_append_of_ne_nil _ hleft]
  | case3 v1 rest htest ih =>
    rw [scanSortBuff, if_neg htest]
    rw [getLast?_cons, getLast?_cons, ih]

end Scan

/-! ## The class that is compacted -/

/-- Blocks at different aligned addresses of the 64-bit address space. -/
structure Placed (blocks : List Nat) : Prop where
  nodup : blocks.Nodup
  aligned : ∀ b ∈ blocks, b ≠ 0 ∧ b % lSfcMemBlockSize = 0 ∧ b + lSfcMemBlockSize ≤ 2 ^ 64

/-- The slot sizes of `l_mem_init`. -/
def IsElemSize (elemSize : Nat) : Prop := ∃ i < lSfpArrayLen, elemSize = lSfcMinElemSize * 2 ^ i

/-- The stack of the class holds the slots `stk` of its blocks, each once. -/
structure LSfc.Stacked (sfc : LSfc) (words : Words) (stk : List Nat) : Prop where
  elemSize : IsElemSize sfc.elemSize
  placed : Placed sfc.memBlocks
  count : sfc.blocksCnt = sfc.memBlocks.length
  chain : Chain words 0 sfc.stack stk
  nodup : stk.Nodup
  slots : ∀ x ∈ stk, x ∈ sfc.slots

namespace IsElemSize

variable {elemSize : Nat}

theorem perBlock_mul (h : IsElemSize elemSize) :
    lSfcMemBlockSize / elemSize * elemSize = lSfcMemBlockSize := by
  obtain ⟨i, hi, rfl⟩ := h
  revert i
  decide

theorem perBlock_ge (h : IsElemSize elemSize) : 1024 ≤ lSfcMemBlockSize / elemSize := by
  obtain ⟨i, hi, rfl⟩ := h
  revert i
  decide

theorem pos (h : IsElemSize elemSize) : 0 < elemSize := by
  obtain ⟨i, -, rfl⟩ := h
  exact Nat.mul_pos (by decide) (Nat.two_pow_pos i)

theorem mul_le (h : IsElemSize elemSize) : elemSize * 1024 ≤ lSfcMemBlockSize := by
  rw [← h.perBlock_mul, Nat.mul_comm]
  exact Nat.mul_le_mul_right _ h.perBlock_ge

theorem second_slot (h : IsElemSize elemSize) (b : Nat) : b + elemSize ∈ blockSlots elemSize b := by
  have hge := h.perBlock_ge
  exact mem_blockSlots.2 ⟨1, by omega, by omega⟩

theorem first_slot (h : IsElemSize elemSize) (b : Nat) : b ∈ blockSlots elemSize b := by
  have hge := h.perBlock_ge
  exact mem_blockSlots.2 ⟨0, by omega, by omega⟩

theorem last_slot (h : IsElemSize elemSize) (b : Nat) :
    b + (lSfcMemBlockSize - elemSize) ∈ blockSlots elemSize b := by
  have hmul := h.perBlock_mul
  have hge := h.perBlock_ge
  obtain ⟨k, hk⟩ : ∃ k, lSfcMemBlockSize / elemSize = k + 1 :=
    ⟨lSfcMemBlockSize / elemSize - 1, by omega⟩
  refine mem_blockSlots.2 ⟨k, by omega, ?_⟩
  rw [hk, Nat.succ_mul] at hmul
  omega

end IsElemSize

namespace LSfc.Stacked

variable {sfc : LSfc} {words : Words} {stk : List Nat}

theorem blocks (h : sfc.Stacked words stk) : sfc.memBlocks.Nodup := h.placed.nodup

theorem aligned (h : sfc.Stacked words stk) :
    ∀ b ∈ sfc.memBlocks, b ≠ 0 ∧ b % lSfcMemBlockSize = 0 ∧ b + lSfcMemBlockSize ≤ 2 ^ 64 :=
  h.placed.aligned

theorem perBlock_ge (h : sfc.Stacked words stk) : 1024 ≤ sfc.perBlock := h.elemSize.perBlock_ge

theorem elemSize_pos (h : sfc.Stacked words stk) : 0 < sfc.elemSize := h.elemSize.pos

theorem ne_zero (h : sfc.Stacked words stk) : ∀ x ∈ stk, x ≠ 0 := h.chain.ne_null

theorem block_of_aligned (h : sfc.Stacked words stk) {x : Nat} (hx : x ∈ stk)
    (haligned : x % lSfcMemBlockSize = 0) : x ∈ sfc.memBlocks := by
  obtain ⟨b, hb, hslot⟩ := LSfc.mem_slots.1 (h.slots x hx)
  have hwithin := blockSlots_within hslot
  have hb0 := (h.aligned b hb).2.1
  have hpos := h.elemSize_pos
  have heq : x = b := by
    simp only [lSfcMemBlockSize] at haligned hb0 hwithin
    omega
  exact heq ▸ hb

end LSfc.Stacked

/-! ## The stack after the compaction -/

/-- The class afterwards, `released` being the blocks passed to `free`: the stack holds what it held
    but for their slots, and blocks and counters went down by them. -/
structure CompactedTo (stk : List Nat) (sfc : LSfc) (released : List Nat) (words' : Words)
    (sfc' : LSfc) : Prop where
  stack : ∃ stk', Chain words' 0 sfc'.stack stk' ∧ stk'.Nodup
    ∧ ∀ x, x ∈ stk' ↔ x ∈ stk ∧ ∀ b ∈ released, x ∉ blockSlots sfc.elemSize b
  memBlocks : sfc'.memBlocks = sfc.memBlocks.filter (· ∉ released)
  blocksCnt : sfc'.blocksCnt + released.length = sfc.blocksCnt
  allocCnt : sfc'.allocCnt + released.length * sfc.perBlock = sfc.allocCnt
  freeCnt : sfc'.freeCnt + released.length * sfc.perBlock = sfc.freeCnt

theorem sortStack_chain (words : Words) (sfc : LSfc) (buff : List Nat)
    (hlen : sfc.freeCnt ≤ buff.length) (hnodup : ((buff.take sfc.freeCnt).filter (· ≠ 0)).Nodup) :
    ∃ words' s, sortStack words sfc buff = some (words', { sfc with stack := s })
      ∧ Chain words' 0 s ((buff.take sfc.freeCnt).filter (· ≠ 0)).reverse := by
  have hempty : Chain words 0 0 [] := rfl
  have hchain := hempty.pushAll hnodup (fun _ _ => not_mem_nil)
    fun x hx => by simpa using (mem_filter.1 hx).2
  rw [append_nil] at hchain
  exact ⟨_, _, if_pos hlen, hchain⟩

variable {words : Words} {sfc : LSfc} {buff : List Nat} {r : Words × LSfc}

theorem sortStack_some
    (hnodup : (buff.filter (· ≠ 0)).Nodup) (h : sortStack words sfc buff = some r) :
    r.2.freeCnt = sfc.freeCnt ∧
    Chain r.1 0 r.2.stack ((buff.take sfc.freeCnt).filter (· ≠ 0)).reverse := by
  by_cases hlen : sfc.freeCnt ≤ buff.length
  · have hsub := (take_sublist sfc.freeCnt buff).filter (· ≠ 0)
    obtain ⟨words', s, hsort, hchain⟩ := sortStack_chain words sfc buff hlen (hnodup.sublist hsub)
    rw [hsort] at h
    cases h
    exact ⟨rfl, hchain⟩
  · rw [sortStack, if_neg hlen] at h
    cases h

/-- A `free_cnt` beyond `int`: the first `malloc` fails, or `__sort_stack` leaves the buffer. -/
theorem compactMem_of_large {qsort : List Nat → List Nat}
    (hq : Qsorted (copyToSortBuff words sfc) (qsort (copyToSortBuff words sfc)))
    (hn : 2 ≤ sfc.perBlock) (hlarge : 2 ^ 31 ≤ sfc.freeCnt) :
    compactMem words sfc qsort = none := by
  rw [compactMem]
  split
  · rfl
  · have hlen : (sfc.found words qsort).2.length = sfc.elems.toNat := by
      rw [LSfc.found, length_scan hn, hq.perm.length_eq, copyToSortBuff, Lib.length_walk]
    have hlt := (toInt_range sfc.freeCnt).2
    have hover : ¬sfc.freeCnt ≤ (sfc.found words qsort).2.length := by
      rw [hlen, LSfc.elems]
      omega
    have hsort : ∀ w, sortStack w sfc (sfc.found words qsort).2 = none := fun w => if_neg hover
    dsimp only
    rw [dropFreeBlocks]
    split
    · exact hsort words
    · rw [hsort words]
      rfl

section Exact

variable {sfc : LSfc} {words : Words} {stk : List Nat} {qsort : List Nat → List Nat}

theorem copyToSortBuff_eq (h : sfc.Stacked words stk) (hcnt : sfc.freeCnt = stk.length)
    (hlt : sfc.freeCnt < 2 ^ 31) : copyToSortBuff words sfc = stk := by
  rw [copyToSortBuff, LSfc.elems, toInt_of_lt hlt, Int.toNat_natCast, h.chain.walk_eq, hcnt]
  simp

theorem compactMem_last {found : List Nat × List Nat}
    (hfound : sfc.found words qsort = found) (hr : compactMem words sfc qsort = some r) :
    ∃ words' sfc', sortStack words' sfc' found.2 = some r := by
  rw [compactMem, hfound] at hr
  split at hr
  · cases hr
  · obtain ⟨r', -, hlast⟩ := Option.bind_eq_some_iff.1 hr
    exact ⟨r'.1, r'.2, hlast⟩

theorem found_eq (h : sfc.Stacked words stk) (hcnt : sfc.freeCnt = stk.length)
    (hlt : sfc.freeCnt < 2 ^ 31) :
    sfc.found words qsort = scanSortBuff sfc.perBlock sfc.elemSize (qsort stk) := by
  rw [LSfc.found, copyToSortBuff_eq h hcnt hlt]

theorem elems_nonneg (hlt : sfc.freeCnt < 2 ^ 31) : ¬sfc.elems < 0 := by
  rw [LSfc.elems, toInt_of_lt hlt]
  omega

theorem compactedTo_of_no_window (h : sfc.Stacked words stk) (hcnt : sfc.freeCnt = stk.length)
    (hlt : sfc.freeCnt < 2 ^ 31) (hq : Qsorted stk (qsort stk))
    (hno : ∀ b, ¬Window sfc.perBlock sfc.elemSize (qsort stk) b) :
    ∃ r, compactMem words sfc qsort = some r ∧
    CompactedTo stk sfc (sfc.released words qsort) r.1 r.2 := by
  have hn : 2 ≤ sfc.perBlock := by have := h.perBlock_ge; omega
  have hfound : sfc.found words qsort = ([], qsort stk) := by
    rw [found_eq h hcnt hlt]
    have hnil : (scanSortBuff sfc.perBlock sfc.elemSize (qsort stk)).1 = [] :=
      eq_nil_iff_forall_not_mem.2 fun b hb => hno b (window_of_mem_scan hn hb)
    exact Prod.ext hnil (scan_eq_nil hn hnil).2
  have hreleased : sfc.released words qsort = [] := by
    rw [LSfc.released, if_neg (elems_nonneg hlt), hfound]
    simp
  have hlen : sfc.freeCnt = (qsort stk).length := by rw [hcnt, hq.perm.length_eq]
  have hall : ((qsort stk).take sfc.freeCnt).filter (· ≠ 0) = qsort stk := by
    rw [hlen, take_length, filter_eq_self]
    intro x hx
    simpa using h.ne_zero x (hq.perm.mem_iff.1 hx)
  have hnodup : (((qsort stk).take sfc.freeCnt).filter (· ≠ 0)).Nodup := by
    rw [hall]
    exact hq.perm.nodup_iff.2 h.nodup
  obtain ⟨words', s, hsort, hchain⟩ := sortStack_chain words sfc (qsort stk) hlen.le hnodup
  rw [hall] at hchain
  refine ⟨(words', { sfc with stack := s }), ?_, ?_⟩
  · rw [compactMem, if_neg (elems_nonneg hlt), hfound]
    exact hsort
  · rw [hreleased]
    refine ⟨⟨(qsort stk).reverse, hchain, ?_, fun x => ?_⟩, ?_, rfl, ?_, ?_⟩
    · exact nodup_reverse.2 (hq.perm.nodup_iff.2 h.nodup)
    · rw [mem_reverse, hq.perm.mem_iff]
      simp
    · simp
    · simp
    · simp

theorem released_perm (h : sfc.Stacked words stk) (hcnt : sfc.freeCnt = stk.length)
    (hlt : sfc.freeCnt < 2 ^ 31) (hq : Qsorted stk (qsort stk)) :
    (sfc.released words qsort).Perm (sfc.found words qsort).1 := by
  have hn : 2 ≤ sfc.perBlock := by have := h.perBlock_ge; omega
  rw [LSfc.released, if_neg (elems_nonneg hlt), found_eq h hcnt hlt]
  refine (perm_ext_iff_of_nodup (h.blocks.filter _) ?_).2 fun b => ?_
  · exact (hq.perm.nodup_iff.2 h.nodup).sublist scan_sublist
  · simp only [mem_filter, decide_eq_true_eq, and_iff_right_iff_imp]
    intro hb
    have hstk := hq.perm.mem_iff.1 (scan_sublist.subset hb)
    exact h.block_of_aligned hstk (window_of_mem_scan hn hb).1

theorem length_filter_blocks_le {stk : List Nat} (hnodup : stk.Nodup) (elemSize : Nat)
    (released : List Nat) : (stk.filter fun x => ∃ b ∈ released, x ∈ blockSlots elemSize b).length
      ≤ released.length * (lSfcMemBlockSize / elemSize) := by
  have hsub : (stk.filter fun x => ∃ b ∈ released, x ∈ blockSlots elemSize b)
      ⊆ released.flatMap (blockSlots elemSize) := by
    intro x hx
    obtain ⟨-, hin⟩ := mem_filter.1 hx
    exact mem_flatMap.2 (of_decide_eq_true hin)
  refine ((subperm_of_subset (hnodup.filter _) hsub).length_le).trans ?_
  simp [length_blockSlots]

theorem length_filter_take_lt {p : Nat → Bool} {k : Nat}
    (hlast : ∀ x, buff.getLast? = some x → p x = true) (hk : k < buff.length) :
    ((buff.take k).filter p).length < (buff.filter p).length := by
  have hne : buff.drop k ≠ [] := ne_nil_of_length_pos (by rw [length_drop]; omega)
  have hdrop : (buff.drop k).getLast hne ∈ (buff.drop k).filter p := by
    refine mem_filter.2 ⟨getLast_mem hne, hlast _ ?_⟩
    rw [getLast_drop, getLast?_eq_some_getLast]
  have hpos := length_pos_of_mem hdrop
  have hsplit := congrArg (fun l => (l.filter p).length) (take_append_drop k buff)
  simp only [filter_append, length_append] at hsplit
  omega

/-- Something is released: the second `__sort_stack` drops at least one slot that no block released
    holds. -/
theorem not_compactedTo_of_window (h : sfc.Stacked words stk) (hcnt : sfc.freeCnt = stk.length)
    (hlt : sfc.freeCnt < 2 ^ 31) (hq : Qsorted stk (qsort stk)) {b : Nat}
    (hwindow : Window sfc.perBlock sfc.elemSize (qsort stk) b)
    (hr : compactMem words sfc qsort = some r) :
    ¬CompactedTo stk sfc (sfc.released words qsort) r.1 r.2 := by
  intro hc
  have hn : 2 ≤ sfc.perBlock := by have := h.perBlock_ge; omega
  have hperm := released_perm h hcnt hlt hq
  obtain ⟨found, hfound⟩ : ∃ found, sfc.found words qsort = found := ⟨_, rfl⟩
  have hscan : scanSortBuff sfc.perBlock sfc.elemSize (qsort stk) = found := by
    rw [← found_eq h hcnt hlt, hfound]
  rw [hfound] at hperm
  have hne : found.1 ≠ [] := by
    intro hnil
    rw [← hscan] at hnil
    exact (scan_eq_nil hn hnil).1 b hwindow
  have hnull : ∀ x ∈ qsort stk, x ≠ 0 := fun x hx => h.ne_zero x (hq.perm.mem_iff.1 hx)
  have hlen : found.2.length = sfc.freeCnt := by
    rw [← hscan, length_scan hn, hq.perm.length_eq, hcnt]
  have hkept : (found.2.filter (· ≠ 0)).length + found.1.length * sfc.perBlock = sfc.freeCnt := by
    rw [← hscan, length_scan_kept hn hnull, hq.perm.length_eq, hcnt]
  have hkeptNodup : (found.2.filter (· ≠ 0)).Nodup := by
    rw [← hscan]
    exact (hq.perm.nodup_iff.2 h.nodup).sublist scan_kept_sublist
  obtain ⟨words', sfc', hsort⟩ := compactMem_last hfound hr
  obtain ⟨hfree, hchain⟩ := sortStack_some hkeptNodup hsort
  obtain ⟨stk', hstk', hstkNodup, hmem⟩ := hc.stack
  obtain rfl := hchain.unique hstk'
  have hcount := hc.freeCnt
  have hpos : 0 < found.1.length * sfc.perBlock :=
    Nat.mul_pos (length_pos_of_ne_nil hne) (by omega)
  rw [hperm.length_eq, hfree] at hcount
  -- The entry that is cut off is not `NULL`, so fewer entries are pushed than `free_cnt` counts.
  have hcut : ((found.2.take sfc'.freeCnt).filter (· ≠ 0)).length <
    (found.2.filter (· ≠ 0)).length := by
    refine length_filter_take_lt (fun x hx => ?_) (by omega)
    rw [← hscan, getLast?_scan hn] at hx
    simpa using hnull x (mem_of_getLast? hx)
  -- What should be on the stack is at least that much.
  have hexpected : stk.length ≤ (found.2.take sfc'.freeCnt |>.filter (· ≠ 0)).length +
    found.1.length * sfc.perBlock := by
    have hsplit := length_eq_length_filter_add (l := stk)
      fun x => decide (∃ b ∈ sfc.released words qsort, x ∈ blockSlots sfc.elemSize b)
    have hin := length_filter_blocks_le h.nodup sfc.elemSize (sfc.released words qsort)
    have hout : (stk.filter fun x => !decide (∃ b ∈ sfc.released words qsort,
      x ∈ blockSlots sfc.elemSize b)).Perm
        ((found.2.take sfc'.freeCnt).filter (· ≠ 0)).reverse := by
      refine (perm_ext_iff_of_nodup (h.nodup.filter _) hstkNodup).2 fun x => ?_
      rw [hmem x, mem_filter]
      simp
    have houtLen := hout.length_eq
    rw [length_reverse] at houtLen
    rw [hperm.length_eq] at hin
    have hper : lSfcMemBlockSize / sfc.elemSize = sfc.perBlock := rfl
    rw [hper] at hin
    omega
  omega

/-- `compact_mem` keeps every slot that no released block holds, whatever order `qsort` gives the
    slots, if and only if `free_cnt` fits an `int` and no such order has a window, so that nothing
    can be released. -/
theorem compaction_exact_iff (h : sfc.Stacked words stk) (hcnt : sfc.freeCnt = stk.length) :
    (∀ qsort, Qsorted (copyToSortBuff words sfc) (qsort (copyToSortBuff words sfc)) →
        ∃ r, compactMem words sfc qsort = some r ∧
        CompactedTo stk sfc (sfc.released words qsort) r.1 r.2)
      ↔ sfc.freeCnt < 2 ^ 31 ∧ ∀ ys, Qsorted stk ys →
      ∀ b, ¬Window sfc.perBlock sfc.elemSize ys b := by
  have hn : 2 ≤ sfc.perBlock := by have := h.perBlock_ge; omega
  constructor
  · intro hexact
    have hlt : sfc.freeCnt < 2 ^ 31 := by
      by_contra hlarge
      obtain ⟨ys, hys⟩ := exists_qsorted (copyToSortBuff words sfc)
      obtain ⟨r, hr, -⟩ := hexact (fun _ => ys) hys
      rw [compactMem_of_large hys hn (Nat.not_lt.1 hlarge)] at hr
      cases hr
    refine ⟨hlt, fun ys hys b hwindow => ?_⟩
    have hbuff := copyToSortBuff_eq h hcnt hlt
    obtain ⟨r, hr, hc⟩ := hexact (fun _ => ys) (by rw [hbuff]; exact hys)
    refine not_compactedTo_of_window h hcnt hlt (b := b) ?_ ?_ hr hc
    · exact hys
    · exact hwindow
  · rintro ⟨hlt, hno⟩ qsort hq
    rw [copyToSortBuff_eq h hcnt hlt] at hq
    exact compactedTo_of_no_window h hcnt hlt hq (hno _ hq)

end Exact

/-- A class with the slots `stk` on its stack, the buffer being padded with `pad` times `NULL`. -/
theorem exists_stacked {blocks : List Nat} {elemSize : Nat} (hplaced : Placed blocks)
    (hsize : IsElemSize elemSize) (stk : List Nat) (pad : Nat) (hnodup : stk.Nodup)
    (hslots : ∀ x ∈ stk, ∃ c ∈ blocks, x ∈ blockSlots elemSize c)
    (hlen : stk.length + pad < 2 ^ 31) :
    ∃ (sfc : LSfc) (words : Words), sfc.Stacked words stk ∧ sfc.memBlocks = blocks ∧
    sfc.elemSize = elemSize
      ∧ sfc.freeCnt = stk.length + pad ∧ copyToSortBuff words sfc = stk ++ replicate pad 0 := by
  have hnull : ∀ x ∈ stk, x ≠ 0 := by
    intro x hx
    obtain ⟨c, hc, hslot⟩ := hslots x hx
    have hne := (hplaced.aligned c hc).1
    have hle := (blockSlots_within hslot).1
    omega
  obtain ⟨words, s, hchain⟩ := Lib.exists_chain hnodup hnull
  refine ⟨LSfc.mk s blocks elemSize blocks.length 0 (stk.length + pad) 0, words, ?_, rfl,
    rfl, rfl, ?_⟩
  · exact ⟨hsize, hplaced, rfl, hchain, hnodup, fun x hx => LSfc.mem_slots.2 (hslots x hx)⟩
  · rw [copyToSortBuff, LSfc.elems, toInt_of_lt hlen, Int.toNat_natCast, hchain.walk_eq]
    rw [take_of_length_le (Nat.le_add_right _ _), Nat.add_sub_cancel_left]

/-- The slots of one block and nothing behind them: the loop stops before the block can be found
    free, so all of them are kept. -/
theorem compaction_exact_block :
    ∃ (sfc : LSfc) (words : Words), sfc.Stacked words (blockSlots 256 262144) ∧ sfc.freeCnt = 1024
      ∧ ∀ qsort, Qsorted (copyToSortBuff words sfc) (qsort (copyToSortBuff words sfc)) →
          ∃ r, compactMem words sfc qsort = some r
            ∧ CompactedTo (blockSlots 256 262144) sfc (sfc.released words qsort) r.1 r.2 := by
  have hsize : IsElemSize 256 := ⟨5, by decide, by decide⟩
  have hplaced : Placed [262144] := ⟨by decide, by decide⟩
  have hcount : (blockSlots 256 262144).length = 1024 := length_blockSlots
  obtain ⟨sfc, words, h, -, helem, hfree, -⟩ := exists_stacked hplaced hsize
    (blockSlots 256 262144) 0 (nodup_blockSlots (by decide))
    (fun x hx => ⟨262144, mem_singleton_self _, hx⟩) (by omega)
  have hall : sfc.freeCnt = 1024 := by omega
  refine ⟨sfc, words, h, hall, ?_⟩
  refine (compaction_exact_iff h (hall.trans hcount.symm)).2 ⟨by omega, ?_⟩
  -- A window would be 1024 entries long and have one more behind it.
  rintro ys hys b ⟨-, before, mid, after, hafter, hmid, rfl⟩
  have hlen := hys.perm.length_eq
  have hbehind := length_pos_iff.2 hafter
  have hper : sfc.perBlock = 1024 := by rw [LSfc.perBlock, helem]; rfl
  simp only [length_append, length_cons, hcount] at hlen
  omega

/-! ### A wholly free block below another free slot -/

/-- Addresses that are less than half the range of `int` compare as numbers. -/
theorem cmpptr_le {x y : Nat} (hxy : x ≤ y) (hy : y < 2 ^ 31) : cmpptr x y ≤ 0 := by
  simp only [cmpptr, toInt, Int.bmod]
  omega

/-- The buffer holds the slots of one block and the first slot of the next one. -/
theorem scan_block_and_slot :
    scanSortBuff 1024 256 (blockSlots 256 262144 ++ [524288])
      = ([262144], replicate 1024 0 ++ [524288]) := by
  have hcons : blockSlots 256 262144 ++ [524288]
      = 262144 :: ((range 1023).map (fun j => 262144 + (j + 1) * 256) ++ [524288]) := by
    decide +kernel
  rw [hcons, scanSortBuff, if_pos (by decide +kernel)]
  have hrest : ((range 1023).map (fun j => 262144 + (j + 1) * 256) ++ [524288]).drop (1024 - 1) =
    [524288] := by
    decide +kernel
  rw [hrest, scanSortBuff, if_neg (by decide), scanSortBuff]

/-- A list the loop treats like that one: the block is released, and the slot above it is lost. -/
theorem loses_slot_of_scan {stk : List Nat}
    (hslots : ∀ x ∈ stk, ∃ c ∈ [262144, 524288], x ∈ blockSlots 256 c)
    (hsorted : stk.Pairwise fun x y => x < y ∧ y < 2 ^ 31) (hlen : stk.length = 1025)
    (hscan : scanSortBuff 1024 256 stk = ([262144], replicate 1024 0 ++ [524288])) :
    ∃ (sfc : LSfc) (words : Words), sfc.Stacked words stk ∧ sfc.freeCnt = stk.length
      ∧ Qsorted (copyToSortBuff words sfc) (copyToSortBuff words sfc)
      ∧ ∃ r, compactMem words sfc id = some r ∧ sfc.released words id = [262144]
        ∧ r.2.freeCnt = 1 ∧ r.2.stack = 0 := by
  have hsize : IsElemSize 256 := ⟨5, by decide, by decide⟩
  have hplaced : Placed [262144, 524288] := ⟨by decide, by decide⟩
  have hnodup : stk.Nodup := hsorted.imp fun hxy => Nat.ne_of_lt hxy.1
  obtain ⟨sfc, words, h, hblocks, helem, hfree, hbuff⟩ :=
    exists_stacked hplaced hsize stk 0 hnodup hslots (by rw [hlen]; decide)
  rw [replicate_zero, append_nil] at hbuff
  rw [hlen] at hfree
  have hnonneg : ¬sfc.elems < 0 := elems_nonneg (by rw [hfree]; decide)
  have hfound : sfc.found words id = ([262144], replicate 1024 0 ++ [524288]) := by
    rw [LSfc.found, hbuff, LSfc.perBlock, helem]
    exact hscan
  refine ⟨sfc, words, h, by rw [hfree, hlen], ?_, ?_⟩
  · rw [hbuff]
    exact ⟨List.Perm.refl _, fun _ => hsorted.imp fun hxy => cmpptr_le hxy.1.le hxy.2⟩
  · -- The first `__sort_stack` pushes the slot, the second one reads a single, zeroed entry.
    obtain ⟨buff, hbuffEq⟩ : ∃ buff, replicate 1024 0 ++ [524288] = buff := ⟨_, rfl⟩
    have hbuffLen : buff.length = 1025 := by
      rw [← hbuffEq, length_append, length_replicate]
      rfl
    have hbuffHead : (buff.take 1).filter (· ≠ 0) = [] := by
      rw [← hbuffEq, replicate_succ]
      rfl
    have hbuffKept : (buff.filter (· ≠ 0)).Nodup := by
      have hzeros : (replicate 1024 0).filter (· ≠ 0) = [] :=
        filter_eq_nil_iff.2 fun x hx => by rw [eq_of_mem_replicate hx]; decide
      rw [← hbuffEq, filter_append, hzeros]
      decide
    rw [hbuffEq] at hfound
    obtain ⟨words₁, s₁, hsort₁, -⟩ := sortStack_chain words sfc buff
      (by rw [hfree, hbuffLen]) (hbuffKept.sublist ((take_sublist _ _).filter _))
    have hcount : (dropBlocks { sfc with stack := s₁ } [262144]).freeCnt = 1 := by
      simp only [dropBlocks, hfree, helem]
      decide
    obtain ⟨words₂, s₂, hsort₂, hchain⟩ := sortStack_chain words₁
      (dropBlocks { sfc with stack := s₁ } [262144]) buff
      (by rw [hcount, hbuffLen]; decide) (hbuffKept.sublist ((take_sublist _ _).filter _))
    rw [hcount, hbuffHead] at hchain
    have hempty : s₂ = 0 := hchain
    refine ⟨(words₂, { dropBlocks { sfc with stack := s₁ } [262144] with stack := s₂ }), ?_, ?_,
      hcount, hempty⟩
    · rw [compactMem, if_neg hnonneg, hfound]
      dsimp only
      rw [dropFreeBlocks, if_neg (cons_ne_nil _ _), hsort₁]
      exact hsort₂
    · rw [LSfc.released, if_neg hnonneg, hfound, hblocks]
      change [262144, 524288].filter (· ∈ [262144]) = [262144]
      decide

/-- The block is released, and the slot above it is lost: the stack ends up empty with a `free_cnt`
    of 1. -/
theorem compaction_loses_slot :
    ∃ (sfc : LSfc) (words : Words), sfc.Stacked words (blockSlots 256 262144 ++ [524288])
      ∧ sfc.freeCnt = (blockSlots 256 262144 ++ [524288]).length
      ∧ Qsorted (copyToSortBuff words sfc) (copyToSortBuff words sfc)
      ∧ ∃ r, compactMem words sfc id = some r ∧ sfc.released words id = [262144]
        ∧ r.2.freeCnt = 1 ∧ r.2.stack = 0
        ∧ ¬CompactedTo (blockSlots 256 262144 ++ [524288]) sfc (sfc.released words id) r.1 r.2 := by
  have hsize : IsElemSize 256 := ⟨5, by decide, by decide⟩
  have hslots : ∀ x ∈ blockSlots 256 262144 ++ [524288], ∃ c ∈ [262144, 524288],
    x ∈ blockSlots 256 c := by
    intro x hx
    rcases mem_append.1 hx with hx | hx
    · exact ⟨262144, mem_cons_self .., hx⟩
    · obtain rfl := mem_singleton.1 hx
      exact ⟨524288, mem_cons_of_mem _ (mem_singleton_self _), hsize.first_slot 524288⟩
  have hsorted : (blockSlots 256 262144 ++ [524288]).Pairwise fun x y => x < y ∧ y < 2 ^ 31 := by
    refine pairwise_append.2 ⟨?_, pairwise_singleton _ _, fun x hx y hy => ?_⟩
    · rw [blockSlots, pairwise_map]
      refine pairwise_lt_range.imp_of_mem fun {j k} _ hk hjk => ?_
      have hk := mem_range.1 hk
      simp only [lSfcMemBlockSize] at hk
      omega
    · obtain rfl := mem_singleton.1 hy
      have hwithin := (blockSlots_within hx).2
      simp only [lSfcMemBlockSize] at hwithin
      omega
  have hlen : (blockSlots 256 262144 ++ [524288]).length = 1025 := by
    rw [length_append, length_blockSlots]
    decide
  have habove : ∀ elemSize, 0 < elemSize → 524288 ∉ blockSlots elemSize 262144 := by
    intro elemSize hpos hin
    have hwithin := (blockSlots_within hin).2
    simp only [lSfcMemBlockSize] at hwithin
    omega
  obtain ⟨sfc, words, h, hfree, hq, r, hr, hreleased, hcount, hstack⟩ :=
    loses_slot_of_scan hslots hsorted hlen scan_block_and_slot
  refine ⟨sfc, words, h, hfree, hq, r, hr, hreleased, hcount, hstack, fun hc => ?_⟩
  obtain ⟨stk', hchain, -, hmem⟩ := hc.stack
  obtain rfl := hchain.eq_null_iff.1 hstack
  refine absurd ((hmem 524288).2 ⟨mem_append_right _ (mem_singleton_self _), ?_⟩) not_mem_nil
  rw [hreleased]
  intro b hb
  rw [mem_singleton.1 hb]
  exact habove _ h.elemSize_pos

end ProxySQL
