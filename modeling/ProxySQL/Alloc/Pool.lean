/-
  ProxySQL.Alloc.Pool

  The per-thread allocator (`l_utils.c`, `lutils.h`): six classes of slots, each
  with a stack of free slots whose links are stored in the slots, a list of
  blocks the slots are carved from, and the compaction that hands blocks back.

  Addresses are numbers, `NULL` is `0`, and the memory is the word read at each
  address.  `malloc`, `posix_memalign` and `qsort` are parameters of the
  functions that call them.  `none` stands for an assertion of `__x_malloc` that
  fails or an access behind the end of the sort buffer.
-/
import ProxySQL.Lib.CInt
import ProxySQL.Lib.LinkStack
import ProxySQL.Lib.Sorted
import Mathlib.Tactic.Ring

namespace ProxySQL

open Lib (toInt)

def lSfcMinElemSize : Nat := 8

def lSfcMidElemSize : Nat := 32

def lSfcMaxElemSize : Nat := 256

def lSfpArrayMid : Nat := 3

def lSfpArrayLen : Nat := 6

def lSfcMemBlockSize : Nat := 262144

/-! ## Machine arithmetic -/

/-- A `size_t`. -/
def sizeT (n : Nat) : Nat := n % 2 ^ 64

/-- `a - d` on `size_t`. -/
def sizeTSub (a d : Nat) : Nat := sizeT (a + (2 ^ 64 - sizeT d))

/-! ## Records -/

/-- The word stored at each address. -/
abbrev Words := Nat → Nat

/-- `l_sfc`: one class of slots. -/
structure LSfc where
  stack : Nat
  memBlocks : List Nat
  elemSize : Nat
  blocksCnt : Nat
  allocCnt : Nat
  freeCnt : Nat
  memLFreeCount : Nat

/-- Slots of a block, `L_SFC_MEM_BLOCK_SIZE/elem_size`. -/
def LSfc.perBlock (sfc : LSfc) : Nat := lSfcMemBlockSize / sfc.elemSize

/-- `l_sfp`, with the memory it lives in. -/
structure Pool where
  sfc : Nat → LSfc
  words : Words

def Pool.setClass (s : Pool) (i : Nat) (words : Words) (sfc : LSfc) : Pool :=
  { sfc := Function.update s.sfc i sfc, words }

@[simp] theorem Pool.setClass_sfc_self (s : Pool) (i : Nat) (words : Words) (sfc : LSfc) :
    (s.setClass i words sfc).sfc i = sfc := Function.update_self ..

@[simp] theorem Pool.setClass_sfc_of_ne (s : Pool) {i j : Nat} (words : Words) (sfc : LSfc) (h : j ≠ i) :
    (s.setClass i words sfc).sfc j = s.sfc j := Function.update_of_ne h ..

@[simp] theorem Pool.setClass_words (s : Pool) (i : Nat) (words : Words) (sfc : LSfc) :
    (s.setClass i words sfc).words = words := rfl

/-! ## `l_stack_push`, `l_stack_pop`, `l_mem_init` -/

/-- The memory and the new top. -/
def lStackPush (words : Words) (s p : Nat) : Words × Nat := (Function.update words p s, p)

/-- The memory, the new top and the slot taken off. -/
def lStackPop (words : Words) (s : Nat) : Words × Nat × Nat :=
  if s = 0 then (words, 0, 0) else (Function.update words s 0, words s, s)

def lMemInit (words : Words) : Pool where
  words := words
  sfc i :=
    { stack := 0
      memBlocks := []
      elemSize := lSfcMinElemSize * 2 ^ i
      blocksCnt := 0
      allocCnt := 0
      freeCnt := 0
      memLFreeCount := 0 }

/-! ## `__l_alloc` -/

def addMemBlock (sfc : LSfc) (m : Nat) : LSfc :=
  { sfc with memBlocks := sfc.memBlocks ++ [m], blocksCnt := sizeT (sfc.blocksCnt + 1) }

/-- The slots of the block at `b`, from its first on. -/
def blockSlots (elemSize b : Nat) : List Nat :=
  (List.range (lSfcMemBlockSize / elemSize)).map fun j => b + j * elemSize

/-- The slots are pushed from the first to the last one. -/
def pushMemBlock (words : Words) (sfc : LSfc) (m : Nat) : Words × LSfc :=
  let r := (blockSlots sfc.elemSize m).foldl (fun r n => lStackPush r.1 r.2 n) (words, sfc.stack)
  (r.1, { sfc with stack := r.2 })

/-- The scan of `__l_alloc` and `__l_free` from class `i` down. -/
def scanClasses (elemSize : Nat → Nat) (size : Nat) : Nat → Nat
  | 0 => 0
  | i + 1 => if size * 2 > elemSize (i + 1) then i + 1 else scanClasses elemSize size i

/-- The class that serves `size`. -/
def Pool.classOf (s : Pool) (size : Nat) : Nat :=
  scanClasses (fun i => (s.sfc i).elemSize) size
    (if size ≤ lSfcMidElemSize then lSfpArrayMid - 1 else lSfpArrayLen - 1)

/-- A block `m` is carved into slots and counted. -/
def growClass (words : Words) (sfc : LSfc) (m : Nat) : Words × LSfc :=
  let r := pushMemBlock words (addMemBlock sfc m) m
  (r.1,
    { r.2 with
      allocCnt := sizeT (r.2.allocCnt + r.2.perBlock)
      freeCnt := sizeT (r.2.freeCnt + r.2.perBlock) })

/-- `__l_alloc`: `m` is what `malloc` or `posix_memalign` returns, if it is called.  The slot is
    taken off the stack and `free_cnt` stays as it is. -/
def Pool.lAlloc (s : Pool) (size m : Nat) : Pool × Nat :=
  if size > lSfcMaxElemSize then (s, m)
  else
    let i := s.classOf size
    let sfc := s.sfc i
    let r := lStackPop s.words sfc.stack
    if r.2.2 ≠ 0 then (s.setClass i r.1 { sfc with stack := r.2.1 }, r.2.2)
    else
      let g := growClass r.1 { sfc with stack := r.2.1 } m
      let r := lStackPop g.1 g.2.stack
      (s.setClass i r.1 { g.2 with stack := r.2.1 }, r.2.2)

/-! ## `compact_mem` -/

/-- The difference of two pointers, narrowed to `int`. -/
def cmpptr (a b : Nat) : Int := toInt ((a : Int) - b)

/-- `cmpptr` is a consistent order on the elements of a list. -/
structure CmpptrOrders (xs : List Nat) : Prop where
  lt_iff_gt : ∀ x ∈ xs, ∀ y ∈ xs, cmpptr x y < 0 ↔ 0 < cmpptr y x
  trans : ∀ x ∈ xs, ∀ y ∈ xs, ∀ z ∈ xs, cmpptr x y ≤ 0 → cmpptr y z ≤ 0 → cmpptr x z ≤ 0

/-- What `qsort` promises about its result `ys` on `xs`: the same elements, and sorted if the
    comparison is a consistent order on them. -/
structure Qsorted (xs ys : List Nat) : Prop where
  perm : ys.Perm xs
  sorted : CmpptrOrders xs → ys.Pairwise fun x y => cmpptr x y ≤ 0

/-- The comparison as `qsort` uses it. -/
def CmpLe (x y : Nat) : Prop := cmpptr x y ≤ 0

instance : DecidableRel CmpLe := fun x y => inferInstanceAs (Decidable (cmpptr x y ≤ 0))

theorem CmpptrOrders.ordersOn {xs : List Nat} (h : CmpptrOrders xs) : Lib.OrdersOn CmpLe xs := by
  refine ⟨fun x hx y hy => ?_, h.trans⟩
  have hxy := h.lt_iff_gt x hx y hy
  have hyx := h.lt_iff_gt y hy x hx
  simp only [CmpLe]
  omega

theorem exists_qsorted (xs : List Nat) : ∃ ys, Qsorted xs ys := by
  by_cases h : CmpptrOrders xs
  · obtain ⟨ys, hperm, hsorted⟩ := h.ordersOn.exists_sorted
    exact ⟨ys, hperm, fun _ => hsorted⟩
  · exact ⟨xs, List.Perm.refl xs, fun h' => absurd h' h⟩

/-- `elems`: `free_cnt` as an `int`. -/
def LSfc.elems (sfc : LSfc) : Int := toInt sfc.freeCnt

/-- `__compact_mem_copy_to_sort_buff`: missing entries are `NULL`. -/
def copyToSortBuff (words : Words) (sfc : LSfc) : List Nat :=
  Lib.walk words 0 sfc.elems.toNat sfc.stack

/-- The loop over the sorted buffer: `free_block`, and the buffer with the slots of these blocks
    zeroed.  The loop stops `n` entries before the end, `n` the slots of a block. -/
def scanSortBuff (n elemSize : Nat) : List Nat → List Nat × List Nat
  | [] => ([], [])
  | v1 :: rest =>
      if n < rest.length + 1 ∧ v1 % lSfcMemBlockSize = 0
          ∧ (v1 :: rest)[n - 1]? = some (v1 + lSfcMemBlockSize - elemSize) then
        let r := scanSortBuff n elemSize (rest.drop (n - 1))
        (v1 :: r.1, List.replicate n 0 ++ r.2)
      else
        let r := scanSortBuff n elemSize rest
        (r.1, v1 :: r.2)
termination_by buff => buff.length
decreasing_by
  · simp only [List.length_drop, List.length_cons]
    omega
  · simp

/-- `__sort_stack`: the entries below `free_cnt` that are not `NULL` are pushed on an empty stack. -/
def sortStack (words : Words) (sfc : LSfc) (buff : List Nat) : Option (Words × LSfc) :=
  if sfc.freeCnt ≤ buff.length then
    let r := ((buff.take sfc.freeCnt).filter (· ≠ 0)).foldl (fun r n => lStackPush r.1 r.2 n) (words, 0)
    some (r.1, { sfc with stack := r.2 })
  else none

/-- The blocks found free, taken out of `mem_blocks` and of the counters.
    `fbi*L_SFC_MEM_BLOCK_SIZE` is computed on `int`. -/
def dropBlocks (sfc : LSfc) (freeBlock : List Nat) : LSfc :=
  let slots := (toInt (freeBlock.length * lSfcMemBlockSize) % 2 ^ 64).toNat / sfc.elemSize
  { sfc with
    memBlocks := sfc.memBlocks.filter (· ∉ freeBlock)
    blocksCnt := sizeTSub sfc.blocksCnt freeBlock.length
    allocCnt := sizeTSub sfc.allocCnt slots
    freeCnt := sizeTSub sfc.freeCnt slots }

/-- The stack is rebuilt before and after the counters go down. -/
def dropFreeBlocks (words : Words) (sfc : LSfc) (found : List Nat × List Nat) : Option (Words × LSfc) :=
  if found.1 = [] then some (words, sfc)
  else (sortStack words sfc found.2).map fun r => (r.1, dropBlocks r.2 found.1)

/-- What the scan finds in the sorted buffer. -/
def LSfc.found (sfc : LSfc) (words : Words) (qsort : List Nat → List Nat) : List Nat × List Nat :=
  scanSortBuff sfc.perBlock sfc.elemSize (qsort (copyToSortBuff words sfc))

/-- The blocks `compact_mem` passes to `free`; a negative `elems` makes the first `malloc` fail. -/
def LSfc.released (sfc : LSfc) (words : Words) (qsort : List Nat → List Nat) : List Nat :=
  if sfc.elems < 0 then [] else sfc.memBlocks.filter (· ∈ (sfc.found words qsort).1)

def compactMem (words : Words) (sfc : LSfc) (qsort : List Nat → List Nat) : Option (Words × LSfc) :=
  if sfc.elems < 0 then none
  else
    let found := sfc.found words qsort
    (dropFreeBlocks words sfc found).bind fun r => sortStack r.1 r.2 found.2

/-! ## `__l_free` -/

/-- The test after which `__l_free` enters `compact_mem`. -/
def LSfc.compactionDue (sfc : LSfc) : Bool :=
  sfc.memLFreeCount % lSfcMemBlockSize == 0 && sfc.blocksCnt > 16
    && sfc.freeCnt > sizeT (sfc.allocCnt * 990) / 1000

/-- A slot is pushed and counted. -/
def giveBack (words : Words) (sfc : LSfc) (p : Nat) : Words × LSfc :=
  let r := lStackPush words sfc.stack p
  (r.1,
    { sfc with
      stack := r.2
      freeCnt := sizeT (sfc.freeCnt + 1)
      memLFreeCount := sizeT (sfc.memLFreeCount + 1) })

/-- Does `__l_free(size, p)` enter `compact_mem`? -/
def Pool.entersCompaction (s : Pool) (size p : Nat) : Bool :=
  size ≤ lSfcMaxElemSize && (giveBack s.words (s.sfc (s.classOf size)) p).2.compactionDue

def Pool.lFree (s : Pool) (size p : Nat) (qsort : List Nat → List Nat) : Option Pool :=
  if size > lSfcMaxElemSize then some s
  else
    let i := s.classOf size
    let r := giveBack s.words (s.sfc i) p
    if r.2.compactionDue then
      (compactMem r.1 r.2 qsort).map fun r => s.setClass i r.1 { r.2 with memLFreeCount := 0 }
    else some (s.setClass i r.1 r.2)

end ProxySQL
