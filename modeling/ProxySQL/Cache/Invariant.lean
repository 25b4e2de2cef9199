/-
  ProxySQL.Cache.Invariant

  The invariant of the query cache.

  Every partition is as `FdbHash.Ok` says, its purge index is within its array,
  every entry of the heap is in exactly one array, the counters of the group are
  the sums over the arrays, an entry has as many references as there are readers,
  and what was freed was freed once, unmarked by any hash table or reader.
-/
import Mathlib.Algebra.BigOperators.Group.List.Basic
import ProxySQL.Cache.Partition
import ProxySQL.Cache.Sweep

namespace ProxySQL

open Lib List Function

/-- What does not change after an entry was stored. -/
def FdbHashEntry.contents (x : FdbHashEntry) : Str × List Byte × Nat × Nat :=
  (x.key, x.value, x.klen, x.length)

variable {hg : FdbHashesGroup} {heap : Nat → Option FdbHashEntry} {es : List Nat}

namespace FdbHashesGroup

/-- The entries of all arrays. -/
def entries (hg : FdbHashesGroup) : List Nat := hg.fdbHashes.flatMap FdbHash.ptrArray

/-- The sum of a field over all arrays. -/
def total (hg : FdbHashesGroup) (f : FdbHashEntry → Int) : Int :=
  (hg.entries.map fun e => (hg.heap e).elim 0 f).sum

/-- The hash tables and arrays agree, and purging stays within the arrays. -/
structure Represents (hg : FdbHashesGroup) : Prop where
  agree : ∀ (i : Nat) (h : FdbHash), hg.fdbHashes[i]? = some h → h.Ok hg.heap
  purgeIdx : ∀ (i : Nat) (h : FdbHash), hg.fdbHashes[i]? = some h → 0 ≤ h.purgeIdx ∧
    h.purgeIdx ≤ h.ptrArray.length
  nodup : hg.entries.Nodup
  live : ∀ e, e ∈ hg.entries ↔ (hg.heap e).isSome
  fresh : ∀ e, (hg.heap e).isSome → e < hg.nextEntry
  block : ∀ e x, hg.heap e = some x → x.length ≤ x.value.length

/-- The counters are the sums over the arrays. -/
structure Accounts (hg : FdbHashesGroup) : Prop where
  sizeKeys : hg.sizeKeys = hg.total fun x => x.klen
  sizeValues : hg.sizeValues = hg.total fun x => x.length
  sizeMetas : hg.sizeMetas = hg.total fun _ => metaSize

/-- `held e` readers have entry `e`. -/
structure Referenced (hg : FdbHashesGroup) (held : Nat → Nat) : Prop where
  refCount : ∀ e x, hg.heap e = some x → x.refCount = held e
  live : ∀ e, 0 < held e → (hg.heap e).isSome

/-- What was freed was freed once, after it had left the hash tables and had no readers. -/
structure FreedOnce (hg : FdbHashesGroup) : Prop where
  once : (hg.freed.map Freed.entry).Nodup
  gone : ∀ f ∈ hg.freed, f.entry < hg.nextEntry ∧ hg.heap f.entry = none
  unused : ∀ f ∈ hg.freed, f.refCount = 0 ∧ f.hashed = false

structure Ok (hg : FdbHashesGroup) (held : Nat → Nat) : Prop where
  represents : hg.Represents
  accounts : hg.Accounts
  referenced : hg.Referenced held
  freed : hg.FreedOnce

/-- The number of partitions and the settings stay. -/
structure SameSettings (hg hg' : FdbHashesGroup) : Prop where
  size : hg'.size = hg.size
  maxMemorySize : hg'.maxMemorySize = hg.maxMemorySize
  hashExpireDefault : hg'.hashExpireDefault = hg.hashExpireDefault
  fdbSystemVar : hg'.fdbSystemVar = hg.fdbSystemVar

theorem SameSettings.refl (hg : FdbHashesGroup) : SameSettings hg hg := ⟨rfl, rfl, rfl, rfl⟩

/-! ## Partitions -/

variable {i e : Nat} {h h' : FdbHash} {heap' : Nat → Option FdbHashEntry} {f : FdbHashEntry → Int}
  {x : FdbHashEntry}

theorem partition_eq_ok : hg.partition i = .ok h ↔ hg.fdbHashes[i]? = some h := by
  unfold partition
  split <;> simp_all

theorem partition_of_lt (hi : i < hg.size) :
    ∃ h, hg.fdbHashes[i]? = some h := ⟨_, getElem?_eq_getElem hi⟩

@[simp] theorem size_setPartition (hg : FdbHashesGroup) (i : Nat) (h : FdbHash) :
    (hg.setPartition i h).size = hg.size := length_set

theorem mem_entries :
    e ∈ hg.entries ↔ ∃ (i : Nat) (h : FdbHash), hg.fdbHashes[i]? = some h ∧ e ∈ h.ptrArray := by
  rw [entries, mem_flatMap]
  constructor
  · rintro ⟨h, hh, he⟩
    obtain ⟨i, hi⟩ := getElem?_of_mem hh
    exact ⟨i, h, hi, he⟩
  · rintro ⟨i, h, hi, he⟩
    exact ⟨h, mem_of_getElem? hi, he⟩

theorem Represents.disjoint (hr : hg.Represents) {j : Nat} (hi : hg.fdbHashes[i]? = some h)
    (hj : hg.fdbHashes[j]? = some h') (he : e ∈ h.ptrArray) (he' : e ∈ h'.ptrArray) : i = j := by
  by_contra hne
  have hperm := flatMap_perm_eraseIdx FdbHash.ptrArray hi
  have hnodup := hperm.nodup_iff.1 hr.nodup
  have hmem : e ∈ (hg.fdbHashes.eraseIdx i).flatMap FdbHash.ptrArray := by
    refine mem_flatMap.2 ⟨h', ?_, he'⟩
    exact (mem_eraseIdx_iff_getElem?).2 ⟨j, Ne.symm hne, hj⟩
  exact (nodup_append.1 hnodup).2.2 e he e hmem rfl

/-! ## Changes that keep the arrays -/

variable {hg hg' : FdbHashesGroup} {held held' : Nat → Nat}

theorem entries_eq (harr : hg'.fdbHashes.map FdbHash.ptrArray = hg.fdbHashes.map FdbHash.ptrArray) :
    hg'.entries = hg.entries := by
  rw [entries, entries, flatMap_def, flatMap_def, harr]

theorem isSome_eq
    (h : ∀ d, (heap' d).map FdbHashEntry.contents = (heap d).map FdbHashEntry.contents) (d : Nat) :
    (heap' d).isSome = (heap d).isSome := by
  have hd := congrArg Option.isSome (h d)
  simpa only [Option.isSome_map] using hd

theorem eq_none
    (h : ∀ d, (heap' d).map FdbHashEntry.contents = (heap d).map FdbHashEntry.contents) {d : Nat}
    (hd : heap d = none) : heap' d = none := by
  have hmap := h d
  rw [hd] at hmap
  exact Option.map_eq_none_iff.1 hmap

theorem Represents.change (hr : hg.Represents)
    (harr : hg'.fdbHashes.map FdbHash.ptrArray = hg.fdbHashes.map FdbHash.ptrArray)
    (hcontents : ∀ d, (hg'.heap d).map FdbHashEntry.contents = (hg.heap d).map FdbHashEntry.contents)
    (hnext : hg'.nextEntry = hg.nextEntry)
    (hagree : ∀ (i : Nat) (h : FdbHash), hg'.fdbHashes[i]? = some h → h.Ok hg'.heap)
    (hidx : ∀ (i : Nat) (h : FdbHash), hg'.fdbHashes[i]? = some h →
      0 ≤ h.purgeIdx ∧ h.purgeIdx ≤ h.ptrArray.length) : hg'.Represents := by
  have hentries := entries_eq harr
  refine ⟨hagree, hidx, hentries ▸ hr.nodup, fun e => ?_, fun e he => ?_, fun e y hy => ?_⟩
  · rw [hentries, isSome_eq hcontents]
    exact hr.live e
  · rw [isSome_eq hcontents] at he
    rw [hnext]
    exact hr.fresh e he
  · have he := hcontents e
    rw [hy] at he
    obtain ⟨x, hx, hxy⟩ := Option.map_eq_some_iff.1 he.symm
    have hblock := hr.block e x hx
    simp only [FdbHashEntry.contents, Prod.mk.injEq] at hxy
    obtain ⟨-, hvalue, -, hlength⟩ := hxy
    rwa [hvalue, hlength] at hblock

theorem total_eq (hentries : hg'.entries = hg.entries)
    (hf : ∀ d, (hg'.heap d).elim 0 f = (hg.heap d).elim 0 f) : hg'.total f = hg.total f := by
  rw [total, total, hentries]
  exact congrArg List.sum (map_congr_left fun d _ => hf d)

theorem elim_eq {o o' : Option FdbHashEntry}
    (h : o'.map FdbHashEntry.contents = o.map FdbHashEntry.contents)
    (hf : ∀ x y : FdbHashEntry, y.contents = x.contents → f y = f x) : o'.elim 0 f = o.elim 0 f := by
  cases o with
  | none =>
    cases o' with
    | none => rfl
    | some y => cases h
  | some x =>
    cases o' with
    | none => cases h
    | some y => exact hf x y (Option.some.inj h)

theorem Accounts.change (ha : hg.Accounts)
    (harr : hg'.fdbHashes.map FdbHash.ptrArray = hg.fdbHashes.map FdbHash.ptrArray)
    (hcontents : ∀ d, (hg'.heap d).map FdbHashEntry.contents = (hg.heap d).map FdbHashEntry.contents)
    (hkeys : hg'.sizeKeys = hg.sizeKeys) (hvalues : hg'.sizeValues = hg.sizeValues)
    (hmetas : hg'.sizeMetas = hg.sizeMetas) : hg'.Accounts := by
  have hentries := entries_eq harr
  refine ⟨?_, ?_, ?_⟩
  · rw [hkeys, ha.sizeKeys]
    refine (total_eq hentries fun d => elim_eq (hcontents d) fun x y hxy => ?_).symm
    simp only [FdbHashEntry.contents, Prod.mk.injEq] at hxy
    rw [hxy.2.2.1]
  · rw [hvalues, ha.sizeValues]
    refine (total_eq hentries fun d => elim_eq (hcontents d) fun x y hxy => ?_).symm
    simp only [FdbHashEntry.contents, Prod.mk.injEq] at hxy
    rw [hxy.2.2.2]
  · rw [hmetas, ha.sizeMetas]
    exact (total_eq hentries fun d => elim_eq (hcontents d) fun _ _ _ => rfl).symm

/-- Partition `i` is replaced, and only entries of its array change. -/
theorem Represents.agree_set (hr : hg.Represents) (hi : hg.fdbHashes[i]? = some h) (hok' : h'.Ok heap')
    (hother : ∀ d ∈ hg.entries, d ∉ h.ptrArray → heap' d = hg.heap d) (j : Nat) (q : FdbHash)
    (hj : (hg.fdbHashes.set i h')[j]? = some q) : q.Ok heap' := by
  rw [getElem?_set] at hj
  split at hj
  · split at hj
    · cases hj
      exact hok'
    · cases hj
  · next hij =>
    refine (hr.agree j q hj).congr fun d hd x hx => ⟨x, ?_, rfl, rfl⟩
    have hnotMem : d ∉ h.ptrArray := fun hmem => hij (hr.disjoint hi hj hmem hd)
    rw [hother d (mem_entries.2 ⟨j, q, hj, hd⟩) hnotMem]
    exact hx

theorem Represents.purgeIdx_set (hr : hg.Represents)
    (hidx : 0 ≤ h'.purgeIdx ∧ h'.purgeIdx ≤ h'.ptrArray.length) (j : Nat) (q : FdbHash)
    (hj : (hg.fdbHashes.set i h')[j]? = some q) : 0 ≤ q.purgeIdx ∧ q.purgeIdx ≤ q.ptrArray.length := by
  rw [getElem?_set] at hj
  split at hj
  · split at hj
    · cases hj
      exact hidx
    · cases hj
  · exact hr.purgeIdx j q hj

theorem contents_dropped (es : List Nat) (heap : Nat → Option FdbHashEntry) (d : Nat) :
    (dropped es heap d).map FdbHashEntry.contents = (heap d).map FdbHashEntry.contents := by
  unfold dropped
  split
  · rw [Option.map_map]
    rfl
  · rfl

theorem Ok.shrink (hok : hg.Ok held) (hi : hg.fdbHashes[i]? = some h)
    (harr : h'.ptrArray = h.ptrArray) (hok' : h'.Ok (dropped es hg.heap)) (hes : ∀ e ∈ es, e ∈ h.ptrArray)
    (hidx : 0 ≤ h'.purgeIdx ∧ h'.purgeIdx ≤ h'.ptrArray.length) :
    Ok { hg.setPartition i h' with heap := dropped es hg.heap } held := by
  have hmap : (hg.fdbHashes.set i h').map FdbHash.ptrArray = hg.fdbHashes.map FdbHash.ptrArray :=
    map_set_eq FdbHash.ptrArray hi harr
  have hcontents := contents_dropped es hg.heap
  have hagree := hok.represents.agree_set hi hok' fun d _ hd => dropped_of_notMem fun hmem =>
    hd (hes d hmem)
  refine ⟨hok.represents.change hmap hcontents rfl hagree (hok.represents.purgeIdx_set hidx),
    hok.accounts.change hmap hcontents rfl rfl rfl, ⟨fun e y hy => ?_, fun e he => ?_⟩,
    hok.freed.once, fun f hf => ⟨(hok.freed.gone f hf).1, ?_⟩, hok.freed.unused⟩
  · dsimp only [setPartition] at hy
    unfold dropped at hy
    split at hy
    · obtain ⟨x, hx, rfl⟩ := Option.map_eq_some_iff.1 hy
      exact hok.referenced.refCount e x hx
    · exact hok.referenced.refCount e y hy
  · rw [isSome_dropped]
    exact hok.referenced.live e he
  · exact eq_none hcontents (hok.freed.gone f hf).2

/-- A field that is not stored changes, and so may the number of readers. -/
theorem Ok.touch (hok : hg.Ok held) {y : FdbHashEntry} (hx : hg.heap e = some x)
    (hcontents : y.contents = x.contents) (hexpire : y.expire = x.expire) (href : y.refCount = held' e)
    (hother : ∀ d, d ≠ e → held' d = held d) :
    Ok { hg with heap := Function.update hg.heap e (some y) } held' := by
  have hall : ∀ d, (Function.update hg.heap e (some y) d).map FdbHashEntry.contents
      = (hg.heap d).map FdbHashEntry.contents := by
    intro d
    rcases eq_or_ne d e with rfl | hne
    · rw [update_self, hx, Option.map_some, Option.map_some, hcontents]
    · rw [update_of_ne hne]
  refine ⟨hok.represents.change rfl hall rfl (fun i h hi => ?_) hok.represents.purgeIdx,
    hok.accounts.change rfl hall rfl rfl rfl, ⟨fun d z hz => ?_, fun d hd => ?_⟩,
    hok.freed.once, fun f hf => ⟨(hok.freed.gone f hf).1, ?_⟩, hok.freed.unused⟩
  · refine (hok.represents.agree i h hi).congr fun d _ z hz => ?_
    rcases eq_or_ne d e with rfl | hne
    · obtain rfl : x = z := Option.some.inj (hx.symm.trans hz)
      exact ⟨y, update_self _ _ _, congrArg Prod.fst hcontents, hexpire⟩
    · exact ⟨z, (update_of_ne hne _ _).trans hz, rfl, rfl⟩
  · rcases eq_or_ne d e with rfl | hne
    · dsimp only at hz
      rw [update_self] at hz
      cases hz
      exact href
    · rw [hother d hne]
      exact hok.referenced.refCount d z ((update_of_ne hne _ _).symm.trans hz)
  · rw [isSome_eq hall]
    rcases eq_or_ne d e with rfl | hne
    · rw [hx, Option.isSome_some]
    · rw [hother d hne] at hd
      exact hok.referenced.live d hd
  · exact eq_none hall (hok.freed.gone f hf).2

/-! ## Changes of the arrays -/

theorem entries_setPartition (hi : hg.fdbHashes[i]? = some h) (h' : FdbHash) :
    ∃ rest, hg.entries.Perm (h.ptrArray ++ rest) ∧
    (hg.setPartition i h').entries.Perm (h'.ptrArray ++ rest) :=
  ⟨_, flatMap_perm_eraseIdx FdbHash.ptrArray hi, flatMap_set_perm FdbHash.ptrArray hi h'⟩

theorem total_perm (hperm : hg.entries.Perm es) :
    hg.total f = (es.map fun e => (hg.heap e).elim 0 f).sum := (hperm.map _).sum_eq

theorem total_cons (hperm : hg'.entries.Perm (e :: hg.entries)) (hx : hg'.heap e = some x)
    (hother : ∀ d ∈ hg.entries, hg'.heap d = hg.heap d) : hg'.total f = f x + hg.total f := by
  rw [total_perm hperm, map_cons, sum_cons, hx, Option.elim_some, total]
  congr 2
  exact map_congr_left fun d hd => by rw [hother d hd]

theorem Ok.fresh (hok : hg.Ok held) : hg.heap hg.nextEntry = none := by
  cases hx : hg.heap hg.nextEntry with
  | none => rfl
  | some y => exact absurd (hok.represents.fresh _ (Option.isSome_of_eq_some hx)) (Nat.lt_irrefl _)

theorem Ok.add (hok : hg.Ok held) {hash' : AList fun _ : Str => Nat} (hi : hg.fdbHashes[i]? = some h)
    (hexpire : x.expire ≠ expireDropit) (hblock : x.length ≤ x.value.length) (href : x.refCount = 0)
    (hnone : h.hash.lookup x.key = none) (hself : hash'.lookup x.key = some hg.nextEntry)
    (hother : ∀ k, k ≠ x.key → hash'.lookup k = h.hash.lookup k)
    (hfdb : hg'.fdbHashes = hg.fdbHashes.set i
      { h with hash := hash', ptrArray := h.ptrArray ++ [hg.nextEntry] })
    (hheap : hg'.heap = Function.update hg.heap hg.nextEntry (some x))
    (hnext : hg'.nextEntry = hg.nextEntry + 1) (hkeys : hg'.sizeKeys = hg.sizeKeys + x.klen)
    (hvalues : hg'.sizeValues = hg.sizeValues + x.length) (hmetas : hg'.sizeMetas = hg.sizeMetas + metaSize)
    (hfreed : hg'.freed = hg.freed) : hg'.Ok held := by
  have hfresh := hok.fresh
  have hsame : ∀ d, d ≠ hg.nextEntry → hg'.heap d = hg.heap d := by
    intro d hd
    rw [hheap, update_of_ne hd]
  have hnew : hg'.heap hg.nextEntry = some x := by rw [hheap, update_self]
  have hnotMem : hg.nextEntry ∉ hg.entries := by
    rw [hok.represents.live, hfresh]
    exact Bool.false_ne_true
  have hperm : hg'.entries.Perm (hg.nextEntry :: hg.entries) := by
    obtain ⟨rest, hbefore, hafter⟩ :=
      entries_setPartition hi { h with hash := hash', ptrArray := h.ptrArray ++ [hg.nextEntry] }
    have heq : hg'.entries = (hg.setPartition i
      { h with hash := hash', ptrArray := h.ptrArray ++ [hg.nextEntry] }).entries := by
      rw [entries, hfdb]
      rfl
    rw [heq]
    refine hafter.trans ?_
    rw [append_assoc, singleton_append]
    exact perm_middle.trans (hbefore.symm.cons _)
  have hold : ∀ d ∈ hg.entries, hg'.heap d = hg.heap d := fun d hd => hsame d fun heq => hnotMem (heq ▸ hd)
  have hok' := (hok.represents.agree i h hi).add hfresh hexpire hnone hself hother
  refine ⟨⟨?_, ?_, ?_, fun e => ?_, fun e he => ?_, fun e y hy => ?_⟩, ⟨?_, ?_, ?_⟩,
    ⟨fun e y hy => ?_, fun e he => ?_⟩, ?_⟩
  · rw [hfdb, hheap]
    refine hok.represents.agree_set hi hok' fun d hd _ => ?_
    rw [← hheap]
    exact hold d hd
  · rw [hfdb]
    refine hok.represents.purgeIdx_set ?_
    obtain ⟨hnonneg, hle⟩ := hok.represents.purgeIdx i h hi
    refine ⟨hnonneg, ?_⟩
    simp only [length_append, length_singleton]
    omega
  · exact hperm.nodup_iff.2 (nodup_cons.2 ⟨hnotMem, hok.represents.nodup⟩)
  · rw [hperm.mem_iff, mem_cons]
    rcases eq_or_ne e hg.nextEntry with rfl | hne
    · rw [hnew]
      exact ⟨fun _ => rfl, fun _ => .inl rfl⟩
    · rw [hsame e hne, ← hok.represents.live e]
      exact ⟨fun h => h.resolve_left hne, .inr⟩
  · rw [hnext]
    rcases eq_or_ne e hg.nextEntry with rfl | hne
    · exact Nat.lt_succ_self _
    · rw [hsame e hne] at he
      exact Nat.lt_succ_of_lt (hok.represents.fresh e he)
  · rcases eq_or_ne e hg.nextEntry with rfl | hne
    · obtain rfl : x = y := Option.some.inj (hnew.symm.trans hy)
      exact hblock
    · exact hok.represents.block e y ((hsame e hne).symm.trans hy)
  · rw [hkeys, hok.accounts.sizeKeys, total_cons hperm hnew hold, Int.add_comm]
  · rw [hvalues, hok.accounts.sizeValues, total_cons hperm hnew hold, Int.add_comm]
  · rw [hmetas, hok.accounts.sizeMetas, total_cons hperm hnew hold, Int.add_comm]
  · rcases eq_or_ne e hg.nextEntry with rfl | hne
    · obtain rfl : x = y := Option.some.inj (hnew.symm.trans hy)
      -- nobody can have an entry that did not exist
      have hzero : held hg.nextEntry = 0 := by
        by_contra hpos
        have hlive := hok.referenced.live _ (Nat.pos_of_ne_zero hpos)
        rw [hfresh] at hlive
        cases hlive
      rw [href, hzero]
      rfl
    · exact hok.referenced.refCount e y ((hsame e hne).symm.trans hy)
  · have hlive := hok.referenced.live e he
    rw [hold e ((hok.represents.live e).2 hlive)]
    exact hlive
  · refine ⟨hfreed ▸ hok.freed.once, fun f hf => ?_, hfreed ▸ hok.freed.unused⟩
    rw [hfreed] at hf
    obtain ⟨hlt, hgone⟩ := hok.freed.gone f hf
    rw [hnext, hsame _ (Nat.ne_of_lt hlt)]
    exact ⟨Nat.lt_succ_of_lt hlt, hgone⟩

theorem isHashed_eq_false (h : ∀ (i : Nat) (q : FdbHash), hg.fdbHashes[i]? = some q →
      ∀ k, q.hash.lookup k ≠ some e) :
    hg.isHashed e = false := by
  rw [isHashed, any_eq_false]
  intro q hq hany
  obtain ⟨i, hi⟩ := getElem?_of_mem hq
  obtain ⟨⟨k, d⟩, hmem, hd⟩ := any_eq_true.1 hany
  obtain rfl : d = e := eq_of_beq hd
  exact h i q hi k (AList.mem_lookup_iff.2 hmem)

theorem Ok.free (hok : hg.Ok held) {idx : Nat} (hi : hg.fdbHashes[i]? = some h)
    (he : h.ptrArray[idx]? = some e) (hx : hg.heap e = some x) (hdropped : x.expire = expireDropit)
    (href : x.refCount = 0) (hidx : h.purgeIdx ≤ idx) :
    ∃ hg', hg.purgeFree i idx e x = .ok hg' ∧ hg'.Ok held ∧
      hg'.fdbHashes = hg.fdbHashes.set i { h with ptrArray := removeIndexFast h.ptrArray idx } ∧
      hg'.heap = Function.update hg.heap e none ∧ hg'.now = hg.now ∧ hg'.sizeKeys = hg.sizeKeys - x.klen ∧
      hg'.sizeValues = hg.sizeValues - x.length ∧ hg'.sizeMetas = hg.sizeMetas - metaSize ∧
      SameSettings hg hg' := by
  rw [purgeFree, partition_eq_ok.2 hi]
  refine ⟨_, rfl, ?_, rfl, rfl, rfl, rfl, rfl, rfl, length_set, rfl, rfl, rfl⟩
  have hperm := removeIndexFast_perm he
  have hentries : hg.entries.Perm
    (e :: (hg.setPartition i { h with ptrArray := removeIndexFast h.ptrArray idx }).entries) := by
    obtain ⟨rest, hbefore, hafter⟩ :=
      entries_setPartition hi { h with ptrArray := removeIndexFast h.ptrArray idx }
    exact hbefore.trans ((hperm.append_right rest).trans (hafter.symm.cons e))
  obtain ⟨hnotMem, hnodup⟩ := nodup_cons.1 (hentries.nodup_iff.1 hok.represents.nodup)
  have hsame : ∀ d, d ≠ e → Function.update hg.heap e none d = hg.heap d := fun d hd =>
    update_of_ne hd _ _
  have hself : Function.update hg.heap e none e = none := update_self _ _ _
  have hlive : (hg.heap e).isSome := Option.isSome_of_eq_some hx
  have hok' := (hok.represents.agree i h hi).free he hx hdropped
  have hsums : ∀ f : FdbHashEntry → Int, hg.total f = f x +
      total { hg.setPartition i { h with ptrArray := removeIndexFast h.ptrArray idx } with
        heap := Function.update hg.heap e none } f := by
    intro f
    refine total_cons hentries hx fun d hd => (hsame d ?_).symm
    rintro rfl
    exact hnotMem hd
  refine ⟨⟨?_, ?_, hnodup, fun d => ?_, fun d hd => ?_, fun d y hy => ?_⟩, ⟨?_, ?_, ?_⟩,
    ⟨fun d y hy => ?_, fun d hd => ?_⟩, ?_, fun f hf => ?_, fun f hf => ?_⟩
  · refine hok.represents.agree_set hi hok' fun d _ hd => hsame d ?_
    rintro rfl
    exact hd (mem_of_getElem? he)
  · refine hok.represents.purgeIdx_set ⟨(hok.represents.purgeIdx i h hi).1, ?_⟩
    have hlen := length_removeIndexFast he
    have hlt : idx < h.ptrArray.length := (List.getElem?_eq_some_iff.1 he).1
    dsimp only
    omega
  · have hmem := hentries.mem_iff (a := d)
    rw [hok.represents.live, mem_cons] at hmem
    rcases eq_or_ne d e with rfl | hne
    · dsimp only [setPartition]
      rw [hself]
      exact ⟨fun hd => absurd hd hnotMem, fun hd => (nomatch hd)⟩
    · dsimp only [setPartition]
      rw [hsame d hne]
      exact ⟨fun hd => hmem.2 (.inr hd), fun hd => (hmem.1 hd).resolve_left hne⟩
  · rcases eq_or_ne d e with rfl | hne
    · exact hok.represents.fresh d hlive
    · dsimp only [setPartition] at hd
      rw [hsame d hne] at hd
      exact hok.represents.fresh d hd
  · rcases eq_or_ne d e with rfl | hne
    · cases hself.symm.trans hy
    · exact hok.represents.block d y ((hsame d hne).symm.trans hy)
  · have hsum := hsums fun x => x.klen
    rw [hok.accounts.sizeKeys, hsum]
    exact add_sub_cancel_left _ _
  · have hsum := hsums fun x => x.length
    rw [hok.accounts.sizeValues, hsum]
    exact add_sub_cancel_left _ _
  · have hsum := hsums fun _ => metaSize
    rw [hok.accounts.sizeMetas, hsum]
    exact add_sub_cancel_left _ _
  · rcases eq_or_ne d e with rfl | hne
    · cases hself.symm.trans hy
    · exact hok.referenced.refCount d y ((hsame d hne).symm.trans hy)
  · rcases eq_or_ne d e with rfl | hne
    · -- the entry has no readers
      have hzero := hok.referenced.refCount d x hx
      omega
    · dsimp only [setPartition]
      rw [hsame d hne]
      exact hok.referenced.live d hd
  · dsimp only [setPartition]
    rw [map_append, map_singleton]
    refine nodup_append.2 ⟨hok.freed.once, nodup_singleton _, fun d hd d' hd' => ?_⟩
    obtain rfl := mem_singleton.1 hd'
    obtain ⟨f, hf, rfl⟩ := mem_map.1 hd
    intro heq
    have hgone := (hok.freed.gone f hf).2
    rw [heq, hx] at hgone
    cases hgone
  · rcases mem_append.1 hf with hf | hf
    · obtain ⟨hlt, hgone⟩ := hok.freed.gone f hf
      refine ⟨hlt, ?_⟩
      rcases eq_or_ne f.entry e with heq | hne
      · rw [heq]
        exact hself
      · exact (hsame _ hne).trans hgone
    · obtain rfl := mem_singleton.1 hf
      exact ⟨hok.represents.fresh e hlive, hself⟩
  · rcases mem_append.1 hf with hf | hf
    · exact hok.freed.unused f hf
    · obtain rfl := mem_singleton.1 hf
      exact ⟨href, isHashed_eq_false fun j q hj k => (hok.represents.agree j q hj).not_hashed hx hdropped k⟩

end FdbHashesGroup

end ProxySQL
