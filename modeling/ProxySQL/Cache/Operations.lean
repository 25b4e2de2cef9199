/-
  ProxySQL.Cache.Operations

  What each operation of the query cache does, in every state that the invariant
  allows: it ends, it keeps the invariant, and it changes what the cache holds
  (`view`) in the way that is expected of it.
-/
import ProxySQL.Lib.Prog
import ProxySQL.Lib.TimedMap
import ProxySQL.Cache.Invariant

namespace ProxySQL

open Lib List Function Option

/-- What `fdb_get` can see of an entry: the value and when it expires. -/
def FdbHashEntry.served (x : FdbHashEntry) : List Byte × Int := (x.value.take x.length, x.expire)

namespace FdbHashesGroup

/-! ## What the cache holds -/

/-- The partition of a key. -/
def home (hg : FdbHashesGroup) (k : Str) : Nat := partitionOf hg.size k (2 < k.length)

/-- The entry of a key. -/
def find (hg : FdbHashesGroup) (k : Str) : Option Nat :=
  hg.fdbHashes[hg.home k]?.bind fun h => h.hash.lookup k

/-- The value of a key and when it expires. -/
def view (hg : FdbHashesGroup) (k : Str) : Option (List Byte × Int) :=
  (hg.find k).bind fun e => (hg.heap e).map FdbHashEntry.served

/-- The memory that the cache counts as used. -/
def used (hg : FdbHashesGroup) : Int := hg.sizeKeys + hg.sizeValues + hg.sizeMetas

variable {hg hg' hg'' : FdbHashesGroup} {held held' : Nat → Nat} {i : Nat} {h h' : FdbHash}

theorem SameSettings.trans (h : SameSettings hg hg') (h' : SameSettings hg' hg'') : SameSettings hg hg'' :=
  ⟨h'.size.trans h.size, h'.maxMemorySize.trans h.maxMemorySize,
    h'.hashExpireDefault.trans h.hashExpireDefault, h'.fdbSystemVar.trans h.fdbSystemVar⟩

theorem find_set (hi : hg.fdbHashes[i]? = some h) (h' : FdbHash)
    (hfdb : hg'.fdbHashes = hg.fdbHashes.set i h') (k : Str) :
    hg'.find k = if hg.home k = i then h'.hash.lookup k else hg.find k := by
  have hhome : hg'.home k = hg.home k := by rw [home, home, size, size, hfdb, length_set]
  have hlt : i < hg.fdbHashes.length := (List.getElem?_eq_some_iff.1 hi).1
  rw [find, hhome, hfdb, getElem?_set]
  rcases eq_or_ne i (hg.home k) with heq | hne
  · rw [if_pos heq, if_pos hlt, if_pos heq.symm, bind_some]
  · rw [if_neg hne, if_neg hne.symm, find]

variable {k : Str} {e idx : Nat} {x : FdbHashEntry}

theorem find_eq_some (hfind : hg.find k = some e) :
    ∃ h, hg.fdbHashes[hg.home k]? = some h ∧ h.hash.lookup k = some e := bind_eq_some_iff.1 hfind

theorem Represents.find_key (hr : hg.Represents) (hfind : hg.find k = some e) :
    ∃ x, hg.heap e = some x ∧ x.key = k := by
  obtain ⟨h, hi, hk⟩ := find_eq_some hfind
  obtain ⟨-, x, hx, hkey⟩ := (hr.agree _ h hi).hashed k e hk
  exact ⟨x, hx, hkey⟩

theorem view_congr (hfind : hg'.find k = hg.find k)
    (hserved : ∀ e, hg.find k = some e →
      (hg'.heap e).map FdbHashEntry.served = (hg.heap e).map FdbHashEntry.served) :
    hg'.view k = hg.view k := by
  rw [view, view, hfind]
  cases hk : hg.find k with
  | none => rfl
  | some e => exact hserved e hk

/-! ## The hash table -/

theorem entryAt_eq_ok : hg.entryAt e = .ok x ↔ hg.heap e = some x := by
  unfold entryAt
  split <;> simp_all

theorem modifyEntry_eq (hx : hg.heap e = some x) (f : FdbHashEntry → FdbHashEntry) :
    hg.modifyEntry e f = .ok { hg with heap := update hg.heap e (some (f x)) } := by
  rw [modifyEntry, entryAt_eq_ok.2 hx]
  rfl

theorem update_eq_dropped {heap : Nat → Option FdbHashEntry} (hx : heap e = some x) :
    update heap e (some x.drop) = dropped [e] heap := by
  funext d
  rcases eq_or_ne d e with rfl | hne
  · rw [update_self, dropped_of_mem (mem_singleton.2 rfl) hx]
  · rw [update_of_ne hne, dropped_of_notMem fun hmem => hne (mem_singleton.1 hmem)]

theorem hashValueDestroyFunc_eq (hx : hg.heap e = some x) :
    hg.hashValueDestroyFunc e = .ok { hg with heap := dropped [e] hg.heap } := by
  rw [hashValueDestroyFunc, modifyEntry_eq hx, ← update_eq_dropped hx]
  rfl

theorem dropped_nil (heap : Nat → Option FdbHashEntry) : dropped [] heap = heap := by
  funext d
  exact dropped_of_notMem not_mem_nil

theorem dropped_dropped (e : Nat) (es : List Nat) (heap : Nat → Option FdbHashEntry) :
    dropped es (dropped [e] heap) = dropped (e :: es) heap := by
  have htwice : FdbHashEntry.drop ∘ FdbHashEntry.drop = FdbHashEntry.drop := rfl
  funext d
  unfold dropped
  rcases eq_or_ne d e with rfl | hne
  · rw [if_pos (mem_singleton.2 rfl), if_pos mem_cons_self, Option.map_map, htwice, ite_self]
  · simp only [mem_cons, hne, not_mem_nil, false_or, if_false]

theorem foldlM_hashValueDestroyFunc (es : List Nat) (hlive : ∀ e ∈ es, (hg.heap e).isSome) :
    es.foldlM hashValueDestroyFunc hg = .ok { hg with heap := dropped es hg.heap } := by
  induction es generalizing hg with
  | nil => rw [dropped_nil]; rfl
  | cons e es ih =>
    obtain ⟨x, hx⟩ := isSome_iff_exists.1 (hlive e mem_cons_self)
    rw [foldlM_cons, hashValueDestroyFunc_eq hx]
    refine (ih fun d hd => ?_).trans ?_
    · rw [isSome_dropped]
      exact hlive d (mem_cons_of_mem _ hd)
    · rw [dropped_dropped]

/-- The group after the key of entry `e` has left the hash table of partition `i`. -/
def withoutKey (hg : FdbHashesGroup) (i : Nat) (h : FdbHash) (k : Str) (e : Nat) : FdbHashesGroup :=
  { hg.setPartition i { h with hash := h.hash.erase k } with heap := dropped [e] hg.heap }

theorem Ok.gHashTableRemove (hok : hg.Ok held) (hi : hg.fdbHashes[i]? = some h)
    (hk : h.hash.lookup k = some e) :
    hg.gHashTableRemove i k = .ok (hg.withoutKey i h k e) ∧ (hg.withoutKey i h k e).Ok held := by
  have hpart := hok.represents.agree i h hi
  obtain ⟨he, x, hx, -⟩ := hpart.hashed k e hk
  constructor
  · simp only [FdbHashesGroup.gHashTableRemove, partition_eq_ok.2 hi, except_ok_bind, hk]
    exact @hashValueDestroyFunc_eq (hg.setPartition i { h with hash := h.hash.erase k }) e x hx
  · refine hok.shrink hi rfl (hpart.erase hk) (fun d hd => ?_) (hok.represents.purgeIdx i h hi)
    obtain rfl := mem_singleton.1 hd
    exact he

theorem gHashTableReplace_eq (hi : hg.fdbHashes[i]? = some h)
    (hlive : ∀ old, h.hash.lookup k = some old → (hg.heap old).isSome) :
    hg.gHashTableReplace i k e = .ok { hg.setPartition i { h with hash := h.hash.insert k e } with
      heap := dropped (h.hash.lookup k).toList hg.heap } := by
  simp only [gHashTableReplace, partition_eq_ok.2 hi, except_ok_bind]
  cases hk : h.hash.lookup k with
  | none =>
    rfl
  | some old =>
    obtain ⟨x, hx⟩ := isSome_iff_exists.1 (hlive old hk)
    exact @hashValueDestroyFunc_eq (hg.setPartition i { h with hash := h.hash.insert k e }) old x hx

theorem Ok.setPartition (hok : hg.Ok held) (hi : hg.fdbHashes[i]? = some h) (hhash : h'.hash = h.hash)
    (harr : h'.ptrArray = h.ptrArray) (hidx : 0 ≤ h'.purgeIdx ∧ h'.purgeIdx ≤ h'.ptrArray.length) :
    (hg.setPartition i h').Ok held := by
  have hagree := hok.represents.agree i h hi
  have hok' : h'.Ok (dropped [] hg.heap) := by
    exact ⟨by rw [hhash, harr]; exact hagree.current, by rw [hhash, harr]; exact hagree.hashed,
      harr ▸ hagree.nodup⟩
  have hset := hok.shrink hi harr hok' (fun _ hd => (nomatch hd)) hidx
  rwa [dropped_nil] at hset

/-! ## Purging -/

/-- A purge frees memory, and of what the cache holds only what has expired may be lost. -/
structure Purged (hg hg' : FdbHashesGroup) : Prop where
  settings : SameSettings hg hg'
  now : hg'.now = hg.now
  used : hg'.used ≤ hg.used
  view : ∀ k, hg'.view k = hg.view k ∨ (hg'.view k = none ∧ ∃ v expire, hg.view k = some (v, expire) ∧
    expire ≤ hg.now)

theorem Purged.refl (hg : FdbHashesGroup) : Purged hg hg := ⟨.refl hg, rfl, le_rfl, fun _ => .inl rfl⟩

theorem Purged.trans (h : Purged hg hg') (h' : Purged hg' hg'') : Purged hg hg'' := by
  refine ⟨h.settings.trans h'.settings, h'.now.trans h.now, h'.used.trans h.used, fun k => ?_⟩
  rcases h'.view k with heq | ⟨hnone, v, expire, hv, hle⟩
  · rw [heq]
    exact h.view k
  · rcases h.view k with heq | ⟨hnone', -⟩
    · rw [heq] at hv
      rw [h.now] at hle
      exact .inr ⟨hnone, v, expire, hv, hle⟩
    · rw [hnone'] at hv
      cases hv

theorem Purged.of_setPartition (hi : hg.fdbHashes[i]? = some h) (hhash : h'.hash = h.hash) :
    Purged hg (hg.setPartition i h') := by
  refine ⟨⟨size_setPartition hg i h', rfl, rfl, rfl⟩, rfl, le_rfl,
    fun k => .inl (view_congr ?_ fun _ _ => rfl)⟩
  rw [find_set hi h' rfl, hhash]
  split
  · next heq => rw [find, heq, hi, bind_some]
  · rfl

theorem Ok.purged_remove (hok : hg.Ok held) (hi : hg.fdbHashes[i]? = some h) (hx : hg.heap e = some x)
    (hk : h.hash.lookup x.key = some e) (hexpired : x.expire ≤ hg.now) :
    Purged hg (hg.withoutKey i h x.key e) := by
  refine ⟨⟨size_setPartition hg i _, rfl, rfl, rfl⟩, rfl, le_rfl, fun k => ?_⟩
  have hfind : (hg.withoutKey i h x.key e).find k
      = if hg.home k = i then (h.hash.erase x.key).lookup k else hg.find k :=
    find_set hi { h with hash := h.hash.erase x.key } rfl k
  by_cases hhit : hg.home k = i ∧ k = x.key
  · -- the key itself
    obtain ⟨hhome, rfl⟩ := hhit
    rw [if_pos hhome, AList.lookup_erase] at hfind
    refine .inr ⟨by rw [view, hfind, Option.bind_none], x.value.take x.length, x.expire, ?_, hexpired⟩
    rw [view, find, hhome, hi, bind_some, hk, bind_some, hx, map_some]
    rfl
  · have hsame : (hg.withoutKey i h x.key e).find k = hg.find k := by
      rw [hfind]
      split
      · next hhome =>
        rw [AList.lookup_erase_ne fun heq => hhit ⟨hhome, heq⟩, find, hhome, hi, bind_some]
      · rfl
    refine .inl (view_congr hsame fun d hd => ?_)
    -- an entry that is found under another key, or elsewhere, is another entry
    have hne : d ≠ e := by
      rintro rfl
      obtain ⟨q, hq, hqk⟩ := find_eq_some hd
      obtain ⟨hmem, y, hy, rfl⟩ := (hok.represents.agree _ q hq).hashed k d hqk
      obtain rfl : x = y := some.inj (hx.symm.trans hy)
      exact hhit ⟨hok.represents.disjoint hq hi hmem ((hok.represents.agree i h hi).hashed _ d hk).1, rfl⟩
    have hheap : (hg.withoutKey i h x.key e).heap d = hg.heap d :=
      dropped_of_notMem fun hmem => hne (mem_singleton.1 hmem)
    rw [hheap]

theorem Ok.purged_free (hok : hg.Ok held) (hi : hg.fdbHashes[i]? = some h) (he : h.ptrArray[idx]? = some e)
    (hx : hg.heap e = some x) (hdropped : x.expire = expireDropit) (href : x.refCount = 0)
    (hidx : h.purgeIdx ≤ idx) : ∃ hg', hg.purgeFree i idx e x = .ok hg' ∧ hg'.Ok held ∧ Purged hg hg' ∧
      hg'.fdbHashes[i]? = some { h with ptrArray := removeIndexFast h.ptrArray idx } ∧
      hg'.heap = update hg.heap e none := by
  obtain ⟨hg', hfree, hok', hfdb, hheap, hnow, hkeys, hvalues, hmetas, hsettings⟩ :=
    hok.free hi he hx hdropped href hidx
  have hlt : i < hg.fdbHashes.length := (List.getElem?_eq_some_iff.1 hi).1
  refine ⟨hg', hfree, hok', ⟨hsettings, hnow, ?_, fun k => .inl (view_congr ?_ fun d hd => ?_)⟩, ?_, hheap⟩
  · rw [used, used, hkeys, hvalues, hmetas, metaSize]
    omega
  · rw [find_set hi _ hfdb]
    split
    · next hhome => rw [find, hhome, hi, bind_some]
    · rfl
  · have hne : d ≠ e := by
      rintro rfl
      obtain ⟨q, hq, hqk⟩ := find_eq_some hd
      exact (hok.represents.agree _ q hq).not_hashed hx hdropped k hqk
    rw [hheap, update_of_ne hne]
  · rw [hfdb, getElem?_set_self hlt]

theorem Ok.purgeVisit (hok : hg.Ok held) (hi : hg.fdbHashes[i]? = some h) (hidx : h.purgeIdx = idx)
    (hlt : idx < h.ptrArray.length) :
    ∃ hg' h', hg.purgeVisit i hg.now idx = .ok hg' ∧ hg'.Ok held ∧ Purged hg hg' ∧
      hg'.fdbHashes[i]? = some h' ∧ idx ≤ h'.ptrArray.length ∧ h'.purgeChunkSize = h.purgeChunkSize ∧
      Sweeps (fun _ => True) (idx + 1) idx hg h hg' h' := by
  have hget : h.ptrArray[idx]? = some h.ptrArray[idx] := getElem?_eq_getElem hlt
  generalize h.ptrArray[idx] = e at hget
  have hmem : e ∈ h.ptrArray := mem_of_getElem? hget
  have hagree := hok.represents.agree i h hi
  obtain ⟨x, hx, hiff⟩ := hagree.current e hmem
  have hlen := length_removeIndexFast hget
  simp only [FdbHashesGroup.purgeVisit, partition_eq_ok.2 hi, except_ok_bind, hget, entryAt_eq_ok.2 hx]
  by_cases hexpired : x.expire ≠ expireDropit ∧ x.expire ≤ hg.now
  · obtain ⟨hremove, hok1⟩ := hok.gHashTableRemove hi (hiff.1 hexpired.1)
    have hpurged1 := hok.purged_remove hi hx (hiff.1 hexpired.1) hexpired.2
    have hx1 : (hg.withoutKey i h x.key e).heap e = some x.drop := dropped_of_mem (mem_singleton.2 rfl) hx
    have hother1 : ∀ d, d ≠ e → (hg.withoutKey i h x.key e).heap d = hg.heap d := fun d hd =>
      dropped_of_notMem fun hmem => hd (mem_singleton.1 hmem)
    have hi1 : (hg.withoutKey i h x.key e).fdbHashes[i]? = some { h with hash := h.hash.erase x.key } :=
      getElem?_set_self (List.getElem?_eq_some_iff.1 hi).1
    rw [if_pos hexpired, hremove, except_ok_bind, entryAt_eq_ok.2 hx1, except_ok_bind]
    by_cases href : x.refCount = 0
    · obtain ⟨hg', hfree, hok', hpurged', hi', hheap'⟩ := hok1.purged_free hi1 hget hx1 rfl href hidx.le
      rw [if_pos ⟨rfl, href⟩]
      have hdead : hg.Dead e := (dead_iff hx).2 ⟨.inl hexpired.2, href⟩
      refine ⟨hg', _, hfree, hok', hpurged1.trans hpurged', hi', by dsimp only; omega, rfl,
        .of_visit hget hagree.nodup trivial hpurged'.now (fun d hd => ?_) (fun _ => ⟨?_, rfl⟩)
          (absurd hdead)⟩
      · rw [hheap', update_of_ne hd, hother1 d hd]
      · rw [hheap', update_self]
    · rw [if_neg fun hand => href hand.2]
      have hlives : ¬hg.Dead e := fun hdead => href ((dead_iff hx).1 hdead).2
      exact ⟨_, _, rfl, hok1, hpurged1, hi1, hlt.le, rfl,
        .of_visit hget hagree.nodup trivial rfl hother1 (fun hdead => absurd hdead hlives) fun _ => rfl⟩
  · rw [if_neg hexpired]
    show ∃ hg' h', (hg.entryAt e >>= fun x =>
      if x.expire = expireDropit ∧ x.refCount = 0 then hg.purgeFree i idx e x else pure hg) = .ok hg' ∧ _
    rw [entryAt_eq_ok.2 hx, except_ok_bind]
    by_cases hfree : x.expire = expireDropit ∧ x.refCount = 0
    · obtain ⟨hg', hfreed, hok', hpurged', hi', hheap'⟩ :=
        hok.purged_free hi hget hx hfree.1 hfree.2 hidx.le
      rw [if_pos hfree]
      have hdead : hg.Dead e := (dead_iff hx).2 ⟨.inr hfree.1, hfree.2⟩
      refine ⟨hg', _, hfreed, hok', hpurged', hi', by dsimp only; omega, rfl,
        .of_visit hget hagree.nodup trivial hpurged'.now (fun d hd => ?_) (fun _ => ⟨?_, rfl⟩)
          (absurd hdead)⟩
      · rw [hheap', update_of_ne hd]
      · rw [hheap', update_self]
    · rw [if_neg hfree]
      have hlives : ¬hg.Dead e := by
        rw [dead_iff hx]
        rintro ⟨hgone, href⟩
        have hunmarked : x.expire ≠ expireDropit := fun hmark => hfree ⟨hmark, href⟩
        exact hexpired ⟨hunmarked, hgone.resolve_right hunmarked⟩
      exact ⟨hg, h, rfl, hok, .refl hg, hi, hlt.le, rfl,
        .of_visit hget hagree.nodup trivial rfl (fun _ _ => rfl) (fun hdead => absurd hdead hlives) fun _ =>
          rfl⟩

/-- The loop of a pass stays within the array, and looks at the indices above `min_idx`. -/
theorem Ok.purgeFrom {minIdx : Int} (hmin : 0 ≤ minIdx) (hok : hg.Ok held) (hi : hg.fdbHashes[i]? = some h)
    (hpos : 0 < idx) (hle : idx ≤ h.ptrArray.length) :
    ∃ hg' h' q, FdbHashesGroup.purgeFrom i hg.now minIdx idx hg = .ok hg' ∧ hg'.Ok held ∧ Purged hg hg' ∧
      hg'.fdbHashes[i]? = some h' ∧ h'.purgeChunkSize = h.purgeChunkSize ∧
      h'.purgeIdx = (q : Nat) ∧ q < idx ∧
      (minIdx < idx → (q : Int) = minIdx) ∧ Sweeps (fun m => minIdx < m) idx q hg h hg' h' := by
  induction idx generalizing hg h with
  | zero => exact absurd hpos (Nat.lt_irrefl 0)
  | succ idx ih =>
    have hset : hg.setPurgeIdx i idx = .ok (hg.setPartition i { h with purgeIdx := idx }) := by
      rw [setPurgeIdx, partition_eq_ok.2 hi]
      rfl
    have hok1 : (hg.setPartition i { h with purgeIdx := idx }).Ok held := by
      refine hok.setPartition hi rfl rfl ⟨Int.natCast_nonneg idx, ?_⟩
      dsimp only
      omega
    have hpurged1 : Purged hg (hg.setPartition i { h with purgeIdx := idx }) := .of_setPartition hi rfl
    have hi1 : (hg.setPartition i { h with purgeIdx := idx }).fdbHashes[i]? =
      some { h with purgeIdx := idx } :=
      getElem?_set_self (List.getElem?_eq_some_iff.1 hi).1
    simp only [FdbHashesGroup.purgeFrom, hset, except_ok_bind]
    split
    · next hlt =>
      obtain ⟨hg2, h2, hvisit, hok2, hpurged2, hi2, hle2, hchunk2, hsweep2⟩ :=
        hok1.purgeVisit hi1 rfl (by dsimp only; omega)
      -- the loop goes on with an index above `min_idx`
      have hpos' : 0 < idx := by omega
      obtain ⟨hg', h', q, hloop, hok', hpurged', hi', hchunk', hidx', hq, hstop, hsweep'⟩ :=
        ih hok2 hi2 hpos' hle2
      rw [hpurged2.now] at hloop
      have hvisit' : (hg.setPartition i { h with purgeIdx := idx }).purgeVisit i hg.now idx = .ok hg2 :=
        hvisit
      rw [hvisit', except_ok_bind]
      have hvisited : Sweeps (fun _ => True) (idx + 1) idx hg h hg2 h2 := hsweep2.of_start rfl rfl rfl
      have hfirst : Sweeps (fun m : Nat => minIdx < m) (idx + 1) idx hg h hg2 h2 := by
        refine hvisited.congr fun m hge hle => ?_
        obtain rfl : m = idx := by omega
        exact iff_of_true trivial hlt
      refine ⟨hg', h', q, hloop, hok', hpurged1.trans (hpurged2.trans hpurged'), hi',
        hchunk'.trans hchunk2, hidx', by omega, fun _ => hstop hlt,
        hfirst.trans hsweep' (hok.represents.agree i h hi).nodup ?_ hq.le⟩
      exact Nat.le_succ idx
    · next hge =>
      refine ⟨_, _, idx, rfl, hok1, hpurged1, hi1, rfl, rfl, Nat.lt_succ_self idx, fun hlt => ?_,
        .of_eq (fun m hm hm' => ?_) rfl rfl rfl⟩
      · omega
      · omega

theorem minIdx_nonneg (h : FdbHash) : 0 ≤ h.minIdx := by
  unfold FdbHash.minIdx
  dsimp only
  split_ifs <;> omega

/-- What a pass over partition `i` does: it goes on from the purge index, or begins a new cycle. -/
theorem Ok.purgePass (hok : hg.Ok held) (hi : hg.fdbHashes[i]? = some h) {h1 : FdbHash}
    (hh1 : h.restartPurge hg.fdbSystemVar = h1) :
    ∃ hg' h' q, hg.purgePartition i = .ok hg' ∧ hg'.Ok held ∧ Purged hg hg' ∧ hg'.fdbHashes[i]? = some h' ∧
      h'.purgeChunkSize = h1.purgeChunkSize ∧ h'.purgeIdx = (q : Nat) ∧ q ≤ h1.purgeIdx ∧
      (h1.minIdx < h1.purgeIdx → (q : Int) = h1.minIdx) ∧
      Sweeps (fun m => h1.minIdx < m) h1.purgeIdx.toNat q hg h hg' h' := by
  obtain ⟨hnonneg, hle⟩ := hok.represents.purgeIdx i h hi
  have hhash : h1.hash = h.hash := by
    rw [← hh1]
    unfold FdbHash.restartPurge
    split <;> rfl
  have harr : h1.ptrArray = h.ptrArray := by
    rw [← hh1]
    unfold FdbHash.restartPurge
    split <;> rfl
  have hidx : 0 ≤ h1.purgeIdx ∧ h1.purgeIdx ≤ h1.ptrArray.length := by
    rw [harr, ← hh1]
    unfold FdbHash.restartPurge
    split
    · exact ⟨Int.natCast_nonneg _, le_rfl⟩
    · exact ⟨hnonneg, hle⟩
  have hok1 := hok.setPartition hi hhash harr hidx
  have hpurged1 : Purged hg (hg.setPartition i h1) := .of_setPartition hi hhash
  have hi1 : (hg.setPartition i h1).fdbHashes[i]? = some h1 :=
    getElem?_set_self (List.getElem?_eq_some_iff.1 hi).1
  have hmin := minIdx_nonneg h1
  simp only [FdbHashesGroup.purgePartition, partition_eq_ok.2 hi, except_ok_bind, hh1]
  split
  · next heq =>
    have heq : h1.purgeIdx = 0 := heq
    refine ⟨_, h1, 0, rfl, hok1, hpurged1, hi1, rfl, heq, ?_, fun hlt => ?_, ?_⟩
    · rw [heq]
      exact le_rfl
    · omega
    · rw [heq]
      exact .of_eq (fun m _ hm => absurd hm (Nat.not_lt_zero m)) rfl rfl harr
  · next idx heq =>
    have heq : h1.purgeIdx = (idx + 1 : Nat) := heq
    rw [heq] at hidx
    obtain ⟨hg', h', q, hloop, hok', hpurged', hi', hchunk', hidx', hq, hstop, hsweep⟩ :=
      hok1.purgeFrom hmin hi1 (Nat.succ_pos idx) (Int.ofNat_le.1 hidx.2)
    refine ⟨hg', h', q, hloop, hok', hpurged1.trans hpurged', hi', hchunk', hidx', ?_, ?_, ?_⟩
    · omega
    · rw [heq]
      exact hstop
    · rw [heq]
      exact hsweep.of_start rfl rfl harr
  · next n heq =>
    exact absurd hidx.1 (by omega)

theorem Ok.purgePartition (hok : hg.Ok held) (hi : i < hg.size) :
    ∃ hg', hg.purgePartition i = .ok hg' ∧ hg'.Ok held ∧ Purged hg hg' := by
  obtain ⟨h, hi⟩ := partition_of_lt hi
  obtain ⟨hg', h', q, hpass, hok', hpurged, -⟩ := hok.purgePass hi rfl
  exact ⟨hg', hpass, hok', hpurged⟩

/-! ## Insertion -/

/-- The entry that `fdb_set` makes. -/
def newEntry (hg : FdbHashesGroup) (kp : Str) (kl : Nat) (vp : List Byte) (vl : Nat) (expire : Int) :
    FdbHashEntry :=
  { key := kp, value := vp, klen := kl, length := vl, expire := hg.expiry expire, access := hg.now,
    refCount := 0 }

/-- The group after entry `x` was added to partition `i`, in the place of what its hash table had. -/
def withEntry (hg : FdbHashesGroup) (i : Nat) (h : FdbHash) (x : FdbHashEntry) : FdbHashesGroup :=
  { hg.setPartition i
      { h with hash := h.hash.insert x.key hg.nextEntry, ptrArray := h.ptrArray ++ [hg.nextEntry] } with
    heap := dropped (h.hash.lookup x.key).toList (update hg.heap hg.nextEntry (some x)),
    nextEntry := hg.nextEntry + 1, cntSet := hg.cntSet + 1, sizeKeys := hg.sizeKeys + x.klen,
    sizeValues := hg.sizeValues + x.length, dataIN := hg.dataIN + x.length,
      sizeMetas := hg.sizeMetas + metaSize }

theorem Ok.fdbSet_eq (hok : hg.Ok held) {kp : Str} {kl : Nat} (vp : List Byte) (vl : Nat) (expire : Int)
    (hi : hg.fdbHashes[partitionOf hg.size kp (2 < kl)]? = some h) :
    hg.fdbSet kp kl vp vl expire
      = .ok (hg.withEntry (partitionOf hg.size kp (2 < kl)) h (hg.newEntry kp kl vp vl expire)) := by
  have hlt := (List.getElem?_eq_some_iff.1 hi).1
  have hlive : ∀ old, h.hash.lookup kp = some old →
      (update hg.heap hg.nextEntry (some (hg.newEntry kp kl vp vl expire)) old).isSome := by
    intro old hold
    obtain ⟨-, y, hy, -⟩ := (hok.represents.agree _ h hi).hashed kp old hold
    rcases eq_or_ne old hg.nextEntry with rfl | hne
    · rw [update_self, Option.isSome_some]
    · rw [update_of_ne hne, hy, Option.isSome_some]
  refine except_bind_eq_ok.2 ⟨h, partition_eq_ok.2 hi, ?_⟩
  refine except_bind_eq_ok.2 ⟨_, gHashTableReplace_eq (getElem?_set_self hlt) hlive, ?_⟩
  rw [FdbHashesGroup.withEntry, FdbHashesGroup.setPartition, FdbHashesGroup.setPartition,
    FdbHashesGroup.setPartition, set_set]
  rfl

theorem Ok.withEntry (hok : hg.Ok held) (hi : hg.fdbHashes[i]? = some h) (hexpire : x.expire ≠ expireDropit)
    (hblock : x.length ≤ x.value.length) (href : x.refCount = 0) : (hg.withEntry i h x).Ok held := by
  have hself := AList.lookup_insert (a := x.key) (b := hg.nextEntry) h.hash
  have hother : ∀ k, k ≠ x.key → (h.hash.insert x.key hg.nextEntry).lookup k = h.hash.lookup k :=
    fun k hk => AList.lookup_insert_ne hk
  cases hk : h.hash.lookup x.key with
  | none =>
    refine hok.add hi hexpire hblock href hk hself hother rfl ?_ rfl rfl rfl rfl rfl
    rw [FdbHashesGroup.withEntry, hk, Option.toList_none, dropped_nil]
  | some old =>
    -- the old entry leaves first
    obtain ⟨-, hok1⟩ := hok.gHashTableRemove hi hk
    have hi1 : (hg.withoutKey i h x.key old).fdbHashes[i]? = some { h with hash := h.hash.erase x.key } :=
      getElem?_set_self (List.getElem?_eq_some_iff.1 hi).1
    refine hok1.add hi1 hexpire hblock href (AList.lookup_erase x.key h.hash) hself (fun k hne => ?_) ?_ ?_
      rfl rfl rfl rfl rfl
    · rw [hother k hne, AList.lookup_erase_ne hne]
    · rw [FdbHashesGroup.withEntry, withoutKey, FdbHashesGroup.setPartition,
        FdbHashesGroup.setPartition, set_set]
    · obtain ⟨-, y, hy, -⟩ := (hok.represents.agree i h hi).hashed _ old hk
      have hne : hg.nextEntry ≠ old := by
        rintro rfl
        rw [hok.fresh] at hy
        cases hy
      rw [FdbHashesGroup.withEntry, hk, Option.toList_some]
      funext d
      show dropped [old] (update hg.heap hg.nextEntry (some x)) d
        = update (dropped [old] hg.heap) hg.nextEntry (some x) d
      rcases eq_or_ne d hg.nextEntry with rfl | hd
      · rw [dropped_of_notMem fun hmem => hne (mem_singleton.1 hmem), update_self, update_self]
      · rw [update_of_ne hd, dropped, dropped, update_of_ne hd]

theorem Ok.view_withEntry (hok : hg.Ok held) (hi : hg.fdbHashes[i]? = some h) (hhome : hg.home x.key = i)
    (k : Str) : (hg.withEntry i h x).view k = if k = x.key then some x.served else hg.view k := by
  have hfind : (hg.withEntry i h x).find k
      = if hg.home k = i then (h.hash.insert x.key hg.nextEntry).lookup k else hg.find k :=
    find_set hi { h with hash := h.hash.insert x.key hg.nextEntry,
                         ptrArray := h.ptrArray ++ [hg.nextEntry] } rfl k
  -- an entry in use is not the new one
  have hnew : ∀ d, (hg.heap d).isSome → d ≠ hg.nextEntry := by
    rintro d hd rfl
    rw [hok.fresh] at hd
    cases hd
  have hold : ∀ d, h.hash.lookup x.key = some d → ∃ y, hg.heap d = some y ∧ y.key = x.key := fun d hd =>
    ((hok.represents.agree i h hi).hashed x.key d hd).2
  split
  · next heq =>
    subst heq
    rw [if_pos hhome, AList.lookup_insert] at hfind
    have hheap : (hg.withEntry i h x).heap hg.nextEntry = some x := by
      refine (dropped_of_notMem fun hmem => ?_).trans (update_self _ _ _)
      obtain ⟨y, hy, -⟩ := hold _ (Option.mem_toList.1 hmem)
      exact hnew _ (isSome_of_eq_some hy) rfl
    rw [view, hfind, bind_some, hheap, map_some]
  · next hne =>
    have hsame : (hg.withEntry i h x).find k = hg.find k := by
      rw [hfind]
      split
      · next hk => rw [AList.lookup_insert_ne hne, find, hk, hi, bind_some]
      · rfl
    refine view_congr hsame fun d hd => ?_
    obtain ⟨y, hy, hykey⟩ := hok.represents.find_key hd
    have hheap : (hg.withEntry i h x).heap d = hg.heap d := by
      refine (dropped_of_notMem fun hmem => ?_).trans (update_of_ne (hnew d (isSome_of_eq_some hy)) _ _)
      obtain ⟨z, hz, hzkey⟩ := hold d (Option.mem_toList.1 hmem)
      obtain rfl : y = z := some.inj (hy.symm.trans hz)
      exact hne (hykey.symm.trans hzkey)
    rw [hheap]

theorem partitionOf_lt {n : Nat} (hn : 0 < n) (kp : Str) (long : Bool) : partitionOf n kp long < n :=
  Nat.mod_lt _ hn

theorem expiry_pos (hnow : 0 < hg.now) (expire : Int) : 0 < hg.expiry expire := by
  unfold expiry
  split
  · split <;> omega
  · omega

theorem Ok.fdbSet (hok : hg.Ok held) (hsize : 0 < hg.size) (hnow : 0 < hg.now) (kp : Str) (kl : Nat)
    {vp : List Byte} {vl : Nat} (hvl : vl ≤ vp.length) (expire : Int) :
    ∃ hg', hg.fdbSet kp kl vp vl expire = .ok hg' ∧ hg'.Ok held ∧ SameSettings hg hg' ∧ hg'.now = hg.now ∧
      hg'.used = hg.used + (kl + vl + metaSize) ∧
      (decide (2 < kl) = decide (2 < kp.length) → ∀ k,
        hg'.view k = if k = kp then some (vp.take vl, hg.expiry expire) else hg.view k) := by
  obtain ⟨h, hi⟩ := partition_of_lt (partitionOf_lt hsize kp (2 < kl))
  have hexpire : (hg.newEntry kp kl vp vl expire).expire ≠ expireDropit := (expiry_pos hnow expire).ne'
  refine ⟨_, hok.fdbSet_eq vp vl expire hi, hok.withEntry hi hexpire hvl rfl,
    ⟨size_setPartition hg _ _, rfl, rfl, rfl⟩, rfl, ?_, fun hlong k => ?_⟩
  · simp only [used, FdbHashesGroup.withEntry, newEntry]
    omega
  · refine hok.view_withEntry hi ?_ k
    rw [home, hlong]
    rfl

/-! ## Truncation -/

theorem Ok.gHashTableRemoveAll (hok : hg.Ok held) (hi : hg.fdbHashes[i]? = some h) :
    ∃ hg', hg.gHashTableRemoveAll i = .ok hg' ∧ hg'.Ok held ∧ SameSettings hg hg' ∧ hg'.now = hg.now ∧
      hg'.used = hg.used ∧ ∀ k, hg'.find k = if hg.home k = i then none else hg.find k := by
  have hagree := hok.represents.agree i h hi
  have hmem : ∀ e ∈ h.hash.entries.map Sigma.snd, e ∈ h.ptrArray ∧ (hg.heap e).isSome := by
    intro e he
    obtain ⟨⟨k, _⟩, hkv, rfl⟩ := mem_map.1 he
    obtain ⟨harr, x, hx, -⟩ := hagree.hashed k _ (AList.mem_lookup_iff.2 hkv)
    exact ⟨harr, isSome_of_eq_some hx⟩
  have hclear : hg.gHashTableRemoveAll i = .ok { hg.setPartition i { h with hash := ∅ } with
      heap := dropped (h.hash.entries.map Sigma.snd) hg.heap } := by
    rw [FdbHashesGroup.gHashTableRemoveAll, partition_eq_ok.2 hi, except_ok_bind]
    exact foldlM_hashValueDestroyFunc _ fun e he => (hmem e he).2
  refine ⟨_, hclear, ?_, ⟨size_setPartition hg i _, rfl, rfl, rfl⟩, rfl, rfl, fun k => ?_⟩
  · exact hok.shrink hi rfl hagree.clear (fun e he => (hmem e he).1) (hok.represents.purgeIdx i h hi)
  · rw [find_set hi { h with hash := ∅ } rfl k, AList.lookup_empty]

theorem Ok.truncateFrom (is : List Nat) (tot : Nat) (hok : hg.Ok held) (his : ∀ i ∈ is, i < hg.size) :
    ∃ hg' tot', is.foldlM (fun (r : FdbHashesGroup × Nat) i => do
          let h ← r.1.partition i
          return (← r.1.gHashTableRemoveAll i, r.2 + h.hash.entries.length)) (hg, tot) = .ok (hg', tot') ∧
      hg'.Ok held ∧ SameSettings hg hg' ∧ hg'.now = hg.now ∧ hg'.used = hg.used ∧
      ∀ k, hg'.find k = if hg.home k ∈ is then none else hg.find k := by
  induction is generalizing hg tot with
  | nil => exact ⟨hg, tot, rfl, hok, .refl hg, rfl, rfl, fun k => (if_neg not_mem_nil).symm⟩
  | cons i is ih =>
    obtain ⟨h, hi⟩ := partition_of_lt (his i mem_cons_self)
    obtain ⟨hg1, hclear, hok1, hsettings1, hnow1, hused1, hfind1⟩ := hok.gHashTableRemoveAll hi
    have hhome1 : ∀ k, hg1.home k = hg.home k := fun k => by rw [home, home, hsettings1.size]
    obtain ⟨hg', tot', hloop, hok', hsettings', hnow', hused', hfind'⟩ :=
      ih (tot + h.hash.entries.length) hok1 fun j hj => hsettings1.size ▸ his j (mem_cons_of_mem _ hj)
    refine ⟨hg', tot', ?_, hok', hsettings1.trans hsettings', hnow'.trans hnow1, hused'.trans hused1,
      fun k => ?_⟩
    · rw [foldlM_cons, partition_eq_ok.2 hi, except_ok_bind, hclear]
      exact hloop
    · rw [hfind', hfind1, hhome1]
      by_cases hmem : hg.home k ∈ is
      · rw [if_pos hmem, if_pos (mem_cons_of_mem _ hmem)]
      · rw [if_neg hmem]
        simp only [mem_cons, hmem, or_false]

theorem Ok.fdbTruncateAll (hok : hg.Ok held) (hsize : 0 < hg.size) :
    ∃ hg' tot, hg.fdbTruncateAll = .ok (hg', tot) ∧ hg'.Ok held ∧ SameSettings hg hg' ∧ hg'.now = hg.now ∧
      hg'.used = hg.used ∧ ∀ k, hg'.view k = none := by
  obtain ⟨hg', tot, hloop, hok', hsettings, hnow, hused, hfind⟩ :=
    hok.truncateFrom (range hg.size) 0 fun i hi => mem_range.1 hi
  refine ⟨hg', tot, hloop, hok', hsettings, hnow, hused, fun k => ?_⟩
  have hmem : hg.home k ∈ range hg.size := mem_range.2 (partitionOf_lt hsize k _)
  rw [view, hfind, if_pos hmem, Option.bind_none]

/-! ## Lookup -/

/-- A reader changes nothing that others can see. -/
structure Read (hg hg' : FdbHashesGroup) : Prop where
  settings : SameSettings hg hg'
  now : hg'.now = hg.now
  used : hg'.used = hg.used
  find : ∀ k, hg'.find k = hg.find k
  view : ∀ k, hg'.view k = hg.view k

theorem Read.refl (hg : FdbHashesGroup) : Read hg hg := ⟨.refl hg, rfl, rfl, fun _ => rfl, fun _ => rfl⟩

theorem Read.trans (h : Read hg hg') (h' : Read hg' hg'') : Read hg hg'' :=
  ⟨h.settings.trans h'.settings, h'.now.trans h.now, h'.used.trans h.used,
    fun k => (h'.find k).trans (h.find k), fun k => (h'.view k).trans (h.view k)⟩

theorem Read.countGet (hg : FdbHashesGroup) : Read hg hg.countGet :=
  ⟨⟨rfl, rfl, rfl, rfl⟩, rfl, rfl, fun _ => rfl, fun _ => rfl⟩

/-- One more reader of `found`. -/
def heldBy (held : Nat → Nat) : Option Nat → Nat → Nat
  | none => held
  | some e => update held e (held e + 1)

theorem Ok.of_eq (hok : hg.Ok held) (hfdb : hg'.fdbHashes = hg.fdbHashes) (hheap : hg'.heap = hg.heap)
    (hnext : hg'.nextEntry = hg.nextEntry) (hkeys : hg'.sizeKeys = hg.sizeKeys)
    (hvalues : hg'.sizeValues = hg.sizeValues) (hmetas : hg'.sizeMetas = hg.sizeMetas)
    (hfreed : hg'.freed = hg.freed) : hg'.Ok held := by
  have hcontents : ∀ d, (hg'.heap d).map FdbHashEntry.contents = (hg.heap d).map FdbHashEntry.contents :=
    fun d => by rw [hheap]
  have harr : hg'.fdbHashes.map FdbHash.ptrArray = hg.fdbHashes.map FdbHash.ptrArray := by rw [hfdb]
  refine ⟨hok.represents.change harr hcontents hnext ?_ ?_,
    hok.accounts.change harr hcontents hkeys hvalues hmetas, ⟨?_, ?_⟩, ?_, ?_, ?_⟩
  · rw [hfdb, hheap]
    exact hok.represents.agree
  · rw [hfdb]
    exact hok.represents.purgeIdx
  · rw [hheap]
    exact hok.referenced.refCount
  · rw [hheap]
    exact hok.referenced.live
  · rw [hfreed]
    exact hok.freed.once
  · rw [hfreed, hnext, hheap]
    exact hok.freed.gone
  · rw [hfreed]
    exact hok.freed.unused

theorem Read.of_touch {y : FdbHashEntry} (hx : hg.heap e = some x) (hcontents : y.contents = x.contents)
    (hexpire : y.expire = x.expire) : Read hg { hg with heap := update hg.heap e (some y) } := by
  refine ⟨⟨rfl, rfl, rfl, rfl⟩, rfl, rfl, fun _ => rfl, fun k => view_congr rfl fun d _ => ?_⟩
  dsimp only
  rcases eq_or_ne d e with rfl | hne
  · simp only [FdbHashEntry.contents, Prod.mk.injEq] at hcontents
    obtain ⟨-, hvalue, -, hlength⟩ := hcontents
    rw [update_self, hx, map_some, map_some, FdbHashEntry.served, FdbHashEntry.served,
      hvalue, hlength, hexpire]
  · rw [update_of_ne hne]

theorem toInt_length {kp : Str} (hkp : kp.length < 2 ^ 31) :
    (BitVec.ofNat 32 kp.length).toInt = kp.length := by
  rw [BitVec.toInt_eq_toNat_of_lt, BitVec.toNat_ofNat, Nat.mod_eq_of_lt (by omega)]
  rw [BitVec.toNat_ofNat, Nat.mod_eq_of_lt (by omega)]
  omega

theorem Ok.fdbGetLookup (hok : hg.Ok held) (hsize : 0 < hg.size) (kp : Str) :
    ∃ hg' found, hg.fdbGetLookup kp = .ok (hg', found) ∧ hg'.Ok (heldBy held found) ∧ Read hg hg' ∧
      (kp.length < 2 ^ 31 → found = hg.find kp) := by
  obtain ⟨h, hi⟩ := partition_of_lt (partitionOf_lt hsize kp (2 < (BitVec.ofNat 32 kp.length).toInt))
  have hfind : kp.length < 2 ^ 31 → hg.find kp = h.hash.lookup kp := by
    intro hkp
    rw [toInt_length hkp] at hi
    have hlong : decide (2 < (kp.length : Int)) = decide (2 < kp.length) := by
      rw [decide_eq_decide]
      omega
    rw [hlong] at hi
    rw [find, home, hi, bind_some]
  simp only [FdbHashesGroup.fdbGetLookup, partition_eq_ok.2 hi, except_ok_bind]
  cases hk : h.hash.lookup kp with
  | none => exact ⟨hg, none, rfl, hok, .refl hg, fun hkp => ((hfind hkp).trans hk).symm⟩
  | some e =>
    obtain ⟨-, x, hx, -⟩ := (hok.represents.agree _ h hi).hashed kp e hk
    have href := hok.referenced.refCount e x hx
    dsimp only
    rw [modifyEntry_eq hx, except_ok_bind]
    refine ⟨_, some e, rfl, hok.touch hx rfl rfl ?_ fun d hd => update_of_ne hd _ _,
      .of_touch hx rfl rfl, fun hkp => ((hfind hkp).trans hk).symm⟩
    rw [heldBy, update_self]
    push_cast
    rw [href]

theorem fdbGetTest_eq (hx : hg.heap e = some x) :
    hg.fdbGetTest e = .ok (if hg.now < x.expire then some hg.now else none) := by
  rw [fdbGetTest, entryAt_eq_ok.2 hx]
  rfl

theorem Ok.fdbGetCopy (hok : hg.Ok held) (hx : hg.heap e = some x) (t : Int) :
    ∃ hg', hg.fdbGetCopy e t = .ok (hg', { length := x.length, data := x.value.take x.length }) ∧
      hg'.Ok held ∧ Read hg hg' := by
  have hblock := hok.represents.block e x hx
  have hcopy : memcpyFrom x.value x.length = .ok (x.value.take x.length) := if_pos hblock
  have hok1 : Ok { hg with cntGetOK := hg.cntGetOK + 1, dataOUT := hg.dataOUT + x.length } held :=
    hok.of_eq rfl rfl rfl rfl rfl rfl rfl
  have hread1 : Read hg { hg with cntGetOK := hg.cntGetOK + 1, dataOUT := hg.dataOUT + x.length } :=
    ⟨⟨rfl, rfl, rfl, rfl⟩, rfl, rfl, fun _ => rfl, fun _ => rfl⟩
  have htouch : (if x.access < t then { x with access := t } else x).contents = x.contents ∧
      (if x.access < t then { x with access := t } else x).expire = x.expire ∧
      (if x.access < t then { x with access := t } else x).refCount = x.refCount := by
    split <;> exact ⟨rfl, rfl, rfl⟩
  obtain ⟨hcontents, hexpire, hcount⟩ := htouch
  simp only [FdbHashesGroup.fdbGetCopy, entryAt_eq_ok.2 hx, except_ok_bind, hcopy]
  rw [@modifyEntry_eq { hg with cntGetOK := hg.cntGetOK + 1, dataOUT := hg.dataOUT + x.length } e x hx,
    except_ok_bind]
  refine ⟨_, rfl, hok1.touch hx hcontents hexpire ?_ fun _ _ => rfl,
    hread1.trans (.of_touch hx hcontents hexpire)⟩
  rw [hcount]
  exact hok.referenced.refCount e x hx

theorem Ok.fdbGetRelease (hok : hg.Ok held) (hheld : 0 < held e) :
    ∃ hg', hg.fdbGetRelease e = .ok hg' ∧ hg'.Ok (update held e (held e - 1)) ∧ Read hg hg' := by
  obtain ⟨x, hx⟩ := isSome_iff_exists.1 (hok.referenced.live e hheld)
  have href := hok.referenced.refCount e x hx
  rw [FdbHashesGroup.fdbGetRelease, modifyEntry_eq hx]
  refine ⟨_, rfl, hok.touch hx rfl rfl ?_ fun d hd => update_of_ne hd _ _, .of_touch hx rfl rfl⟩
  rw [update_self]
  dsimp only
  omega

/-- The packet in which `fdb_get` returns a value. -/
def answer (v : List Byte) : Pkt := { length := v.length, data := v }

/-- What `fdb_get` does, if nothing comes in between. -/
theorem Ok.fdbGet (hok : hg.Ok held) (hsize : 0 < hg.size) (kp : Str) :
    ∃ hg' result, hg.fdbGet kp = .ok (hg', result) ∧ hg'.Ok held ∧ Read hg hg' ∧
      (kp.length < 2 ^ 31 → result = ((hg.view kp).bind (TimedMap.alive hg.now)).map answer) := by
  obtain ⟨hg1, found, hlookup, hok1, hread1, hfound⟩ := hok.fdbGetLookup hsize kp
  simp only [FdbHashesGroup.fdbGet, hlookup, except_ok_bind]
  cases found with
  | none =>
    refine ⟨_, none, rfl, hok1.of_eq rfl rfl rfl rfl rfl rfl rfl, hread1.trans (.countGet hg1),
      fun hkp => ?_⟩
    rw [view, ← hfound hkp, Option.bind_none, Option.bind_none, Option.map_none]
  | some e =>
    have hheld : 0 < heldBy held (some e) e := by
      rw [heldBy, update_self]
      exact Nat.succ_pos _
    have hback : update (heldBy held (some e)) e (heldBy held (some e) e - 1) = held := by
      rw [heldBy, update_self, update_idem, Nat.add_sub_cancel, update_eq_self]
    obtain ⟨x, hx⟩ := isSome_iff_exists.1 (hok1.referenced.live e hheld)
    have hview : kp.length < 2 ^ 31 → hg.view kp = some x.served := by
      intro hkp
      rw [← hread1.view, view, hread1.find, ← hfound hkp, bind_some, hx, map_some]
    have hlength : (x.value.take x.length).length = x.length :=
      length_take_of_le (hok1.represents.block e x hx)
    dsimp only
    rw [fdbGetTest_eq hx, except_ok_bind, hread1.now]
    by_cases hexpired : hg.now < x.expire
    · obtain ⟨hg2, hcopy, hok2, hread2⟩ := hok1.fdbGetCopy hx hg.now
      obtain ⟨hg3, hrelease, hok3, hread3⟩ := hok2.fdbGetRelease hheld
      rw [hback] at hok3
      rw [if_pos hexpired]
      dsimp only
      rw [hcopy, except_ok_bind, hrelease]
      refine ⟨_, _, rfl, hok3.of_eq rfl rfl rfl rfl rfl rfl rfl,
        hread1.trans (hread2.trans (hread3.trans (.countGet hg3))), fun hkp => ?_⟩
      rw [hview hkp, bind_some, TimedMap.alive, FdbHashEntry.served, if_pos hexpired, map_some,
        answer, hlength]
    · obtain ⟨hg2, hrelease, hok2, hread2⟩ := hok1.fdbGetRelease hheld
      rw [hback] at hok2
      rw [if_neg hexpired]
      rw [hrelease]
      refine ⟨_, none, rfl, hok2.of_eq rfl rfl rfl rfl rfl rfl rfl,
        hread1.trans (hread2.trans (.countGet hg2)), fun hkp => ?_⟩
      rw [hview hkp, bind_some, TimedMap.alive, FdbHashEntry.served, if_neg hexpired, Option.map_none]

end FdbHashesGroup

end ProxySQL
