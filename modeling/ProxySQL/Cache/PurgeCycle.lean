/-
  ProxySQL.Cache.PurgeCycle

  The passes from one start of a purge to the next.

  A pass decrements `purgeIdx` before it compares it with `min_idx` and before it
  looks at an entry, so it does not look at index `min_idx`, and the next pass
  begins below it.  In a cycle over `n` entries in chunks of `c`, the indices at
  which a pass stops are 0 and the `n - k * c` that are at least `c`
  (`Skipped`); what is dead there stays, and everything else that is dead is freed.
-/
import ProxySQL.Cache.Runs

namespace ProxySQL

open Lib List

/-! ## Where the passes stop -/

/-- The size of the chunks of a cycle that begins now. -/
def FdbHash.chunkSize (h : FdbHash) (var : FdbSystemVar) : Nat :=
  let chunk := h.ptrArray.length * var.hashPurgeLoop / var.hashPurgeTime
  if chunk < 10 then h.ptrArray.length else chunk

/-- In a cycle over `n` entries in chunks of `c`, a pass stops at index `m`. -/
def Skipped (n c m : Nat) : Prop := m = 0 ∨ (c ≤ m ∧ m < n ∧ c ∣ n - m)

/-- The index before the first pass, and after the others. -/
def Boundary (n c p : Nat) : Prop := p = n ∨ (c ≤ p ∧ p < n ∧ c ∣ n - p)

/-- Where a pass that begins at `p` stops. -/
def stopAfter (c p : Nat) : Nat := if 2 * c ≤ p then p - c else 0

section Indices

variable {n c p m : Nat}

theorem stopAfter_lt (hc : 0 < c) (hp : 0 < p) : stopAfter c p < p := by
  unfold stopAfter
  split <;> omega

theorem Boundary.dvd (h : Boundary n c p) : c ∣ n - p ∧ p ≤ n := by
  rcases h with rfl | ⟨-, hlt, hdvd⟩
  · rw [Nat.sub_self]
    exact ⟨Nat.dvd_zero c, Nat.le_refl p⟩
  · exact ⟨hdvd, hlt.le⟩

theorem Boundary.next (h : Boundary n c p) (hc : 0 < c) (hne : stopAfter c p ≠ 0) :
    Boundary n c (stopAfter c p) := by
  obtain ⟨hdvd, hle⟩ := h.dvd
  unfold stopAfter at hne ⊢
  split at hne
  · next hfar =>
    rw [if_pos hfar]
    have hsum : n - (p - c) = (n - p) + c := by omega
    refine .inr ⟨by omega, by omega, ?_⟩
    rw [hsum]
    exact Nat.dvd_add hdvd (Nat.dvd_refl c)
  · exact absurd rfl hne

/-- Two stops are a chunk apart. -/
theorem Boundary.not_dvd (h : Boundary n c p) (hlt : m < p) (hnear : p < m + c) : ¬c ∣ n - m := by
  obtain ⟨hdvd, hle⟩ := h.dvd
  intro hm
  have hsum : n - m = (n - p) + (p - m) := by omega
  rw [hsum, Nat.dvd_add_right hdvd] at hm
  have hge := Nat.le_of_dvd (by omega) hm
  omega

theorem Boundary.skipped_iff (h : Boundary n c p) (hc : 0 < c) (hp : 0 < p) (hge : stopAfter c p ≤ m)
    (hlt : m < p) : stopAfter c p < m ↔ ¬Skipped n c m := by
  constructor
  · rintro hgt (rfl | ⟨hcm, -, hdvd⟩)
    · exact absurd hgt (Nat.not_lt_zero _)
    · refine h.not_dvd hlt ?_ hdvd
      unfold stopAfter at hgt
      split at hgt <;> omega
  · intro hnot
    refine Nat.lt_of_le_of_ne hge ?_
    rintro rfl
    by_cases hzero : stopAfter c p = 0
    · exact hnot (.inl hzero)
    · rcases h.next hc hzero with heq | hskipped
      · have hle := h.dvd.2
        omega
      · exact hnot (.inr hskipped)

end Indices

section Partition

variable {h : FdbHash} {var : FdbSystemVar} {c p : Nat}

theorem minIdx_eq_stopAfter (hidx : h.purgeIdx = p) (hchunk : h.purgeChunkSize = c) (hc : 0 < c) :
    h.minIdx = stopAfter c p := by
  unfold FdbHash.minIdx stopAfter
  dsimp only
  split_ifs <;> omega

theorem restartPurge_of_ne (hidx : h.purgeIdx ≠ 0) : h.restartPurge var = h := by
  unfold FdbHash.restartPurge
  rw [if_neg fun hand => hidx hand.1]

theorem restartPurge_of_eq (hidx : h.purgeIdx = 0) (hlen : h.ptrArray.length ≠ 0) :
    (h.restartPurge var).purgeIdx = h.ptrArray.length ∧ (h.restartPurge var).purgeChunkSize =
    h.chunkSize var := by
  unfold FdbHash.restartPurge FdbHash.chunkSize
  rw [if_pos ⟨hidx, hlen⟩]
  dsimp only
  refine ⟨rfl, ?_⟩
  split <;> rfl

theorem chunkSize_pos (hlen : h.ptrArray.length ≠ 0) : 0 < h.chunkSize var := by
  unfold FdbHash.chunkSize
  dsimp only
  split <;> omega

end Partition

/-! ## Cycles -/

namespace FdbHashesGroup

variable {hg hg' : FdbHashesGroup} {held : Nat → Nat} {i : Nat} {h h' : FdbHash}

/-- Passes over partition `i`, until `purgeIdx` is 0. -/
inductive PurgeCycle (i : Nat) : FdbHashesGroup → FdbHashesGroup → Prop where
  | last {hg hg' : FdbHashesGroup} {h' : FdbHash} : hg.purgePartition i = .ok hg' →
      hg'.fdbHashes[i]? = some h' → h'.purgeIdx = 0 → PurgeCycle i hg hg'
  | next {hg hg' hg'' : FdbHashesGroup} {h' : FdbHash} : hg.purgePartition i = .ok hg' →
      hg'.fdbHashes[i]? = some h' → h'.purgeIdx ≠ 0 → PurgeCycle i hg' hg'' → PurgeCycle i hg hg''

theorem PurgeCycle.unique {hg1 hg2 : FdbHashesGroup} (hcycle : PurgeCycle i hg hg1)
    (hcycle' : PurgeCycle i hg hg2) : hg1 = hg2 := by
  induction hcycle with
  | last hpass hi hzero =>
    cases hcycle' with
    | last hpass' hi' hzero' => exact Except.ok.inj (hpass.symm.trans hpass')
    | next hpass' hi' hne hrest =>
      obtain rfl := Except.ok.inj (hpass.symm.trans hpass')
      obtain rfl := Option.some.inj (hi.symm.trans hi')
      exact absurd hzero hne
  | next hpass hi hne hrest ih =>
    cases hcycle' with
    | last hpass' hi' hzero' =>
      obtain rfl := Except.ok.inj (hpass.symm.trans hpass')
      obtain rfl := Option.some.inj (hi.symm.trans hi')
      exact absurd hzero' hne
    | next hpass' hi' hne' hrest' =>
      obtain rfl := Except.ok.inj (hpass.symm.trans hpass')
      exact ih hrest'

/-- From a boundary on, a cycle goes through all indices below it except those at which a pass stops. -/
theorem Ok.purgeCycle_from {n c : Nat} (hc : 0 < c) {p : Nat} (hp : 0 < p) (hb : Boundary n c p)
    (hok : hg.Ok held) (hi : hg.fdbHashes[i]? = some h) {h1 : FdbHash}
    (hh1 : h.restartPurge hg.fdbSystemVar = h1) (hidx : h1.purgeIdx = p) (hchunk : h1.purgeChunkSize = c) :
    ∃ hg' h', PurgeCycle i hg hg' ∧ hg'.Ok held ∧ hg'.fdbHashes[i]? = some h' ∧
      Sweeps (fun m => ¬Skipped n c m) p 0 hg h hg' h' := by
  -- on the index, which every pass lowers
  induction p using Nat.strongRecOn generalizing hg h h1 with
  | _ p ih =>
    obtain ⟨hg', h', q, hpass, hok', hpurged, hi', hchunk', hidx', -, hstop, hsweep⟩ := hok.purgePass hi hh1
    have hlt := stopAfter_lt hc hp
    rw [minIdx_eq_stopAfter hidx hchunk hc, hidx] at hstop
    obtain rfl : q = stopAfter c p := Int.ofNat.inj (hstop (Int.ofNat_lt.2 hlt))
    have hpart : Sweeps (fun m => ¬Skipped n c m) p (stopAfter c p) hg h hg' h' := by
      rw [minIdx_eq_stopAfter hidx hchunk hc, hidx, Int.toNat_natCast] at hsweep
      refine hsweep.congr fun m hge hlt => ?_
      rw [← hb.skipped_iff hc hp hge hlt]
      exact Int.ofNat_lt
    by_cases hzero : stopAfter c p = 0
    · rw [hzero] at hpart hidx'
      exact ⟨hg', h', .last hpass hi' hidx', hok', hi', hpart⟩
    · have hne : h'.purgeIdx ≠ 0 := by
        rw [hidx']
        exact fun heq => hzero (Int.ofNat.inj heq)
      obtain ⟨hg'', h'', hcycle, hok'', hi'', hrest⟩ :=
        ih (stopAfter c p) hlt (Nat.pos_of_ne_zero hzero) (hb.next hc hzero)
        hok' hi' (restartPurge_of_ne hne) hidx' (hchunk'.trans hchunk)
      exact ⟨hg'', h'', .next hpass hi' hne hcycle, hok'', hi'',
        hpart.trans hrest (hok.represents.agree i h hi).nodup hlt.le (Nat.zero_le _)⟩

/-- Every dead entry of the array is freed and removed, and every other one is kept. -/
structure PurgesDead (hg : FdbHashesGroup) (h : FdbHash) (hg' : FdbHashesGroup) (h' : FdbHash) : Prop where
  freed : ∀ e ∈ h.ptrArray, hg.Dead e → hg'.heap e = none ∧ e ∉ h'.ptrArray
  kept : ∀ e ∈ h.ptrArray, ¬hg.Dead e → (hg'.heap e).isSome ∧ e ∈ h'.ptrArray

/-- A sweep of the whole array frees what is dead exactly if nothing dead stands at an index that it leaves
    out. -/
theorem Sweeps.purgesDead_iff {V : Nat → Prop} (hs : Sweeps V h.ptrArray.length 0 hg h hg' h')
    (hok' : hg'.Represents) (hi' : hg'.fdbHashes[i]? = some h') (hnodup : h.ptrArray.Nodup) :
    PurgesDead hg h hg' h' ↔ ∀ (m e : Nat), ¬V m → h.ptrArray[m]? = some e → ¬hg.Dead e := by
  constructor
  · intro hpurges m e hm he hdead
    refine (hpurges.freed e (mem_of_getElem? he) hdead).2 ((hs.array e).2 ⟨mem_of_getElem? he, ?_⟩)
    rintro ⟨⟨m', -, -, hm', he'⟩, -⟩
    -- the entry stands at one index only
    have heq : m = m' := by
      refine (getElem?_inj (List.getElem?_eq_some_iff.1 he).1 hnodup).1 ?_
      rw [he, he']
    exact hm (heq ▸ hm')
  · intro hleft
    refine ⟨fun e he hdead => ?_, fun e he hlives => ?_⟩
    · obtain ⟨m, hm⟩ := getElem?_of_mem he
      have hpicked : Picked V h.ptrArray.length 0 h e := by
        refine ⟨m, Nat.zero_le m, (List.getElem?_eq_some_iff.1 hm).1, ?_, hm⟩
        by_contra hnot
        exact hleft m e hnot hm hdead
      exact ⟨hs.freed e hpicked hdead, fun hmem => ((hs.array e).1 hmem).2 ⟨hpicked, hdead⟩⟩
    · have hmem : e ∈ h'.ptrArray := (hs.array e).2 ⟨he, fun hand => hlives hand.2⟩
      obtain ⟨x, hx, -⟩ := (hok'.agree i h' hi').current e hmem
      exact ⟨Option.isSome_of_eq_some hx, hmem⟩

/-- From every state in which no purge is under way, the passes come to an end, in one state only, and there
    the dead entries have been freed and the others kept exactly if nothing dead stood at index 0 or at
    another index at which a pass stops. -/
theorem purgeCycle_purgesDead_iff (hok : hg.Ok held) (hi : hg.fdbHashes[i]? = some h)
    (hidx : h.purgeIdx = 0) :
    ∃ hg' h', (∀ hg'', PurgeCycle i hg hg'' ↔ hg'' = hg') ∧ hg'.fdbHashes[i]? = some h' ∧
      (PurgesDead hg h hg' h' ↔ ∀ (m e : Nat), Skipped h.ptrArray.length (h.chunkSize hg.fdbSystemVar) m →
        h.ptrArray[m]? = some e → ¬hg.Dead e) := by
  have hnodup := (hok.represents.agree i h hi).nodup
  have hcycle : ∃ hg' h', PurgeCycle i hg hg' ∧ hg'.Ok held ∧ hg'.fdbHashes[i]? = some h' ∧
      Sweeps (fun m => ¬Skipped h.ptrArray.length (h.chunkSize hg.fdbSystemVar) m) h.ptrArray.length 0 hg h
        hg' h' := by
    by_cases hlen : h.ptrArray.length = 0
    · -- an empty array: one pass, which finds nothing to do
      obtain ⟨hg', h', q, hpass, hok', -, hi', -, hidx', hle, -, hsweep⟩ := hok.purgePass hi rfl
      have hstart : (h.restartPurge hg.fdbSystemVar).purgeIdx = 0 := by
        unfold FdbHash.restartPurge
        rw [if_neg fun hand => hand.2 hlen]
        exact hidx
      rw [hstart] at hle hsweep
      obtain rfl : q = 0 := by omega
      rw [hlen]
      exact ⟨hg', h', .last hpass hi' hidx', hok', hi',
        hsweep.congr fun m _ hm => absurd hm (Nat.not_lt_zero m)⟩
    · obtain ⟨hstart, hchunk⟩ := @restartPurge_of_eq h hg.fdbSystemVar hidx hlen
      exact hok.purgeCycle_from (chunkSize_pos hlen) (Nat.pos_of_ne_zero hlen)
        (.inl rfl) hi rfl hstart hchunk
  obtain ⟨hg', h', hcycle, hok', hi', hsweep⟩ := hcycle
  refine ⟨hg', h', fun hg'' => ⟨fun hother => hother.unique hcycle, fun heq => heq ▸ hcycle⟩, hi', ?_⟩
  rw [hsweep.purgesDead_iff hok'.represents hi' hnodup]
  simp only [not_not]

/-- The array of the first partition, with what is dead in it, and the purge index. -/
def firstArray (hg : FdbHashesGroup) : Option (List (Nat × Bool) × Int) :=
  hg.fdbHashes[0]?.map fun h => (h.ptrArray.map fun e => (e, decide (hg.Dead e)), h.purgeIdx)

theorem firstArray_eq {es : List (Nat × Bool)} {idx : Int} (hfirst : hg.firstArray = some (es, idx)) :
    ∃ h, hg.fdbHashes[0]? = some h ∧ h.ptrArray = es.map Prod.fst ∧ h.purgeIdx = idx ∧
      ∀ x ∈ es, (x.2 = true ↔ hg.Dead x.1) := by
  obtain ⟨h, hi, heq⟩ := Option.map_eq_some_iff.1 hfirst
  obtain ⟨rfl, hidx⟩ := Prod.mk.inj heq
  refine ⟨h, hi, ?_, hidx, fun x hx => ?_⟩
  · rw [map_map]
    exact (map_id _).symm
  · obtain ⟨e, -, rfl⟩ := mem_map.1 hx
    exact decide_eq_true_iff

/-- One key is set, and then another one twice: the first value of the latter is dead, at index 1. -/
def replacedSecond : List CacheOp :=
  [.set (bytesOf "a") (bytesOf "1") 60, .set (bytesOf "b") (bytesOf "2") 60,
    .set (bytesOf "b") (bytesOf "3") 60]

/-- The value that was replaced is freed. -/
theorem purgeCycle_purgesDead_replaced :
    ∃ hg h hg' h', replacedSecond.foldlM FdbHashesGroup.step (fdbHashesNew 1 3600 1000 1 defaultVar) =
      .ok hg ∧ hg.fdbHashes[0]? = some h ∧ h.ptrArray = [0, 1, 2] ∧ hg.Dead 1 ∧ PurgeCycle 0 hg hg' ∧
      hg'.fdbHashes[0]? = some h' ∧ PurgesDead hg h hg' h' := by
  have hvalid : ∀ op ∈ replacedSecond, op.Valid (fdbHashesNew 1 3600 1000 1 defaultVar).size := by
    simp [replacedSecond, CacheOp.Valid]
  obtain ⟨hg, hrun, hsound, hsettings⟩ :=
    (Sound.init Nat.zero_lt_one 3600 1000 Int.zero_lt_one defaultVar).run hvalid
  have heval : (replacedSecond.foldlM FdbHashesGroup.step
    (fdbHashesNew 1 3600 1000 1 defaultVar)).toOption.bind
      firstArray = some ([(0, false), (1, true), (2, false)], 0) := by decide +kernel
  rw [hrun] at heval
  obtain ⟨h, hi, harr, hidx, hdead⟩ := firstArray_eq heval
  obtain ⟨hg', h', hcycle, hi', hiff⟩ := purgeCycle_purgesDead_iff hsound.ok hi hidx
  have hone : hg.Dead 1 := (hdead (1, true) (by decide)).1 rfl
  refine ⟨hg, h, hg', h', hrun, hi, harr, hone, (hcycle hg').2 rfl, hi', hiff.2 fun m e hm he => ?_⟩
  -- three entries are one chunk, and only index 0 is left out
  have hchunk : h.chunkSize hg.fdbSystemVar = 3 := by
    rw [hsettings.fdbSystemVar, FdbHash.chunkSize, harr]
    decide
  rw [hchunk, harr] at hm
  obtain rfl : m = 0 := by
    rcases hm with hzero | ⟨hge, hlt, -⟩
    · exact hzero
    · exact absurd hlt (Nat.not_lt.2 hge)
  rw [harr] at he
  obtain rfl : 0 = e := Option.some.inj he
  intro hzero
  exact Bool.false_ne_true ((hdead (0, false) (by decide)).2 hzero)

/-- The only value of the cache has expired, and a whole cycle leaves it there. -/
theorem purgeCycle_leaves_first :
    ∃ hg h hg' h', [CacheOp.set (bytesOf "a") (bytesOf "1") 60, .tick 100].foldlM FdbHashesGroup.step
        (fdbHashesNew 1 3600 1000 1 defaultVar) = .ok hg ∧
      hg.fdbHashes[0]? = some h ∧ h.purgeIdx = 0 ∧ h.ptrArray = [0] ∧ hg.Dead 0 ∧ PurgeCycle 0 hg hg' ∧
      hg'.fdbHashes[0]? = some h' ∧ h'.ptrArray = [0] ∧ hg'.Dead 0 := by
  have heval : (([CacheOp.set (bytesOf "a") (bytesOf "1") 60, .tick 100].foldlM FdbHashesGroup.step
        (fdbHashesNew 1 3600 1000 1 defaultVar)).toOption.bind fun hg =>
          (hg.purgePartition 0).toOption.map fun hg' =>
          decide (hg.firstArray = some ([(0, true)], 0) ∧ hg'.firstArray = some ([(0, true)], 0))) =
            some true := by
    decide +kernel
  obtain ⟨hg, hrun, heval⟩ := Option.bind_eq_some_iff.1 heval
  obtain ⟨hg', hpass, heval⟩ := Option.map_eq_some_iff.1 heval
  obtain ⟨hbefore, hafter⟩ := of_decide_eq_true heval
  obtain ⟨h, hi, harr, hidx, hdead⟩ := firstArray_eq hbefore
  obtain ⟨h', hi', harr', hidx', hdead'⟩ := firstArray_eq hafter
  exact ⟨hg, h, hg', h', except_toOption_eq_some.1 hrun, hi, hidx, harr,
    (hdead (0, true) mem_cons_self).1 rfl, .last (except_toOption_eq_some.1 hpass) hi' hidx', hi', harr',
    (hdead' (0, true) mem_cons_self).1 rfl⟩

end FdbHashesGroup

end ProxySQL
