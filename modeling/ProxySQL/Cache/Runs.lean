/-
  ProxySQL.Cache.Runs

  Sequences of operations on the query cache.

  Every sequence ends, and in the group it leads to the hash tables, arrays and
  counters agree.  To `fdb_get` the group looks like a map whose values expire:
  purging is not visible, and neither are the partitions.
-/
import ProxySQL.Lib.Run
import ProxySQL.Lib.TimedMap
import ProxySQL.Cache.Operations
import ProxySQL.Session.ClientPkts

namespace ProxySQL

open Lib List Option

/-- An operation on the query cache. -/
inductive CacheOp where
  /-- `fdb_set(key, strlen(key), value, ttl)` -/
  | set (key : Str) (value : List Byte) (ttl : Int)
  | get (key : Str)
  | truncateAll
  /-- a pass of `purgeHash_thread` over partition `i` -/
  | purge (i : Nat)
  /-- `hg->now` is updated -/
  | tick (now : Int)

namespace FdbHashesGroup

/-- The lengths of key and value are passed as 32-bit unsigned numbers. -/
def step (hg : FdbHashesGroup) : CacheOp → Except Fault FdbHashesGroup
  | .set key value ttl => hg.fdbSet key (key.length % 2 ^ 32) value (value.length % 2 ^ 32) ttl
  | .get key => do return (← hg.fdbGet key).1
  | .truncateAll => do return (← hg.fdbTruncateAll).1
  | .purge i => hg.purgePartition i
  | .tick now => return { hg with now := now }

/-- A round of the purge thread is a sequence of operations. -/
theorem purgeHashRound_eq (hg : FdbHashesGroup) (now : Int) (due : Bool) :
    hg.purgeHashRound now due
      = (CacheOp.tick now :: if due then (range hg.size).map .purge
        else []).foldlM FdbHashesGroup.step hg := by
  rw [foldlM_cons, FdbHashesGroup.step, purgeHashRound]
  cases due with
  | false => rfl
  | true =>
    rw [if_pos rfl, if_pos rfl, pure_bind, foldlM_map]
    rfl

/-- The group is in order while `held e` readers have entry `e`. -/
structure Sound (hg : FdbHashesGroup) (held : Nat → Nat) : Prop where
  ok : hg.Ok held
  size : 0 < hg.size
  now : 0 < hg.now

/-- What an operation changes of what others can see. -/
def Effect (hg hg' : FdbHashesGroup) : CacheOp → Prop
  | .set key value ttl => hg'.now = hg.now ∧
      hg'.used = hg.used + ((key.length % 2 ^ 32 : Nat) + (value.length % 2 ^ 32 : Nat) + metaSize) ∧
      (key.length < 2 ^ 31 → ∀ k, hg'.view k
        = if k = key then some (value.take (value.length % 2 ^ 32), hg.expiry ttl) else hg.view k)
  | .get _ => Read hg hg'
  | .truncateAll => hg'.now = hg.now ∧ hg'.used = hg.used ∧ ∀ k, hg'.view k = none
  | .purge _ => Purged hg hg'
  | .tick now => hg'.now = now ∧ hg'.used = hg.used ∧ ∀ k, hg'.view k = hg.view k

end FdbHashesGroup

/-- The purge thread goes over the partitions that exist, and time is positive. -/
def CacheOp.Valid (size : Nat) : CacheOp → Prop
  | .purge i => i < size
  | .tick now => 0 < now
  | _ => True

variable {size hashExpireDefault : Nat} {now : Int} {var : FdbSystemVar} {h : FdbHash}
  {op : CacheOp} {ops : List CacheOp} {m : TimedMap Str (List Byte)} {key : Str}

namespace FdbHashesGroup

variable {hg hg' : FdbHashesGroup} {held : Nat → Nat}

theorem fdbHashesNew_partition {maxMemorySize : Nat} {i : Nat}
    (hi : (fdbHashesNew size hashExpireDefault maxMemorySize now var).fdbHashes[i]? = some h) :
    h = { hash := ∅, ptrArray := [], purgeChunkSize := 0, purgeIdx := 0 } :=
  eq_of_mem_replicate (mem_of_getElem? hi)

@[simp] theorem size_fdbHashesNew (size hashExpireDefault maxMemorySize : Nat) (now : Int)
    (var : FdbSystemVar) : (fdbHashesNew size hashExpireDefault maxMemorySize now var).size = size :=
  length_replicate

theorem Sound.init (hsize : 0 < size) (hashExpireDefault maxMemorySize : Nat)
    (hnow : 0 < now) (var : FdbSystemVar) :
    (fdbHashesNew size hashExpireDefault maxMemorySize now var).Sound fun _ => 0 := by
  have hentries : (fdbHashesNew size hashExpireDefault maxMemorySize now var).entries = [] := by
    rw [entries, flatMap_eq_nil_iff]
    intro h hh
    rw [eq_of_mem_replicate hh]
  refine ⟨⟨⟨fun i h hi => ?_, fun i h hi => ?_, ?_, fun e => ?_, fun e he => (by cases he),
    fun e x hx => (by cases hx)⟩,
    ⟨?_, ?_, ?_⟩, ⟨fun e x hx => (by cases hx), fun e he => absurd he (Nat.lt_irrefl 0)⟩,
    nodup_nil, fun f hf => (by cases hf), fun f hf => (by cases hf)⟩, ?_, hnow⟩
  · rw [fdbHashesNew_partition hi]
    exact .empty _ 0 0
  · rw [fdbHashesNew_partition hi]
    exact ⟨le_rfl, le_rfl⟩
  · rw [hentries]
    exact nodup_nil
  · rw [hentries]
    exact ⟨fun he => (by cases he), fun he => (by cases he)⟩
  · rw [total, hentries]
    rfl
  · rw [total, hentries]
    rfl
  · rw [total, hentries]
    rfl
  · rw [size_fdbHashesNew]
    exact hsize

/-- Every operation ends and leaves the group in order. -/
theorem Sound.step (h : hg.Sound held) (hvalid : op.Valid hg.size) :
    ∃ hg', hg.step op = .ok hg' ∧ hg'.Sound held ∧ SameSettings hg hg' ∧ Effect hg hg' op := by
  cases op with
  | set key value ttl =>
    obtain ⟨hg', hset, hok, hsettings, hnow, hused, hview⟩ :=
      h.ok.fdbSet h.size h.now key (key.length % 2 ^ 32) (Nat.mod_le value.length (2 ^ 32)) ttl
    refine ⟨hg', hset, ⟨hok, hsettings.size ▸ h.size, hnow ▸ h.now⟩, hsettings, hnow, hused,
      fun hkey => hview ?_⟩
    rw [Nat.mod_eq_of_lt (by omega)]
  | get key =>
    obtain ⟨hg', result, hget, hok, hread, -⟩ := h.ok.fdbGet h.size key
    refine ⟨hg', ?_, ⟨hok, hread.settings.size ▸ h.size, hread.now ▸ h.now⟩, hread.settings, hread⟩
    rw [FdbHashesGroup.step, hget]
    rfl
  | truncateAll =>
    obtain ⟨hg', tot, htruncate, hok, hsettings, hnow, hused, hview⟩ := h.ok.fdbTruncateAll h.size
    refine ⟨hg', ?_, ⟨hok, hsettings.size ▸ h.size, hnow ▸ h.now⟩, hsettings, hnow, hused, hview⟩
    rw [FdbHashesGroup.step, htruncate]
    rfl
  | purge i =>
    obtain ⟨hg', hpurge, hok, hpurged⟩ := h.ok.purgePartition hvalid
    exact ⟨hg', hpurge, ⟨hok, hpurged.settings.size ▸ h.size, hpurged.now ▸ h.now⟩,
      hpurged.settings, hpurged⟩
  | tick now =>
    exact ⟨_, rfl, ⟨h.ok.of_eq rfl rfl rfl rfl rfl rfl rfl, h.size, hvalid⟩, ⟨rfl, rfl, rfl, rfl⟩, rfl, rfl,
      fun _ => rfl⟩

/-- Every sequence of operations ends and leaves the group in order. -/
theorem Sound.run (h : hg.Sound held) (hvalid : ∀ op ∈ ops, op.Valid hg.size) :
    ∃ hg', ops.foldlM FdbHashesGroup.step hg = .ok hg' ∧ hg'.Sound held ∧ SameSettings hg hg' := by
  refine foldlM_of_invariant ?_ ⟨h, .refl hg⟩ hvalid
  rintro hg1 op ⟨h1, hsettings1⟩ hop
  obtain ⟨hg2, hstep, h2, hsettings2, -⟩ := h1.step (hsettings1.size ▸ hop)
  exact ⟨hg2, hstep, h2, hsettings1.trans hsettings2⟩

/-! ## Representation and accounting -/

/-- Every `fdb_set` is preceded by the test of `server_COM_QUERY`. -/
def Gated (hg : FdbHashesGroup) : CacheOp → Prop
  | .set key value _ => hg.hasRoom key.length value.length
  | _ => True

theorem Sound.gated_step (h : hg.Sound held) (hvalid : op.Valid hg.size) (hstep : hg.step op = .ok hg')
    (hgated : hg.Gated op) (hused : hg.used ≤ hg.maxMemorySize) : hg'.used ≤ hg.maxMemorySize := by
  obtain ⟨hg1, hstep1, -, -, heffect⟩ := h.step hvalid
  obtain rfl : hg' = hg1 := Except.ok.inj (hstep.symm.trans hstep1)
  cases op with
  | set key value ttl =>
    obtain ⟨-, hadded, -⟩ := heffect
    have hroom : (key.length + value.length + metaSize : Nat) ≤ hg.fdbHashesGroupFreeMem := hgated
    have hfree : hg.fdbHashesGroupFreeMem = hg.maxMemorySize - hg.used := if_neg (not_lt.2 hused)
    omega
  | get key => exact heffect.used ▸ hused
  | truncateAll => exact heffect.2.1 ▸ hused
  | purge i => exact heffect.used.trans hused
  | tick now => exact heffect.2.1 ▸ hused

theorem Sound.gated_run (h : hg.Sound held) (hvalid : ∀ op ∈ ops, op.Valid hg.size)
    (hrun : Run (Guarded (fun hg op hg' => hg.step op = .ok hg') Gated) hg ops hg')
    (hused : hg.used ≤ hg.maxMemorySize) : hg'.used ≤ hg.maxMemorySize := by
  induction hrun with
  | nil => exact hused
  | cons hstep _ ih =>
    obtain ⟨hstep, hgated⟩ := hstep
    have hop := hvalid _ mem_cons_self
    have hused1 := h.gated_step hop hstep hgated hused
    obtain ⟨hg1, hstep1, h1, hsettings1, -⟩ := h.step hop
    obtain rfl := Except.ok.inj (hstep.symm.trans hstep1)
    rw [← hsettings1.maxMemorySize] at hused1 ⊢
    exact ih h1 (fun op' hop' => hsettings1.size ▸ hvalid op' (mem_cons_of_mem _ hop')) hused1

/-- After every sequence of operations, an entry of an array is unmarked exactly if it is the one that
    the hash table has for its key, the hash tables have each of their entries once in the array, purging
    is within the arrays (no operation faults), and the counters are the sums over the arrays.  If the
    free memory is tested before every insertion, the memory that is used stays below the limit. -/
theorem cache_agrees {size hashExpireDefault maxMemorySize : Nat} {now : Int} {var : FdbSystemVar}
    (hsize : 0 < size) (hnow : 0 < now) {ops : List CacheOp} (hvalid : ∀ op ∈ ops, op.Valid size) :
    (∃ hg, ops.foldlM FdbHashesGroup.step (fdbHashesNew size hashExpireDefault maxMemorySize now var) =
      .ok hg ∧ (∀ (i : Nat) (h : FdbHash), hg.fdbHashes[i]? = some h →
        (∀ e ∈ h.ptrArray, ∃ x, hg.heap e = some x ∧
          (x.expire ≠ expireDropit ↔ h.hash.lookup x.key = some e)) ∧
        (∀ k e, h.hash.lookup k = some e → h.ptrArray.count e = 1) ∧
        0 ≤ h.purgeIdx ∧ h.purgeIdx ≤ h.ptrArray.length) ∧
      hg.sizeKeys = hg.total (fun x => x.klen) ∧ hg.sizeValues = hg.total (fun x => x.length) ∧
      hg.sizeMetas = hg.total fun _ => metaSize) ∧
    ∀ hg, Run (Guarded (fun hg op hg' => hg.step op = .ok hg') Gated)
        (fdbHashesNew size hashExpireDefault maxMemorySize now var) ops hg →
      hg.sizeKeys + hg.sizeValues + hg.sizeMetas ≤ maxMemorySize := by
  have hinit := Sound.init hsize hashExpireDefault maxMemorySize hnow var
  have hvalid' : ∀ op ∈ ops, op.Valid (fdbHashesNew size hashExpireDefault maxMemorySize now var).size := by
    rw [size_fdbHashesNew]
    exact hvalid
  refine ⟨?_, fun hg hrun => ?_⟩
  · obtain ⟨hg, hrun, hsound, -⟩ := hinit.run hvalid'
    refine ⟨hg, hrun, fun i h hi => ?_, hsound.ok.accounts.sizeKeys, hsound.ok.accounts.sizeValues,
      hsound.ok.accounts.sizeMetas⟩
    have hagree := hsound.ok.represents.agree i h hi
    exact ⟨hagree.current, fun k e hk => count_eq_one_of_mem hagree.nodup (hagree.hashed k e hk).1,
      hsound.ok.represents.purgeIdx i h hi⟩
  · have hstart : (fdbHashesNew size hashExpireDefault maxMemorySize now var).used ≤ maxMemorySize :=
      Int.natCast_nonneg maxMemorySize
    have hbounded := hinit.gated_run hvalid' hrun hstart
    exact hbounded

/-- The default settings. -/
def defaultVar : FdbSystemVar :=
  { hashPurgeTime := 10000000, hashPurgeLoop := 10000, hashExpireMax := 3600 * 24 * 365 * 10,
    hashPurgeTime_pos := by decide }

/-- A value is replaced, and a purge pass frees the old one. -/
theorem cache_agrees_replaced :
    ∃ hg, [CacheOp.set (bytesOf "k") (bytesOf "old") 60, .set (bytesOf "k") (bytesOf "new") 60,
        .purge 0].foldlM FdbHashesGroup.step (fdbHashesNew 1 3600 1000 1 defaultVar) = .ok hg ∧
      hg.sizeKeys = hg.total (fun x => x.klen) ∧ hg.sizeValues = hg.total (fun x => x.length) := by
  have hvalid : ∀ op ∈ [CacheOp.set (bytesOf "k") (bytesOf "old") 60, .set (bytesOf "k") (bytesOf "new") 60,
      .purge 0], op.Valid 1 := by
    simp [CacheOp.Valid]
  obtain ⟨⟨hg, hrun, -, hkeys, hvalues, -⟩, -⟩ :=
    cache_agrees (Nat.zero_lt_one) (Int.zero_lt_one) hvalid
  exact ⟨hg, hrun, hkeys, hvalues⟩

end FdbHashesGroup

/-! ## A map whose values expire -/

/-- Time does not go back. -/
def CacheOp.Ordered : Int → List CacheOp → Prop
  | _, [] => True
  | now, .tick t :: ops => now ≤ t ∧ Ordered t ops
  | now, _ :: ops => Ordered now ops

/-- The lengths of key and value fit into an `int`, the narrowest type that the code has for them. -/
def CacheOp.Short : CacheOp → Prop
  | .set key value _ => key.length < 2 ^ 31 ∧ value.length < 2 ^ 31
  | _ => True

/-- When a value expires that is stored at time `now`. -/
def expiresAt (hashExpireMax hashExpireDefault now ttl : Int) : Int :=
  if ttl ≤ 0 then now + hashExpireDefault else if hashExpireMax < ttl then ttl else now + ttl

/-- What the operations mean for a map whose values expire. -/
def CacheOp.apply (hashExpireMax hashExpireDefault : Int) (m : TimedMap Str (List Byte)) :
    CacheOp → TimedMap Str (List Byte)
  | .set key value ttl => m.set key value (expiresAt hashExpireMax hashExpireDefault m.now ttl)
  | .get _ => m
  | .truncateAll => m.clear
  | .purge _ => m
  | .tick now => m.advance now

namespace FdbHashesGroup

variable {hg hg' : FdbHashesGroup} {held : Nat → Nat}

theorem expiry_eq (hg : FdbHashesGroup) (ttl : Int) :
    hg.expiry ttl = expiresAt hg.fdbSystemVar.hashExpireMax hg.hashExpireDefault hg.now ttl := by
  unfold expiry expiresAt
  by_cases hpos : 0 < ttl
  · rw [if_pos hpos, if_neg (not_le.2 hpos)]
  · rw [if_neg hpos, if_pos (not_lt.1 hpos)]

/-- The group holds what the map has, except for some of what has expired. -/
structure Implements (hg : FdbHashesGroup) (m : TimedMap Str (List Byte)) : Prop where
  view : m.ImplementedBy hg.view
  now : m.now = hg.now

theorem Implements.step (h : hg.Implements m) (hshort : op.Short)
    (hordered : CacheOp.Ordered hg.now [op]) (heffect : Effect hg hg' op) :
    hg'.Implements (op.apply hg.fdbSystemVar.hashExpireMax hg.hashExpireDefault m) := by
  cases op with
  | set key value ttl =>
    obtain ⟨hnow, -, hview⟩ := heffect
    have hvalue : value.take (value.length % 2 ^ 32) = value := by
      rw [Nat.mod_eq_of_lt (Nat.lt_trans hshort.2 (by decide)), take_length]
    rw [expiry_eq, hvalue, ← h.now] at hview
    exact ⟨h.view.set (hview hshort.1), h.now.trans hnow.symm⟩
  | get key => exact ⟨h.view.forget fun k => .inl (heffect.view k), h.now.trans heffect.now.symm⟩
  | truncateAll => exact ⟨.clear heffect.2.2, h.now.trans heffect.1.symm⟩
  | purge i =>
    refine ⟨h.view.forget fun k => ?_, h.now.trans heffect.now.symm⟩
    rw [h.now]
    exact heffect.view k
  | tick now =>
    obtain ⟨hnow, -, hview⟩ := heffect
    have hview' : hg'.view = hg.view := funext hview
    refine ⟨?_, hnow.symm⟩
    rw [hview']
    exact h.view.advance (h.now ▸ hordered.1)

theorem Implements.run (hsound : hg.Sound held) (h : hg.Implements m)
    (hvalid : ∀ op ∈ ops, op.Valid hg.size) (hshort : ∀ op ∈ ops, op.Short)
    (hordered : CacheOp.Ordered hg.now ops) :
    ∃ hg', ops.foldlM FdbHashesGroup.step hg = .ok hg' ∧ hg'.Sound held ∧
      hg'.Implements (ops.foldl (CacheOp.apply hg.fdbSystemVar.hashExpireMax hg.hashExpireDefault) m) := by
  induction ops generalizing hg m with
  | nil => exact ⟨hg, rfl, hsound, h⟩
  | cons op ops ih =>
    obtain ⟨hg1, hstep, hsound1, hsettings1, heffect⟩ := hsound.step (hvalid op mem_cons_self)
    have hordered1 : CacheOp.Ordered hg.now [op] ∧ CacheOp.Ordered hg1.now ops := by
      cases op with
      | set key value ttl => exact ⟨trivial, heffect.1 ▸ hordered⟩
      | get key => exact ⟨trivial, heffect.now ▸ hordered⟩
      | truncateAll => exact ⟨trivial, heffect.1 ▸ hordered⟩
      | purge i => exact ⟨trivial, heffect.now ▸ hordered⟩
      | tick now => exact ⟨⟨hordered.1, trivial⟩, heffect.1 ▸ hordered.2⟩
    have h1 := h.step (hshort op mem_cons_self) hordered1.1 heffect
    obtain ⟨hg', hrun, hsound', h'⟩ := ih hsound1 h1
      (fun op' hop' => hsettings1.size ▸ hvalid op' (mem_cons_of_mem _ hop'))
      (fun op' hop' => hshort op' (mem_cons_of_mem _ hop')) hordered1.2
    refine ⟨hg', ?_, hsound', ?_⟩
    · rw [foldlM_cons, hstep, except_ok_bind]
      exact hrun
    · rw [hsettings1.fdbSystemVar, hsettings1.hashExpireDefault] at h'
      exact h'

theorem find_fdbHashesNew (size hashExpireDefault maxMemorySize : Nat) (now : Int) (var : FdbSystemVar)
    (k : Str) : (fdbHashesNew size hashExpireDefault maxMemorySize now var).find k = none := by
  refine bind_eq_none_iff.2 fun h hi => ?_
  rw [fdbHashesNew_partition hi, AList.lookup_empty]

/-- After every sequence of operations in which time does not go back, `fdb_get` finds what the map
    whose values expire has for the key. -/
theorem fdbGet_eq_timedMap {size hashExpireDefault maxMemorySize : Nat} {now : Int} {var : FdbSystemVar}
    (hsize : 0 < size) (hnow : 0 < now) {ops : List CacheOp} (hvalid : ∀ op ∈ ops, op.Valid size)
    (hordered : CacheOp.Ordered now ops) (hshort : ∀ op ∈ ops, op.Short) {key : Str}
    (hkey : key.length < 2 ^ 31) :
    ∃ hg hg', ops.foldlM FdbHashesGroup.step (fdbHashesNew size hashExpireDefault maxMemorySize now var) =
      .ok hg ∧ hg.fdbGet key = .ok (hg',
        ((ops.foldl (CacheOp.apply var.hashExpireMax hashExpireDefault) (.empty now)).get key).map
          fun value => { length := value.length, data := value }) := by
  have hvalid' : ∀ op ∈ ops, op.Valid (fdbHashesNew size hashExpireDefault maxMemorySize now var).size := by
    rw [size_fdbHashesNew]
    exact hvalid
  have hsound := Sound.init hsize hashExpireDefault maxMemorySize hnow var
  have himplements : (fdbHashesNew size hashExpireDefault maxMemorySize now var).Implements
    (.empty now) := by
    refine ⟨fun k => .inl ?_, rfl⟩
    rw [view, find_fdbHashesNew]
    rfl
  obtain ⟨hg, hrun, hsound', h'⟩ := himplements.run hsound hvalid' hshort hordered
  obtain ⟨hg', result, hget, -, -, hresult⟩ := hsound'.ok.fdbGet hsound'.size key
  refine ⟨hg, hg', hrun, ?_⟩
  rw [hget, hresult hkey, ← h'.now, h'.view.get_eq]
  rfl

/-- A value that has not expired survives a purge pass and is found. -/
theorem fdbGet_eq_timedMap_purged :
    ∃ hg hg', [CacheOp.set (bytesOf "k") (bytesOf "v") 60, .tick 50, .purge 0].foldlM
        FdbHashesGroup.step (fdbHashesNew 1 3600 1000 1 defaultVar) = .ok hg ∧
      hg.fdbGet (bytesOf "k") = .ok (hg', some { length := 1, data := bytesOf "v" }) := by
  have hvalid : ∀ op ∈ [CacheOp.set (bytesOf "k") (bytesOf "v") 60, .tick 50, .purge 0], op.Valid 1 := by
    simp [CacheOp.Valid]
  have hshort : ∀ op ∈ [CacheOp.set (bytesOf "k") (bytesOf "v") 60, .tick 50, .purge 0], op.Short := by
    simp [CacheOp.Short, bytesOf]
  have hordered : CacheOp.Ordered 1 [CacheOp.set (bytesOf "k") (bytesOf "v") 60, .tick 50, .purge 0] := by
    simp [CacheOp.Ordered]
  exact fdbGet_eq_timedMap Nat.zero_lt_one Int.zero_lt_one hvalid hordered hshort
    (by decide : (bytesOf "k").length < 2 ^ 31)

theorem fdbGet_of_lookup_eq_none {hg : FdbHashesGroup}
    (hi : hg.fdbHashes[partitionOf hg.size key (2 < (BitVec.ofNat 32 key.length).toInt)]? = some h)
    (hnone : h.hash.lookup key = none) : hg.fdbGet key = .ok (hg.countGet, none) := by
  have hlookup : hg.fdbGetLookup key = .ok (hg, none) := by
    simp only [fdbGetLookup, partition_eq_ok.2 hi, except_ok_bind, hnone]
    rfl
  simp only [fdbGet, hlookup, except_ok_bind]
  rfl

/-- The length of a key of 2^31 bytes is negative in `fdb_get`, which looks for it in partition 1, while
    `fdb_set` has put it into partition 3. -/
theorem fdbGet_long_key :
    ∃ hg hg', [CacheOp.set (replicate (2 ^ 31) 0x61) (bytesOf "v") 60].foldlM
        FdbHashesGroup.step (fdbHashesNew 16 3600 1000 1 defaultVar) = .ok hg ∧
      hg.fdbGet (replicate (2 ^ 31) 0x61) = .ok (hg', none) ∧
      ([CacheOp.set (replicate (2 ^ 31) 0x61) (bytesOf "v") 60].foldl
        (CacheOp.apply defaultVar.hashExpireMax 3600) (.empty 1)).get (replicate (2 ^ 31) 0x61)
          = some (bytesOf "v") := by
  have hlength : (replicate (2 ^ 31) (0x61 : Byte)).length = 2 ^ 31 := length_replicate
  have hbyte : ∀ i < 3, (replicate (2 ^ 31) (0x61 : Byte)).getD i 0 = 0x61 := by
    intro i hi
    rw [getD_eq_getElem?_getD, getElem?_replicate, if_pos (by omega), getD_some]
  generalize replicate (2 ^ 31) (0x61 : Byte) = key at hlength hbyte
  have hset : partitionOf 16 key (2 < 2 ^ 31 % 2 ^ 32) = 3 := by
    rw [partitionOf, hbyte 0 (by decide), hbyte 1 (by decide), hbyte 2 (by decide)]
    decide
  have hget : partitionOf 16 key (2 < (BitVec.ofNat 32 key.length).toInt) = 1 := by
    have hshort : decide (2 < (BitVec.ofNat 32 (2 ^ 31)).toInt) = false := by decide
    rw [hlength, hshort]
    show (key.getD 0 0).toNat % 16 = 1
    rw [hbyte 0 (by decide)]
    decide
  have hok := (Sound.init (by decide : 0 < 16) 3600 1000 Int.zero_lt_one defaultVar).ok
  have hi : (fdbHashesNew 16 3600 1000 1 defaultVar).fdbHashes[partitionOf 16 key (2 < 2 ^ 31 % 2 ^ 32)]?
      = some { hash := ∅, ptrArray := [], purgeChunkSize := 0, purgeIdx := 0 } := by
    rw [hset]
    rfl
  have hstep := hok.fdbSet_eq (bytesOf "v") ((bytesOf "v").length % 2 ^ 32) 60 hi
  rw [size_fdbHashesNew, hset] at hstep
  generalize hx : newEntry (fdbHashesNew 16 3600 1000 1 defaultVar) key (2 ^ 31 % 2 ^ 32) (bytesOf "v")
    ((bytesOf "v").length % 2 ^ 32) 60 = x at hstep
  generalize hhg : withEntry (fdbHashesNew 16 3600 1000 1 defaultVar) 3
    { hash := ∅, ptrArray := [], purgeChunkSize := 0, purgeIdx := 0 } x = hg at hstep
  have hsize : hg.size = 16 := by
    rw [← hhg]
    exact size_setPartition _ _ _
  have hempty : hg.fdbHashes[1]? =
    some { hash := ∅, ptrArray := [], purgeChunkSize := 0, purgeIdx := 0 } := by
    rw [← hhg]
    rfl
  rw [← hget, ← hsize] at hempty
  refine ⟨hg, hg.countGet, ?_, fdbGet_of_lookup_eq_none hempty (AList.lookup_empty key), ?_⟩
  · rw [foldlM_cons, FdbHashesGroup.step, hlength, hstep]
    rfl
  · rw [foldl_cons, foldl_nil, CacheOp.apply, TimedMap.get, TimedMap.set]
    dsimp only
    rw [if_pos rfl]
    rfl

end FdbHashesGroup

/-! ## The cache of the sessions -/

/-- The query cache as the sessions see it. -/
def Shared.timedMap (sh : Shared) : TimedMap Str (List Byte) :=
  { entry := fun k => (sh.qc k).map fun e => (e.value, e.expire), now := sh.qcNow }

theorem fdbGet_eq (sh : Shared) (key : Str) :
    fdbGet sh key = (sh.timedMap.get key).map FdbHashesGroup.answer := by
  unfold fdbGet TimedMap.get Shared.timedMap
  dsimp only
  cases sh.qc key with
  | none => rfl
  | some e =>
    rw [map_some, bind_some, TimedMap.alive]
    dsimp only
    split <;> rfl

theorem timedMap_fdbSet (sh : Shared) (key : Str) (value : List Byte) (ttl : Int) :
    (fdbSet sh key value ttl).timedMap
      = CacheOp.apply sh.hashExpireMax sh.hashExpireDefault sh.timedMap (.set key value ttl) := by
  have hexpiry : (if 0 < ttl then if sh.hashExpireMax < ttl then ttl else sh.qcNow + ttl
      else sh.qcNow + sh.hashExpireDefault) = expiresAt sh.hashExpireMax sh.hashExpireDefault
        sh.qcNow ttl := by
    unfold expiresAt
    by_cases hpos : 0 < ttl
    · rw [if_pos hpos, if_neg (not_le.2 hpos)]
    · rw [if_neg hpos, if_pos (not_lt.1 hpos)]
  rw [fdbSet, hexpiry, CacheOp.apply, TimedMap.set]
  simp only [Shared.timedMap, TimedMap.mk.injEq, and_true]
  funext k
  split <;> rfl

/-- A group that implements the cache of the sessions answers as they expect. -/
theorem FdbHashesGroup.Implements.fdbGet_eq {hg : FdbHashesGroup} {held : Nat → Nat} {sh : Shared}
    (h : hg.Implements sh.timedMap) (hsound : hg.Sound held) (hkey : key.length < 2 ^ 31) :
    ∃ hg', hg.fdbGet key = .ok (hg', ProxySQL.fdbGet sh key) ∧ hg'.Implements sh.timedMap := by
  obtain ⟨hg', result, hget, -, hread, hresult⟩ := hsound.ok.fdbGet hsound.size key
  refine ⟨hg', ?_, h.view.forget fun k => .inl (hread.view k), h.now.trans hread.now.symm⟩
  rw [hget, hresult hkey, ← h.now, h.view.get_eq, ProxySQL.fdbGet_eq]

/-- What an operation means for the cache of the sessions. -/
def Shared.cacheStep (sh : Shared) : CacheOp → Shared
  | .set key value ttl => fdbSet sh key value ttl
  | .get _ => sh
  | .truncateAll => { sh with qc := fun _ => none }
  | .purge _ => sh
  | .tick now => { sh with qcNow := now }

theorem timedMap_cacheSteps (sh : Shared) (ops : List CacheOp) : (ops.foldl Shared.cacheStep sh).timedMap
    = ops.foldl (CacheOp.apply sh.hashExpireMax sh.hashExpireDefault) sh.timedMap := by
  induction ops generalizing sh with
  | nil => rfl
  | cons op ops ih =>
    rw [foldl_cons, foldl_cons, ih]
    cases op with
    | set key value ttl =>
      rw [Shared.cacheStep, timedMap_fdbSet]
      rfl
    | get key => rfl
    | truncateAll => rfl
    | purge i => rfl
    | tick now => rfl

/-- Whatever is done to both, the sessions' cache and the hash tables give the same answers. -/
theorem sessions_cache_refined (sh : Shared) (hsize : 0 < size)
    (hnow : 0 < sh.qcNow) (hempty : sh.qc = fun _ => none) (hmax : var.hashExpireMax = sh.hashExpireMax)
    (hdefault : hashExpireDefault = sh.hashExpireDefault) (hvalid : ∀ op ∈ ops, op.Valid size)
    (hordered : CacheOp.Ordered sh.qcNow ops) (hshort : ∀ op ∈ ops, op.Short) (hkey : key.length < 2 ^ 31)
    (maxMemorySize : Nat) : ∃ hg hg',
      ops.foldlM FdbHashesGroup.step (.fdbHashesNew size hashExpireDefault maxMemorySize sh.qcNow var) =
      .ok hg ∧ hg.fdbGet key = .ok (hg', fdbGet (ops.foldl Shared.cacheStep sh) key) := by
  have hmap : sh.timedMap = .empty sh.qcNow := by
    rw [Shared.timedMap, hempty]
    rfl
  have h : (FdbHashesGroup.fdbHashesNew size hashExpireDefault maxMemorySize sh.qcNow var).Implements
    (.empty sh.qcNow) := by
    refine ⟨fun k => .inl ?_, rfl⟩
    rw [FdbHashesGroup.view, FdbHashesGroup.find_fdbHashesNew]
    rfl
  obtain ⟨hg, hrun, hsound, h⟩ := h.run (.init hsize hashExpireDefault maxMemorySize hnow var)
    ((FdbHashesGroup.size_fdbHashesNew ..).symm ▸ hvalid) hshort hordered
  have h : hg.Implements (ops.foldl (CacheOp.apply var.hashExpireMax hashExpireDefault)
    (.empty sh.qcNow)) := h
  rw [hmax, hdefault, ← hmap, ← timedMap_cacheSteps] at h
  obtain ⟨hg', hget, -⟩ := h.fdbGet_eq hsound hkey
  exact ⟨hg, hg', hrun, hget⟩

theorem sessions_cache_refined_purged :
    ∃ hg hg', [CacheOp.set (bytesOf "k") (bytesOf "v") 60, .tick 50, .purge 0].foldlM
      FdbHashesGroup.step (.fdbHashesNew 1 10 1000 1 FdbHashesGroup.defaultVar) = .ok hg ∧
    hg.fdbGet (bytesOf "k") = .ok (hg', some { length := 1, data := bytesOf "v" }) :=
  sessions_cache_refined { Shared.init glovarsDefault id fun _ password => password with qcNow := 1 }
    Nat.zero_lt_one Int.zero_lt_one rfl rfl rfl (by simp [CacheOp.Valid]) (by simp [CacheOp.Ordered])
    (by simp [CacheOp.Short, bytesOf]) (by decide) 1000

end ProxySQL
