/-
  ProxySQL.Cache.Hash

  The query cache (`fundadb_hash.c`): a group of partitions, each a hash table
  and an array of pointers to entries.  The hash table has the entries that may
  be served; the array also has those that were replaced, truncated or have
  expired, until a purge pass frees them.

  Entries are numbers into a heap, in which a freed entry is `none`.  The hash
  table of glib is a map from keys to entries, its `value_destroy_func` is called
  where an entry leaves it.  `fdb_set` is modelled with `copy` FALSE, as
  `server_COM_QUERY` calls it.

  `freed` is not in the source: it records, for every call of `g_slice_free1`, the
  reference count of the entry and whether a hash table had it at that moment.
-/
import Mathlib.Data.List.AList
import ProxySQL.Lib.PtrArray
import ProxySQL.Session.State

namespace ProxySQL

open Lib List Function

/-! ## Data -/

/-- `fdb_hash_entry`. -/
structure FdbHashEntry where
  key : Str
  value : List Byte
  klen : Nat
  length : Nat
  expire : Int
  access : Int
  refCount : Int

/-- `EXPIRE_DROPIT`. -/
def expireDropit : Int := 0

/-- `sizeof(fdb_hash_entry)+sizeof(fdb_hash_entry *)`. -/
def metaSize : Nat := 64 + 8

/-- `fdb_hash_t`. -/
structure FdbHash where
  hash : AList fun _ : Str => Nat
  ptrArray : List Nat
  purgeChunkSize : Int
  purgeIdx : Int

/-- `fdb_system_var_t`. -/
structure FdbSystemVar where
  hashPurgeTime : Nat
  hashPurgeLoop : Nat
  hashExpireMax : Nat
  hashPurgeTime_pos : 0 < hashPurgeTime

/-- A purge starts at the end of the array, with a new size for its chunks. -/
def FdbHash.restartPurge (h : FdbHash) (var : FdbSystemVar) : FdbHash :=
  if h.purgeIdx = 0 ∧ h.ptrArray.length ≠ 0 then
    let chunk := h.ptrArray.length * var.hashPurgeLoop / var.hashPurgeTime
    { h with
      purgeIdx := h.ptrArray.length,
      purgeChunkSize := if chunk < 10 then h.ptrArray.length else chunk }
  else h

/-- The index at which a pass stops. -/
def FdbHash.minIdx (h : FdbHash) : Int :=
  let minIdx := if h.purgeChunkSize < h.purgeIdx then h.purgeIdx - h.purgeChunkSize else 0
  if minIdx < h.purgeChunkSize then 0 else minIdx

/-- What is known of an entry when it is freed. -/
structure Freed where
  entry : Nat
  refCount : Int
  hashed : Bool
deriving DecidableEq

/-- `fdb_hashes_group_t`, with the heap of its entries. -/
structure FdbHashesGroup where
  fdbHashes : List FdbHash
  now : Int
  hashExpireDefault : Nat
  maxMemorySize : Nat
  cntGet : Nat
  cntGetOK : Nat
  cntSet : Nat
  cntPurge : Nat
  sizeKeys : Int
  sizeValues : Int
  sizeMetas : Int
  dataIN : Nat
  dataOUT : Nat
  heap : Nat → Option FdbHashEntry
  nextEntry : Nat
  fdbSystemVar : FdbSystemVar
  freed : List Freed

namespace FdbHashesGroup

/-- `hg->size`. -/
def size (hg : FdbHashesGroup) : Nat := hg.fdbHashes.length

/-- `fdb_hashes_new`, called at time `now`. -/
def fdbHashesNew (size hashExpireDefault maxMemorySize : Nat) (now : Int) (var : FdbSystemVar) :
    FdbHashesGroup :=
  { fdbHashes := replicate size { hash := ∅, ptrArray := [], purgeChunkSize := 0, purgeIdx := 0 },
    now := now, hashExpireDefault := hashExpireDefault, maxMemorySize := maxMemorySize, cntGet := 0,
    cntGetOK := 0, cntSet := 0, cntPurge := 0, sizeKeys := 0, sizeValues := 0, sizeMetas := 0,
    dataIN := 0, dataOUT := 0, heap := fun _ => none, nextEntry := 0, fdbSystemVar := var, freed := [] }

/-! ## Partitions and entries -/

/-- `hg->fdb_hashes[i]`. -/
def partition (hg : FdbHashesGroup) (i : Nat) : Except Fault FdbHash :=
  match hg.fdbHashes[i]? with
  | none => .error .outOfBounds
  | some h => .ok h

def setPartition (hg : FdbHashesGroup) (i : Nat) (h : FdbHash) : FdbHashesGroup :=
  { hg with fdbHashes := hg.fdbHashes.set i h }

/-- The entry behind a pointer. -/
def entryAt (hg : FdbHashesGroup) (e : Nat) : Except Fault FdbHashEntry :=
  match hg.heap e with
  | none => .error .useAfterFree
  | some x => .ok x

def modifyEntry (hg : FdbHashesGroup) (e : Nat) (f : FdbHashEntry → FdbHashEntry) :
    Except Fault FdbHashesGroup := do
  let x ← hg.entryAt e
  return { hg with heap := update hg.heap e (some (f x)) }

/-- The partition of a key.  `long` is whether the key is taken to have more than two bytes; the byte
    behind an empty key is its NUL. -/
def partitionOf (size : Nat) (kp : Str) (long : Bool) : Nat :=
  let i : Byte := kp.getD 0 0
  let i := if long then i + kp.getD 1 0 + kp.getD 2 0 else i
  i.toNat % size

/-! ## The hash table -/

/-- `hash_value_destroy_func`. -/
def hashValueDestroyFunc (hg : FdbHashesGroup) (e : Nat) : Except Fault FdbHashesGroup :=
  hg.modifyEntry e fun x => { x with expire := expireDropit }

/-- `g_hash_table_replace`. -/
def gHashTableReplace (hg : FdbHashesGroup) (i : Nat) (key : Str) (e : Nat) :
    Except Fault FdbHashesGroup := do
  let h ← hg.partition i
  let hg := hg.setPartition i { h with hash := h.hash.insert key e }
  match h.hash.lookup key with
  | none => return hg
  | some old => hg.hashValueDestroyFunc old

/-- `g_hash_table_remove`. -/
def gHashTableRemove (hg : FdbHashesGroup) (i : Nat) (key : Str) : Except Fault FdbHashesGroup := do
  let h ← hg.partition i
  match h.hash.lookup key with
  | none => return hg
  | some old => (hg.setPartition i { h with hash := h.hash.erase key }).hashValueDestroyFunc old

/-- `g_hash_table_remove_all`. -/
def gHashTableRemoveAll (hg : FdbHashesGroup) (i : Nat) : Except Fault FdbHashesGroup := do
  let h ← hg.partition i
  (h.hash.entries.map Sigma.snd).foldlM hashValueDestroyFunc (hg.setPartition i { h with hash := ∅ })

/-! ## Lookup -/

/-- `fdb_get` under the lock: the entry of the key gets one more reader.  The length of the key is
    a 32-bit signed number here. -/
def fdbGetLookup (hg : FdbHashesGroup) (kp : Str) : Except Fault (FdbHashesGroup × Option Nat) := do
  let kl := (BitVec.ofNat 32 kp.length).toInt
  let h ← hg.partition (partitionOf hg.size kp (2 < kl))
  match h.hash.lookup kp with
  | none => return (hg, none)
  | some e =>
      let hg ← hg.modifyEntry e fun x => { x with refCount := x.refCount + 1 }
      return (hg, some e)

/-- `fdb_get` tests whether the entry has expired: the time, if it has not. -/
def fdbGetTest (hg : FdbHashesGroup) (e : Nat) : Except Fault (Option Int) := do
  let x ← hg.entryAt e
  return if hg.now < x.expire then some hg.now else none

/-- `memcpy` from a block. -/
def memcpyFrom (block : List Byte) (n : Nat) : Except Fault (List Byte) :=
  if n ≤ block.length then .ok (block.take n) else .error .outOfBounds

/-- `fdb_get` copies the value of the entry into a packet.  The length of a packet is an `int`, which is
    that of the value only below 2^31. -/
def fdbGetCopy (hg : FdbHashesGroup) (e : Nat) (t : Int) : Except Fault (FdbHashesGroup × Pkt) := do
  let x ← hg.entryAt e
  let data ← memcpyFrom x.value x.length
  let hg := { hg with cntGetOK := hg.cntGetOK + 1, dataOUT := hg.dataOUT + x.length }
  let hg ← hg.modifyEntry e fun x => if x.access < t then { x with access := t } else x
  return (hg, { length := x.length, data := data })

/-- `fdb_get` is done with the entry. -/
def fdbGetRelease (hg : FdbHashesGroup) (e : Nat) : Except Fault FdbHashesGroup :=
  hg.modifyEntry e fun x => { x with refCount := x.refCount - 1 }

def countGet (hg : FdbHashesGroup) : FdbHashesGroup := { hg with cntGet := hg.cntGet + 1 }

/-- `fdb_get`. -/
def fdbGet (hg : FdbHashesGroup) (kp : Str) : Except Fault (FdbHashesGroup × Option Pkt) := do
  let (hg, entry) ← hg.fdbGetLookup kp
  match entry with
  | none => return (hg.countGet, none)
  | some e =>
      match ← hg.fdbGetTest e with
      | none => return ((← hg.fdbGetRelease e).countGet, none)
      | some t =>
          let (hg, result) ← hg.fdbGetCopy e t
          return ((← hg.fdbGetRelease e).countGet, some result)

/-! ## Insertion -/

/-- When an entry that is stored now expires.  A large `expire` is a time, a small one is counted
    from now. -/
def expiry (hg : FdbHashesGroup) (expire : Int) : Int :=
  if 0 < expire then
    if hg.fdbSystemVar.hashExpireMax < expire then expire else hg.now + expire
  else hg.now + hg.hashExpireDefault

/-- `fdb_set`. -/
def fdbSet (hg : FdbHashesGroup) (kp : Str) (kl : Nat) (vp : List Byte) (vl : Nat) (expire : Int) :
    Except Fault FdbHashesGroup := do
  let entry : FdbHashEntry :=
    { key := kp, value := vp, klen := kl, length := vl, expire := hg.expiry expire, access := hg.now,
      refCount := 0 }
  let e := hg.nextEntry
  let hg := { hg with heap := update hg.heap e (some entry), nextEntry := e + 1 }
  let i := partitionOf hg.size kp (2 < kl)
  let h ← hg.partition i
  let hg := hg.setPartition i { h with ptrArray := h.ptrArray ++ [e] }
  let hg ← hg.gHashTableReplace i kp e
  return { hg with
    cntSet := hg.cntSet + 1, sizeKeys := hg.sizeKeys + kl, sizeValues := hg.sizeValues + vl,
    dataIN := hg.dataIN + vl, sizeMetas := hg.sizeMetas + metaSize }

/-- `fdb_hashes_group_free_mem`. -/
def fdbHashesGroupFreeMem (hg : FdbHashesGroup) : Int :=
  let curSize := hg.sizeKeys + hg.sizeValues + hg.sizeMetas
  if hg.maxMemorySize < curSize then 0 else hg.maxMemorySize - curSize

/-- The test of `server_COM_QUERY` before it caches a response. -/
def hasRoom (hg : FdbHashesGroup) (kl resultsetSize : Nat) : Prop :=
  (kl + resultsetSize + metaSize : Nat) ≤ hg.fdbHashesGroupFreeMem

/-! ## Removal -/

/-- `fdb_truncate_all`, with the number of entries that it removes from the hash tables. -/
def fdbTruncateAll (hg : FdbHashesGroup) : Except Fault (FdbHashesGroup × Nat) :=
  (range hg.size).foldlM (fun (hg, totsize) i => do
    let h ← hg.partition i
    return (← hg.gHashTableRemoveAll i, totsize + h.hash.entries.length)) (hg, 0)

/-- A hash table has the entry. -/
def isHashed (hg : FdbHashesGroup) (e : Nat) : Bool :=
  hg.fdbHashes.any fun h => h.hash.entries.any fun kv => kv.2 == e

/-- The entry at `idx` of partition `i` is freed. -/
def purgeFree (hg : FdbHashesGroup) (i idx e : Nat) (x : FdbHashEntry) : Except Fault FdbHashesGroup := do
  let h ← hg.partition i
  let hg : FdbHashesGroup := { hg with
    sizeKeys := hg.sizeKeys - x.klen, sizeValues := hg.sizeValues - x.length,
    sizeMetas := hg.sizeMetas - metaSize, cntPurge := hg.cntPurge + 1,
    heap := update hg.heap e none,
    freed := hg.freed ++ [{ entry := e, refCount := x.refCount, hashed := hg.isHashed e }] }
  return hg.setPartition i { h with ptrArray := removeIndexFast h.ptrArray idx }

/-- `purgeHash_thread` looks at the entry at `idx` of partition `i`. -/
def purgeVisit (hg : FdbHashesGroup) (i : Nat) (t : Int) (idx : Nat) : Except Fault FdbHashesGroup := do
  let h ← hg.partition i
  match h.ptrArray[idx]? with
  | none => .error .outOfBounds
  | some e =>
      let x ← hg.entryAt e
      let hg ← if x.expire ≠ expireDropit ∧ x.expire ≤ t then hg.gHashTableRemove i x.key else pure hg
      -- the removal may have marked the entry
      let x ← hg.entryAt e
      if x.expire = expireDropit ∧ x.refCount = 0 then hg.purgeFree i idx e x else return hg

def setPurgeIdx (hg : FdbHashesGroup) (i : Nat) (idx : Int) : Except Fault FdbHashesGroup := do
  let h ← hg.partition i
  return hg.setPartition i { h with purgeIdx := idx }

/-- `while( --purgeIdx > min_idx)`, from `purgeIdx` on. -/
def purgeFrom (i : Nat) (t minIdx : Int) : Nat → FdbHashesGroup → Except Fault FdbHashesGroup
  | 0, hg => hg.setPurgeIdx i (-1)
  | idx + 1, hg => do
      let hg ← hg.setPurgeIdx i idx
      if minIdx < idx then purgeFrom i t minIdx idx (← hg.purgeVisit i t idx) else return hg

/-- A pass of `purgeHash_thread` over partition `i`. -/
def purgePartition (hg : FdbHashesGroup) (i : Nat) : Except Fault FdbHashesGroup := do
  let h ← hg.partition i
  let h := h.restartPurge hg.fdbSystemVar
  let hg := hg.setPartition i h
  match h.purgeIdx with
  | .ofNat 0 => return hg
  | .ofNat (idx + 1) => purgeFrom i hg.now h.minIdx (idx + 1) hg
  | .negSucc n => hg.setPurgeIdx i (.negSucc n - 1)

/-- A round of the loop of `purgeHash_thread` at time `now`.  Whether memory is short enough (`due`)
    is computed in floating point and not modelled. -/
def purgeHashRound (hg : FdbHashesGroup) (now : Int) (due : Bool) : Except Fault FdbHashesGroup :=
  let hg : FdbHashesGroup := { hg with now := now }
  if due then (range hg.size).foldlM purgePartition hg else return hg

end FdbHashesGroup

end ProxySQL
