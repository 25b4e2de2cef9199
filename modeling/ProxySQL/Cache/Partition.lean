/-
  ProxySQL.Cache.Partition

  One partition of the query cache: its hash table and its array agree.

  An entry of the array is marked with `EXPIRE_DROPIT` exactly if the hash table
  does not have it any more.  What follows says this for the four things that
  happen to a partition: entries leave the hash table and are marked, an entry is
  added, an entry is freed, and entries change in some other respect.
-/
import ProxySQL.Cache.Hash

namespace ProxySQL

open Lib List Function

/-- The hash table and the array of a partition agree. -/
structure FdbHash.Ok (heap : Nat → Option FdbHashEntry) (h : FdbHash) : Prop where
  current : ∀ e ∈ h.ptrArray, ∃ x, heap e = some x ∧
    (x.expire ≠ expireDropit ↔ h.hash.lookup x.key = some e)
  hashed : ∀ k e, h.hash.lookup k = some e → e ∈ h.ptrArray ∧ ∃ x, heap e = some x ∧ x.key = k
  nodup : h.ptrArray.Nodup

/-- What `hash_value_destroy_func` does to an entry. -/
def FdbHashEntry.drop (x : FdbHashEntry) : FdbHashEntry := { x with expire := expireDropit }

/-- The heap after `hash_value_destroy_func` was called for the entries `es`. -/
def dropped (es : List Nat) (heap : Nat → Option FdbHashEntry) (e : Nat) : Option FdbHashEntry :=
  if e ∈ es then (heap e).map FdbHashEntry.drop else heap e

variable {es : List Nat} {heap : Nat → Option FdbHashEntry} {e : Nat} {x : FdbHashEntry}
  {hash' : AList fun _ : Str => Nat}

theorem dropped_of_mem (he : e ∈ es) (hx : heap e = some x) : dropped es heap e = some x.drop := by
  rw [dropped, if_pos he, hx, Option.map_some]

theorem dropped_of_notMem (he : e ∉ es) : dropped es heap e = heap e := if_neg he

theorem isSome_dropped (es : List Nat) (heap : Nat → Option FdbHashEntry) (e : Nat) :
    (dropped es heap e).isSome = (heap e).isSome := by
  unfold dropped
  split
  · exact Option.isSome_map
  · rfl

namespace FdbHash.Ok

variable {heap heap' : Nat → Option FdbHashEntry} {h : FdbHash}

theorem empty (heap : Nat → Option FdbHashEntry) (chunk idx : Int) :
    FdbHash.Ok heap { hash := ∅, ptrArray := [], purgeChunkSize := chunk, purgeIdx := idx } := by
  refine ⟨fun e he => (nomatch he), fun k e hk => ?_, nodup_nil⟩
  cases hk

theorem congr (hok : h.Ok heap)
    (hsame : ∀ e ∈ h.ptrArray, ∀ x, heap e = some x → ∃ y, heap' e = some y ∧ y.key = x.key ∧
      y.expire = x.expire) :
    h.Ok heap' := by
  refine ⟨fun e he => ?_, fun k e hk => ?_, hok.nodup⟩
  · obtain ⟨x, hx, hiff⟩ := hok.current e he
    obtain ⟨y, hy, hkey, hexpire⟩ := hsame e he x hx
    refine ⟨y, hy, ?_⟩
    rw [hkey, hexpire]
    exact hiff
  · obtain ⟨he, x, hx, hxk⟩ := hok.hashed k e hk
    obtain ⟨y, hy, hkey, -⟩ := hsame e he x hx
    exact ⟨he, y, hy, hkey.trans hxk⟩

theorem shrink (hok : h.Ok heap) (hsub : ∀ k e, hash'.lookup k = some e → h.hash.lookup k = some e)
    (hlost : ∀ e, e ∈ es ↔ ∃ k, h.hash.lookup k = some e ∧ hash'.lookup k = none) :
    FdbHash.Ok (dropped es heap) { h with hash := hash' } := by
  have hkept : ∀ k e, hash'.lookup k = some e → e ∉ es := by
    intro k e hk hmem
    obtain ⟨k', hk', hnone⟩ := (hlost e).1 hmem
    -- an entry is hashed under its own key only
    obtain ⟨-, x, hx, rfl⟩ := hok.hashed k e (hsub k e hk)
    obtain ⟨-, x', hx', rfl⟩ := hok.hashed k' e hk'
    obtain rfl : x = x' := Option.some.inj (hx.symm.trans hx')
    rw [hk] at hnone
    cases hnone
  refine ⟨fun e he => ?_, fun k e hk => ?_, hok.nodup⟩
  · obtain ⟨x, hx, hiff⟩ := hok.current e he
    by_cases hmem : e ∈ es
    · refine ⟨x.drop, dropped_of_mem hmem hx, fun hne => absurd rfl hne, fun hk => ?_⟩
      exact absurd hmem (hkept _ e hk)
    · refine ⟨x, (dropped_of_notMem hmem).trans hx, fun hne => ?_, fun hk => hiff.2 (hsub _ _ hk)⟩
      have hk := hiff.1 hne
      cases hk' : hash'.lookup x.key with
      | none => exact absurd ((hlost e).2 ⟨_, hk, hk'⟩) hmem
      | some e' =>
        have heq := hsub _ _ hk'
        rw [hk] at heq
        exact heq.symm
  · obtain ⟨he, x, hx, hxk⟩ := hok.hashed k e (hsub k e hk)
    exact ⟨he, x, (dropped_of_notMem (hkept k e hk)).trans hx, hxk⟩

theorem erase (hok : h.Ok heap) {k : Str} (hk : h.hash.lookup k = some e) :
    FdbHash.Ok (dropped [e] heap) { h with hash := h.hash.erase k } := by
  refine hok.shrink (fun k' e' hk' => ?_) fun e' => ?_
  · rcases eq_or_ne k' k with rfl | hne
    · rw [AList.lookup_erase] at hk'
      cases hk'
    · rwa [AList.lookup_erase_ne hne] at hk'
  · rw [mem_singleton]
    constructor
    · rintro rfl
      exact ⟨k, hk, AList.lookup_erase k h.hash⟩
    · rintro ⟨k', hk', hnone⟩
      rcases eq_or_ne k' k with rfl | hne
      · exact Option.some.inj (hk'.symm.trans hk)
      · rw [AList.lookup_erase_ne hne, hk'] at hnone
        cases hnone

theorem clear (hok : h.Ok heap) :
    FdbHash.Ok (dropped (h.hash.entries.map Sigma.snd) heap) { h with hash := ∅ } := by
  refine hok.shrink (fun k e hk => ?_) fun e => ?_
  · cases hk
  · rw [mem_map]
    constructor
    · rintro ⟨⟨k, _⟩, hmem, rfl⟩
      exact ⟨k, AList.mem_lookup_iff.2 hmem, AList.lookup_empty k⟩
    · rintro ⟨k, hk, -⟩
      exact ⟨⟨k, e⟩, AList.mem_lookup_iff.1 hk, rfl⟩

theorem add (hok : h.Ok heap)
    (hfresh : heap e = none) (hexpire : x.expire ≠ expireDropit) (hnone : h.hash.lookup x.key = none)
    (hself : hash'.lookup x.key = some e) (hother : ∀ k, k ≠ x.key → hash'.lookup k = h.hash.lookup k) :
    FdbHash.Ok (Function.update heap e (some x))
      { h with hash := hash', ptrArray := h.ptrArray ++ [e] } := by
  have hnew : ∀ d ∈ h.ptrArray, d ≠ e := by
    rintro d hd rfl
    obtain ⟨y, hy, -⟩ := hok.current d hd
    rw [hfresh] at hy
    cases hy
  have hold : ∀ d ∈ h.ptrArray, Function.update heap e (some x) d = heap d := fun d hd =>
    update_of_ne (hnew d hd) _ _
  refine ⟨fun d hd => ?_, fun k d hk => ?_, ?_⟩
  · rcases mem_append.1 hd with hd | hd
    · obtain ⟨y, hy, hiff⟩ := hok.current d hd
      refine ⟨y, (hold d hd).trans hy, ?_⟩
      rcases eq_or_ne y.key x.key with heq | hne
      · rw [hiff]
        rw [heq, hnone, hself]
        exact ⟨fun h => (nomatch h), fun h => absurd (Option.some.inj h).symm (hnew d hd)⟩
      · rw [hiff]
        rw [hother _ hne]
    · obtain rfl := mem_singleton.1 hd
      exact ⟨x, update_self _ _ _, fun _ => hself, fun _ => hexpire⟩
  · rcases eq_or_ne k x.key with rfl | hne
    · obtain rfl : e = d := Option.some.inj (hself.symm.trans hk)
      exact ⟨mem_append_right _ (mem_singleton.2 rfl), x, update_self _ _ _, rfl⟩
    · rw [hother k hne] at hk
      obtain ⟨hd, y, hy, hyk⟩ := hok.hashed k d hk
      exact ⟨mem_append_left _ hd, y, (hold d hd).trans hy, hyk⟩
  · exact nodup_append.2 ⟨hok.nodup, nodup_singleton e, fun d hd d' hd' =>
      mem_singleton.1 hd' ▸ hnew d hd⟩

theorem not_hashed (hok : h.Ok heap) (hx : heap e = some x)
    (hdropped : x.expire = expireDropit) (k : Str) : h.hash.lookup k ≠ some e := by
  intro hk
  obtain ⟨he, y, hy, rfl⟩ := hok.hashed k e hk
  obtain rfl : x = y := Option.some.inj (hx.symm.trans hy)
  obtain ⟨z, hz, hiff⟩ := hok.current e he
  obtain rfl : x = z := Option.some.inj (hx.symm.trans hz)
  exact hiff.2 hk hdropped

theorem free (hok : h.Ok heap) {idx : Nat} (he : h.ptrArray[idx]? = some e)
    (hx : heap e = some x) (hdropped : x.expire = expireDropit) :
    FdbHash.Ok (Function.update heap e none) { h with ptrArray := removeIndexFast h.ptrArray idx } := by
  have hperm := removeIndexFast_perm he
  obtain ⟨hnotMem, hnodup⟩ := nodup_cons.1 (hperm.nodup_iff.1 hok.nodup)
  have hne : ∀ d ∈ removeIndexFast h.ptrArray idx, d ≠ e := by
    rintro d hd rfl
    exact hnotMem hd
  refine ⟨fun d hd => ?_, fun k d hk => ?_, hnodup⟩
  · rw [update_of_ne (hne d hd)]
    exact hok.current d (hperm.mem_iff.2 (mem_cons_of_mem _ hd))
  · obtain ⟨hd, y, hy, rfl⟩ := hok.hashed k d hk
    have hde : d ≠ e := by
      rintro rfl
      exact hok.not_hashed hx hdropped y.key hk
    rw [update_of_ne hde]
    refine ⟨?_, y, hy, rfl⟩
    rcases mem_cons.1 (hperm.mem_iff.1 hd) with rfl | hmem
    · exact absurd rfl hde
    · exact hmem

end FdbHash.Ok

end ProxySQL
