/-
  ProxySQL.Cache.Sweep

  What purging does to the array of a partition.

  A pass goes through the array from the back.  It frees what is dead at the
  indices it looks at, and the last element takes the place of what was freed.
  That element stands behind the index, so what is before the index has not moved
  when the pass gets there: a stretch of a pass is described by the indices it
  looks at, counted in the array it began with, and stretches can be put together
  (`Sweeps.trans`).
-/
import ProxySQL.Cache.Hash

namespace ProxySQL

open Lib

namespace FdbHashesGroup

variable {hg hg' hg'' : FdbHashesGroup} {h h' h'' : FdbHash} {V W : Nat → Prop} {p q r : Nat}

/-- The entry has expired or is marked, and no reader has it. -/
def Dead (hg : FdbHashesGroup) (e : Nat) : Prop :=
  ∃ x, hg.heap e = some x ∧ (x.expire ≤ hg.now ∨ x.expire = expireDropit) ∧ x.refCount = 0

theorem dead_iff {e : Nat} {x : FdbHashEntry} (hx : hg.heap e = some x) :
    hg.Dead e ↔ (x.expire ≤ hg.now ∨ x.expire = expireDropit) ∧ x.refCount = 0 := by
  constructor
  · rintro ⟨y, hy, hdead⟩
    obtain rfl := Option.some.inj (hx.symm.trans hy)
    exact hdead
  · exact fun hdead => ⟨x, hx, hdead⟩

instance (hg : FdbHashesGroup) (e : Nat) : Decidable (hg.Dead e) :=
  match hx : hg.heap e with
  | none => .isFalse fun hdead => hdead.elim fun y hy => Option.some_ne_none y (hy.1.symm.trans hx)
  | some _ => decidable_of_iff _ (dead_iff hx).symm

theorem dead_congr {e : Nat} (hheap : hg'.heap e = hg.heap e) (hnow : hg'.now = hg.now) : hg'.Dead e ↔
    hg.Dead e := by
  unfold Dead
  rw [hheap, hnow]

/-- The entry stands at one of the indices `V` from `q` to `p`, without `p`. -/
def Picked (V : Nat → Prop) (p q : Nat) (h : FdbHash) (e : Nat) : Prop :=
  ∃ m, q ≤ m ∧ m < p ∧ V m ∧ h.ptrArray[m]? = some e

/-- From the back, the indices `V` from `q` to `p` of partition `h` were looked at. -/
structure Sweeps (V : Nat → Prop) (p q : Nat) (hg : FdbHashesGroup) (h : FdbHash) (hg' : FdbHashesGroup)
    (h' : FdbHash) : Prop where
  now : hg'.now = hg.now
  /-- what is before these indices has not moved -/
  below : ∀ m < q, h'.ptrArray[m]? = h.ptrArray[m]?
  same : ∀ e, ¬Picked V p q h e → hg'.heap e = hg.heap e
  array : ∀ e, e ∈ h'.ptrArray ↔ e ∈ h.ptrArray ∧ ¬(Picked V p q h e ∧ hg.Dead e)
  freed : ∀ e, Picked V p q h e → hg.Dead e → hg'.heap e = none

theorem picked_congr (hV : ∀ m, q ≤ m → m < p → (V m ↔ W m)) (e : Nat) : Picked V p q h e ↔
    Picked W p q h e := by
  constructor
  · rintro ⟨m, hq, hp, hm, he⟩
    exact ⟨m, hq, hp, (hV m hq hp).1 hm, he⟩
  · rintro ⟨m, hq, hp, hm, he⟩
    exact ⟨m, hq, hp, (hV m hq hp).2 hm, he⟩

theorem Sweeps.congr (hs : Sweeps V p q hg h hg' h') (hV : ∀ m, q ≤ m → m < p → (V m ↔ W m)) :
    Sweeps W p q hg h hg' h' where
  now := hs.now
  below := hs.below
  same e he := hs.same e fun hpicked => he ((picked_congr hV e).1 hpicked)
  array e := by
    rw [hs.array e, picked_congr hV e]
  freed e he := hs.freed e ((picked_congr hV e).2 he)

theorem Sweeps.of_start {hg1 : FdbHashesGroup} {h1 : FdbHash} (hs : Sweeps V p q hg1 h1 hg' h')
    (hnow : hg1.now = hg.now) (hheap : hg1.heap = hg.heap) (harr : h1.ptrArray = h.ptrArray) :
    Sweeps V p q hg h hg' h' := by
  have hpicked : ∀ e, Picked V p q h1 e ↔ Picked V p q h e := by
    intro e
    rw [Picked, Picked, harr]
  have hdead : ∀ e, hg1.Dead e ↔ hg.Dead e := fun e => dead_congr (congrFun hheap e) hnow
  refine ⟨hs.now.trans hnow, fun m hm => ?_, fun e he => ?_, fun e => ?_, fun e he hdying => ?_⟩
  · rw [hs.below m hm, harr]
  · rw [hs.same e fun hpick => he ((hpicked e).1 hpick), hheap]
  · rw [hs.array e, harr, hpicked e, hdead e]
  · exact hs.freed e ((hpicked e).2 he) ((hdead e).2 hdying)

theorem Sweeps.of_eq (hV : ∀ m, q ≤ m → m < p → ¬V m) (hnow : hg'.now = hg.now) (hheap : hg'.heap = hg.heap)
    (harr : h'.ptrArray = h.ptrArray) : Sweeps V p q hg h hg' h' := by
  have hnone : ∀ e, ¬Picked V p q h e := by
    rintro e ⟨m, hq, hp, hm, -⟩
    exact hV m hq hp hm
  refine ⟨hnow, fun m _ => by rw [harr], fun e _ => by rw [hheap], fun e => ?_,
    fun e he => absurd he (hnone e)⟩
  rw [harr]
  exact ⟨fun he => ⟨he, fun hand => hnone e hand.1⟩, And.left⟩

theorem Sweeps.trans (hs : Sweeps V p q hg h hg' h') (hs' : Sweeps V q r hg' h' hg'' h'')
    (hnodup : h.ptrArray.Nodup) (hpq : q ≤ p) (hqr : r ≤ q) : Sweeps V p r hg h hg'' h'' := by
  have hsplit : ∀ e, Picked V p r h e ↔ Picked V p q h e ∨ Picked V q r h' e := by
    intro e
    constructor
    · rintro ⟨m, hr, hp, hm, he⟩
      rcases Nat.lt_or_ge m q with hlt | hge
      · exact .inr ⟨m, hr, hlt, hm, (hs.below m hlt).trans he⟩
      · exact .inl ⟨m, hge, hp, hm, he⟩
    · rintro (⟨m, hq, hp, hm, he⟩ | ⟨m, hr, hq, hm, he⟩)
      · exact ⟨m, Nat.le_trans hqr hq, hp, hm, he⟩
      · exact ⟨m, hr, Nat.lt_of_lt_of_le hq hpq, hm, (hs.below m hq).symm.trans he⟩
  -- no entry stands at two indices
  have honce : ∀ e, Picked V q r h' e → ¬Picked V p q h e := by
    rintro e ⟨m, -, hq, -, he⟩ ⟨m', hq', -, -, he'⟩
    rw [hs.below m hq] at he
    have hm : m = m' := by
      refine (List.getElem?_inj (List.getElem?_eq_some_iff.1 he).1 hnodup).1 ?_
      rw [he, he']
    omega
  have hdead : ∀ e, Picked V q r h' e → (hg'.Dead e ↔ hg.Dead e) := fun e he =>
    dead_congr (hs.same e (honce e he)) hs.now
  refine ⟨hs'.now.trans hs.now, fun m hm => ?_, fun e he => ?_, fun e => ?_, fun e he hdying => ?_⟩
  · rw [hs'.below m hm, hs.below m (Nat.lt_of_lt_of_le hm hqr)]
  · rw [hsplit, not_or] at he
    rw [hs'.same e he.2, hs.same e he.1]
  · rw [hs'.array e, hs.array e, hsplit]
    constructor
    · rintro ⟨⟨hmem, hfirst⟩, hsecond⟩
      refine ⟨hmem, ?_⟩
      rintro ⟨hpicked | hpicked, hdying⟩
      · exact hfirst ⟨hpicked, hdying⟩
      · exact hsecond ⟨hpicked, (hdead e hpicked).2 hdying⟩
    · rintro ⟨hmem, hnot⟩
      exact ⟨⟨hmem, fun hand => hnot ⟨.inl hand.1, hand.2⟩⟩,
        fun hand => hnot ⟨.inr hand.1, (hdead e hand.1).1 hand.2⟩⟩
  · by_cases hsecond : Picked V q r h' e
    · exact hs'.freed e hsecond ((hdead e hsecond).2 hdying)
    · rw [hs'.same e hsecond]
      exact hs.freed e (((hsplit e).1 he).resolve_right hsecond) hdying

/-- The entry `e` at index `q` is looked at: it is freed if it is dead. -/
theorem Sweeps.of_visit {e : Nat} (he : h.ptrArray[q]? = some e) (hnodup : h.ptrArray.Nodup) (hV : V q)
    (hnow : hg'.now = hg.now) (hother : ∀ d, d ≠ e → hg'.heap d = hg.heap d)
    (hfreed : hg.Dead e → hg'.heap e = none ∧ h'.ptrArray = removeIndexFast h.ptrArray q)
    (hkept : ¬hg.Dead e → h'.ptrArray = h.ptrArray) : Sweeps V (q + 1) q hg h hg' h' := by
  have hlt : q < h.ptrArray.length := (List.getElem?_eq_some_iff.1 he).1
  have hpicked : ∀ d, Picked V (q + 1) q h d ↔ d = e := by
    intro d
    constructor
    · rintro ⟨m, hq, hp, -, hd⟩
      obtain rfl : m = q := by omega
      exact Option.some.inj (hd.symm.trans he)
    · rintro rfl
      exact ⟨q, Nat.le_refl q, Nat.lt_succ_self q, hV, he⟩
  by_cases hdead : hg.Dead e
  · obtain ⟨hnone, harr⟩ := hfreed hdead
    have hperm := removeIndexFast_perm he
    obtain ⟨hnotMem, -⟩ := List.nodup_cons.1 (hperm.nodup_iff.1 hnodup)
    refine ⟨hnow, fun m hm => ?_, fun d hd => hother d fun heq => hd ((hpicked d).2 heq), fun d => ?_,
      fun d hd _ => ?_⟩
    · rw [harr, getElem?_removeIndexFast_of_lt hlt hm]
    · rw [harr, hperm.mem_iff, List.mem_cons, hpicked d]
      constructor
      · intro hmem
        refine ⟨.inr hmem, ?_⟩
        rintro ⟨rfl, -⟩
        exact hnotMem hmem
      · rintro ⟨rfl | hmem, hnot⟩
        · exact absurd ⟨rfl, hdead⟩ hnot
        · exact hmem
    · rw [(hpicked d).1 hd]
      exact hnone
  · have harr := hkept hdead
    refine ⟨hnow, fun m _ => by rw [harr], fun d hd => hother d fun heq => hd ((hpicked d).2 heq),
      fun d => ?_, fun d hd hdying => ?_⟩
    · rw [harr, hpicked d]
      refine ⟨fun hmem => ⟨hmem, ?_⟩, And.left⟩
      rintro ⟨rfl, hdying⟩
      exact hdead hdying
    · rw [(hpicked d).1 hd] at hdying
      exact absurd hdying hdead

end FdbHashesGroup

end ProxySQL
