/-
  ProxySQL.Cache.Readers

  Concurrent use of the query cache.

  A thread in `fdb_get` holds the lock of the partition only while it looks the
  entry up.  Afterwards it uses the entry in three more steps, and other threads
  may set, truncate and purge in between.  The reference count is the number of
  readers that have the entry, so that no purge pass frees it under them.
-/
import ProxySQL.Cache.Runs

namespace ProxySQL

open Lib List Function

/-- Where a thread is in `fdb_get`. -/
inductive Reader where
  /-- the entry was found -/
  | found (e : Nat)
  /-- the entry had not expired at time `t` -/
  | current (e : Nat) (t : Int)
  /-- the value was copied, or the entry had expired -/
  | leaving (e : Nat) (result : Option Pkt)
  | finished (result : Option Pkt)

/-- The entry that a reader has a reference to. -/
def Reader.entry : Reader → Option Nat
  | .found e => some e
  | .current e _ => some e
  | .leaving e _ => some e
  | .finished _ => none

/-- The group and all threads that have called `fdb_get`. -/
structure CacheWorld where
  hg : FdbHashesGroup
  readers : List Reader

inductive CacheEvent where
  /-- a thread calls `fdb_get`, up to the end of the locked section -/
  | lookup (key : Str)
  /-- reader `r` takes its next step -/
  | advance (r : Nat)
  /-- an operation under the write lock, or another thread's update of `hg->now` -/
  | op (op : CacheOp)

namespace FdbHashesGroup

/-- The next step of a reader. -/
def advance (hg : FdbHashesGroup) : Reader → Except Fault (FdbHashesGroup × Reader)
  | .found e => do
      match ← hg.fdbGetTest e with
      | none => return (hg, .leaving e none)
      | some t => return (hg, .current e t)
  | .current e t => do
      let (hg, result) ← hg.fdbGetCopy e t
      return (hg, .leaving e (some result))
  | .leaving e result => do
      let hg ← hg.fdbGetRelease e
      return (hg.countGet, .finished result)
  | .finished result => return (hg, .finished result)

variable {hg : FdbHashesGroup} {held : Nat → Nat}

/-- A reader finds its entry where it left it, and keeps it until its last step. -/
theorem Ok.advance (hok : hg.Ok held) {r : Reader} (hheld : ∀ e, r.entry = some e → 0 < held e) :
    ∃ hg' r', hg.advance r = .ok (hg', r') ∧ Read hg hg' ∧
      ((r'.entry = r.entry ∧ hg'.Ok held) ∨
        ∃ e, r.entry = some e ∧ r'.entry = none ∧ hg'.Ok (update held e (held e - 1))) := by
  have hlive : ∀ e, r.entry = some e → ∃ x, hg.heap e = some x := fun e he =>
    Option.isSome_iff_exists.1 (hok.referenced.live e (hheld e he))
  cases r with
  | found e =>
    obtain ⟨x, hx⟩ := hlive e rfl
    rw [FdbHashesGroup.advance, fdbGetTest_eq hx, except_ok_bind]
    by_cases hexpired : hg.now < x.expire
    · rw [if_pos hexpired]
      exact ⟨hg, .current e hg.now, rfl, .refl hg, .inl ⟨rfl, hok⟩⟩
    · rw [if_neg hexpired]
      exact ⟨hg, .leaving e none, rfl, .refl hg, .inl ⟨rfl, hok⟩⟩
  | current e t =>
    obtain ⟨x, hx⟩ := hlive e rfl
    obtain ⟨hg', hcopy, hok', hread⟩ := hok.fdbGetCopy hx t
    rw [FdbHashesGroup.advance, hcopy, except_ok_bind]
    exact ⟨hg', _, rfl, hread, .inl ⟨rfl, hok'⟩⟩
  | leaving e result =>
    obtain ⟨hg', hrelease, hok', hread⟩ := hok.fdbGetRelease (hheld e rfl)
    rw [FdbHashesGroup.advance, hrelease, except_ok_bind]
    exact ⟨_, .finished result, rfl, hread.trans (.countGet hg'),
      Or.inr ⟨e, rfl, rfl, hok'.of_eq rfl rfl rfl rfl rfl rfl rfl⟩⟩
  | finished result => exact ⟨hg, .finished result, rfl, .refl hg, .inl ⟨rfl, hok⟩⟩

end FdbHashesGroup

namespace CacheWorld

/-- One step of one of the threads. -/
def step (w : CacheWorld) : CacheEvent → Except Fault CacheWorld
  | .lookup key => do
      let (hg, entry) ← w.hg.fdbGetLookup key
      match entry with
      | none => return { hg := hg.countGet, readers := w.readers ++ [.finished none] }
      | some e => return { hg := hg, readers := w.readers ++ [.found e] }
  | .advance r => do
      match w.readers[r]? with
      | none => return w
      | some reader =>
          let (hg, reader) ← w.hg.advance reader
          return { hg := hg, readers := w.readers.set r reader }
  | .op op => do return { w with hg := ← w.hg.step op }

/-- The number of readers that have entry `e`. -/
def held (readers : List Reader) (e : Nat) : Nat := (readers.map Reader.entry).count (some e)

theorem held_append (readers : List Reader) (r : Reader) :
    held (readers ++ [r]) = FdbHashesGroup.heldBy (held readers) r.entry := by
  funext e
  rw [held, map_append, count_append, map_singleton, count_singleton]
  cases hr : r.entry with
  | none => rfl
  | some d =>
    rw [FdbHashesGroup.heldBy]
    rcases eq_or_ne e d with rfl | hne
    · rw [update_self, if_pos (beq_self_eq_true _), held]
    · rw [update_of_ne hne, if_neg (by simpa using hne.symm), held, Nat.add_zero]

theorem held_set {readers : List Reader} {i : Nat} {r r' : Reader} (hi : readers[i]? = some r)
    (hentry : r'.entry = r.entry) : held (readers.set i r') = held readers := by
  funext e
  rw [held, held, map_set_eq Reader.entry hi hentry]

theorem held_release {readers : List Reader} {i e : Nat} {r r' : Reader} (hi : readers[i]? = some r)
    (he : r.entry = some e) (hentry : r'.entry = none) :
    held (readers.set i r') = update (held readers) e (held readers e - 1) := by
  obtain ⟨hlt, rfl⟩ := List.getElem?_eq_some_iff.1 hi
  funext d
  have hlt' : i < (readers.map Reader.entry).length := by rwa [length_map]
  have hother : ((none : Option Nat) == some d) = false := rfl
  rw [held, map_set, count_set hlt', getElem_map, he, hentry, hother]
  rcases eq_or_ne d e with rfl | hne
  · rw [update_self, if_pos (beq_self_eq_true _), if_neg Bool.false_ne_true, held, Nat.add_zero]
  · rw [update_of_ne hne, if_neg (by simpa using hne.symm), if_neg Bool.false_ne_true, held, Nat.sub_zero,
      Nat.add_zero]

theorem held_pos {readers : List Reader} {i e : Nat} {r : Reader} (hi : readers[i]? = some r)
    (he : r.entry = some e) : 0 < held readers e :=
  count_pos_iff.2 (mem_map.2 ⟨r, mem_of_getElem? hi, he⟩)

/-- The group is in order while the readers have their entries. -/
def Sound (w : CacheWorld) : Prop := w.hg.Sound (held w.readers)

end CacheWorld

/-- The purge thread goes over the partitions that exist, and time is positive. -/
def CacheEvent.Valid (size : Nat) : CacheEvent → Prop
  | op o => o.Valid size
  | lookup _ => True
  | advance _ => True

namespace CacheWorld

variable {w : CacheWorld}

theorem Sound.lookup (h : w.Sound) (key : Str) :
    ∃ w', w.step (.lookup key) = .ok w' ∧ w'.Sound ∧ w'.hg.size = w.hg.size := by
  obtain ⟨hg', found, hlookup, hok, hread, -⟩ := h.ok.fdbGetLookup h.size key
  have hsize := hread.settings.size
  simp only [step, hlookup, except_ok_bind]
  cases found with
  | none =>
    refine ⟨_, rfl, ⟨?_, hsize ▸ h.size, hread.now ▸ h.now⟩, hsize⟩
    rw [held_append]
    exact hok.of_eq rfl rfl rfl rfl rfl rfl rfl
  | some e =>
    refine ⟨_, rfl, ⟨?_, hsize ▸ h.size, hread.now ▸ h.now⟩, hsize⟩
    rw [held_append]
    exact hok

theorem Sound.advance (h : w.Sound) (i : Nat) :
    ∃ w', w.step (.advance i) = .ok w' ∧ w'.Sound ∧ w'.hg.size = w.hg.size := by
  simp only [step]
  cases hi : w.readers[i]? with
  | none => exact ⟨w, rfl, h, rfl⟩
  | some r =>
    obtain ⟨hg', r', hadvance, hread, hkept⟩ := h.ok.advance fun e he => held_pos hi he
    dsimp only
    rw [hadvance, except_ok_bind]
    refine ⟨_, rfl, ⟨?_, hread.settings.size ▸ h.size, hread.now ▸ h.now⟩, hread.settings.size⟩
    rcases hkept with ⟨hentry, hok⟩ | ⟨e, he, hnone, hok⟩
    · rw [held_set hi hentry]
      exact hok
    · rw [held_release hi he hnone]
      exact hok

/-- Every step of every thread ends. -/
theorem Sound.step (h : w.Sound) {ev : CacheEvent} (hvalid : ev.Valid w.hg.size) :
    ∃ w', w.step ev = .ok w' ∧ w'.Sound ∧ w'.hg.size = w.hg.size := by
  cases ev with
  | lookup key => exact h.lookup key
  | advance i => exact h.advance i
  | op o =>
    obtain ⟨hg', hstep, hsound, hsettings, -⟩ := FdbHashesGroup.Sound.step h hvalid
    refine ⟨{ w with hg := hg' }, ?_, hsound, hsettings.size⟩
    simp only [CacheWorld.step, hstep, except_ok_bind]
    rfl

theorem Sound.run {es : List CacheEvent} (h : w.Sound) (hvalid : ∀ ev ∈ es, ev.Valid w.hg.size) :
    ∃ w', es.foldlM CacheWorld.step w = .ok w' ∧ w'.Sound := by
  have hkeep : ∀ (w1 : CacheWorld) (ev : CacheEvent), (w1.Sound ∧ w1.hg.size = w.hg.size) →
      ev.Valid w.hg.size → ∃ w2, w1.step ev = .ok w2 ∧ w2.Sound ∧ w2.hg.size = w.hg.size := by
    rintro w1 ev ⟨h1, hsize1⟩ hev
    obtain ⟨w2, hstep, h2, hsize2⟩ := h1.step (hsize1 ▸ hev)
    exact ⟨w2, hstep, h2, hsize2.trans hsize1⟩
  obtain ⟨w', hrun, h', -⟩ := foldlM_of_invariant hkeep ⟨h, rfl⟩ hvalid
  exact ⟨w', hrun, h'⟩

/-- Whatever the threads do in whatever order, no step faults: a reader never finds its entry freed, and
    nothing is freed twice.  What was freed had no readers and was in no hash table. -/
theorem readers_find_entries {size hashExpireDefault maxMemorySize : Nat} {now : Int} {var : FdbSystemVar}
    (hsize : 0 < size) (hnow : 0 < now) {es : List CacheEvent} (hvalid : ∀ ev ∈ es, ev.Valid size) :
    ∃ w, es.foldlM CacheWorld.step
          { hg := FdbHashesGroup.fdbHashesNew size hashExpireDefault maxMemorySize now var,
            readers := [] } = .ok w ∧
      (∀ r ∈ w.readers, ∀ e, r.entry = some e → (w.hg.heap e).isSome) ∧
      (w.hg.freed.map Freed.entry).Nodup ∧
      ∀ f ∈ w.hg.freed, w.hg.heap f.entry = none ∧ f.refCount = 0 ∧ f.hashed = false := by
  have hinit : CacheWorld.Sound
      { hg := FdbHashesGroup.fdbHashesNew size hashExpireDefault maxMemorySize now var, readers := [] } :=
    FdbHashesGroup.Sound.init hsize hashExpireDefault maxMemorySize hnow var
  have hvalid' : ∀ ev ∈ es,
      ev.Valid (FdbHashesGroup.fdbHashesNew size hashExpireDefault maxMemorySize now var).size := by
    rw [FdbHashesGroup.size_fdbHashesNew]
    exact hvalid
  obtain ⟨w, hrun, hw⟩ := hinit.run hvalid'
  refine ⟨w, hrun, fun r hr e he => ?_, hw.ok.freed.once,
    fun f hf => ⟨(hw.ok.freed.gone f hf).2, hw.ok.freed.unused f hf⟩⟩
  obtain ⟨i, hi⟩ := getElem?_of_mem hr
  exact hw.ok.referenced.live e (held_pos hi he)

/-- A value is replaced and the old entry purged while a reader has it. -/
theorem readers_find_entries_replaced :
    ∃ w, [CacheEvent.op (.set (bytesOf "a") (bytesOf "v") 60), .op (.set (bytesOf "k") (bytesOf "old") 60),
          .lookup (bytesOf "k"), .advance 0, .op (.set (bytesOf "k") (bytesOf "new") 60), .op (.purge 0),
          .advance 0].foldlM CacheWorld.step
        { hg := FdbHashesGroup.fdbHashesNew 1 3600 1000 1 FdbHashesGroup.defaultVar, readers := [] } =
        .ok w ∧
      ∀ r ∈ w.readers, ∀ e, r.entry = some e → (w.hg.heap e).isSome := by
  have hvalid : ∀ ev ∈ [CacheEvent.op (.set (bytesOf "a") (bytesOf "v") 60),
      .op (.set (bytesOf "k") (bytesOf "old") 60), .lookup (bytesOf "k"), .advance 0,
      .op (.set (bytesOf "k") (bytesOf "new") 60), .op (.purge 0), .advance 0], ev.Valid 1 := by
    simp [CacheEvent.Valid, CacheOp.Valid]
  obtain ⟨w, hrun, hlive, -⟩ := readers_find_entries Nat.zero_lt_one Int.zero_lt_one hvalid
  exact ⟨w, hrun, hlive⟩

end CacheWorld

end ProxySQL
