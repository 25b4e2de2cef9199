/-
  ProxySQL.Session.EntryUse

  The hostgroup entries that backends refer to.

  A backend keeps a bare pointer to an entry of a hostgroup array.  FLUSH
  HOSTGROUPS frees all entries of the arrays and fills the arrays anew, whoever
  refers to the old ones.  Between two such commands nothing is freed, and a
  backend that looks for a server takes one of the arrays' entries
  (`Shared.Listed`).  So all references are valid as long as FLUSH HOSTGROUPS
  meets no backend that has one (`entries_in_use_valid`).
-/
import ProxySQL.Session.Servers
import ProxySQL.Session.Wiring

namespace ProxySQL

open Lib List Option

/-! ## The arrays -/

/-- The hostgroup arrays, and which entries are freed. -/
def Shared.arrays (sh : Shared) : Nat × (Nat → List Nat) × List Nat × Nat × (Nat → Bool) :=
  (sh.glovars.mysqlHostgroups, sh.hostgroupArrays, sh.mysqlHostgroups, sh.nextMshge,
    fun m => (sh.mshges m).freed)

/-- The entries of the arrays are allocated and not freed, array `i` belongs to hostgroup `i`, and
    there are no others. -/
structure Shared.ArraysOk (sh : Shared) : Prop where
  live : ∀ a, ∀ m ∈ sh.hostgroupArrays a, (sh.mshges m).freed = false
  allocated : ∀ a, ∀ m ∈ sh.hostgroupArrays a, m < sh.nextMshge
  array : ∀ i < sh.glovars.mysqlHostgroups, sh.mysqlHostgroups[i]? = some i
  others : ∀ a, sh.glovars.mysqlHostgroups ≤ a → sh.hostgroupArrays a = []

/-- The backend's entry, if it has one, is in an array. -/
def Shared.Listed (sh : Shared) (mybe : MysqlBackend) : Prop :=
  ∀ m, mybe.mshge = some m → ∃ a, m ∈ sh.hostgroupArrays a

/-- The backend's entry, if it has one, is not freed. -/
def MysqlBackend.Valid (sh : Shared) (mybe : MysqlBackend) : Prop :=
  ∀ m, mybe.mshge = some m → (sh.mshges m).freed = false

variable {mybe : MysqlBackend} {env : ConnectEnv} {sh : Shared}

section Arrays

variable {sh sh' : Shared}

theorem arrays_of_unpooled (h : sh'.unpooled = sh.unpooled) : sh'.arrays = sh.arrays :=
  congrArg (fun x => (x.1.mysqlHostgroups, x.2.2.2.2.1, x.2.2.2.2.2.1, x.2.2.2.2.2.2,
    fun m => (x.2.2.2.1 m).freed)) h

theorem hostgroupArrays_of_arrays (h : sh'.arrays = sh.arrays) :
    sh'.hostgroupArrays = sh.hostgroupArrays :=
  congrArg (fun x => x.2.1) h

theorem modifyMshge_arrays (sh : Shared) (m : Nat) {f : Mshge → Mshge}
    (hf : ∀ e, (f e).freed = e.freed) : (sh.modifyMshge m f).arrays = sh.arrays := by
  have hfreed : (fun n => ((sh.modifyMshge m f).mshges n).freed) = fun n =>
    (sh.mshges n).freed := by
    funext n
    unfold Shared.modifyMshge
    dsimp only
    split
    · next heq =>
      rw [hf, heq]
    · rfl
  unfold Shared.arrays
  rw [hfreed]
  rfl

theorem Shared.ArraysOk.of_arrays (hok : sh.ArraysOk) (h : sh'.arrays = sh.arrays) :
    sh'.ArraysOk := by
  simp only [Shared.arrays, Prod.mk.injEq] at h
  obtain ⟨hcount, harrays, hlist, hnext, hfreed⟩ := h
  refine ⟨fun a m hm => ?_, fun a m hm => ?_, fun i hi => ?_, fun a ha => ?_⟩
  · rw [harrays] at hm
    exact (congrFun hfreed m).trans (hok.live a m hm)
  · rw [harrays] at hm
    rw [hnext]
    exact hok.allocated a m hm
  · rw [hcount] at hi
    rw [hlist]
    exact hok.array i hi
  · rw [hcount] at ha
    rw [harrays]
    exact hok.others a ha

theorem Shared.Listed.of_arrays (hmybe : sh.Listed mybe) (h : sh'.arrays = sh.arrays) :
    sh'.Listed mybe := by
  unfold Shared.Listed
  rw [hostgroupArrays_of_arrays h]
  exact hmybe

theorem Shared.Listed.valid (hok : sh.ArraysOk) (h : sh.Listed mybe) : mybe.Valid sh := by
  intro m hm
  obtain ⟨a, ha⟩ := h m hm
  exact hok.live a m ha

theorem backendReset_arrays {mybe' : MysqlBackend} {fc : Bool} {now : Nat → Nat}
    (h : backendReset sh mybe fc now = .ok (sh', mybe')) : sh'.arrays = sh.arrays := by
  have hdrop : (dropActive sh mybe.mshge).arrays = sh.arrays := by
    unfold dropActive
    split
    · rfl
    · split
      · rfl
      · exact modifyMshge_arrays sh _ fun _ => rfl
  exact (arrays_of_unpooled (resetServerMycpe_unpooled h)).trans hdrop

theorem attachMyds_arrays (sh : Shared) (mybe : MysqlBackend) (fill : Nat → Byte) (m : Nat)
    (fd : Int) : (attachMyds sh mybe fill m fd).1.arrays = sh.arrays ∧
      (attachMyds sh mybe fill m fd).2.mshge = mybe.mshge := by
  unfold attachMyds
  split
  · exact ⟨modifyMshge_arrays sh _ fun _ => rfl, rfl⟩
  · exact ⟨rfl, rfl⟩

theorem chooseEntry_listed {hg rand m : Nat} (hmybe : sh.Listed mybe)
    (h : chooseEntry sh mybe.mshge hg rand = .ok (some m)) : ∃ a, m ∈ sh.hostgroupArrays a := by
  obtain hown | hmem := chooseEntry_mem h
  · exact hmybe m hown
  · unfold Shared.entries at hmem
    split at hmem
    · cases hmem
    · next a _ => exact ⟨a, hmem⟩

/-- Nobody runs FLUSH HOSTGROUPS while a connection is sought. -/
def ConnectEnv.Undisturbed (env : ConnectEnv) : Prop := ∀ attempt < 10, env.flush attempt = none

instance (env : ConnectEnv) : Decidable env.Undisturbed :=
  inferInstanceAs (Decidable (∀ attempt < 10, env.flush attempt = none))

theorem ConnectEnv.Undisturbed.flushed (h : env.Undisturbed) (n : Nat) (sh : Shared) :
    env.flushed (10 - (n + 1)) sh = sh := by
  unfold ConnectEnv.flushed
  rw [h (10 - (n + 1)) (by omega)]

theorem Creates.listed {cred : Credentials} {fill : Nat → Byte} {hg n : Nat}
    {mybe' : MysqlBackend} {rc : CreateResult} (h : Creates cred env fill hg n sh mybe sh' mybe' rc)
    (henv : env.Undisturbed) (hmybe : sh.Listed mybe) : sh'.arrays = sh.arrays ∧
    sh'.Listed mybe' := by
  have hattach : ∀ {sh sh' : Shared} {mybe mybe' : MysqlBackend} {m : Nat} {fd : Int},
    mybe.mshge = some m →
      (∃ a, m ∈ sh.hostgroupArrays a) → attachMyds sh mybe fill m fd = (sh', mybe') →
      sh'.arrays = sh.arrays ∧ sh'.Listed mybe' := by
    intro sh sh' mybe mybe' m fd hm hlisted h
    obtain ⟨harrays, hmshge⟩ := attachMyds_arrays sh mybe fill m fd
    rw [h] at harrays hmshge
    refine ⟨harrays, fun m' hm' => ?_⟩
    obtain rfl : m = m' := some.inj (hm.symm.trans (hmshge.symm.trans hm'))
    rw [hostgroupArrays_of_arrays harrays]
    exact hlisted
  induction h with
  | exhausted => exact ⟨rfl, hmybe⟩
  | noServer => exact ⟨rfl, fun _ hm => nomatch hm⟩
  | kept hentry _ hat => exact hattach rfl (chooseEntry_listed hmybe hentry) hat
  | taken hentry _ _ hget hat =>
    have hsame := arrays_of_unpooled (getConnection_unpooled hget)
    rw [henv.flushed] at hat
    obtain ⟨harrays, hlisted⟩ := hattach rfl
      (by rw [hostgroupArrays_of_arrays hsame]; exact chooseEntry_listed hmybe hentry) hat
    exact ⟨harrays.trans hsame, hlisted⟩
  | failed hentry _ _ hget =>
    have hsame := arrays_of_unpooled (getConnection_unpooled hget)
    rw [henv.flushed 0]
    refine ⟨hsame, fun m hm => ?_⟩
    cases hm
    rw [hostgroupArrays_of_arrays hsame]
    exact chooseEntry_listed hmybe hentry
  | retry _ _ _ hget _ ih =>
    have hsame := arrays_of_unpooled (getConnection_unpooled hget)
    rw [henv.flushed] at ih
    obtain ⟨harrays, hlisted⟩ := ih fun _ hm => nomatch hm
    exact ⟨harrays.trans hsame, hlisted⟩

end Arrays

/-! ## Steps of a session -/

/-- The arrays are those of `sh₀`, and the backends of the session refer to their entries. -/
def RefersTo (sh₀ : Shared) (st : St) : Prop :=
  st.sh.arrays = sh₀.arrays ∧ ∀ mybe ∈ st.sess.mybes, sh₀.Listed mybe

section RefersTo

variable {sh₀ : Shared}

theorem listed_wiring :
    Wiring (fun sh sh' => sh'.arrays = sh.arrays) (fun sh mybe => sh.Listed mybe)
      ConnectEnv.Undisturbed where
  refl _ := rfl
  trans h h' := h'.trans h
  conn _ _ _ := rfl
  cache _ _ := rfl
  other h hlisted := hlisted.of_arrays h
  stream _ hlisted := hlisted
  forget hlisted := hlisted
  reset _ h := by
    refine ⟨backendReset_arrays h, ?_⟩
    rw [backendReset_eq h]
    exact fun _ hm => nomatch hm
  detach hlisted h := by
    have harrays := arrays_of_unpooled (backendDetach_unpooled h)
    refine ⟨harrays, ?_⟩
    rw [backendDetach_eq h]
    exact hlisted.of_arrays harrays
  create henv hlisted h := h.listed henv hlisted

/-- Nobody runs FLUSH HOSTGROUPS while the packet looks for a backend. -/
def PktEnv.Undisturbed (env : PktEnv) : Prop := env.connect1.Undisturbed ∧ env.connect2.Undisturbed

instance (env : PktEnv) : Decidable env.Undisturbed := inferInstanceAs (Decidable (_ ∧ _))

/-- Nobody runs FLUSH HOSTGROUPS during the step. -/
def SessEvent.Undisturbed : SessEvent → Prop
  | .forward _ _ env => env.Undisturbed
  | _ => True

instance (e : SessEvent) : Decidable e.Undisturbed := by
  induction e using SessEvent.casesOn <;> (unfold SessEvent.Undisturbed; infer_instance)

theorem sessStep_refersTo {st t : St} {e : SessEvent} (h : SessStep st e t) (he : e.Undisturbed)
    (hst : RefersTo sh₀ st) : RefersTo sh₀ t := by
  have hconnects : e.Connects ConnectEnv.Undisturbed := by
    cases e <;> exact he
  obtain ⟨harrays, hlisted⟩ := @Wiring.sessStep _ _ _ sh₀ st listed_wiring t e h hconnects
    ⟨hst.1, fun mybe hmem => (hst.2 mybe hmem).of_arrays hst.1⟩
  exact ⟨harrays, fun mybe hmem => (hlisted mybe hmem).of_arrays harrays.symm⟩

end RefersTo

/-! ## FLUSH HOSTGROUPS -/

/-- The first `k` arrays have been emptied and their entries freed. -/
structure ResetUpTo (k : Nat) (sh sh' : Shared) : Prop where
  glovars : sh'.glovars = sh.glovars
  next : sh'.nextMshge = sh.nextMshge
  array : ∀ i < sh.glovars.mysqlHostgroups, sh'.mysqlHostgroups[i]? = some i
  emptied : ∀ a < k, sh'.hostgroupArrays a = []
  kept : ∀ a, k ≤ a → sh'.hostgroupArrays a = sh.hostgroupArrays a
  freed : ∀ a < k, ∀ m ∈ sh.hostgroupArrays a, (sh'.mshges m).freed = true

theorem resetHostgroups_upTo (hok : sh.ArraysOk) {k : Nat} (hk : k ≤ sh.glovars.mysqlHostgroups) :
    ResetUpTo k sh ((range k).foldl resetHostgroup sh) := by
  induction k with
  | zero =>
      exact ⟨rfl, rfl, hok.array, fun _ ha => absurd ha (Nat.not_lt_zero _), fun _ _ => rfl,
        fun _ ha => absurd ha (Nat.not_lt_zero _)⟩
  | succ k ih =>
    have h := ih (Nat.le_of_succ_le hk)
    rw [range_succ, foldl_append]
    generalize (range k).foldl resetHostgroup sh = sh1 at h
    have hget : sh1.mysqlHostgroups[k]? = some k := h.array k hk
    simp only [foldl_cons, foldl_nil, resetHostgroup, hget]
    refine ⟨h.glovars, h.next, fun i hi => ?_, fun a ha => ?_, fun a ha => ?_, fun a ha m hm => ?_⟩
    · have hi' : i < sh1.mysqlHostgroups.length := (List.getElem?_eq_some_iff.1 (h.array i hi)).1
      rw [getElem?_append_left hi']
      exact h.array i hi
    · dsimp only
      split
      · rfl
      · next hne => exact h.emptied a (by omega)
    · dsimp only
      rw [if_neg (by omega)]
      exact h.kept a (by omega)
    · dsimp only
      split
      · rfl
      · next hnot =>
        by_cases hak : a = k
        · subst hak
          rw [h.kept a (Nat.le_refl a)] at hnot
          exact absurd hm hnot
        · exact h.freed a (by omega) m hm

/-- Loading servers adds entries and frees none. -/
structure LoadsEntries (sh sh' : Shared) : Prop where
  ok : sh.ArraysOk → sh'.ArraysOk
  next : sh.nextMshge ≤ sh'.nextMshge
  freed : ∀ m < sh.nextMshge, (sh'.mshges m).freed = (sh.mshges m).freed

theorem LoadsEntries.refl (sh : Shared) : LoadsEntries sh sh := ⟨id, Nat.le_refl _, fun _ _ => rfl⟩

theorem LoadsEntries.trans {sh' sh'' : Shared} (h : LoadsEntries sh sh')
    (h' : LoadsEntries sh' sh'') : LoadsEntries sh sh'' where
  ok hok := h'.ok (h.ok hok)
  next := Nat.le_trans h.next h'.next
  freed m hm := (h'.freed m (Nat.lt_of_lt_of_le hm h.next)).trans (h.freed m hm)

theorem mysqlServerEntryAddHostgroup_entries (sh : Shared) (i hg : Nat) :
    LoadsEntries sh (mysqlServerEntryAddHostgroup sh i hg) := by
  unfold mysqlServerEntryAddHostgroup
  split
  · exact .refl sh
  · next hlt =>
    split
    · exact .refl sh
    · next a ha =>
      refine ⟨fun hok => ?_, Nat.le_succ _, fun m hm => ?_⟩
      · obtain rfl : a = hg := some.inj (ha.symm.trans (hok.array hg (Nat.lt_of_not_le hlt)))
        refine ⟨fun b m hm => ?_, fun b m hm => ?_, hok.array, fun b hb => ?_⟩
        · dsimp only at hm ⊢
          split
          · rfl
          · next hne =>
            split at hm
            · rcases mem_append.1 hm with hold | hnew
              · exact hok.live a m hold
              · exact absurd (mem_singleton.1 hnew) hne
            · exact hok.live b m hm
        · dsimp only at hm ⊢
          split at hm
          · rcases mem_append.1 hm with hold | hnew
            · exact Nat.lt_succ_of_lt (hok.allocated a m hold)
            · obtain rfl := mem_singleton.1 hnew
              exact Nat.lt_succ_self _
          · exact Nat.lt_succ_of_lt (hok.allocated b m hm)
        · dsimp only at hb ⊢
          rw [if_neg (by omega)]
          exact hok.others b hb
      · dsimp only
        rw [if_neg (Nat.ne_of_lt hm)]

theorem loadServer_entries (sh : Shared) (row : ServerRow) :
    LoadsEntries sh (loadServer sh row) := by
  refine loadServer_of_parts .trans (fun sh _ => ?_) mysqlServerEntryAddHostgroup_entries sh row
  exact ⟨fun hok => ⟨hok.live, hok.allocated, hok.array, hok.others⟩, Nat.le_refl _, fun _ _ => rfl⟩

theorem loadServers_entries (rows : List ServerRow) (sh : Shared) :
    LoadsEntries sh (rows.foldl loadServer sh) := by
  induction rows generalizing sh with
  | nil => exact .refl sh
  | cons row rows ih => exact (loadServer_entries sh row).trans (ih _)

/-- FLUSH HOSTGROUPS frees the entries of all arrays, and those it puts there are not freed. -/
theorem flushServersDbToMem_entries (hok : sh.ArraysOk) (rows : List ServerRow) :
    (flushServersDbToMem sh rows).ArraysOk ∧
      ∀ a, ∀ m ∈ sh.hostgroupArrays a, ((flushServersDbToMem sh rows).mshges m).freed = true := by
  have hreset := resetHostgroups_upTo hok (Nat.le_refl _)
  unfold flushServersDbToMem
  generalize (range sh.glovars.mysqlHostgroups).foldl resetHostgroup sh = sh1 at hreset
  have hload := loadServers_entries rows sh1
  have hempty : ∀ a, sh1.hostgroupArrays a = [] := by
    intro a
    by_cases ha : a < sh.glovars.mysqlHostgroups
    · exact hreset.emptied a ha
    · rw [hreset.kept a (Nat.le_of_not_lt ha)]
      exact hok.others a (Nat.le_of_not_lt ha)
  refine ⟨hload.ok ⟨fun a m hm => ?_, fun a m hm => ?_, ?_, fun a _ => hempty a⟩, fun a m hm => ?_⟩
  · rw [hempty a] at hm
    cases hm
  · rw [hempty a] at hm
    cases hm
  · rw [hreset.glovars]
    exact hreset.array
  · have ha : a < sh.glovars.mysqlHostgroups := by
      by_contra hge
      rw [hok.others a (Nat.le_of_not_lt hge)] at hm
      cases hm
    have hlt : m < sh1.nextMshge := by
      rw [hreset.next]
      exact hok.allocated a m hm
    rw [hload.freed m hlt]
    exact hreset.freed a ha m hm

/-! ## Runs -/

/-- The arrays are in order, and all backends refer to their entries. -/
structure World.EntriesListed (w : World) : Prop where
  arrays : w.sh.ArraysOk
  backends : ∀ s ∈ w.sessions, ∀ mybe ∈ s.mybes, w.sh.Listed mybe

/-- FLUSH HOSTGROUPS runs only while no backend refers to an entry; a backend that waits for its
    connection does. -/
def FlushesUnused (w : World) : Event → Prop
  | .flushHostgroups _ => ∀ s ∈ w.sessions, ∀ mybe ∈ s.mybes, mybe.mshge = none
  | .session _ e => e.Undisturbed
  | _ => True

theorem World.EntriesListed.step {w w' : World} {e : Event}
    (h : Guarded WorldStep FlushesUnused w e w') (hw : w.EntriesListed) : w'.EntriesListed := by
  obtain ⟨hstep, hguard⟩ := h
  -- all but FLUSH HOSTGROUPS keep the arrays, and sessions that refer to them
  have hsame : w'.sh.arrays = w.sh.arrays → w'.EntriesListed := by
    intro harrays
    refine ⟨hw.arrays.of_arrays harrays, fun s hs mybe hmybe => Shared.Listed.of_arrays ?_ harrays⟩
    refine worldStep_sessions hstep (P := fun s => ∀ mybe ∈ s.mybes, w.sh.Listed mybe)
      (fun _ _ _ _ _ mybe hmem => ?_)
      (fun i s e' t he hs hst hold => ?_) hw.backends s hs mybe hmybe
    · obtain rfl := eq_of_mem_replicate hmem
      exact fun _ hm => nomatch hm
    · subst he
      exact (@sessStep_refersTo w.sh _ t e' hst hguard ⟨rfl, hold⟩).2
  cases hstep with
  | accept | delete => exact hsame rfl
  | @session i s e' t hs hst =>
    have hlisted := hw.backends s (mem_of_getElem? hs)
    exact hsame (@sessStep_refersTo w.sh _ t e' hst hguard ⟨rfl, hlisted⟩).1
  | flushHostgroups rows =>
    refine ⟨(flushServersDbToMem_entries hw.arrays rows).1, fun s hs mybe hmybe m hm => ?_⟩
    rw [hguard s hs mybe hmybe] at hm
    cases hm
  | reconfigure hwiring =>
    refine hsame ?_
    unfold Shared.arrays
    rw [hwiring.hostgroups, hwiring.hostgroupArrays, hwiring.mysqlHostgroups, hwiring.nextMshge,
      hwiring.mshges]

theorem World.EntriesListed.init (g : Glovars) (md5 : List Byte → Str)
    (scramble : List Byte → Str → List Byte) : (World.init g md5 scramble).EntriesListed where
  arrays :=
    { live := fun _ _ hm => nomatch hm
      allocated := fun _ _ hm => nomatch hm
      array := fun _ hi => getElem?_range hi
      others := fun _ _ => rfl }
  backends _ h := nomatch h

/-- In every run in which FLUSH HOSTGROUPS meets no backend that refers to an entry, no backend ever
    refers to one that is freed; and in the states of these runs FLUSH HOSTGROUPS leaves all
    references valid exactly if there are none. -/
theorem entries_in_use_valid {g : Glovars} {md5 : List Byte → Str}
    {scramble : List Byte → Str → List Byte} {w : World} {es : List Event}
    (hrun : Run (Guarded WorldStep FlushesUnused) (World.init g md5 scramble) es w) :
    (∀ s ∈ w.sessions, ∀ mybe ∈ s.mybes, mybe.Valid w.sh) ∧
      ∀ rows, (∀ s ∈ w.sessions, ∀ mybe ∈ s.mybes, mybe.Valid (flushServersDbToMem w.sh rows)) ↔
        ∀ s ∈ w.sessions, ∀ mybe ∈ s.mybes, mybe.mshge = none := by
  have hw : w.EntriesListed :=
    hrun.invariant (fun _ _ _ hstep hw => hw.step hstep) (.init g md5 scramble)
  refine ⟨fun s hs mybe hmybe => (hw.backends s hs mybe hmybe).valid hw.arrays, fun rows => ?_⟩
  constructor
  · intro hvalid s hs mybe hmybe
    cases hm : mybe.mshge with
    | none => rfl
    | some m =>
        obtain ⟨a, ha⟩ := hw.backends s hs mybe hmybe m hm
        have hfreed := (flushServersDbToMem_entries hw.arrays rows).2 a m ha
        rw [hvalid s hs mybe hmybe m hm] at hfreed
        exact absurd hfreed Bool.false_ne_true
  · intro hnone s hs mybe hmybe m hm
    rw [hnone s hs mybe hmybe] at hm
    cases hm

instance (w : World) (e : Event) : Decidable (FlushesUnused w e) := by
  cases e <;> (unfold FlushesUnused; infer_instance)

/-- For every backend of every session that refers to an entry, whether the entry is freed. -/
def World.freedInUse (w : World) : List (List Bool) :=
  w.sessions.map fun s => s.mybes.filterMap fun mybe => mybe.mshge.map fun m =>
    (w.sh.mshges m).freed

set_option maxRecDepth 4000 in
/-- The servers are loaded again after the only client has gone; then another one comes. -/
theorem entries_in_use_reloaded :
    ∃ es w, Run (Guarded WorldStep FlushesUnused) oneServer es w ∧ w.freedInUse = [[false]] ∧
      ∀ s ∈ w.sessions, ∀ mybe ∈ s.mybes, mybe.Valid w.sh := by
  obtain ⟨w, hrun, hfreed⟩ := Run.exists_guarded_exec World.step oneServer
    (.flushHostgroups [dbRow] :: loginSteps 0 ++ querySteps 0 0 "SELECT 1" ++ okSteps 0 2 ++
      [.session 0 (.close fun _ => 0), .delete 0, .flushHostgroups [dbRow]] ++ loginSteps 0 ++
      querySteps 0 0 "SELECT 2")
    (P := fun w => w.freedInUse = [[false]]) World.worldStep_of_step
    (fun w e => of_decide_eq_true (p := FlushesUnused w e)) (by decide +kernel)
  exact ⟨_, w, hrun, hfreed, (entries_in_use_valid hrun).1⟩

set_option maxRecDepth 4000 in
/-- The servers are loaded again while a client is connected to one. -/
theorem entries_in_use_freed :
    ∃ es w s mybe m, Run WorldStep oneServer es w ∧ s ∈ w.sessions ∧ mybe ∈ s.mybes ∧
      mybe.mshge = some m ∧ (w.sh.mshges m).freed = true := by
  obtain ⟨es, w, hrun, hfreed⟩ := World.exists_calls oneServer
    (.flushHostgroups [dbRow] :: login 0 ++
      [.handle 0 (.fromClient (queryPkt "SELECT 1")), .flushHostgroups [dbRow]])
    (P := fun w => w.freedInUse = [[true]]) (by decide +kernel)
  obtain ⟨s, hs, hlist⟩ := map_eq_singleton_iff.1 hfreed
  obtain ⟨mybe, hmybe, hmap⟩ : ∃ mybe ∈ s.mybes, mybe.mshge.map (fun m => (w.sh.mshges m).freed) =
    some true :=
    mem_filterMap.1 (by rw [hlist]; exact mem_singleton.2 rfl)
  obtain ⟨m, hm, hm'⟩ := map_eq_some_iff.1 hmap
  exact ⟨es, w, s, mybe, m, hrun, by rw [hs]; exact mem_singleton.2 rfl, hmybe, hm, hm'⟩

end ProxySQL
