/-
  ProxySQL.Session.Ledger

  The streams that a hostgroup entry counts.

  `connections_active` goes up when a backend gets a stream and down when a backend
  is reset.  The first is counted for the entry the backend refers to at that time,
  the second for the one it refers to later, whether or not it has a stream.  A
  ledger keeps, for each backend, the entry its stream was counted for.  Of all that
  happens to backends only a reset can get the counts wrong (`Ledger.Ok.step`), and
  it does unless it takes back what was counted (`Ledger.Ok.step_balanced_iff`).
-/
import ProxySQL.Session.EntryUse
import ProxySQL.Session.Ownership
import ProxySQL.Session.Servers

namespace ProxySQL

open Lib List Option

/-! ## The counts of the entries -/

/-- The count of entry `m`; an entry that does not exist yet counts nothing. -/
def Shared.active (sh : Shared) (m : Nat) : Int :=
  if m < sh.nextMshge then (sh.mshges m).connectionsActive else 0

/-- FLUSH HOSTGROUPS freed the entry. -/
def Shared.Gone (sh : Shared) (m : Nat) : Prop := m < sh.nextMshge ∧ (sh.mshges m).freed = true

/-- Entries are added and freed, and the counts stay. -/
structure KeepsCounts (sh sh' : Shared) : Prop where
  next : sh.nextMshge ≤ sh'.nextMshge
  active : ∀ m, sh'.active m = sh.active m
  gone : ∀ m, sh.Gone m → sh'.Gone m

namespace KeepsCounts

variable {sh sh' sh'' : Shared}

theorem refl (sh : Shared) : KeepsCounts sh sh := ⟨Nat.le_refl _, fun _ => rfl, fun _ => id⟩

theorem trans (h : KeepsCounts sh sh') (h' : KeepsCounts sh' sh'') : KeepsCounts sh sh'' :=
  ⟨Nat.le_trans h.next h'.next, fun m => (h'.active m).trans (h.active m),
    fun m hm => h'.gone m (h.gone m hm)⟩

theorem of_eq (hnext : sh'.nextMshge = sh.nextMshge) (hmshges : sh'.mshges = sh.mshges) :
    KeepsCounts sh sh' := by
  refine ⟨hnext.ge, fun m => ?_, fun m hm => ?_⟩
  · rw [Shared.active, Shared.active, hnext, hmshges]
  · rw [Shared.Gone, hnext, hmshges]
    exact hm

theorem of_unpooled (h : sh'.unpooled = sh.unpooled) : KeepsCounts sh sh' :=
  of_eq (congrArg (fun x => x.2.2.2.2.2.2) h) (congrArg (fun x => x.2.2.2.1) h)

end KeepsCounts

theorem resetHostgroup_counts (sh : Shared) (i : Nat) : KeepsCounts sh (resetHostgroup sh i) := by
  unfold resetHostgroup
  split
  · exact .refl sh
  · next a _ =>
    refine ⟨Nat.le_refl _, fun m => ?_, fun m hm => ⟨hm.1, ?_⟩⟩
    · unfold Shared.active
      dsimp only
      split
      · split
        · rfl
        · rfl
      · rfl
    · dsimp only
      split
      · rfl
      · exact hm.2

theorem mysqlServerEntryAddHostgroup_counts (sh : Shared) (i hg : Nat) :
    KeepsCounts sh (mysqlServerEntryAddHostgroup sh i hg) := by
  unfold mysqlServerEntryAddHostgroup
  split
  · exact .refl sh
  · split
    · exact .refl sh
    · refine ⟨Nat.le_succ _, fun m => ?_, fun m hm => ⟨Nat.lt_succ_of_lt hm.1, ?_⟩⟩
      · unfold Shared.active
        dsimp only
        by_cases hnew : m = sh.nextMshge
        · -- the new entry starts with 0, and was not there before
          rw [if_pos hnew, if_neg (show ¬m < sh.nextMshge by omega),
            if_pos (show m < sh.nextMshge + 1 by omega)]
        · rw [if_neg hnew]
          by_cases hold : m < sh.nextMshge
          · rw [if_pos hold, if_pos (Nat.lt_succ_of_lt hold)]
          · rw [if_neg hold, if_neg (by omega)]
      · dsimp only
        rw [if_neg (Nat.ne_of_lt hm.1)]
        exact hm.2

theorem keepsCounts_flush : FlushRule KeepsCounts where
  refl := .refl
  trans := .trans
  reset := resetHostgroup_counts
  load := loadServer_of_parts .trans (fun _ _ => .of_eq rfl rfl) mysqlServerEntryAddHostgroup_counts

theorem modifyMshge_active {sh : Shared} {m : Nat} {f : Mshge → Mshge} {d : Int} (hm : m < sh.nextMshge)
    (hf : ∀ e, (f e).connectionsActive = e.connectionsActive + d) (n : Nat) :
    (sh.modifyMshge m f).active n = sh.active n + if m = n then d else 0 := by
  unfold Shared.active Shared.modifyMshge
  dsimp only
  by_cases hn : m = n
  · subst hn
    rw [if_pos hm, if_pos rfl, if_pos hm, if_pos rfl, hf]
  · rw [if_neg (Ne.symm hn), if_neg hn, Int.add_zero]

theorem gone_iff_of_arrays {sh sh' : Shared} (h : sh'.arrays = sh.arrays) (m : Nat) : sh'.Gone m ↔
    sh.Gone m := by
  simp only [Shared.arrays, Prod.mk.injEq] at h
  obtain ⟨-, -, -, hnext, hfreed⟩ := h
  rw [Shared.Gone, Shared.Gone, hnext, congrFun hfreed m]

/-! ## A ledger of the streams -/

/-- A backend, and the entry that it referred to when it last got a stream. -/
structure TrackedBackend where
  mybe : MysqlBackend
  origin : Option Nat

namespace TrackedBackend

/-- The backend has a stream, which was created while the backend referred to entry `m`. -/
def CountsFor (x : TrackedBackend) (m : Nat) : Prop := x.mybe.serverMyds.isSome = true ∧ x.origin = some m

instance (x : TrackedBackend) (m : Nat) : Decidable (x.CountsFor m) := inferInstanceAs (Decidable (_ ∧ _))

/-- The backend after a call. -/
def next (x : TrackedBackend) (mybe : MysqlBackend) : TrackedBackend :=
  { mybe := mybe,
    origin := if x.mybe.serverMyds.isNone && mybe.serverMyds.isSome then mybe.mshge else x.origin }

end TrackedBackend

/-- The backends of all sessions of a thread, and what they share. -/
structure Ledger where
  sh : Shared
  mybes : List TrackedBackend

inductive BackendEvent where
  /-- a session gets another backend -/
  | backendNew
  /-- `mysql_session_create_backend_for_hostgroup` for backend `i` -/
  | create (i : Nat) (cred : Credentials) (env : ConnectEnv) (fill : Nat → Byte) (hostgroupId : Nat)
  | detach (i : Nat) (forceClose : Bool) (now : Nat → Nat)
  | reset (i : Nat) (forceClose : Bool) (now : Nat → Nat)
  /-- the stream of backend `i` moves on -/
  | stream (i : Nat) (myds : MysqlDataStream)
  /-- backend `i` forgets the pool it looked into last -/
  | forget (i : Nat)
  /-- backend `i`, which was reset, goes with its session -/
  | free (i : Nat)
  | flushHostgroups (rows : List ServerRow)
  /-- other code changes the shared data -/
  | other (sh : Shared)

namespace Ledger

def init (g : Glovars) (md5 : List Byte → Str) (scramble : List Byte → Str → List Byte) : Ledger :=
  { sh := Shared.init g md5 scramble, mybes := [] }

/-- Backend `i` and the shared data are replaced, unless the process stops. -/
def update (l : Ledger) (i : Nat) (f : Shared → MysqlBackend → Except Fault (Shared × MysqlBackend)) :
    Option Ledger :=
  match l.mybes[i]? with
  | none => none
  | some x =>
      match f l.sh x.mybe with
      | .error _ => none
      | .ok (sh, mybe) => some { sh := sh, mybes := l.mybes.set i (x.next mybe) }

def call (l : Ledger) : BackendEvent → Option Ledger
  | .backendNew => some { l with mybes := l.mybes ++ [{ mybe := mysqlBackendNew, origin := none }] }
  | .create i cred env fill hg => l.update i fun sh mybe => do
      let (sh, mybe, _) ← createBackendFrom cred env fill hg 10 sh mybe
      return (sh, mybe)
  | .detach i fc now => l.update i fun sh mybe => backendDetach sh mybe fc now
  | .reset i fc now => l.update i fun sh mybe => backendReset sh mybe fc now
  | .stream i myds => l.update i fun sh mybe => do
      let _ ← deref mybe.serverMyds
      return (sh, { mybe with serverMyds := some myds })
  | .forget i => l.update i fun sh mybe => return (sh, { mybe with lastMysqlConnpool := none })
  | .free i =>
      match l.mybes[i]? with
      | none => none
      | some x =>
          if x.mybe.mshge.isNone && x.mybe.serverMyds.isNone then
            some { l with mybes := l.mybes.eraseIdx i }
          else none
  | .flushHostgroups rows => some { l with sh := flushServersDbToMem l.sh rows }
  | .other _ => none

/-- The backends whose stream was created while they referred to entry `m`. -/
def streams (l : Ledger) (m : Nat) : Nat := l.mybes.countP fun x => x.CountsFor m

/-- Every entry counts the streams that were created for it. -/
def Balanced (l : Ledger) : Prop :=
  ∀ m < l.sh.nextMshge, (l.sh.mshges m).freed = false → (l.sh.mshges m).connectionsActive = l.streams m

/-- A reset takes back, of what the entries count, just what the backend counts for. -/
def ResetsMatch (l : Ledger) : BackendEvent → Prop
  | .reset i _ _ => ∀ x, l.mybes[i]? = some x → ∀ m < l.sh.nextMshge, (l.sh.mshges m).freed = false →
      (x.mybe.mshge = some m ↔ x.CountsFor m)
  | _ => True

instance (l : Ledger) (e : BackendEvent) : Decidable (l.ResetsMatch e) := by
  cases e <;> (unfold Ledger.ResetsMatch; infer_instance)

end Ledger

inductive LedgerStep : Ledger → BackendEvent → Ledger → Prop where
  | call {l l' : Ledger} {e : BackendEvent} : l.call e = some l' → LedgerStep l e l'
  | other {l : Ledger} {sh : Shared} : Undisturbed l.sh sh → LedgerStep l (.other sh) { l with sh := sh }

variable {e : BackendEvent} {fill : Nat → Byte}
  {f : Shared → MysqlBackend → Except Fault (Shared × MysqlBackend)} {i : Nat}

theorem LedgerStep.deterministic {l l₁ l₂ : Ledger} (h₁ : LedgerStep l e l₁)
    (h₂ : LedgerStep l e l₂) : l₁ = l₂ := by
  cases h₁ with
  | call h₁ =>
    cases h₂ with
    | call h₂ => exact some.inj (h₁.symm.trans h₂)
    | other _ => cases h₁
  | other _ =>
    cases h₂ with
    | call h₂ => cases h₂
    | other _ => rfl

/-! ## What a call does to one backend -/

/-- What a backend adds to the count of entry `m`. -/
def TrackedBackend.weight (x : TrackedBackend) (m : Nat) : Int := if x.CountsFor m then 1 else 0

/-- A backend is replaced, and the counts go with it up to `drift`. -/
structure Exchange (drift : Nat → Int) (sh : Shared) (x : TrackedBackend) (sh' : Shared)
    (x' : TrackedBackend) : Prop where
  entries : sh'.EntriesOk
  next : sh.nextMshge ≤ sh'.nextMshge
  gone : ∀ m, sh.Gone m → sh'.Gone m
  mshge : ∀ m, x'.mybe.mshge = some m → m < sh'.nextMshge
  active : ∀ m, sh'.active m = sh.active m + x'.weight m - x.weight m + drift m
  back : ∀ m, drift m ≠ 0 → sh'.Gone m → sh.Gone m

/-- What the search for a server changes. -/
structure SearchCounted (sh : Shared) (mybe : MysqlBackend) (sh' : Shared) (mybe' : MysqlBackend) :
    Prop where
  entries : sh'.EntriesOk
  next : sh.nextMshge ≤ sh'.nextMshge
  gone : ∀ m, sh.Gone m → sh'.Gone m
  mshge : ∀ m, mybe'.mshge = some m → m < sh'.nextMshge
  stream : mybe.serverMyds.isSome = true → mybe'.serverMyds.isSome = true
  active : ∀ m, sh'.active m = sh.active m +
    if mybe.serverMyds = none ∧ mybe'.serverMyds.isSome = true ∧ mybe'.mshge = some m then 1 else 0

section Search

variable {sh sh1 sh' : Shared} {mybe mybe1 mybe' : MysqlBackend}

theorem SearchCounted.after (h : SearchCounted sh1 mybe1 sh' mybe') (hcounts : KeepsCounts sh sh1)
    (hmyds : mybe1.serverMyds = mybe.serverMyds) : SearchCounted sh mybe sh' mybe' where
  entries := h.entries
  next := Nat.le_trans hcounts.next h.next
  gone m hm := h.gone m (hcounts.gone m hm)
  mshge := h.mshge
  stream := hmyds ▸ h.stream
  active m := by
    rw [h.active m, hcounts.active m, hmyds]

theorem SearchCounted.without (hok : sh.EntriesOk) (hmshge : ∀ m, mybe'.mshge = some m → m < sh.nextMshge)
    (hmyds : mybe'.serverMyds = mybe.serverMyds) : SearchCounted sh mybe sh mybe' where
  entries := hok
  next := Nat.le_refl _
  gone _ := id
  mshge := hmshge
  stream := hmyds ▸ id
  active m := by
    rw [if_neg, Int.add_zero]
    rintro ⟨hnone, hsome, -⟩
    rw [hmyds, hnone] at hsome
    cases hsome

theorem attachMyds_searchCounted {m : Nat} {fd : Int} (hok : sh.EntriesOk)
    (hm : m < sh.nextMshge) (hmshge : mybe.mshge = some m)
    (h : attachMyds sh mybe fill m fd = (sh', mybe')) : SearchCounted sh mybe sh' mybe' := by
  unfold attachMyds at h
  cases hmyds : mybe.serverMyds with
  | none =>
    rw [hmyds] at h
    cases h
    refine ⟨?_, Nat.le_refl _, fun n hn => ?_, fun n hn => ?_, fun _ => rfl, fun n => ?_⟩
    · refine hok.of_kept ⟨rfl, rfl, rfl, rfl, rfl, rfl, fun n => ?_⟩
      by_cases hn : n = m <;> simp [Shared.modifyMshge, hn]
    · refine (gone_iff_of_arrays (modifyMshge_arrays sh m ?_) n).2 hn
      exact fun _ => rfl
    · obtain rfl := some.inj (hmshge.symm.trans hn)
      exact hm
    · rw [modifyMshge_active (d := 1) hm (fun _ => rfl) n]
      simp [hmyds, hmshge]
  | some myds =>
    rw [hmyds] at h
    cases h
    refine ⟨hok, Nat.le_refl _, fun _ => id, fun n hn => ?_, fun _ => rfl, fun n => ?_⟩
    · obtain rfl := some.inj (hmshge.symm.trans hn)
      exact hm
    · rw [if_neg (fun hnone => some_ne_none _ (hmyds.symm.trans hnone.1)), Int.add_zero]

theorem Creates.searchCounted {cred : Credentials} {env : ConnectEnv} {hg n : Nat} {rc : CreateResult}
    (h : Creates cred env fill hg n sh mybe sh' mybe' rc) (hok : sh.EntriesOk)
    (hmshge : ∀ m, mybe.mshge = some m → m < sh.nextMshge) : SearchCounted sh mybe sh' mybe' := by
  -- what a look into the pools and a FLUSH HOSTGROUPS meanwhile keep
  have hattempt : ∀ {sh sh1 : Shared} {ref ref' mycpe : Option Nat} {t : Target} {connect : Option Int}
      (k : Nat), sh.EntriesOk → mysqlConnpoolGetConnection sh ref t connect = .ok (sh1, ref', mycpe) →
      KeepsCounts sh (env.flushed k sh1) ∧ (env.flushed k sh1).EntriesOk := by
    intro sh sh1 ref ref' mycpe t connect k hok hget
    refine ⟨(KeepsCounts.of_unpooled (getConnection_unpooled hget)).trans
      (keepsCounts_flush.flushed env k sh1), ?_⟩
    exact (env.flushed_loads k sh1).entries (hok.of_kept (mysqlConnpoolGetConnection_got hget).servers)
  induction h with
  | exhausted => exact .without hok hmshge rfl
  | noServer => exact .without hok (fun _ hm => absurd hm.symm (some_ne_none _)) rfl
  | kept hentry _ hat =>
    have hm := chooseEntry_lt hok hmshge hentry
    exact (attachMyds_searchCounted hok hm rfl hat).after (.refl _) rfl
  | taken hentry _ _ hget hat =>
    obtain ⟨hcounts, hok1⟩ := hattempt _ hok hget
    have hm := Nat.lt_of_lt_of_le (chooseEntry_lt hok hmshge hentry) hcounts.next
    exact (attachMyds_searchCounted hok1 hm rfl hat).after hcounts rfl
  | failed hentry _ _ hget =>
    obtain ⟨hcounts, hok1⟩ := hattempt 9 hok hget
    refine SearchCounted.after (SearchCounted.without hok1 (fun m hm => ?_) rfl) hcounts rfl
    cases hm
    exact Nat.lt_of_lt_of_le (chooseEntry_lt hok hmshge hentry) hcounts.next
  | retry _ _ _ hget _ ih =>
    obtain ⟨hcounts, hok1⟩ := hattempt _ hok hget
    exact (ih hok1 fun _ hm => absurd hm.symm (some_ne_none _)).after hcounts rfl

end Search

section Exchanges

variable {sh sh' : Shared} {x : TrackedBackend} {mybe' : MysqlBackend}

/-- A stream that was created counts for the entry that the backend refers to then. -/
theorem SearchCounted.exchange (h : SearchCounted sh x.mybe sh' mybe') :
    Exchange (fun _ => 0) sh x sh' (x.next mybe') where
  entries := h.entries
  next := h.next
  gone := h.gone
  mshge := h.mshge
  active m := by
    rw [h.active m]
    cases hmyds : x.mybe.serverMyds with
    | none =>
      by_cases hmyds' : mybe'.serverMyds.isSome = true
      · simp [TrackedBackend.weight, TrackedBackend.CountsFor, TrackedBackend.next, hmyds, hmyds']
      · simp [TrackedBackend.weight, TrackedBackend.CountsFor, TrackedBackend.next, hmyds, hmyds']
    | some myds =>
      have hmyds' : mybe'.serverMyds.isSome = true := h.stream (by rw [hmyds]; rfl)
      simp [TrackedBackend.weight, TrackedBackend.CountsFor, TrackedBackend.next, hmyds, hmyds']
  back _ hne := absurd rfl hne

theorem Exchange.of_same (hok : sh.EntriesOk) (hmshge : ∀ m, x.mybe.mshge = some m → m < sh.nextMshge)
    (hkept : ServersKept sh sh') (hcounts : KeepsCounts sh sh') (hentry : mybe'.mshge = x.mybe.mshge)
    (hmyds : mybe'.serverMyds.isSome = x.mybe.serverMyds.isSome) :
    Exchange (fun _ => 0) sh x sh' (x.next mybe') where
  entries := hok.of_kept hkept
  next := hcounts.next
  gone := hcounts.gone
  mshge m hm := Nat.lt_of_lt_of_le (hmshge m (hentry ▸ hm)) hcounts.next
  active m := by
    have hsame : (x.next mybe').weight m = x.weight m := by
      cases hx : x.mybe.serverMyds with
      | none => simp [TrackedBackend.weight, TrackedBackend.CountsFor, TrackedBackend.next, hmyds, hx]
      | some myds => simp [TrackedBackend.weight, TrackedBackend.CountsFor, TrackedBackend.next, hmyds, hx]
    rw [hcounts.active m, hsame]
    omega
  back _ hne := absurd rfl hne

/-- What a reset gets wrong about entry `m`. -/
def TrackedBackend.mismatch (x : TrackedBackend) (m : Nat) : Int :=
  x.weight m - if x.mybe.mshge = some m then 1 else 0

theorem backendReset_exchange {fc : Bool} {now : Nat → Nat} (hok : sh.EntriesOk)
    (hmshge : ∀ m, x.mybe.mshge = some m → m < sh.nextMshge)
    (h : backendReset sh x.mybe fc now = .ok (sh', mybe')) :
    Exchange x.mismatch sh x sh' (x.next mybe') := by
  have hreset : mybe' = mysqlBackendNew := backendReset_eq h
  have hcounts : KeepsCounts (dropActive sh x.mybe.mshge) sh' := .of_unpooled (resetServerMycpe_unpooled h)
  have hactive : ∀ m, (dropActive sh x.mybe.mshge).active m = sh.active m - if x.mybe.mshge = some m then 1
    else 0 := by
    unfold dropActive
    cases hm : x.mybe.mshge with
    | none => exact fun m => by simp
    | some m =>
      have hlt := hmshge m hm
      obtain ⟨i, hi, -⟩ := hok.server m hlt
      intro n
      dsimp only
      rw [if_neg (by rw [hi]; exact some_ne_none i), modifyMshge_active (d := -1) hlt (fun _ => rfl) n]
      by_cases hn : m = n
      · subst hn
        rw [if_pos rfl, if_pos rfl, Int.sub_eq_add_neg]
      · rw [if_neg hn, if_neg (fun heq => hn (some.inj heq)), Int.sub_zero, Int.add_zero]
  have hservers := (backendReset_gaveBack h).servers
  have hgone := gone_iff_of_arrays (backendReset_arrays h)
  refine ⟨hok.of_kept hservers, hservers.nextMshge.ge, fun m => (hgone m).2, fun m hm => ?_, fun m => ?_,
    fun m _ => (hgone m).1⟩
  · rw [hreset] at hm
    cases hm
  · have hweight : (x.next mybe').weight m = 0 := by
      rw [hreset]
      exact if_neg fun hcount => Bool.false_ne_true hcount.1
    rw [hcounts.active m, hactive m, hweight, TrackedBackend.mismatch]
    omega

end Exchanges

/-! ## Steps -/

namespace Ledger

/-- The entries lead to servers, and those that the backends refer to exist. -/
structure Ok (l : Ledger) : Prop where
  entries : l.sh.EntriesOk
  mshge : ∀ x ∈ l.mybes, ∀ m, x.mybe.mshge = some m → m < l.sh.nextMshge
  origin : ∀ x ∈ l.mybes, ∀ m, x.origin = some m → m < l.sh.nextMshge

theorem Ok.init (g : Glovars) (md5 : List Byte → Str) (scramble : List Byte → Str → List Byte) :
    (Ledger.init g md5 scramble).Ok :=
  ⟨.init g md5 scramble, fun _ hx => absurd hx not_mem_nil, fun _ hx => absurd hx not_mem_nil⟩

/-- By how much entry `m` counts more than the streams. -/
def surplus (l : Ledger) (m : Nat) : Int := l.sh.active m - l.streams m

/-- What a step gets wrong about entry `m`. -/
def drift (l : Ledger) : BackendEvent → Nat → Int
  | .reset i _ _ => fun m =>
      match l.mybes[i]? with
      | none => 0
      | some x => x.mismatch m
  | _ => fun _ => 0

/-- The invariant and the surplus after something that gets the counts wrong by `drift`. -/
structure Counted (drift : Nat → Int) (l l' : Ledger) : Prop where
  ok : l'.Ok
  gone : ∀ m, l.sh.Gone m → l'.sh.Gone m
  surplus : ∀ m, l'.surplus m = l.surplus m + drift m
  back : ∀ m, drift m ≠ 0 → l'.sh.Gone m → l.sh.Gone m

variable {l l' : Ledger}

theorem update_eq_some
    (h : l.update i f = some l') : ∃ x sh' mybe', l.mybes[i]? = some x ∧ f l.sh x.mybe = .ok (sh', mybe') ∧
      l' = { sh := sh', mybes := l.mybes.set i (x.next mybe') } := by
  unfold update at h
  split at h
  · cases h
  · next x hx =>
    split at h
    · cases h
    · next sh' mybe' hok => exact ⟨x, sh', mybe', hx, hok, (some.inj h).symm⟩

theorem countP_set_weight {xs : List TrackedBackend} {x : TrackedBackend} (hx : xs[i]? = some x)
    (y : TrackedBackend) (m : Nat) :
    (((xs.set i y).countP fun x => x.CountsFor m : Nat) : Int) =
      (xs.countP fun x => x.CountsFor m : Nat) + y.weight m - x.weight m := by
  obtain ⟨hlt, rfl⟩ := List.getElem?_eq_some_iff.1 hx
  have hcounted := boole_getElem_le_countP (p := fun x : TrackedBackend => decide (x.CountsFor m)) hlt
  rw [countP_set hlt, TrackedBackend.weight, TrackedBackend.weight]
  simp only [decide_eq_true_eq] at hcounted ⊢
  by_cases hold : (xs[i]).CountsFor m
  · simp only [if_pos hold] at hcounted ⊢
    split <;> omega
  · simp only [if_neg hold]
    split <;> omega

theorem Ok.update {d : TrackedBackend → Nat → Int} (hok : l.Ok) (h : l.update i f = some l')
    (hf : ∀ x sh' mybe', x ∈ l.mybes → f l.sh x.mybe = .ok (sh', mybe') →
      Exchange (d x) l.sh x sh' (x.next mybe')) :
    ∃ x, l.mybes[i]? = some x ∧ Counted (d x) l l' := by
  obtain ⟨x, sh', mybe', hx, hcall, rfl⟩ := update_eq_some h
  have hmem := mem_of_getElem? hx
  have hexchange := hf x sh' mybe' hmem hcall
  refine ⟨x, hx, ⟨hexchange.entries, fun y hy m hm => ?_, fun y hy m hm => ?_⟩, hexchange.gone, fun m => ?_,
    hexchange.back⟩
  · rcases mem_or_eq_of_mem_set hy with hold | rfl
    · exact Nat.lt_of_lt_of_le (hok.mshge y hold m hm) hexchange.next
    · exact hexchange.mshge m hm
  · rcases mem_or_eq_of_mem_set hy with hold | rfl
    · exact Nat.lt_of_lt_of_le (hok.origin y hold m hm) hexchange.next
    · rw [TrackedBackend.next] at hm
      split at hm
      · exact hexchange.mshge m hm
      · exact Nat.lt_of_lt_of_le (hok.origin x hmem m hm) hexchange.next
  · have hstreams : (({ sh := sh', mybes := l.mybes.set i (x.next mybe') } : Ledger).streams m : Int) =
        l.streams m + (x.next mybe').weight m - x.weight m := countP_set_weight hx (x.next mybe') m
    rw [Ledger.surplus, Ledger.surplus, hexchange.active m, hstreams]
    omega

theorem Ok.shared {sh' : Shared} (hok : l.Ok) (hentries : sh'.EntriesOk) (hcounts : KeepsCounts l.sh sh') :
    Counted (fun _ => 0) l { l with sh := sh' } where
  ok := ⟨hentries, fun x hx m hm => Nat.lt_of_lt_of_le (hok.mshge x hx m hm) hcounts.next,
    fun x hx m hm => Nat.lt_of_lt_of_le (hok.origin x hx m hm) hcounts.next⟩
  gone := hcounts.gone
  surplus m := by
    show sh'.active m - _ = _
    rw [hcounts.active m, Int.add_zero]
    rfl
  back _ hne := absurd rfl hne

/-- Only resets get the counts wrong. -/
theorem Ok.call (hok : l.Ok) (h : l.call e = some l') : Counted (l.drift e) l l' := by
  cases e with
  | backendNew =>
    cases h
    refine ⟨⟨hok.entries, fun x hx m hm => ?_, fun x hx m hm => ?_⟩, fun _ => id, fun m => ?_,
      fun _ _ => id⟩
    · rcases mem_append.1 hx with hold | hnew
      · exact hok.mshge x hold m hm
      · obtain rfl := mem_singleton.1 hnew
        cases hm
    · rcases mem_append.1 hx with hold | hnew
      · exact hok.origin x hold m hm
      · obtain rfl := mem_singleton.1 hnew
        cases hm
    · simp [Ledger.surplus, streams, drift, TrackedBackend.CountsFor]
  | create i cred env fill hg =>
    rw [Ledger.call] at h
    obtain ⟨x, -, hcounted⟩ := hok.update (d := fun _ _ => 0) h fun x sh' mybe' hx hcall => by
      obtain ⟨⟨sh1, mybe1, rc⟩, hcreate, hret⟩ := except_bind_eq_ok.1 hcall
      cases hret
      exact ((createBackendFrom_creates hcreate).searchCounted hok.entries (hok.mshge x hx)).exchange
    exact hcounted
  | detach i fc now =>
    rw [Ledger.call] at h
    obtain ⟨x, -, hcounted⟩ := hok.update (d := fun _ _ => 0) h fun x sh' mybe' hx hcall => by
      refine .of_same hok.entries (hok.mshge x hx) (backendDetach_gaveBack hcall).servers
        (.of_unpooled (backendDetach_unpooled hcall)) ?_ ?_
      · rw [backendDetach_eq hcall]
      · rw [backendDetach_eq hcall]
    exact hcounted
  | reset i fc now =>
    rw [Ledger.call] at h
    obtain ⟨x, hx, hcounted⟩ := hok.update (d := TrackedBackend.mismatch) h fun x sh' mybe' hx hcall =>
      backendReset_exchange hok.entries (hok.mshge x hx) hcall
    have hdrift : l.drift (.reset i fc now) = x.mismatch := by
      rw [drift, hx]
    rw [hdrift]
    exact hcounted
  | stream i myds =>
    rw [Ledger.call] at h
    obtain ⟨x, -, hcounted⟩ := hok.update (d := fun _ _ => 0) h fun x sh' mybe' hx hcall => by
      obtain ⟨myds', hmyds', hret⟩ := except_bind_eq_ok.1 hcall
      cases hret
      refine .of_same hok.entries (hok.mshge x hx) (.refl _) (.refl _) rfl ?_
      rw [deref_eq_ok.1 hmyds']
      rfl
    exact hcounted
  | forget i =>
    rw [Ledger.call] at h
    obtain ⟨x, -, hcounted⟩ := hok.update (d := fun _ _ => 0) h fun x sh' mybe' hx hcall => by
      cases hcall
      exact .of_same hok.entries (hok.mshge x hx) (.refl _) (.refl _) rfl rfl
    exact hcounted
  | free i =>
    rw [Ledger.call] at h
    split at h
    · cases h
    · next x hx =>
      split at h
      · next hreset =>
        cases h
        refine ⟨⟨hok.entries, fun y hy => hok.mshge y (mem_of_mem_eraseIdx hy),
          fun y hy => hok.origin y (mem_of_mem_eraseIdx hy)⟩, fun _ => id, fun m => ?_, fun _ _ => id⟩
        have hnot : ¬x.CountsFor m := by
          rintro ⟨hsome, -⟩
          rw [Bool.and_eq_true, isNone_iff_eq_none, isNone_iff_eq_none] at hreset
          rw [hreset.2] at hsome
          exact Bool.false_ne_true hsome
        have hperm : l.mybes.Perm (x :: l.mybes.eraseIdx i) := by
          obtain ⟨hlt, rfl⟩ := List.getElem?_eq_some_iff.1 hx
          exact (getElem_cons_eraseIdx_perm hlt).symm
        have hstreams : l.streams m = ({ l with mybes := l.mybes.eraseIdx i } : Ledger).streams m := by
          rw [streams, hperm.countP_eq, countP_cons_of_neg (by simpa using hnot)]
          rfl
        rw [Ledger.surplus, Ledger.surplus, hstreams]
        exact (Int.add_zero _).symm
      · cases h
  | flushHostgroups rows =>
    cases h
    exact hok.shared ((flushServersDbToMem_loads l.sh rows).entries hok.entries)
      (keepsCounts_flush.flush l.sh rows)
  | other sh => cases h

theorem Ok.step (hok : l.Ok) (h : LedgerStep l e l') : Counted (l.drift e) l l' := by
  cases h with
  | call h => exact hok.call h
  | @other sh hsame =>
    refine hok.shared ⟨?_, ?_, ?_⟩ (.of_eq hsame.nextMshge hsame.mshges)
    · rw [hsame.hostgroupArrays, hsame.nextMshge]
      exact hok.entries.allocated
    · rw [hsame.nextMshge, hsame.mshges, hsame.servers]
      exact hok.entries.server
    · rw [hsame.hostgroups, hsame.mysqlHostgroups]
      exact hok.entries.hostgroups

theorem Ok.balanced_iff (hok : l.Ok) : l.Balanced ↔ ∀ m, ¬l.sh.Gone m → l.surplus m = 0 := by
  constructor
  · intro h m hm
    rw [surplus, Shared.active]
    by_cases hlt : m < l.sh.nextMshge
    · rw [if_pos hlt, h m hlt (Bool.eq_false_iff.2 fun hfreed => hm ⟨hlt, hfreed⟩)]
      omega
    · -- nothing can have been created for an entry that does not exist
      have hnone : l.streams m = 0 :=
        countP_eq_zero.2 fun x hx hcount => hlt (hok.origin x hx m (of_decide_eq_true hcount).2)
      rw [if_neg hlt, hnone]
      rfl
  · intro h m hlt hfreed
    have hzero := h m fun hgone => Bool.false_ne_true (hfreed.symm.trans hgone.2)
    rw [surplus, Shared.active, if_pos hlt] at hzero
    omega

/-- A reset gets nothing wrong about an entry exactly if it takes back what was counted for it. -/
theorem mismatch_eq_zero_iff (x : TrackedBackend) (m : Nat) :
    x.mismatch m = 0 ↔ (x.mybe.mshge = some m ↔ x.CountsFor m) := by
  unfold TrackedBackend.mismatch TrackedBackend.weight
  by_cases hcount : x.CountsFor m <;> by_cases hmshge : x.mybe.mshge = some m <;> simp [hcount, hmshge]

theorem Ok.drift_eq_zero_iff (hok : l.Ok) (e : BackendEvent) :
    (∀ m, ¬l.sh.Gone m → l.drift e m = 0) ↔ l.ResetsMatch e := by
  cases e with
  | reset i fc now =>
    constructor
    · intro h x hx m hlt hfreed
      have hzero := h m fun hgone => Bool.false_ne_true (hfreed.symm.trans hgone.2)
      rw [drift, hx] at hzero
      exact (mismatch_eq_zero_iff x m).1 hzero
    · intro h m hm
      rw [drift]
      cases hx : l.mybes[i]? with
      | none => rfl
      | some x =>
        have hmem := mem_of_getElem? hx
        refine (mismatch_eq_zero_iff x m).2 ?_
        by_cases hlt : m < l.sh.nextMshge
        · exact h x hx m hlt (Bool.eq_false_iff.2 fun hfreed => hm ⟨hlt, hfreed⟩)
        · exact ⟨fun hmshge => absurd (hok.mshge x hmem m hmshge) hlt,
            fun hcount => absurd (hok.origin x hmem m hcount.2) hlt⟩
  | backendNew | create | detach | stream | forget | free | flushHostgroups | other =>
    exact ⟨fun _ => trivial, fun _ _ _ => rfl⟩

/-- A step from balanced counts leads to balanced counts exactly if it is not a reset that takes back
    something else than was counted. -/
theorem Ok.step_balanced_iff (hok : l.Ok) (h : LedgerStep l e l') (hl : l.Balanced) :
    l'.Balanced ↔ l.ResetsMatch e := by
  have hcounted := hok.step h
  rw [hok.balanced_iff] at hl
  rw [hcounted.ok.balanced_iff, ← hok.drift_eq_zero_iff e]
  constructor
  · intro h' m hm
    by_contra hne
    have hzero := h' m fun hgone => hm (hcounted.back m hne hgone)
    rw [hcounted.surplus m, hl m hm, Int.zero_add] at hzero
    exact hne hzero
  · intro hdrift m hm
    have hold : ¬l.sh.Gone m := fun hgone => hm (hcounted.gone m hgone)
    rw [hcounted.surplus m, hl m hold, hdrift m hold]
    rfl

end Ledger

end ProxySQL
