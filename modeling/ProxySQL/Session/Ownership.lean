/-
  ProxySQL.Session.Ownership

  Where the connections are.

  A connection moves between the `server_mycpe` of a backend and the free list of
  a pool until it is closed.  The functions that move it conserve the number of
  places it is in (`Conserves`), which is one from the moment it was opened: any
  number of backends that call them in any order never share a connection, never
  close one twice, and lose none.
-/
import ProxySQL.Lib.PtrArray
import ProxySQL.Session.Steps
import ProxySQL.Session.BackendSpec

namespace ProxySQL

open Lib List

variable {sh sh' : Shared} {held : List Nat} {i : Nat}

theorem Accounted.perm {held' : List Nat} (h : Accounted sh held) (hperm : held.Perm held') :
    Accounted sh held' := by
  intro c
  rw [← hperm.count_eq c]
  exact h c

/-- One of several holders does something that conserves the connections. -/
theorem Accounted.set_append {α : Type} {held : α → List Nat} {xs : List α} {x y : α} {rest : List Nat}
    (h : Accounted sh (xs.flatMap held ++ rest)) (hx : xs[i]? = some x)
    (hstep : Conserves sh sh' (held x) (held y)) : Accounted sh' ((xs.set i y).flatMap held ++ rest) := by
  have hbefore := h.perm ((flatMap_perm_eraseIdx held hx).append_right rest)
  rw [append_assoc] at hbefore
  have hafter := hstep _ hbefore
  rw [← append_assoc] at hafter
  exact hafter.perm ((flatMap_set_perm held hx y).symm.append_right rest)

theorem Accounted.set {α : Type} {held : α → List Nat} {xs : List α} {x y : α}
    (h : Accounted sh (xs.flatMap held)) (hx : xs[i]? = some x)
    (hstep : Conserves sh sh' (held x) (held y)) : Accounted sh' ((xs.set i y).flatMap held) := by
  rw [← append_nil (xs.flatMap held)] at h
  rw [← append_nil ((xs.set i y).flatMap held)]
  exact h.set_append hx hstep

theorem Accounted.of_mem {c : Nat} (h : Accounted sh held) (hc : c ∈ held) : c < sh.nextConn ∧
    c ∉ sh.free := by
  have hheld : 0 < held.count c := count_pos_iff.2 hc
  have hcount := h c
  rw [Shared.places] at hcount
  by_cases hlt : c < sh.nextConn
  · rw [if_pos hlt] at hcount
    exact ⟨hlt, count_eq_zero.1 (by omega)⟩
  · rw [if_neg hlt] at hcount
    omega

theorem Accounted.lt_of_free {c : Nat} (h : Accounted sh held) (hc : c ∈ sh.free) : c < sh.nextConn := by
  have hfree : 0 < sh.free.count c := count_pos_iff.2 hc
  have hcount := h c
  rw [Shared.places] at hcount
  by_cases hlt : c < sh.nextConn
  · exact hlt
  · rw [if_neg hlt] at hcount
    omega

/-! ## Runs of the functions that move connections -/

/-- The backends of all sessions of a thread, and what they share. -/
structure Backends where
  sh : Shared
  mybes : List MysqlBackend

inductive PoolCall where
  /-- a session gets another backend -/
  | backendNew
  /-- `mysql_session_create_backend_for_hostgroup` for backend `i` -/
  | create (i : Nat) (cred : Credentials) (env : ConnectEnv) (fill : Nat → Byte) (hostgroupId : Nat)
  | detach (i : Nat) (forceClose : Bool) (now : Nat → Nat)
  | reset (i : Nat) (forceClose : Bool) (now : Nat → Nat)
  /-- backend `i`, which has no connection, goes with its session -/
  | free (i : Nat)
  | flushHostgroups (rows : List ServerRow)
  /-- other code changes the shared data -/
  | other (sh : Shared)

/-- Backend `i` and the shared data are replaced, unless the process stops. -/
def Backends.update (b : Backends) (i : Nat)
    (f : Shared → MysqlBackend → Except Fault (Shared × MysqlBackend)) : Option Backends :=
  match b.mybes[i]? with
  | none => none
  | some mybe =>
      match f b.sh mybe with
      | .error _ => none
      | .ok (sh, mybe) => some { sh := sh, mybes := b.mybes.set i mybe }

def Backends.call (b : Backends) : PoolCall → Option Backends
  | .backendNew => some { b with mybes := b.mybes ++ [mysqlBackendNew] }
  | .create i cred env fill hg => b.update i fun sh mybe => do
      let (sh, mybe, _) ← createBackendFrom cred env fill hg 10 sh mybe
      return (sh, mybe)
  | .detach i fc now => b.update i fun sh mybe => backendDetach sh mybe fc now
  | .reset i fc now => b.update i fun sh mybe => backendReset sh mybe fc now
  | .free i =>
      match b.mybes[i]? with
      | none => none
      | some mybe =>
          if mybe.serverMycpe = none then some { b with mybes := b.mybes.eraseIdx i } else none
  | .flushHostgroups rows => some { b with sh := flushServersDbToMem b.sh rows }
  | .other _ => none

/-- What code other than the functions above leaves alone: the pools, the servers, and of the
    connections whether they are open and what to. -/
structure Undisturbed (sh sh' : Shared) : Prop extends SameEntries sh sh' where
  nextConn : sh'.nextConn = sh.nextConn
  thrMyconnpool : sh'.thrMyconnpool = sh.thrMyconnpool
  gloconnpool : sh'.gloconnpool = sh.gloconnpool
  closes : ∀ c, (sh'.conns c).closes = (sh.conns c).closes
  target : ∀ c, (sh'.conns c).target = (sh.conns c).target

theorem Undisturbed.free (h : Undisturbed sh sh') : sh'.free = sh.free := by
  rw [Shared.free, Shared.free, h.thrMyconnpool, h.gloconnpool]

inductive PoolStep : Backends → PoolCall → Backends → Prop where
  | call {b b' : Backends} {e : PoolCall} : b.call e = some b' → PoolStep b e b'
  | other {b : Backends} {sh : Shared} : Undisturbed b.sh sh → PoolStep b (.other sh) { b with sh := sh }

def Backends.Accounted (b : Backends) : Prop := ProxySQL.Accounted b.sh (b.mybes.flatMap MysqlBackend.held)

variable {b b' : Backends}

theorem Backends.Accounted.update {f : Shared → MysqlBackend → Except Fault (Shared × MysqlBackend)}
    (h : b.Accounted) (hcall : b.update i f = some b')
    (hf : ∀ mybe sh' mybe', f b.sh mybe = .ok (sh', mybe') → Conserves b.sh sh' mybe.held mybe'.held) :
    b'.Accounted := by
  unfold Backends.update at hcall
  split at hcall
  · cases hcall
  · next mybe hmybe =>
    split at hcall
    · cases hcall
    · next sh' mybe' hok =>
      cases hcall
      exact Accounted.set h hmybe (hf mybe sh' mybe' hok)

theorem Backends.Accounted.call {e : PoolCall} (h : b.Accounted) (hcall : b.call e = some b') :
    b'.Accounted := by
  cases e with
  | backendNew =>
    cases hcall
    have hheld : (b.mybes ++ [mysqlBackendNew]).flatMap MysqlBackend.held =
      b.mybes.flatMap MysqlBackend.held := by
      simp [MysqlBackend.held, mysqlBackendNew]
    rw [Backends.Accounted, hheld]
    exact h
  | create i cred env fill hg =>
    rw [Backends.call] at hcall
    refine h.update hcall fun mybe sh' mybe' hok => ?_
    obtain ⟨⟨sh1, mybe1, rc⟩, hcreate, hok⟩ := except_bind_eq_ok.1 hok
    cases hok
    exact (createBackendFrom_connected hcreate).conserves
  | detach i fc now =>
    rw [Backends.call] at hcall
    exact h.update hcall fun mybe sh' mybe' hok => (backendDetach_gaveBack hok).conserves
  | reset i fc now =>
    rw [Backends.call] at hcall
    exact h.update hcall fun mybe sh' mybe' hok => (backendReset_gaveBack hok).conserves
  | free i =>
    rw [Backends.call] at hcall
    split at hcall
    · cases hcall
    · next mybe hmybe =>
      split at hcall
      · next hnone =>
        cases hcall
        have hbefore := ProxySQL.Accounted.perm h (flatMap_perm_eraseIdx MysqlBackend.held hmybe)
        rwa [MysqlBackend.held, hnone] at hbefore
      · cases hcall
  | flushHostgroups rows =>
    cases hcall
    have hsame := (flushServersDbToMem_onlyServers b.sh rows).toSamePools
    intro c
    rw [hsame.nextConn, ← h c, Shared.places, Shared.places, hsame.free, hsame.conns]
  | other sh => cases hcall

theorem Backends.Accounted.step {e : PoolCall} (h : b.Accounted) (hstep : PoolStep b e b') :
    b'.Accounted := by
  cases hstep with
  | call hcall => exact h.call hcall
  | other hsame =>
    intro c
    rw [hsame.nextConn, ← h c, Shared.places, Shared.places, hsame.free, hsame.closes c]

theorem accounted_init (g : Glovars) (md5 : List Byte → Str) (scramble : List Byte → Str → List Byte) :
    Accounted (Shared.init g md5 scramble) [] := fun _ => rfl

/-! ## Exactly one place -/

/-- The backends whose `server_mycpe` is `c`. -/
def Backends.holders (b : Backends) (c : Nat) : Nat := b.mybes.countP fun mybe => mybe.serverMycpe = some c

theorem Backends.count_held (b : Backends) (c : Nat) :
    (b.mybes.flatMap MysqlBackend.held).count c = b.holders c := by
  unfold Backends.holders
  induction b.mybes with
  | nil => rfl
  | cons mybe mybes ih =>
    rw [flatMap_cons, count_append, ih, countP_cons, MysqlBackend.held, Nat.add_comm]
    cases mybe.serverMycpe with
    | none => simp
    | some d => simp [count_singleton]

/-- A connection is held by one backend, or in one position of one free list, or closed, and it was
    closed once then; one that has not been opened is nowhere. -/
inductive InOnePlace (b : Backends) (c : Nat) : Prop where
  | held : b.holders c = 1 → b.sh.free.count c = 0 → (b.sh.conns c).closes = 0 → InOnePlace b c
  | free : b.holders c = 0 → b.sh.free.count c = 1 → (b.sh.conns c).closes = 0 → InOnePlace b c
  | closed : b.holders c = 0 → b.sh.free.count c = 0 → (b.sh.conns c).closes = 1 → InOnePlace b c

/-- In every run, every connection that was opened is in exactly one place. -/
theorem connection_inOnePlace {g : Glovars} {md5 : List Byte → Str} {scramble : List Byte → Str → List Byte}
    {b : Backends} {es : List PoolCall}
    (hrun : Run PoolStep { sh := Shared.init g md5 scramble, mybes := [] } es b) :
    ∀ c, (c < b.sh.nextConn → InOnePlace b c) ∧
      (b.sh.nextConn ≤ c → b.holders c = 0 ∧ b.sh.free.count c = 0) := by
  have hb : b.Accounted :=
    hrun.invariant (P := Backends.Accounted) (fun _ _ _ hstep h => h.step hstep)
      (accounted_init g md5 scramble)
  intro c
  have hc := hb c
  rw [b.count_held c, Shared.places] at hc
  refine ⟨fun hlt => ?_, fun hle => ?_⟩
  · rw [if_pos hlt] at hc
    -- the three numbers add up to one
    by_cases hholders : b.holders c = 1
    · exact .held hholders (by omega) (by omega)
    · by_cases hfree : b.sh.free.count c = 1
      · exact .free (by omega) hfree (by omega)
      · exact .closed (by omega) (by omega) (by omega)
  · rw [if_neg (by omega)] at hc
    omega

/-- Backend `i` of user `u` connects to hostgroup 0. -/
def connectCall (i : Nat) : PoolCall :=
  .create i { username := some (bytesOf "u"), password := some [], schema := some (bytesOf "test") }
    PktEnv.quiet.connect1 (fun _ => 0) 0

/-- The first of two backends gives its connection back, the second one takes it, the first one opens
    another and closes it. -/
theorem connection_inOnePlace_turns :
    ∃ es b, Run PoolStep { sh := oneServer.sh, mybes := [] } es b ∧ b.sh.nextConn = 2 ∧
      b.mybes.map MysqlBackend.serverMycpe = [none, some 0] ∧ InOnePlace b 0 ∧ InOnePlace b 1 := by
  obtain ⟨b, hrun, hnext, hmybes⟩ := Run.exists_exec Backends.call { sh := oneServer.sh, mybes := [] }
    [.flushHostgroups [dbRow], .backendNew, .backendNew, connectCall 0, .detach 0 false fun _ => 0,
      connectCall 1, connectCall 0, .reset 0 true fun _ => 0]
    (P := fun b => b.sh.nextConn = 2 ∧ b.mybes.map MysqlBackend.serverMycpe = [none, some 0])
    (fun _ _ _ => PoolStep.call) (by decide +kernel)
  have hplace := connection_inOnePlace hrun
  exact ⟨_, b, hrun, hnext, hmybes, (hplace 0).1 (by omega), (hplace 1).1 (by omega)⟩

end ProxySQL
