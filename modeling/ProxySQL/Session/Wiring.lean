/-
  ProxySQL.Session.Wiring

  Invariants of the backends of all sessions.

  A backend changes when it is reset or detached, when it looks for a server, when
  its stream moves on, and when it forgets its pool.  A property of a session that
  these changes keep, all steps of the session keep (`BackendRules.sessStep`).  For a
  property of single backends the changes to the shared data must keep it for the
  other backends too; then all steps of a session keep it (`Wiring.sessStep`), and
  with the commands of the administrator all steps of a thread (`Wiring.worldStep`).
-/
import ProxySQL.Session.Release

namespace ProxySQL

open Lib List

/-! ## What happens to the backends of a session -/

/-- The changes that code for connections makes to a session and what it shares keep `P`.  Servers are
    looked for in the environments `E`. -/
structure BackendRules (E : ConnectEnv → Prop) (P : St → Prop) : Prop where
  sess : ∀ {st : St} {s : Session}, P st → s.mybes = st.sess.mybes → P { st with sess := s }
  cache : ∀ {st : St} (qc : Str → Option QcEntry), P st → P { st with sh := { st.sh with qc := qc } }
  conn : ∀ {st : St} {c : Nat} {f : MysqlCpEntry → MysqlCpEntry}, (∀ mc, (f mc).closes = mc.closes) →
    (∀ mc, (f mc).target = mc.target) → P st → P { st with sh := st.sh.modifyConn c f }
  stream : ∀ {st : St} {i : Nat} {mybe : MysqlBackend} {myds : MysqlDataStream} (myds' : MysqlDataStream),
    P st → st.sess.mybes[i]? = some mybe → mybe.serverMyds = some myds →
    P (st.store i st.sh { mybe with serverMyds := some myds' })
  forget : ∀ {st : St} {i : Nat} {mybe : MysqlBackend}, P st → st.sess.mybes[i]? = some mybe →
    P (st.store i st.sh { mybe with lastMysqlConnpool := none })
  reset : ∀ {st : St} {i : Nat} {mybe mybe' : MysqlBackend} {sh' : Shared} {fc : Bool} {now : Nat → Nat},
    P st → st.sess.mybes[i]? = some mybe → backendReset st.sh mybe fc now = .ok (sh', mybe') →
    P (st.store i sh' mybe')
  detach : ∀ {st : St} {i : Nat} {mybe mybe' : MysqlBackend} {sh' : Shared} {fc : Bool} {now : Nat → Nat},
    P st → st.sess.mybes[i]? = some mybe → backendDetach st.sh mybe fc now = .ok (sh', mybe') →
    P (st.store i sh' mybe')
  create : ∀ {st : St} {hg : Nat} {mybe mybe' : MysqlBackend} {sh' : Shared} {env : ConnectEnv}
    {fill : Nat → Byte} {rc : CreateResult}, E env → P st → st.sess.mybes[hg]? = some mybe →
    createBackendFrom st.sess.credentials env fill hg 10 st.sh mybe = .ok (sh', mybe', rc) →
    P (st.store hg sh' mybe')

/-- The environments in which a step looks for a server are in `E`. -/
def SessEvent.Connects (E : ConnectEnv → Prop) : SessEvent → Prop
  | .forward _ _ env => E env.connect1 ∧ E env.connect2
  | _ => True

namespace BackendRules

variable {E : ConnectEnv → Prop} {P : St → Prop} (R : BackendRules E P)

include R

theorem stable : Stable (fun _ => True) P where
  sess hst hlocal := R.sess hst hlocal.mybes
  record hst _ := R.sess hst rfl
  cache qc hst := R.cache qc hst

theorem netStable : NetStable P where
  client _ _ _ _ hst := R.sess hst rfl
  server _ _ _ _ myds' hst hmybe hmyds := R.stream myds' hst hmybe hmyds
  ledger _ _ _ _ _ hst _ _ := R.conn (fun _ => rfl) (fun _ => rfl) hst

theorem bereset (i : Nat) (fc : Bool) (now : Nat → Nat) : Keeps P (bereset i fc now) := fun _ hst =>
  bereset_wp (fun _ => hst) fun _ _ _ hmybe hreset => R.reset hst hmybe hreset

theorem connectBackend {env : ConnectEnv} (henv : E env) (hg : Nat) (fill : Nat → Byte) :
    Keeps P (connectBackend hg env fill) := fun _ hst =>
  connectBackend_from_wp (fun _ => hst) fun _ _ _ _ hmybe hcreate => R.create henv hst hmybe hcreate

omit R in
theorem getMybe_bind {α : Type} {i : Nat} {f : MysqlBackend → SessM α}
    (hf : ∀ mybe st, P st → st.sess.mybes[i]? = some mybe → wp (f mybe) (fun _ t => P t) st) :
    Keeps P (getMybe i >>= f) := by
  intro st hst
  rw [wp_bind, wp_getMybe]
  cases hmybe : st.sess.mybes[i]? with
  | none => exact hst
  | some mybe => exact hf mybe st hst hmybe

theorem keepsWires : KeepsWires P where
  bereset := R.bereset
  bedetach i now := fun _ hst =>
    bedetach_wp (fun _ => hst) fun _ _ _ hmybe hdetach => R.detach hst hmybe hdetach
  send hg p n := by
    refine getMybe_bind fun mybe st hst hmybe => ?_
    rw [wp_bind, wp_lift]
    cases hmyds : mybe.serverMyds with
    | none => exact hst
    | some myds =>
      simp only [deref]
      rw [wp_bind, wp_setMybe]
      refine (?_ : Keeps P _) _ (R.stream _ hst hmybe hmyds)
      split
      · exact .pure _
      · exact Keeps.get.bind fun _ => .modify fun _ h => R.conn (fun _ => rfl) (fun _ => rfl) h
  forget := by
    refine Keeps.get.bind fun st => ?_
    split
    · exact .pure _
    · exact getMybe_bind fun mybe st hst hmybe => R.forget hst hmybe

theorem keepsBackends {env : PktEnv} (henv : E env.connect1 ∧ E env.connect2) (hg : Nat) :
    KeepsBackends P env hg where
  connect1 := R.connectBackend henv.1 hg _
  connect2 := R.connectBackend henv.2 hg _
  markNotReusable := by
    refine (getMybe_keeps hg).bind fun mybe => ?_
    split
    · exact .pure _
    · refine Keeps.get.bind fun _ => .ite (.modify fun _ h => ?_) (.pure _)
      exact R.conn (fun _ => rfl) (fun _ => rfl) h
  replace := .of_keeps (R.bereset hg false env.now)

theorem forwardTo {env : PktEnv} (henv : E env.connect1 ∧ E env.connect2) (hg : Nat) (p : Pkt) :
    Keeps P (forwardTo hg p env) :=
  forwardTo_keeps R.stable.quiet trivial (R.keepsBackends henv hg) (R.keepsWires.send hg p _)

theorem sessStep {st t : St} {e : SessEvent} (h : SessStep st e t) (he : e.Connects E)
    (hclose : ∀ now, e = .close now → P t) (hst : P st) : P t := by
  by_cases hends : ∃ now, e = .close now
  · obtain ⟨now, rfl⟩ := hends
    exact hclose now rfl
  · refine (SessEvent.wired_keeps R.stable R.netStable R.keepsWires ?_ ?_).ends h.2 hst
    · rintro hg p env rfl
      exact R.forwardTo he hg p
    · exact fun now heq => hends ⟨now, heq⟩

end BackendRules

/-! ## Properties of single backends -/

/-- Code for connections changes the shared data as `K` says, and keeps the property `B` of backends.
    Servers are looked for in the environments `E`. -/
structure Wiring (K : Shared → Shared → Prop) (B : Shared → MysqlBackend → Prop) (E : ConnectEnv → Prop) :
    Prop where
  refl : ∀ sh, K sh sh
  trans : ∀ {sh sh' sh''}, K sh sh' → K sh' sh'' → K sh sh''
  conn : ∀ sh c f, K sh (sh.modifyConn c f)
  cache : ∀ (sh : Shared) (qc : Str → Option QcEntry), K sh { sh with qc := qc }
  other : ∀ {sh sh' mybe}, K sh sh' → B sh mybe → B sh' mybe
  stream : ∀ {sh mybe} (myds : MysqlDataStream), B sh mybe → B sh { mybe with serverMyds := some myds }
  forget : ∀ {sh mybe}, B sh mybe → B sh { mybe with lastMysqlConnpool := none }
  reset : ∀ {sh sh' mybe mybe' fc now}, B sh mybe → backendReset sh mybe fc now = .ok (sh', mybe') →
    K sh sh' ∧ B sh' mybe'
  detach : ∀ {sh sh' mybe mybe' fc now}, B sh mybe → backendDetach sh mybe fc now = .ok (sh', mybe') →
    K sh sh' ∧ B sh' mybe'
  create : ∀ {cred env fill hg n sh sh' mybe mybe' rc}, E env → B sh mybe →
    Creates cred env fill hg n sh mybe sh' mybe' rc → K sh sh' ∧ B sh' mybe'

/-- The shared data has changed from `sh₀` as `K` says, and `B` is true of the session's backends. -/
def Wires (K : Shared → Shared → Prop) (B : Shared → MysqlBackend → Prop) (sh₀ : Shared) (st : St) : Prop :=
  K sh₀ st.sh ∧ ∀ mybe ∈ st.sess.mybes, B st.sh mybe

namespace Wiring

variable {K : Shared → Shared → Prop} {B : Shared → MysqlBackend → Prop} {E : ConnectEnv → Prop}
  {sh₀ : Shared} {st : St} (W : Wiring K B E)

include W

theorem store (h : Wires K B sh₀ st) {sh : Shared} (hsh : K st.sh sh) (i : Nat) {mybe : MysqlBackend}
    (hmybe : B sh mybe) : Wires K B sh₀ (st.store i sh mybe) := by
  refine ⟨W.trans h.1 hsh, fun mybe' hmem => ?_⟩
  rcases mem_or_eq_of_mem_set hmem with hold | rfl
  · exact W.other hsh (h.2 mybe' hold)
  · exact hmybe

theorem shared (h : Wires K B sh₀ st) {sh : Shared} (hsh : K st.sh sh) :
    Wires K B sh₀ { st with sh := sh } :=
  ⟨W.trans h.1 hsh, fun mybe hmem => W.other hsh (h.2 mybe hmem)⟩

theorem backendRules : BackendRules E (Wires K B sh₀) where
  sess hst hmybes := ⟨hst.1, hmybes ▸ hst.2⟩
  cache qc hst := W.shared hst (W.cache _ qc)
  conn _ _ hst := W.shared hst (W.conn _ _ _)
  stream myds' hst hmybe _ := W.store hst (W.refl _) _ (W.stream myds' (hst.2 _ (mem_of_getElem? hmybe)))
  forget hst hmybe := W.store hst (W.refl _) _ (W.forget (hst.2 _ (mem_of_getElem? hmybe)))
  reset hst hmybe hreset := by
    obtain ⟨hsh, hB⟩ := W.reset (hst.2 _ (mem_of_getElem? hmybe)) hreset
    exact W.store hst hsh _ hB
  detach hst hmybe hdetach := by
    obtain ⟨hsh, hB⟩ := W.detach (hst.2 _ (mem_of_getElem? hmybe)) hdetach
    exact W.store hst hsh _ hB
  create henv hst hmybe hcreate := by
    obtain ⟨hsh, hB⟩ := W.create henv (hst.2 _ (mem_of_getElem? hmybe)) (createBackendFrom_creates hcreate)
    exact W.store hst hsh _ hB

theorem sessStep {t : St} {e : SessEvent} (h : SessStep st e t) (he : e.Connects E)
    (hst : Wires K B sh₀ st) : Wires K B sh₀ t := by
  have R := @Wiring.backendRules K B E sh₀ W
  refine R.sessStep h he (fun now hclose => ?_) hst
  subst hclose
  refine h.2.of_wp (sessClose_wp R.stable (fun i => R.bereset i _ now) (fun u hu => ?_) hst)
  exact ⟨hu.1, nofun⟩

theorem worldStep {w w' : World} {e : Event} (h : WorldStep w e w')
    (he : ∀ i e', e = .session i e' → e'.Connects E) (hnew : B w.sh mysqlBackendNew)
    (hflush : ∀ rows, e = .flushHostgroups rows → K w.sh w'.sh)
    (hreconfigure : SameWiring w.sh w'.sh → K w.sh w'.sh)
    (hw : ∀ s ∈ w.sessions, ∀ mybe ∈ s.mybes, B w.sh mybe) :
    K w.sh w'.sh ∧ ∀ s ∈ w'.sessions, ∀ mybe ∈ s.mybes, B w'.sh mybe := by
  have hkept : K w.sh w'.sh → ∀ s ∈ w.sessions, ∀ mybe ∈ s.mybes, B w'.sh mybe := fun hsh s hs mybe hmybe =>
    W.other hsh (hw s hs mybe hmybe)
  cases h with
  | accept fill admin clientFd threadId random =>
    refine ⟨W.refl _, fun s hs mybe hmybe => ?_⟩
    rcases mem_append.1 hs with hold | hadded
    · exact hw s hold mybe hmybe
    · obtain rfl := mem_singleton.1 hadded
      obtain rfl := eq_of_mem_replicate hmybe
      exact hnew
  | @session i s e' t hs hst =>
    obtain ⟨hsh, hsession⟩ := @Wiring.sessStep K B E w.sh _ W t e' hst (he i e' rfl)
      ⟨W.refl _, hw s (mem_of_getElem? hs)⟩
    refine ⟨hsh, fun s' hs' => ?_⟩
    rcases mem_or_eq_of_mem_set hs' with hold | rfl
    · exact hkept hsh s' hold
    · exact hsession
  | delete _ _ => exact ⟨W.refl _, fun s hs => hw s (mem_of_mem_eraseIdx hs)⟩
  | flushHostgroups rows => exact ⟨hflush rows rfl, hkept (hflush rows rfl)⟩
  | reconfigure hsame => exact ⟨hreconfigure hsame, hkept (hreconfigure hsame)⟩

end Wiring

end ProxySQL
