/-
  ProxySQL.Session.Pooled

  What the connections in the free lists have in common.

  A connection enters a free list with the ledger and the mark it has then, and
  nobody changes them while it is there: only the backend that has a connection
  writes to them, and a connection that a backend has is not free.  So a property
  of ledger and mark holds of all free connections in every run in which it holds
  of every connection at the moment it is given back (`World.Pooled`).
-/
import ProxySQL.Session.Release
import ProxySQL.Session.Ownership

namespace ProxySQL

open Lib List Option

/-- The connections of a session's backends. -/
def Session.held (s : Session) : List Nat := s.mybes.flatMap MysqlBackend.held

/-- A property of connections that looks at the lasting part only and holds of those nothing was sent
    over. -/
structure Trackable (Good : MysqlCpEntry → Prop) : Prop where
  congr : ∀ {mc mc' : MysqlCpEntry}, mc'.lasting = mc.lasting → Good mc → Good mc'
  new : ∀ {mc : MysqlCpEntry}, mc.pending = [] → mc.reusable = true → Good mc

/-- The connection of the backend, if it has one, is good. -/
def MysqlBackend.Has (Good : MysqlCpEntry → Prop) (sh : Shared) (mybe : MysqlBackend) : Prop :=
  ∀ c, mybe.serverMycpe = some c → Good (sh.conns c)

/-- Free connections are good, where the other sessions hold the connections `others`.  Connections
    that no session holds any more may have been `lost`. -/
structure Pooled (Good : MysqlCpEntry → Prop) (others : List Nat) (st : St) : Prop where
  accounted : ∃ lost, Accounted st.sh (st.sess.held ++ (others ++ lost))
  good : ∀ c ∈ st.sh.free, Good (st.sh.conns c)
  wired : ∀ mybe ∈ st.sess.mybes, mybe.serverMycpe.isSome → mybe.mshge.isSome

variable {sh : Shared} {s : Session} {i : Nat}

section Session

variable {Good : MysqlCpEntry → Prop} {others : List Nat} {st : St} {sh' : Shared} {i c : Nat}
  {mybe mybe' : MysqlBackend}

theorem Trackable.kept (ht : Trackable Good) (hk : ConnsKept sh sh') (hc : c < sh.nextConn)
    (h : Good (sh.conns c)) : Good (sh'.conns c) :=
  ht.congr (hk.lasting c hc) h

theorem Pooled.lt_of_free (h : Pooled Good others st) (hc : c ∈ st.sh.free) : c < st.sh.nextConn := by
  obtain ⟨lost, hacc⟩ := h.accounted
  exact hacc.lt_of_free hc

theorem Pooled.of_held (h : Pooled Good others st) (hb : mybe ∈ st.sess.mybes)
    (hc : mybe.serverMycpe = some c) : c < st.sh.nextConn ∧ c ∉ st.sh.free := by
  obtain ⟨lost, hacc⟩ := h.accounted
  refine hacc.of_mem (mem_append_left _ (mem_flatMap.2 ⟨mybe, hb, ?_⟩))
  rw [MysqlBackend.held, hc]
  exact mem_singleton.2 rfl

theorem Pooled.store (ht : Trackable Good) (h : Pooled Good others st)
    (hmybe : st.sess.mybes[i]? = some mybe) (hk : ConnsKept st.sh sh')
    (hheld : Conserves st.sh sh' mybe.held mybe'.held)
    (hfree : ∀ c ∈ sh'.free, c ∈ st.sh.free ∨ (c < st.sh.nextConn ∧ Good (st.sh.conns c)))
    (hwired : mybe'.serverMycpe.isSome → mybe'.mshge.isSome) :
    Pooled Good others (st.store i sh' mybe') := by
  refine ⟨?_, fun c hc => ?_, fun b hb => ?_⟩
  · obtain ⟨lost, hacc⟩ := h.accounted
    exact ⟨lost, hacc.set_append hmybe hheld⟩
  · rcases hfree c hc with hold | ⟨hlt, hgood⟩
    · exact ht.kept hk (h.lt_of_free hold) (h.good c hold)
    · exact ht.kept hk hlt hgood
  · rcases mem_or_eq_of_mem_set hb with hold | rfl
    · exact h.wired b hold
    · exact hwired

variable {now : Nat → Nat} {hg : Nat}

theorem Pooled.give (ht : Trackable Good) {fc : Bool} (h : Pooled Good others st)
    (hmybe : st.sess.mybes[i]? = some mybe) (hgave : GaveBack st.sh sh' mybe mybe' now fc)
    (hok : mybe.Pools st.sh now fc → mybe.Has Good st.sh) : Pooled Good others (st.store i sh' mybe') := by
  have hmem := mem_of_getElem? hmybe
  refine h.store ht hmybe hgave.conns hgave.conserves (fun d hd => ?_) fun hsome => ?_
  · rcases hgave.cases with ⟨-, hfree, -⟩ | ⟨c, hc, -, ⟨hfree, -⟩ | ⟨hpool, hperm, -⟩⟩
    · exact .inl (hfree ▸ hd)
    · exact .inl (hfree ▸ hd)
    · rcases mem_cons.1 (hperm.subset hd) with rfl | hold
      · exact .inr ⟨(h.of_held hmem hc).1, hok ⟨d, hc, hpool⟩ d hc⟩
      · exact .inl hold
  · rw [hgave.mshge hsome]
    rcases hgave.cases with ⟨hsame, -⟩ | ⟨_, -, hnone, -⟩
    · exact h.wired mybe hmem (hsame ▸ hsome)
    · rw [hnone] at hsome
      cases hsome

theorem Pooled.connect (ht : Trackable Good) (h : Pooled Good others st)
    (hmybe : st.sess.mybes[i]? = some mybe) (hconn : Connected st.sh sh' mybe mybe') :
    Pooled Good others (st.store i sh' mybe') :=
  h.store ht hmybe hconn.conns hconn.conserves (fun _ hd => .inl (hconn.free.subset hd))
    (hconn.wired (h.wired mybe (mem_of_getElem? hmybe)))

theorem Pooled.modifyConn (h : Pooled Good others st) (hb : mybe ∈ st.sess.mybes)
    (hc : mybe.serverMycpe = some c) {f : MysqlCpEntry → MysqlCpEntry}
    (hf : ∀ mc, (f mc).closes = mc.closes) : Pooled Good others { st with sh := st.sh.modifyConn c f } := by
  have hnot := (h.of_held hb hc).2
  refine ⟨?_, fun d hd => ?_, h.wired⟩
  · obtain ⟨lost, hacc⟩ := h.accounted
    refine ⟨lost, fun d => ?_⟩
    have hcloses : ((st.sh.modifyConn c f).conns d).closes = (st.sh.conns d).closes := by
      by_cases hd : d = c <;> simp [Shared.modifyConn, hd, hf]
    have hplaces : (st.sh.modifyConn c f).places d = st.sh.places d :=
      congrArg (st.sh.free.count d + ·) hcloses
    rw [hplaces]
    exact hacc d
  · have hne : d ≠ c := fun heq => hnot (heq ▸ hd)
    simpa [Shared.modifyConn, hne] using h.good d hd

theorem Pooled.setMybe (h : Pooled Good others st) (hmybe : st.sess.mybes[i]? = some mybe)
    (hmycpe : mybe'.serverMycpe = mybe.serverMycpe) (hmshge : mybe'.mshge = mybe.mshge) :
    Pooled Good others { st with sess := { st.sess with mybes := st.sess.mybes.set i mybe' } } := by
  refine ⟨?_, h.good, fun b hb => ?_⟩
  · obtain ⟨lost, hacc⟩ := h.accounted
    have hheld : Conserves st.sh st.sh mybe.held mybe'.held := by
      rw [MysqlBackend.held, MysqlBackend.held, hmycpe]
      exact .refl _ _
    exact ⟨lost, hacc.set_append hmybe hheld⟩
  · rcases mem_or_eq_of_mem_set hb with hold | rfl
    · exact h.wired b hold
    · rw [hmycpe, hmshge]
      exact h.wired mybe (mem_of_getElem? hmybe)

theorem Pooled.of_mybes (h : Pooled Good others st) (hs : s.mybes = st.sess.mybes) :
    Pooled Good others { st with sess := s } := by
  refine ⟨?_, h.good, ?_⟩
  · rw [Session.held, hs]
    exact h.accounted
  · rw [hs]
    exact h.wired

theorem pooled_stable : Stable (fun _ => True) (Pooled Good others) where
  sess h hlocal := h.of_mybes hlocal.mybes
  record h _ := h.of_mybes rfl
  cache _ h := ⟨h.accounted, h.good, h.wired⟩

theorem pooled_netStable : NetStable (Pooled Good others) where
  client _ _ _ _ h := h.of_mybes rfl
  server _ _ _ _ _ h hmybe _ := h.setMybe hmybe rfl rfl
  ledger _ _ _ _ _ h hmybe hc := h.modifyConn (mem_of_getElem? hmybe) hc fun _ => rfl

/-! ## Forwarding -/

/-- A backend that forwarding gives up has a good connection. -/
structure Replaceable (Good : MysqlCpEntry → Prop) (others : List Nat) (now : Nat → Nat) (hg : Nat)
    (st : St) : Prop where
  pooled : Pooled Good others st
  has : ∀ mybe, st.sess.mybes[hg]? = some mybe → mybe.Retired st.sh →
    mybe.Pools st.sh now (mybe.closes false) → mybe.Has Good st.sh

theorem replaceable_quietStable : QuietStable (fun _ => True) (Replaceable Good others now hg) where
  sess h hquiet := ⟨h.pooled.of_mybes hquiet.mybes, fun mybe hmybe => h.has mybe (hquiet.mybes ▸ hmybe)⟩
  record h _ := ⟨h.pooled.of_mybes rfl, h.has⟩

theorem connectBackend_replaceable (ht : Trackable Good) (cenv : ConnectEnv) (fill : Nat → Byte) :
    Keeps (Replaceable Good others now hg) (connectBackend hg cenv fill) := by
  intro st h
  refine connectBackend_wp (fun _ => h) fun mybe sh' mybe' rc hmybe hconn => ?_
  have hmem := mem_of_getElem? hmybe
  have hlt : hg < st.sess.mybes.length := (List.getElem?_eq_some_iff.1 hmybe).1
  refine ⟨h.pooled.connect ht hmybe hconn, fun b hb hretired hpools => ?_⟩
  obtain rfl : mybe' = b := some.inj ((getElem?_set_self hlt).symm.trans hb)
  intro c hc
  cases hold : mybe.serverMycpe with
  | some d =>
    -- the backend has the connection it had, on the same server
    obtain ⟨hsame, hservers, hpooling, hmshge, htrans, hactive⟩ := hconn.kept d hold
    obtain rfl : d = c := some.inj (hsame.symm.trans hc)
    obtain ⟨m, hm⟩ := isSome_iff_exists.1 (h.pooled.wired mybe hmem (by rw [hold]; rfl))
    obtain ⟨⟨m', ms, hm', hms, hsoft⟩, hout⟩ := hretired
    obtain rfl : m = m' := some.inj ((hmshge m hm).symm.trans hm')
    obtain ⟨e, he, hpoolable⟩ := hpools
    obtain rfl : d = e := some.inj (hc.symm.trans he)
    have hcloses : mybe.closes false = mybe'.closes false := congrArg (false || ·) hactive.symm
    refine ht.kept hconn.conns (h.pooled.of_held hmem hold).1 (h.has mybe hmybe ?_ ⟨d, hold, ?_⟩ d hold)
    · exact ⟨⟨m, ms, hm, (hservers.msPtr_eq m).symm.trans hms, hsoft⟩, htrans.symm.trans hout⟩
    · rw [hcloses]
      exact hpoolable.of_kept hpooling
  | none =>
    rcases hconn.taken hold c hc with hfree | ⟨hnew, hopened⟩
    · have hfree : c ∈ st.sh.free := hfree.subset mem_cons_self
      exact ht.kept hconn.conns (h.pooled.lt_of_free hfree) (h.pooled.good c hfree)
    · obtain ⟨e, he, hpoolable⟩ := hpools
      obtain rfl : c = e := some.inj (hc.symm.trans he)
      exact ht.new (hconn.conns.fresh c hnew hopened).1 hpoolable.reusable

theorem markNotReusable_replaceable : Keeps (Replaceable Good others now hg) (markNotReusable hg) := by
  intro st h
  unfold markNotReusable
  rw [wp_bind, wp_getMybe]
  cases hmybe : st.sess.mybes[hg]? with
  | none => exact h
  | some mybe =>
    dsimp only
    split
    · exact h
    · next c hc =>
      rw [wp_get_bind, wp_ite]
      split
      · rw [wp_modifyShared]
        refine ⟨h.pooled.modifyConn (mem_of_getElem? hmybe) hc fun _ => rfl, fun b hb _ hpools => ?_⟩
        -- the connection is not reusable now, so it does not enter a pool
        obtain rfl : mybe = b := some.inj (hmybe.symm.trans hb)
        obtain ⟨d, hd, hpoolable⟩ := hpools
        obtain rfl : c = d := some.inj (hc.symm.trans hd)
        have hreusable := hpoolable.reusable
        simp [Shared.modifyConn] at hreusable
      · exact h

theorem replaceable_keepsReplace (ht : Trackable Good) :
    KeepsReplace (Replaceable Good others now hg) now hg := by
  intro st mybe myds m ms h hmybe hmyds htrans hm hms hsoft
  refine bereset_wp (fun _ => h) fun mybe1 sh' mybe' hmybe1 hreset => ?_
  obtain rfl : mybe = mybe1 := some.inj (hmybe.symm.trans hmybe1)
  have hretired : mybe.Retired st.sh := by
    refine ⟨⟨m, ms, hm, hms, hsoft⟩, ?_⟩
    rw [MysqlBackend.inTransaction, hmyds]
    exact htrans
  have hlt : hg < st.sess.mybes.length := (List.getElem?_eq_some_iff.1 hmybe).1
  refine ⟨h.pooled.give ht hmybe (backendReset_gaveBack hreset) (h.has mybe hmybe hretired), ?_⟩
  intro b hb _ hpools
  obtain rfl : mybe' = b := some.inj ((getElem?_set_self hlt).symm.trans hb)
  obtain rfl := backendReset_eq hreset
  obtain ⟨c, hc, -⟩ := hpools
  cases hc

theorem mySessAddPktOutServer_pooled (hg : Nat) (p : Pkt) (n : Nat) :
    Keeps (Pooled Good others) (mySessAddPktOutServer hg p n) := by
  intro st h
  unfold mySessAddPktOutServer
  rw [wp_bind, wp_getMybe]
  cases hmybe : st.sess.mybes[hg]? with
  | none => exact h
  | some mybe =>
    refine wp_bind_reads (Keeps.lift _ st rfl) (fun myds => ?_) fun _ => h
    have hlt : hg < st.sess.mybes.length := (List.getElem?_eq_some_iff.1 hmybe).1
    rw [wp_bind, wp_setMybe]
    dsimp only
    have hset := @Pooled.setMybe Good others st hg mybe { mybe with serverMyds := some (myds.addOut [p]) }
      h hmybe rfl rfl
    split
    · exact hset
    · next c hc =>
      exact hset.modifyConn (mem_of_getElem? (getElem?_set_self hlt)) hc fun _ => rfl

theorem forwardTo_pooled (ht : Trackable Good) {p : Pkt} {env : PktEnv} (h : Pooled Good others st)
    (hok : ∀ mybe, Releases st mybe (.forward hg p env) → mybe.Has Good st.sh) :
    wp (forwardTo hg p env) (fun _ t => Pooled Good others t) st := by
  refine forwardTo_wp replaceable_quietStable.still pooled_stable.still (fun _ hr => hr.pooled) trivial
    ⟨connectBackend_replaceable ht _ _, connectBackend_replaceable ht _ _, markNotReusable_replaceable,
      replaceable_keepsReplace ht⟩ (queueBackClientPkt_keeps replaceable_quietStable p)
    (mySessAddPktOutServer_pooled hg p _) ?_
  exact ⟨h, fun mybe hmybe hretired hpools => hok mybe ⟨hmybe, hretired, hpools⟩⟩

theorem forgetConnpool_pooled : Keeps (Pooled Good others) forgetConnpool := by
  intro st h
  unfold forgetConnpool
  rw [wp_get_bind]
  split
  · exact h
  · next i _ =>
    rw [wp_bind, wp_getMybe]
    cases hmybe : st.sess.mybes[i]? with
    | none => exact h
    | some mybe => exact h.setMybe hmybe rfl rfl

theorem pooled_release (ht : Trackable Good) :
    ReleaseStable (Pooled Good others) fun sh mybe => mybe.Has Good sh where
  give h hmybe hgave hok := h.give ht hmybe hgave hok
  others h hb hgave hok := fun c hc => ht.kept hgave.conns (h.of_held hb hc).1 (hok c hc)
  forget hok := hok
  cache _ hok := hok
  stable := pooled_stable
  net := pooled_netStable
  forgetConnpool := forgetConnpool_pooled
  clear st h := by
    refine ⟨?_, h.good, nofun⟩
    obtain ⟨lost, hacc⟩ := h.accounted
    refine ⟨lost ++ st.sess.held, hacc.perm ?_⟩
    rw [← append_assoc others]
    exact perm_append_comm

end Session

/-! ## Runs -/

section World

variable {Good : MysqlCpEntry → Prop} {w w' : World}

/-- The connections that sessions have. -/
def World.held (w : World) : List Nat := w.sessions.flatMap Session.held

structure World.Pooled (Good : MysqlCpEntry → Prop) (w : World) : Prop where
  accounted : ∃ lost, Accounted w.sh (w.held ++ lost)
  good : ∀ c ∈ w.sh.free, Good (w.sh.conns c)
  wired : ∀ s ∈ w.sessions, ∀ mybe ∈ s.mybes, mybe.serverMycpe.isSome → mybe.mshge.isSome

/-- Backends that give their connections to a pool in the step have good ones. -/
def PoolsGood (Good : MysqlCpEntry → Prop) (w : World) : Event → Prop
  | .session i e => ∀ s mybe, w.sessions[i]? = some s → Releases { sh := w.sh, sess := s } mybe e →
      mybe.Has Good w.sh
  | _ => True

theorem World.Pooled.session (h : w.Pooled Good) (hs : w.sessions[i]? = some s) :
    ProxySQL.Pooled Good ((w.sessions.eraseIdx i).flatMap Session.held) { sh := w.sh, sess := s } := by
  refine ⟨?_, h.good, h.wired s (mem_of_getElem? hs)⟩
  obtain ⟨lost, hacc⟩ := h.accounted
  refine ⟨lost, hacc.perm ?_⟩
  rw [← append_assoc]
  exact (flatMap_perm_eraseIdx Session.held hs).append_right lost

theorem World.Pooled.set {t : St} (h : w.Pooled Good) (hs : w.sessions[i]? = some s)
    (ht : ProxySQL.Pooled Good ((w.sessions.eraseIdx i).flatMap Session.held) t) :
    World.Pooled Good { sh := t.sh, sessions := w.sessions.set i t.sess } := by
  refine ⟨?_, ht.good, fun s' hs' => ?_⟩
  · obtain ⟨lost, hacc⟩ := ht.accounted
    refine ⟨lost, hacc.perm ?_⟩
    rw [← append_assoc]
    exact (flatMap_set_perm Session.held hs t.sess).symm.append_right lost
  · rcases mem_or_eq_of_mem_set hs' with hold | rfl
    · exact h.wired s' hold
    · exact ht.wired

/-- What a session leaves behind, also when the process stops. -/
theorem World.Pooled.outcome (ht : Trackable Good) {e : SessEvent}
    (h : w.Pooled Good) (hs : w.sessions[i]? = some s) (hG : PoolsGood Good w (.session i e)) :
    ProxySQL.Pooled Good ((w.sessions.eraseIdx i).flatMap Session.held)
      (outcome e.prog { sh := w.sh, sess := s }).2 := by
  refine e.keeps_of_releases (pooled_release ht) (h.session hs) (fun mybe hrel => hG s mybe hs hrel) ?_
  rintro hg p env rfl
  exact forwardTo_pooled ht (h.session hs) fun mybe hrel => hG s mybe hs hrel

theorem World.Pooled.of_samePools (h : w.Pooled Good) (hsame : SamePools w.sh sh) :
    World.Pooled Good { w with sh := sh } := by
  refine ⟨?_, ?_, h.wired⟩
  · obtain ⟨lost, hacc⟩ := h.accounted
    refine ⟨lost, fun c => ?_⟩
    rw [hsame.nextConn, ← hacc c, Shared.places, Shared.places, hsame.free, hsame.conns]
    rfl
  · rw [hsame.free, hsame.conns]
    exact h.good

theorem acceptSession_held (fill : Nat → Byte) (g : Glovars) (admin : Nat) (clientFd : Int) (threadId : Nat)
    (random : List Byte) {mybe : MysqlBackend}
    (h : mybe ∈ (acceptSession fill g admin clientFd threadId random).mybes) : mybe.serverMycpe = none := by
  have hnew : mybe ∈ replicate g.mysqlHostgroups mysqlBackendNew := h
  rw [eq_of_mem_replicate hnew]
  rfl

theorem World.Pooled.step (ht : Trackable Good) {e : Event} (h : w.Pooled Good)
    (hstep : WorldStep w e w') (hG : PoolsGood Good w e) : w'.Pooled Good := by
  cases hstep with
  | accept fill admin clientFd threadId random =>
    have hnone := @acceptSession_held fill w.sh.glovars admin clientFd threadId random
    refine ⟨?_, h.good, fun s hs => ?_⟩
    · obtain ⟨lost, hacc⟩ := h.accounted
      have hheld : (acceptSession fill w.sh.glovars admin clientFd threadId random).held = [] := by
        refine flatMap_eq_nil_iff.2 fun mybe hmybe => ?_
        rw [MysqlBackend.held, hnone hmybe]
        rfl
      refine ⟨lost, ?_⟩
      rw [World.held, flatMap_append, flatMap_singleton, hheld, append_nil]
      exact hacc
    · rcases mem_append.1 hs with hold | hnew
      · exact h.wired s hold
      · obtain rfl := mem_singleton.1 hnew
        intro mybe hmybe hsome
        rw [hnone hmybe] at hsome
        cases hsome
  | session hs hst =>
    have houtcome := h.outcome ht hs hG
    rw [hst.2] at houtcome
    exact h.set hs houtcome
  | @delete i s hs _ =>
    refine ⟨?_, h.good, fun s hs => h.wired s (mem_of_mem_eraseIdx hs)⟩
    obtain ⟨lost, hacc⟩ := h.accounted
    refine ⟨s.held ++ lost, hacc.perm ?_⟩
    refine ((flatMap_perm_eraseIdx Session.held hs).append_right lost).trans ?_
    rw [← append_assoc]
    exact perm_append_comm.append_right lost
  | flushHostgroups rows => exact h.of_samePools (flushServersDbToMem_onlyServers w.sh rows).toSamePools
  | reconfigure hsame => exact h.of_samePools hsame.toSamePools

theorem World.Pooled.init (g : Glovars) (md5 : List Byte → Str) (scramble : List Byte → Str → List Byte) :
    (World.init g md5 scramble).Pooled Good :=
  ⟨⟨[], accounted_init g md5 scramble⟩, (fun _ hc => nomatch hc), fun _ hs => nomatch hs⟩

/-- In a run in which connections are good when they are given back, free connections are good. -/
theorem World.Pooled.run (ht : Trackable Good) {es : List Event}
    (hrun : Run (Guarded WorldStep (PoolsGood Good)) w es w') (h : w.Pooled Good) : w'.Pooled Good :=
  hrun.invariant (P := World.Pooled Good) (fun _ _ _ hstep hw => hw.step ht hstep.1 hstep.2) h

end World

end ProxySQL
