/-
  ProxySQL.Session.CachedErrors

  Responses with an error, and the query cache.

  `server_COM_QUERY` decides at the end of a result whether the response is
  stored: from `query_to_cache`, which stays TRUE while the response is small
  enough, and from the memory of the cache.  An ERR packet ends a result like any
  other last packet, so it is stored on the same terms.

  `serverComQueryLogged_ends` says what one packet does to the data that decide
  about it.  `errors_uncached_iff` is about whole responses.
-/
import ProxySQL.Cache.Runs
import ProxySQL.Session.EndOfResponse
import ProxySQL.Session.Rewriting

namespace ProxySQL

open Lib List

/-! ## What decides about a response -/

/-- The progress and the size of a response, and whether it may be stored. -/
@[ext]
structure Outlook where
  progress : ResultsetProgress
  size : Nat
  toCache : Bool

def Session.outlook (s : Session) : Outlook :=
  { progress := s.resultsetProgress, size := s.resultsetSize, toCache := s.queryToCache }

/-- From `st` to `t` nothing has changed that decides about a response. -/
def OutlookKept (st t : St) : Prop := t.sess.outlook = st.sess.outlook ∧
    t.sh.glovars = st.sh.glovars

theorem OutlookKept.refl (st : St) : OutlookKept st st := ⟨rfl, rfl⟩

/-- A packet of a kind and a length. -/
def Outlook.next (maxSize : Nat) (r : MysqlResponseType) (length : Nat) (o : Outlook) : Outlook :=
  let size := (o.size + length) % 2 ^ 64
  { progress := if resultsetStep r o.progress = .completed then .waiting
      else resultsetStep r o.progress,
    size := size,
    toCache := o.toCache && decide (size < maxSize) }

section Kept

variable {st₀ : St}

theorem outlookKept_unwired : UnwiredBy (fun sh sh' => sh'.tables = sh.tables) (OutlookKept st₀) :=
  fun _ _ _ htables h => ⟨h.1, (glovars_of_tables htables).trans h.2⟩

theorem outlookKept_quiet : QuietStable (fun _ => True) (OutlookKept st₀) where
  sess h hq := ⟨(Outlook.ext (congrArg (·.1) hq.response) (congrArg (·.2.2.1) hq.response)
    (congrArg (·.2.2.2.1) hq.response)).trans h.1, h.2⟩
  record h _ := h

theorem activeTransaction_outlook : Keeps (OutlookKept st₀) activeTransaction :=
  Keeps.get.bind fun _ => (Keeps.lift _).bind fun i => (getMybe_keeps i).bind fun _ =>
    (Keeps.lift _).bind fun _ =>
    .pure _

end Kept

/-! ## One packet -/

/-- The log says whether `fdb_set` was called. -/
def Stores (c : Prop) (log : List EndAction) : Prop := .cached ∈ log ↔ c

theorem Stores.note {c : Prop} {log : List EndAction} (h : Stores c log) (a : EndAction)
    (ha : .cached ≠ a) : Stores c (log ++ [a]) := by
  refine Iff.trans ?_ h
  rw [mem_append, mem_singleton]
  exact or_iff_left ha

theorem detachBackendsLogged_outlook {st₀ : St} {c : Prop} (now : Nat → Nat) :
    Keeps (fun s => OutlookKept st₀ s.1 ∧ Stores c s.2) (detachBackendsLogged now) := by
  refine (Keeps.logged Keeps.get).bind fun st => Keeps.forM fun i _ => ?_
  refine (Keeps.logged activeTransaction_outlook).bind fun inTrans =>
    (Keeps.logged Keeps.get).bind fun st => ?_
  refine .when fun _ => .bind (.note fun _ h => h.note (.detached i) nofun) fun _ => ?_
  exact .logged (outlookKept_unwired.bedetach wireChanges_tables i now)

variable {room : Bool} {fill : Nat → Byte} {p : Pkt} {g : Glovars}

section Packet

variable {u t : St} {log log' : List EndAction} {env : SrvEnv}

theorem cacheResultLogged_ends (h : Ends (cacheResultLogged room fill) (u, log) () (t, log')) :
    OutlookKept u t ∧ (.cached ∈ log' ↔ .cached ∈ log ∨ u.sess.queryToCache = true ∧
      room = true) := by
  have h := ends_logged_get_bind.1 h
  unfold when at h
  split at h
  · next hcache =>
    obtain ⟨fed, v, hfed, h⟩ := ends_logged_bind.1 h
    obtain ⟨-, rfl⟩ := Prod.mk.inj hfed
    split at h
    · next hroom =>
      obtain ⟨_, ⟨v, log1⟩, hnote, h⟩ := ends_bind.1 h
      obtain ⟨rfl, rfl⟩ := Prod.mk.inj (Prod.mk.inj hnote).2
      obtain ⟨hset, rfl⟩ := ends_logged.1 h
      cases hset
      refine ⟨⟨rfl, rfl⟩, ?_⟩
      simp [hcache, hroom]
    · next hroom =>
      obtain ⟨rfl, rfl⟩ := Prod.mk.inj (ends_pure.1 h).2
      exact ⟨.refl _, (or_iff_left fun hc => hroom hc.2).symm⟩
  · next hcache =>
    obtain ⟨rfl, rfl⟩ := Prod.mk.inj (ends_pure.1 h).2
    exact ⟨.refl _, (or_iff_left fun hc => hcache hc.1).symm⟩

theorem completeResultsetLogged_ends
    (h : Ends (completeResultsetLogged env) (u, log) () (t, log')) :
    t.sess.outlook = { u.sess.outlook with progress := .waiting } ∧ t.sh.glovars = u.sh.glovars ∧
      (.cached ∈ log' ↔ .cached ∈ log ∨ u.sess.queryToCache = true ∧ env.cacheRoom = true) := by
  have h := ends_logged_get_bind.1 h
  obtain ⟨_, v0, hset, h⟩ := ends_logged_bind.1 h
  have hv0 : v0.sess.outlook = { u.sess.outlook with progress := .waiting } ∧
    v0.sh.glovars = u.sh.glovars := by
    rw [← (Prod.mk.inj hset).2]
    exact ⟨rfl, rfl⟩
  -- up to the cache nothing is stored
  obtain ⟨_, ⟨w, log1⟩, hstats, h⟩ := ends_bind.1 h
  obtain ⟨_, ⟨x, log2⟩, hnote, h⟩ := ends_bind.1 h
  obtain ⟨_, y, hsync, h⟩ := ends_logged_bind.1 h
  obtain ⟨_, z, hslave, h⟩ := ends_logged_bind.1 h
  obtain ⟨_, ⟨v, log3⟩, hcache, h⟩ := ends_bind.1 h
  obtain ⟨hflush, rfl⟩ := ends_logged.1 h
  have hw : OutlookKept v0 w ∧ Stores (.cached ∈ log) log1 := by
    refine (.when fun _ => ?_ : Keeps (fun s : St × List EndAction => OutlookKept v0 s.1 ∧
      Stores (.cached ∈ log) s.2) _).ends hstats ⟨.refl v0, Iff.rfl⟩
    exact .bind (.note fun _ h => h.note .statisticsSet nofun) fun _ =>
      .logged (queryStatisticsSet_keeps outlookKept_quiet.still)
  obtain ⟨rfl, rfl⟩ := Prod.mk.inj (Prod.mk.inj hnote).2
  have hy := (syncServerBytesAtCmd_keeps outlookKept_quiet.still).ends hsync hw.1
  cases hslave
  obtain ⟨hv, hstored⟩ := cacheResultLogged_ends hcache
  cases hflush
  have hcached : y.sess.queryToCache = u.sess.queryToCache :=
    congrArg Outlook.toCache (hy.1.trans hv0.1)
  refine ⟨?_, hv.2.trans (hy.2.trans hv0.2), ?_⟩
  · have hoverall : (flushResultset u.sh.glovars.mysqlMaxResultsetSize v.sess).outlook =
      v.sess.outlook := by
      unfold flushResultset
      split
      · rfl
      · rfl
    exact hoverall.trans (hv.1.trans (hy.1.trans hv0.1))
  · rw [hstored]
    have hlog : .cached ∈ log1 ++ [.synced] ↔ .cached ∈ log := hw.2.note .synced nofun
    rw [hcached, hlog]

theorem serverComQueryLogged_ends {r : MysqlResponseType}
    (h : Ends (serverComQueryLogged p r env) (u, log) () (t, log')) :
    t.sess.outlook = u.sess.outlook.next u.sh.glovars.mysqlMaxResultsetSize r p.length ∧
      t.sh.glovars = u.sh.glovars ∧
      (.cached ∈ log' ↔ .cached ∈ log ∨ resultsetStep r u.sess.resultsetProgress = .completed ∧
        (u.sess.outlook.next u.sh.glovars.mysqlMaxResultsetSize r p.length).toCache = true ∧
        env.cacheRoom = true) := by
  have h := ends_logged_get_bind.1 h
  obtain ⟨_, v, hset, h⟩ := ends_logged_bind.1 h
  have hv : v.sess.outlook =
    { u.sess.outlook with progress := resultsetStep r u.sess.resultsetProgress } ∧
      v.sh.glovars = u.sh.glovars := by
    rw [← (Prod.mk.inj hset).2]
    exact ⟨rfl, rfl⟩
  obtain ⟨_, ⟨w, log1⟩, hdetach, h⟩ := ends_bind.1 h
  obtain ⟨hw, hlog⟩ := (.when fun _ => detachBackendsLogged_outlook env.now :
    Keeps (fun s : St × List EndAction => OutlookKept v s.1 ∧ Stores (.cached ∈ log) s.2) _).ends
      hdetach ⟨.refl v, Iff.rfl⟩
  have hlog : .cached ∈ log1 ↔ .cached ∈ log := hlog
  have hw : w.sess.outlook =
    { u.sess.outlook with progress := resultsetStep r u.sess.resultsetProgress } ∧
      w.sh.glovars = u.sh.glovars := ⟨hw.1.trans hv.1, hw.2.trans hv.2⟩
  obtain ⟨_, x, hcollect, h⟩ := ends_logged_bind.1 h
  cases hcollect
  -- the packet is counted, and the response may become too large
  have hprogress : w.sess.resultsetProgress = resultsetStep r u.sess.resultsetProgress :=
    congrArg Outlook.progress hw.1
  have hsize : w.sess.resultsetSize = u.sess.resultsetSize := congrArg Outlook.size hw.1
  have htoCache : w.sess.queryToCache = u.sess.queryToCache := congrArg Outlook.toCache hw.1
  have hx : (collect u.sh.glovars.mysqlMaxResultsetSize p w.sess).outlook =
      { u.sess.outlook.next u.sh.glovars.mysqlMaxResultsetSize r p.length with
        progress := resultsetStep r u.sess.resultsetProgress } := by
    unfold collect
    dsimp only
    rw [hsize]
    split
    · next hsmall =>
      show Outlook.mk w.sess.resultsetProgress _ w.sess.queryToCache =
        Outlook.mk _ _ (u.sess.queryToCache &&
          decide ((u.sess.resultsetSize + p.length) % 2 ^ 64 < _))
      rw [hprogress, htoCache, decide_eq_true hsmall, Bool.and_true]
      rfl
    · next hlarge =>
      show Outlook.mk w.sess.resultsetProgress _ false =
        Outlook.mk _ _ (u.sess.queryToCache &&
          decide ((u.sess.resultsetSize + p.length) % 2 ^ 64 < _))
      rw [hprogress, decide_eq_false hlarge, Bool.and_false]
      rfl
  unfold when at h
  split at h
  · next hcompleted =>
    obtain ⟨hout, hglovars, hstored⟩ := completeResultsetLogged_ends h
    refine ⟨?_, hglovars.trans hw.2, ?_⟩
    · have hprogress : (u.sess.outlook.next u.sh.glovars.mysqlMaxResultsetSize r
        p.length).progress = .waiting :=
        if_pos hcompleted
      have hsize := congrArg Outlook.size hx
      have htoCache := congrArg Outlook.toCache hx
      exact hout.trans (Outlook.ext hprogress.symm hsize htoCache)
    · rw [hstored, hlog, and_iff_right hcompleted]
      have hc := congrArg Outlook.toCache hx
      rw [show (collect u.sh.glovars.mysqlMaxResultsetSize p w.sess).queryToCache = _ from hc]
  · next hopen =>
    obtain ⟨rfl, rfl⟩ := Prod.mk.inj (ends_pure.1 h).2
    refine ⟨?_, hw.2, ?_⟩
    · have hprogress : (u.sess.outlook.next u.sh.glovars.mysqlMaxResultsetSize r p.length).progress
          = resultsetStep r u.sess.resultsetProgress := if_neg hopen
      exact hx.trans (Outlook.ext hprogress.symm rfl rfl)
    · rw [hlog]
      exact (or_iff_left fun hc => hopen hc.1).symm

end Packet

/-! ## The start of a response -/

section Start

variable {st t : St}

theorem getResultFromMysqlQueryCache_miss (h : Ends getResultFromMysqlQueryCache st false t) :
    OutlookKept st t := by
  have hsum : Keeps (OutlookKept st) computeQueryChecksum :=
    computeQueryChecksum_keeps fun _ _ h => h
  obtain ⟨fed, u, hfed, h⟩ := ends_bind.1 h
  have hu := hsum.ends hfed (.refl st)
  have h := ends_get_bind.1 h
  dsimp only at h
  split at h
  · cases h
    exact hu
  · obtain ⟨_, _, -, h⟩ := ends_bind.1 h
    obtain ⟨_, _, -, h⟩ := ends_bind.1 h
    obtain ⟨_, _, -, h⟩ := ends_bind.1 h
    obtain ⟨_, _, -, h⟩ := ends_bind.1 h
    cases (ends_pure.1 h).1

theorem processQueryRules_outlook {q : Pkt} (h : Ends (processQueryRules p fill) st q t) :
    OutlookKept st t := by
  have hdefault : Keeps (OutlookKept st) setDefaultDestination :=
    setDefaultDestination_keeps outlookKept_quiet
  refine (?_ : Keeps (OutlookKept st) (processQueryRules p fill)).ends h (.refl st)
  refine Keeps.get.bind fun st => (Keeps.lift _).bind fun r =>
    Keeps.bind (Keeps.modify fun _ h => h) fun _ => ?_
  exact Keeps.bind (Keeps.when fun _ => hdefault) fun _ => Keeps.pure _

/-- A query with a `cache_ttl` that is not answered from the cache is to be stored. -/
theorem clientComQuery_outlook {q : Pkt} (h : Ends (clientComQuery p fill) st q t)
    (hcommand : t.sess.clientCommand = mysqlComQuery) (httl : 0 < t.sess.queryInfo.cacheTtl)
    (hmiss : t.sess.mysqlQueryCacheHit = false) :
    t.sess.outlook = { progress := .waiting, size := 0, toCache := true } ∧
    t.sh.glovars = st.sh.glovars := by
  have h := ends_get_bind.1 h
  dsimp only at h
  split at h
  · obtain ⟨_, u, hset, h⟩ := ends_bind.1 h
    cases h
    cases hset
    have hends : mysqlComEnd ≠ mysqlComQuery := by decide
    exact absurd hcommand hends
  · obtain ⟨_, u, hinit, h⟩ := ends_bind.1 h
    obtain ⟨_, v, hset, h⟩ := ends_bind.1 h
    obtain ⟨hit, w, hprecheck, h⟩ := ends_bind.1 h
    have hu : u.sh.glovars = st.sh.glovars :=
      glovars_of_tables (initQueryMetadata_ends hinit).kept.2.1
    have hv : v.sess.resultsetProgress = .waiting ∧ v.sess.resultsetSize = 0 ∧
      v.sh.glovars = st.sh.glovars := by
      rw [← (Prod.mk.inj hset).2]
      exact ⟨rfl, rfl, hu⟩
    cases hit with
    | true =>
      cases h
      split at hprecheck
      · obtain ⟨-, -, hflag⟩ | ⟨hno, -⟩ := getResultFromMysqlQueryCache_ends hprecheck
        · rw [hmiss] at hflag
          cases hflag
        · cases hno
      · exact absurd (ends_pure.1 hprecheck).1 Bool.false_ne_true
    | false =>
      have hw : OutlookKept v w := by
        split at hprecheck
        · exact getResultFromMysqlQueryCache_miss hprecheck
        · cases hprecheck
          exact .refl v
      obtain ⟨q', x, hrules, h⟩ := ends_bind.1 h
      have hx := processQueryRules_outlook hrules
      have h := ends_get_bind.1 h
      obtain ⟨_, y, hlook, h⟩ := ends_bind.1 h
      cases h
      unfold when at hlook
      split at hlook
      · obtain ⟨_, z, hset, hask⟩ := ends_bind.1 hlook
        obtain ⟨hit, y', hasked, hdone⟩ := ends_bind.1 hask
        obtain ⟨-, rfl⟩ := ends_pure.1 hdone
        have hz : z.sess.outlook = { x.sess.outlook with toCache := true } ∧
          z.sh.glovars = x.sh.glovars := by
          rw [← (Prod.mk.inj hset).2]
          exact ⟨rfl, rfl⟩
        have hy : OutlookKept z y' := by
          obtain ⟨-, -, hflag⟩ | ⟨rfl, -⟩ := getResultFromMysqlQueryCache_ends hasked
          · rw [hmiss] at hflag
            cases hflag
          · exact getResultFromMysqlQueryCache_miss hasked
        have hprogress := congrArg Outlook.progress (hx.1.trans hw.1)
        have hsize := congrArg Outlook.size (hx.1.trans hw.1)
        refine ⟨hy.1.trans (hz.1.trans (Outlook.ext ?_ ?_ rfl)),
          hy.2.trans (hz.2.trans (hx.2.trans (hw.2.trans hv.2.2)))⟩
        · exact hprogress.trans hv.1
        · exact hsize.trans hv.2.1
      · next hnot =>
        cases hlook
        exact absurd ⟨hcommand, httl⟩ hnot

end Start

/-! ## Whole responses -/

/-- A packet of a response, and the cache at the time it comes. -/
structure Reply where
  pkt : Pkt
  env : SrvEnv
  cache : FdbHashesGroup

namespace Reply

/-- What `mysql_response` makes of the packet. -/
def kind (e : Reply) : MysqlResponseType := mysqlResponse e.env.beyond e.pkt

/-- The progress after some packets of a response. -/
def progressOf (es : List Reply) : ResultsetProgress :=
  es.foldl (fun g e => if resultsetStep e.kind g = .completed then .waiting
    else resultsetStep e.kind g) .waiting

/-- The size of some packets, as it is counted. -/
def sizeOf (es : List Reply) : Nat := (es.map fun e => e.pkt.length).sum % 2 ^ 64

/-- After none of the packets the limit is reached. -/
def Small (maxSize : Nat) (es : List Reply) : Prop := ∀ past e rest, es = past ++ e :: rest →
    sizeOf (past ++ [e]) < maxSize

/-- The packet `e` is the last one of a result. -/
def Completes (past : List Reply) (e : Reply) : Prop :=
  resultsetStep e.kind (progressOf past) = .completed

/-- The length of a checksum in hexadecimal digits. -/
def checksumLength : Nat := 32

/-- The response up to `e` is below the limit, and fits into the free memory of the cache. -/
def Fits (maxSize : Nat) (past : List Reply) (e : Reply) : Prop :=
  Small maxSize (past ++ [e]) ∧ e.cache.hasRoom checksumLength (sizeOf (past ++ [e]))

end Reply

/-- A call of `server_COM_QUERY` for a packet.  What the handler did before it is left open, as long
    as it did not touch the response. -/
def ReplyStep (s : St × List EndAction) (e : Reply) (t : St × List EndAction) : Prop :=
  ∃ u, OutlookKept s.1 u ∧
    (e.env.cacheRoom = true ↔
      e.cache.hasRoom Reply.checksumLength ((u.sess.resultsetSize + e.pkt.length) % 2 ^ 64)) ∧
    Ends (serverComQueryLogged e.pkt e.kind e.env) (u, s.2) () t

namespace Reply

variable {es past : List Reply} {e : Reply} {maxSize : Nat}

theorem sizeOf_append : sizeOf (past ++ [e]) = (sizeOf past + e.pkt.length) % 2 ^ 64 := by
  unfold sizeOf
  rw [map_append, sum_append, map_singleton, sum_singleton]
  omega

theorem progressOf_append : progressOf (past ++ [e]) =
    if resultsetStep e.kind (progressOf past) = .completed then .waiting
    else resultsetStep e.kind (progressOf past) := by
  unfold progressOf
  rw [foldl_append]
  rfl

theorem append_singleton_cut {pre post : List Reply} {x : Reply} :
    past ++ [e] = pre ++ x :: post ↔
      (pre = past ∧ x = e ∧ post = []) ∨ ∃ post', post = post' ++ [e] ∧
      past = pre ++ x :: post' := by
  constructor
  · intro h
    obtain rfl | ⟨post', y, rfl⟩ := eq_nil_or_concat post
    · obtain ⟨rfl, hx⟩ := append_inj' h rfl
      exact .inl ⟨rfl, (List.cons.inj hx).1.symm, rfl⟩
    · rw [concat_eq_append, ← cons_append, ← append_assoc] at h
      obtain ⟨rfl, hy⟩ := append_inj' h rfl
      exact .inr ⟨post', by rw [concat_eq_append, (List.cons.inj hy).1], rfl⟩
  · rintro (⟨rfl, rfl, rfl⟩ | ⟨post', rfl, rfl⟩)
    · rfl
    · rw [append_assoc, cons_append]

theorem small_append : Small maxSize (past ++ [e]) ↔ Small maxSize past ∧
    sizeOf (past ++ [e]) < maxSize := by
  constructor
  · intro h
    refine ⟨fun pre x post hpast => h pre x (post ++ [e]) ?_, h past e [] rfl⟩
    exact append_singleton_cut.2 (.inr ⟨post, rfl, hpast⟩)
  · rintro ⟨hpast, hlast⟩ pre x post hcut
    obtain ⟨rfl, rfl, -⟩ | ⟨post', -, hcut⟩ := append_singleton_cut.1 hcut
    · exact hlast
    · exact hpast pre x post' hcut

/-- What the packets so far have done. -/
structure Tracks (g : Glovars) (past : List Reply) (s : St × List EndAction) : Prop where
  progress : s.1.sess.resultsetProgress = progressOf past
  size : s.1.sess.resultsetSize = sizeOf past
  toCache : s.1.sess.queryToCache = true ↔ Small g.mysqlMaxResultsetSize past
  glovars : s.1.sh.glovars = g
  stored : .cached ∈ s.2 ↔
    ∃ pre x post, past = pre ++ x :: post ∧ Completes pre x ∧ Fits g.mysqlMaxResultsetSize pre x

theorem Tracks.step {s t : St × List EndAction} (h : Tracks g past s) (hstep : ReplyStep s e t) :
    Tracks g (past ++ [e]) t := by
  obtain ⟨u, hu, hroom, hcall⟩ := hstep
  obtain ⟨hout, hglovars, hstored⟩ := serverComQueryLogged_ends hcall
  have hprogress : u.sess.resultsetProgress = progressOf past :=
    (congrArg Outlook.progress hu.1).trans h.progress
  have hsize : u.sess.resultsetSize = sizeOf past := (congrArg Outlook.size hu.1).trans h.size
  have hcache : u.sess.queryToCache = s.1.sess.queryToCache := congrArg Outlook.toCache hu.1
  have hg : u.sh.glovars = g := hu.2.trans h.glovars
  have hsize' : (u.sess.resultsetSize + e.pkt.length) % 2 ^ 64 = sizeOf (past ++ [e]) := by
    rw [hsize, sizeOf_append]
  have htoCache : (u.sess.outlook.next u.sh.glovars.mysqlMaxResultsetSize e.kind
      e.pkt.length).toCache = true ↔ Small g.mysqlMaxResultsetSize (past ++ [e]) := by
    show (u.sess.queryToCache && decide ((u.sess.resultsetSize + e.pkt.length) % 2 ^ 64 < _)) =
      true ↔ _
    rw [hsize', hg, hcache, Bool.and_eq_true, decide_eq_true_iff, h.toCache, small_append]
  rw [hsize'] at hroom
  refine ⟨?_, ?_, ?_, hglovars.trans hg, ?_⟩
  · have hnext := congrArg Outlook.progress hout
    rw [progressOf_append, ← hprogress]
    exact hnext
  · have hnext := congrArg Outlook.size hout
    exact hnext.trans hsize'
  · have hnext := congrArg Outlook.toCache hout
    exact (show t.1.sess.queryToCache = _ from hnext) ▸ htoCache
  · rw [hstored, h.stored, htoCache, hroom, hprogress]
    constructor
    · rintro (⟨pre, x, post, rfl, hx⟩ | ⟨hcompletes, hsmall, hfits⟩)
      · exact ⟨pre, x, post ++ [e], append_singleton_cut.2 (.inr ⟨post, rfl, rfl⟩), hx⟩
      · exact ⟨past, e, [], rfl, hcompletes, hsmall, hfits⟩
    · rintro ⟨pre, x, post, hcut, hx⟩
      obtain ⟨rfl, rfl, -⟩ | ⟨post', -, hcut⟩ := append_singleton_cut.1 hcut
      · exact .inr ⟨hx.1, hx.2.1, hx.2.2⟩
      · exact .inl ⟨pre, x, post', hcut, hx⟩

theorem Tracks.run {s t : St × List EndAction} (h : Tracks g past s) (hrun : Run ReplyStep s es t) :
    Tracks g (past ++ es) t := by
  induction hrun generalizing past with
  | nil s =>
    rw [append_nil]
    exact h
  | cons hstep _ ih =>
    rw [append_cons]
    exact ih (h.step hstep)

theorem completes_err (herr : e.kind = .errPacket) : Completes past e := by
  unfold Completes
  rw [herr]
  cases progressOf past with
  | _ => rfl

end Reply

/-- A response that ends with an ERR packet is kept out of the cache exactly if it is too large, or
    does not fit into the cache, when that packet comes, and when any result before it has ended. -/
theorem errors_uncached_iff (st₀ st t : St) (p q : Pkt) (fill : Nat → Byte) (past : List Reply)
    (err : Reply) (log : List EndAction) (hquery : Ends (clientComQuery p fill) st₀ q st)
    (hcommand : st.sess.clientCommand = mysqlComQuery) (httl : 0 < st.sess.queryInfo.cacheTtl)
    (hmiss : st.sess.mysqlQueryCacheHit = false) (herr : err.kind = .errPacket)
    (hrun : Run ReplyStep (st, []) (past ++ [err]) (t, log)) :
    .cached ∉ log ↔ ¬ Reply.Fits st₀.sh.glovars.mysqlMaxResultsetSize past err ∧
      ∀ pre x post, past = pre ++ x :: post → Reply.Completes pre x →
        ¬ Reply.Fits st₀.sh.glovars.mysqlMaxResultsetSize pre x := by
  obtain ⟨hstart, hglovars⟩ := clientComQuery_outlook hquery hcommand httl hmiss
  have htracks : Reply.Tracks st₀.sh.glovars [] (st, []) := by
    refine ⟨congrArg Outlook.progress hstart, congrArg Outlook.size hstart, ?_, hglovars, ?_⟩
    · refine iff_of_true (congrArg Outlook.toCache hstart) fun past e rest h => ?_
      exact absurd h (by simp)
    · refine iff_of_false (nofun) ?_
      rintro ⟨pre, x, post, h, -⟩
      exact absurd h (by simp)
  have hstored := (htracks.run hrun).stored
  rw [hstored]
  constructor
  · intro hnone
    refine ⟨fun hfits => hnone ⟨past, err, [], rfl, Reply.completes_err herr, hfits⟩, ?_⟩
    rintro pre x post rfl hcompletes hfits
    exact hnone ⟨pre, x, post ++ [err], Reply.append_singleton_cut.2 (.inr ⟨post, rfl, rfl⟩),
      hcompletes, hfits⟩
  · rintro ⟨hlast, hpast⟩ ⟨pre, x, post, hcut, hcompletes, hfits⟩
    obtain ⟨rfl, rfl, -⟩ | ⟨post', -, hcut⟩ := Reply.append_singleton_cut.1 hcut
    · exact hlast hfits
    · exact hpast pre x post' hcut hcompletes hfits

/-! ### One ERR packet -/

/-- The session of user `u` has read the query `a`. -/
def askingCache : St :=
  { sh := oneServer.sh,
    sess := { mysqlSessionNew (fun _ => 0) oneServer.sh.glovars 0 5 with
      mysqlUsername := some (bytesOf "u"), mysqlSchemaCur := some (bytesOf "d"),
        clientCommand := mysqlComQuery } }

/-- The session once the query is on its way to the server. -/
def asked : St := (outcome (clientComQuery shortQuery fun _ => 0) askingCache).2

theorem asked_ends : ∃ q, Ends (clientComQuery shortQuery fun _ => 0) askingCache q asked := by
  have hok : (outcome (clientComQuery shortQuery fun _ => 0) askingCache).1.isOk = true := by
    decide +kernel
  cases hres : (outcome (clientComQuery shortQuery fun _ => 0) askingCache).1 with
  | error e =>
    rw [hres] at hok
    cases hok
  | ok q => exact ⟨q, Prod.ext hres rfl⟩

/-- The ERR packet 1205 (lock wait timeout), for a cache of this size. -/
def errReply (memory : Nat) (room : Bool) : Reply :=
  { pkt := { length := 7, data := [0x03, 0x00, 0x00, 0x01, 0xff, 0xb5, 0x04] },
    env := { SrvEnv.quiet with cacheRoom := room },
    cache := FdbHashesGroup.fdbHashesNew 1 10 memory 0 FdbHashesGroup.defaultVar }

theorem errReply_hasRoom (memory : Nat) (room : Bool) (n : Nat) :
    (errReply memory room).cache.hasRoom Reply.checksumLength n ↔ 32 + n + 72 ≤ memory := by
  show ((32 + n + 72 : Nat) : Int) ≤ (if (memory : Int) < 0 then 0 else (memory : Int) - 0) ↔ _
  omega

/-- The log of the call for the packet. -/
def errLog (memory : Nat) (room : Bool) : St × List EndAction :=
  (outcome (serverComQueryLogged (errReply memory room).pkt (errReply memory room).kind
    (errReply memory room).env) (asked, [])).2

theorem errReply_run {memory : Nat} (hroom : room = true ↔ 32 + 7 + 72 ≤ memory)
    (hok : (outcome (serverComQueryLogged (errReply memory room).pkt (errReply memory room).kind
      (errReply memory room).env)
      (asked, [])).1 = .ok ()) : Run ReplyStep (asked, []) ([] ++ [errReply memory room])
        (errLog memory room) := by
  refine .cons ⟨asked, .refl asked, ?_, Prod.ext hok rfl⟩ (.nil _)
  rw [errReply_hasRoom]
  exact hroom

theorem errors_uncached_full : EndAction.cached ∉ (errLog 100 false).2 := by
  obtain ⟨q, hquery⟩ := asked_ends
  have hrun : Run ReplyStep (asked, []) ([] ++ [errReply 100 false]) (errLog 100 false) :=
    errReply_run (by decide) (by decide +kernel)
  refine (errors_uncached_iff askingCache asked _ shortQuery q _ [] (errReply 100 false) _ hquery
    (by decide +kernel)
    (by decide +kernel) (by decide +kernel) (by decide) hrun).2 ⟨fun hfits => ?_,
    fun pre x post h => ?_⟩
  · have hroom := (errReply_hasRoom 100 false _).1 hfits.2
    omega
  · exact absurd h (by simp)

/-- With room in the cache the error is stored. -/
theorem errors_cached_alone : ∃ q, Ends (clientComQuery shortQuery fun _ => 0) askingCache q asked ∧
    asked.sess.clientCommand = mysqlComQuery ∧ 0 < asked.sess.queryInfo.cacheTtl ∧
    asked.sess.mysqlQueryCacheHit = false ∧ (errReply 1000 true).kind = .errPacket ∧
    Run ReplyStep (asked, []) [errReply 1000 true] (errLog 1000 true) ∧
    EndAction.cached ∈ (errLog 1000 true).2 := by
  obtain ⟨q, hquery⟩ := asked_ends
  exact ⟨q, hquery, by decide +kernel, by decide +kernel, by decide +kernel, by decide,
    errReply_run (by decide) (by decide +kernel), by decide +kernel⟩

end ProxySQL
