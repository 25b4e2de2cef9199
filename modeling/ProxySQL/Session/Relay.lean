/-
  ProxySQL.Session.Relay

  The relay of a response from the server to the client.

  The response to a query is one OK or ERR packet, or a result set: the column
  count, the column definitions, an EOF packet, the rows, and an EOF or ERR
  packet.  `server_COM_QUERY` sees one packet after the other, over any number of
  calls, and tells where the response ends from the first byte of each packet and
  from what came before it.
-/
import ProxySQL.Session.BackendSpec
import ProxySQL.Session.Effects
import ProxySQL.Lib.Run

namespace ProxySQL

open Lib List Option

/-! ## Responses -/

/-- The packet is complete, and its payload starts with `c`. -/
def Pkt.StartsWith (p : Pkt) (c : Byte) : Prop := p.WF ∧ p.data[sizeofMysqlHdr]? = some c

def IsOk (p : Pkt) : Prop := p.StartsWith 0x00

def IsErr (p : Pkt) : Prop := p.StartsWith 0xff

def IsEof (p : Pkt) : Prop := p.StartsWith 0xfe ∧ p.length - sizeofMysqlHdr < 9

/-- A row starts with the length of its first column.  No length starts with 0xff, and one that
    starts with 0xfe is followed by the eight bytes of a number. -/
def IsRow (p : Pkt) : Prop :=
  ∃ c, p.StartsWith c ∧ c ≠ 0xff ∧ (c = 0xfe → 9 ≤ p.length - sizeofMysqlHdr)

/-- The count of columns, which is not zero, or the definition of one, which starts with the length
    of a catalog name that is not empty. -/
def IsColumn (p : Pkt) : Prop := IsRow p ∧ ¬ p.StartsWith 0x00

/-- A response with at most one result set. -/
inductive Response : List Pkt → Prop where
  | ok {p : Pkt} : IsOk p → Response [p]
  | err {p : Pkt} : IsErr p → Response [p]
  | resultset {count eof last : Pkt} {defs rows : List Pkt} : IsColumn count →
      defs ≠ [] → (∀ p ∈ defs, IsColumn p) → IsEof eof → (∀ p ∈ rows, IsRow p) →
      IsEof last ∨ IsErr last → Response (count :: (defs ++ eof :: (rows ++ [last])))

/-- What `mysql_response` makes of a packet with a payload. -/
def Pkt.kind (p : Pkt) : MysqlResponseType := mysqlResponse (fun _ => 0) p

variable {p : Pkt} {g : ResultsetProgress} {pkts chunk : List Pkt} {cur : Nat}

theorem mysqlResponse_eq {c : Byte} (h : p.StartsWith c) (beyond : Nat → Byte) :
      mysqlResponse beyond p = if c = 0 then .okPacket
      else if c = 0xff then .errPacket
      else if c = 0xfe ∧ p.length - sizeofMysqlHdr < 9 then .eofPacket
      else .unknownPacket := by
  have hc : p.mem beyond sizeofMysqlHdr = c := by simp [Pkt.mem, List.getD, h.2]
  have hlen : sizeofMysqlHdr ≤ p.length := h.1.2
  simp only [mysqlResponse, hc, hlen, true_and]

theorem mysqlResponse_kind {c : Byte} (h : p.StartsWith c) (beyond : Nat → Byte) :
    mysqlResponse beyond p = p.kind := by
  rw [Pkt.kind, mysqlResponse_eq h, mysqlResponse_eq h]

theorem IsOk.kind (h : IsOk p) : p.kind = .okPacket := by
  rw [Pkt.kind, mysqlResponse_eq h, if_pos rfl]

theorem IsErr.kind (h : IsErr p) : p.kind = .errPacket := by
  rw [Pkt.kind, mysqlResponse_eq h, if_neg (by decide), if_pos rfl]

theorem IsEof.kind (h : IsEof p) : p.kind = .eofPacket := by
  rw [Pkt.kind, mysqlResponse_eq h.1, if_neg (by decide), if_neg (by decide), if_pos ⟨rfl, h.2⟩]

theorem IsRow.starts (h : IsRow p) : ∃ c, p.StartsWith c := h.imp fun _ hc => hc.1

theorem IsRow.kind (h : IsRow p) : p.kind = .okPacket ∨ p.kind = .unknownPacket := by
  obtain ⟨c, hc, herr, heof⟩ := h
  rw [Pkt.kind, mysqlResponse_eq hc, if_neg herr]
  split
  · exact .inl rfl
  · rw [if_neg fun hshort => by have := heof hshort.1; omega]
    exact .inr rfl

theorem IsColumn.kind (h : IsColumn p) : p.kind = .unknownPacket := by
  rcases h.1.kind with hok | hunknown
  · obtain ⟨c, hc, herr, heof⟩ := h.1
    have hzero : c ≠ 0 := fun h0 => h.2 (h0 ▸ hc)
    rw [Pkt.kind, mysqlResponse_eq hc, if_neg hzero, if_neg herr] at hok
    split at hok <;> cases hok
  · exact hunknown

/-! ## Where a response ends -/

/-- What may follow when `resultset_progress` is `g`. -/
inductive Rest : ResultsetProgress → List Pkt → Prop where
  | ok {p : Pkt} : IsOk p → Rest .waiting [p]
  | err {p : Pkt} : IsErr p → Rest .waiting [p]
  | count {p : Pkt} {ps : List Pkt} : IsColumn p → Rest .columnCount ps → Rest .waiting (p :: ps)
  | firstDef {p : Pkt} {ps : List Pkt} : IsColumn p → Rest .columnDefinitions ps →
      Rest .columnCount (p :: ps)
  | nextDef {p : Pkt} {ps : List Pkt} : IsColumn p → Rest .columnDefinitions ps →
      Rest .columnDefinitions (p :: ps)
  | eof {p : Pkt} {ps : List Pkt} : IsEof p → Rest .eof1 ps → Rest .columnDefinitions (p :: ps)
  | row {g : ResultsetProgress} {p : Pkt} {ps : List Pkt} : g = .eof1 ∨ g = .rows → IsRow p →
      Rest .rows ps → Rest g (p :: ps)
  | last {g : ResultsetProgress} {p : Pkt} : g = .eof1 ∨ g = .rows → IsEof p ∨ IsErr p → Rest g [p]

theorem rest_rows {rows : List Pkt} {last : Pkt} (hg : g = .eof1 ∨ g = .rows)
    (hrows : ∀ p ∈ rows, IsRow p) (hlast : IsEof last ∨ IsErr last) : Rest g (rows ++ [last]) := by
  induction rows generalizing g with
  | nil => exact .last hg hlast
  | cons p rows ih =>
    refine .row hg (hrows p mem_cons_self) (ih (.inr rfl) ?_)
    exact fun q hq => hrows q (mem_cons_of_mem _ hq)

theorem rest_defs {defs rest : List Pkt} {eof : Pkt} (hdefs : ∀ p ∈ defs, IsColumn p)
    (heof : IsEof eof) (hrest : Rest .eof1 rest) :
    Rest .columnDefinitions (defs ++ eof :: rest) := by
  induction defs with
  | nil => exact .eof heof hrest
  | cons p defs ih =>
    refine .nextDef (hdefs p mem_cons_self) (ih ?_)
    exact fun q hq => hdefs q (mem_cons_of_mem _ hq)

variable {ps past : List Pkt} {Q : Unit → St → Prop}

theorem Response.rest (h : Response ps) : Rest .waiting ps := by
  cases h with
  | ok hp => exact .ok hp
  | err hp => exact .err hp
  | @resultset count eof last defs rows hcount hne hdefs heof hrows hlast =>
    refine .count hcount ?_
    cases defs with
    | nil => exact absurd rfl hne
    | cons p defs =>
      refine .firstDef (hdefs p mem_cons_self) (rest_defs ?_ heof ?_)
      · exact fun q hq => hdefs q (mem_cons_of_mem _ hq)
      · exact rest_rows (.inl rfl) hrows hlast

/-- A packet completes the response exactly if nothing follows it. -/
theorem Rest.step (h : Rest g (p :: ps)) : (∃ c, p.StartsWith c) ∧
      ((ps = [] ∧ resultsetStep p.kind g = .completed) ∨
        (ps ≠ [] ∧ resultsetStep p.kind g ≠ .completed ∧ Rest (resultsetStep p.kind g) ps)) := by
  have hne : ∀ {g ps}, Rest g ps → ps ≠ [] := by
    intro g ps h
    cases h <;> simp
  -- a packet behind which the response goes on
  have hmore : (∃ c, p.StartsWith c) → ∀ g', Rest g' ps → g' ≠ .completed →
    resultsetStep p.kind g = g' →
      (∃ c, p.StartsWith c) ∧ ((ps = [] ∧ resultsetStep p.kind g = .completed) ∨
        (ps ≠ [] ∧ resultsetStep p.kind g ≠ .completed ∧ Rest (resultsetStep p.kind g) ps)) := by
    rintro hp _ hrest hopen rfl
    exact ⟨hp, .inr ⟨hne hrest, hopen, hrest⟩⟩
  cases h with
  | ok hp => exact ⟨⟨_, hp⟩, .inl ⟨rfl, by rw [hp.kind]; rfl⟩⟩
  | err hp => exact ⟨⟨_, hp⟩, .inl ⟨rfl, by rw [hp.kind]; rfl⟩⟩
  | count hp hrest => exact hmore hp.1.starts _ hrest (by decide) (by rw [hp.kind]; rfl)
  | firstDef hp hrest => exact hmore hp.1.starts _ hrest (by decide) (by rw [hp.kind]; rfl)
  | nextDef hp hrest => exact hmore hp.1.starts _ hrest (by decide) (by rw [hp.kind]; rfl)
  | eof hp hrest => exact hmore ⟨_, hp.1⟩ _ hrest (by decide) (by rw [hp.kind]; rfl)
  | row hg hp hrest =>
    -- a row that looks like an OK packet is taken for a row all the same
    refine hmore hp.starts _ hrest (by decide) ?_
    rcases hg with rfl | rfl <;> rcases hp.kind with hk | hk <;> rw [hk] <;> rfl
  | last hg hp =>
    rcases hp with hp | hp
    · refine ⟨⟨_, hp.1⟩, .inl ⟨rfl, ?_⟩⟩
      rcases hg with rfl | rfl <;> rw [hp.kind] <;> rfl
    · refine ⟨⟨_, hp⟩, .inl ⟨rfl, ?_⟩⟩
      rcases hg with rfl | rfl <;> rw [hp.kind] <;> rfl

/-! ## The release of backends -/

/-- What the loops over the backends need: every hostgroup has a backend, the current one has a
    stream, and the names of pools and connections are there. -/
structure Releasable (st : St) (cur : Nat) : Prop where
  current : st.sess.serverMybe = some cur
  myds : ∃ mybe myds, st.sess.mybes[cur]? = some mybe ∧ mybe.serverMyds = some myds
  hostgroups : st.sess.mybes.length = st.sh.glovars.mysqlHostgroups
  named : ∀ mybe ∈ st.sess.mybes, mybe.Named st.sh
  pools : st.sh.PoolsNamed

/-- Releasing backends changes the session in its backends only, and leaves them their streams. -/
structure OnlyMybes (st t : St) : Prop where
  sess : t.sess = { st.sess with mybes := t.sess.mybes }
  glovars : t.sh.glovars = st.sh.glovars
  myds : ∀ i : Nat, t.sess.mybes[i]?.bind MysqlBackend.serverMyds
    = st.sess.mybes[i]?.bind MysqlBackend.serverMyds

variable {st : St} {rest : List Pkt}

theorem OnlyMybes.trans {t u : St} (h : OnlyMybes st t) (h' : OnlyMybes t u) : OnlyMybes st u := by
  refine ⟨?_, h'.glovars.trans h.glovars, fun i => (h'.myds i).trans (h.myds i)⟩
  rw [h'.sess, h.sess]

theorem MysqlBackend.Named.kept {sh sh' : Shared} {mybe : MysqlBackend} (h : mybe.Named sh)
    (hk : ConnsKept sh sh') : mybe.Named sh' := by
  intro c hc
  obtain ⟨hlt, hnamed⟩ := h c hc
  refine ⟨Nat.lt_of_lt_of_le hlt hk.next, ?_⟩
  rw [hk.target hlt]
  exact hnamed

theorem bedetach_returns {i : Nat} (now : Nat → Nat) (h : Releasable st cur)
    (hi : i < st.sh.glovars.mysqlHostgroups) :
    Returns (bedetach i now) (fun _ t => Releasable t cur ∧ OnlyMybes st t) st := by
  have hlt : i < st.sess.mybes.length := by
    rw [h.hostgroups]
    exact hi
  have hmybe : st.sess.mybes[i]? = some st.sess.mybes[i] := getElem?_eq_getElem hlt
  have hnamed := h.named _ (mem_of_getElem? hmybe)
  obtain ⟨sh', mybe', hd, hpools⟩ := backendDetach_ok false now hnamed h.pools
  have hgave := backendDetach_gaveBack hd
  have heq := backendDetach_eq hd
  have hmyds : ∀ j : Nat, (st.sess.mybes.set i mybe')[j]?.bind MysqlBackend.serverMyds
      = st.sess.mybes[j]?.bind MysqlBackend.serverMyds := by
    intro j
    by_cases hj : i = j
    · subst hj
      rw [getElem?_set_self hlt, hmybe, bind_some, bind_some, heq]
    · rw [getElem?_set_ne hj]
  unfold bedetach
  rw [returns_bind, returns_getMybe hmybe]
  simp only [returns_bind, returns_get, hd, returns_lift_ok, returns_modifyShared, returns_setMybe]
  refine ⟨⟨h.current, ?_, ?_, fun mybe hmem => ?_, hpools⟩, ⟨rfl, hgave.servers.glovars, hmyds⟩⟩
  · -- the stream of the current backend is still there
    obtain ⟨mybe, myds, hcur, hsome⟩ := h.myds
    have hbind := hmyds cur
    rw [hcur, bind_some, hsome] at hbind
    obtain ⟨mybe1, hget, hsome1⟩ := bind_eq_some_iff.1 hbind
    exact ⟨mybe1, myds, hget, hsome1⟩
  · rw [length_set, hgave.servers.glovars]
    exact h.hostgroups
  · rcases mem_or_eq_of_mem_set hmem with hold | rfl
    · exact (h.named mybe hold).kept hgave.conns
    · intro c hc
      rcases hgave.cases with ⟨hsame, -⟩ | ⟨_, -, hnone, -⟩
      · exact hnamed.kept hgave.conns c (hsame ▸ hc)
      · rw [hnone] at hc
        cases hc

theorem detachBackends_returns (now : Nat → Nat) (h : Releasable st cur) :
    Returns (detachBackends now) (fun _ t => OnlyMybes st t) st := by
  unfold detachBackends forHostgroups
  have hrefl : OnlyMybes st st := ⟨rfl, rfl, fun _ => rfl⟩
  refine (Returns.forM (P := fun t => Releasable t cur ∧ OnlyMybes st t) (fun i hi t ht => ?_)
    ⟨h, hrefl⟩).mono fun _ _ ht => ht.2
  obtain ⟨hrel, honly⟩ := ht
  obtain ⟨mybe, myds, hcur, hsome⟩ := hrel.myds
  simp only [activeTransaction, returns_bind, returns_get, hrel.current, deref, returns_lift_ok,
    returns_getMybe hcur, hsome, returns_pure, returns_when]
  split
  · have hlt : i < t.sh.glovars.mysqlHostgroups := by
      rw [honly.glovars]
      exact mem_range.1 hi
    exact (bedetach_returns now hrel hlt).mono fun _ u hu => ⟨hu.1, honly.trans hu.2⟩
  · exact ⟨hrel, honly⟩

/-! ## One packet -/

/-- The packets that wait to be moved to the client's buffer. -/
def St.out (st : St) : List Pkt := st.sess.clientMyds.output.pkts

theorem collect_spec (maxSize : Nat) (p : Pkt) (s : Session) :
    ∃ x size cached rs, collect maxSize p s =
        { s.addOut x with resultsetSize := size, queryToCache := cached, resultset := rs } ∧
      s.resultset ++ [p] = x ++ rs ∧ (cached = true → s.queryToCache = true) ∧
      (¬ size < maxSize → rs = []) := by
  unfold collect
  dsimp only
  split
  case isTrue h =>
    refine ⟨[], (s.resultsetSize + p.length) % 2 ^ 64, s.queryToCache, s.resultset ++ [p],
      ?_, rfl, id, fun hsize => absurd h hsize⟩
    simp [Session.addOut, MysqlDataStream.addOut]
  case isFalse h =>
    exact ⟨s.resultset ++ [p], (s.resultsetSize + p.length) % 2 ^ 64, false, [], rfl, by simp,
      fun hc => (Bool.false_ne_true hc).elim, fun _ => rfl⟩

/-- The statistics of the query, where they are kept, can be stored. -/
def StatsReady (st : St) : Prop :=
  st.sh.glovars.mysqlQueryStatistics = true →
    ∃ e, st.sess.queryInfo.queryStats = .live e ∧ e.username.isSome ∧ e.schemaname.isSome

/-- A query whose result is to be cached has a checksum. -/
def CacheReady (st : St) : Prop :=
  st.sess.queryToCache = true → st.sess.queryInfo.queryChecksum.isSome

theorem syncServerBytesAtCmd_returns
    (h : ∀ sent recv, Q () { st with sess := { st.sess with
      bytesSentAtCmd := sent, bytesRecvAtCmd := recv } }) :
    Returns syncServerBytesAtCmd Q st := by
  unfold syncServerBytesAtCmd
  rw [returns_modifySess]
  cases hs : st.sess.serverMyds with
  | none => exact h 0 0
  | some myds => exact h myds.bytesSent myds.bytesRecv

theorem queryStatisticsSet_returns {e : QrHashEntry}
    (hlive : st.sess.queryInfo.queryStats = .live e) (hu : e.username.isSome)
    (hs : e.schemaname.isSome)
    (h : Q () { st with sess := { st.sess with
      queryInfo := { st.sess.queryInfo with queryStats := .null } } }) :
    Returns queryStatisticsSet Q st := by
  obtain ⟨u, hu⟩ := isSome_iff_exists.1 hu
  obtain ⟨s, hs⟩ := isSome_iff_exists.1 hs
  unfold queryStatisticsSet
  simp only [returns_bind, returns_get, hlive, hu, hs, deref, returns_lift_ok, returns_modifySess]
  exact h

theorem cacheResult_returns (room : Bool) (fill : Nat → Byte) (h : CacheReady st) :
    Returns (cacheResult room fill) (fun _ t => t.sess = st.sess) st := by
  unfold cacheResult
  rw [returns_bind, returns_get, returns_when]
  split
  case isTrue hcache =>
    obtain ⟨fed, hfed⟩ := isSome_iff_exists.1 (h hcache)
    simp only [hfed, deref, returns_bind, returns_lift_ok, returns_when,
      returns_modifyShared, ite_self]
  case isFalse => rfl

/-- What was collected, and what is passed on, is the same in both. -/
structure SameRelay (s s' : Session) : Prop where
  size : s'.resultsetSize = s.resultsetSize
  resultset : s'.resultset = s.resultset
  out : s'.clientMyds.output.pkts = s.clientMyds.output.pkts

/-- The end of a response passes on what was collected, unless it was passed on before. -/
structure Completes (st t : St) : Prop where
  fits : st.sess.resultsetSize < st.sh.glovars.mysqlMaxResultsetSize →
    t.out = st.out ++ st.sess.resultset ∧ t.sess.resultset = []
  large : ¬ st.sess.resultsetSize < st.sh.glovars.mysqlMaxResultsetSize →
    t.out = st.out ∧ t.sess.resultset = st.sess.resultset
  waiting : t.sess.resultsetProgress = .waiting

theorem Completes.of_flush {sh : Shared} {s : Session} (h : SameRelay st.sess s)
    (hwait : s.resultsetProgress = .waiting) :
    Completes st { sh := sh, sess := flushResultset st.sh.glovars.mysqlMaxResultsetSize s } := by
  constructor
  · intro hlt
    simp only [flushResultset, h.size, hlt, if_true, Session.addOut, MysqlDataStream.addOut, St.out,
      h.resultset, h.out, and_self]
  · intro hge
    simp only [flushResultset, h.size, hge, if_false, St.out, h.resultset, h.out, and_self]
  · unfold flushResultset
    split
    · exact hwait
    · exact hwait

theorem completeResultset_returns (env : SrvEnv) (hstats : StatsReady st) (hcache : CacheReady st) :
    Returns (completeResultset env) (fun _ t => Completes st t) st := by
  -- whatever the statistics did, the response has not moved, and the rest returns
  have hrest : ∀ t : St, SameRelay st.sess t.sess → t.sess.resultsetProgress = .waiting →
      CacheReady t → Returns (do
        syncServerBytesAtCmd
        modifySess fun s => { s with sendToSlave := false }
        cacheResult env.cacheRoom env.fill
        modifySess (flushResultset st.sh.glovars.mysqlMaxResultsetSize))
          (fun _ t => Completes st t) t := by
    intro t hsame hwait hready
    rw [returns_bind]
    refine syncServerBytesAtCmd_returns fun sent recv => ?_
    rw [returns_bind, returns_modifySess]
    refine Returns.bind (cacheResult_returns env.cacheRoom env.fill ?_) fun _ u hu => ?_
    · exact hready
    · rw [returns_modifySess, hu]
      exact Completes.of_flush ⟨hsame.size, hsame.resultset, hsame.out⟩ hwait
  unfold completeResultset
  rw [returns_bind, returns_get, returns_bind, returns_modifySess, returns_bind, returns_when]
  split
  case isTrue hstat =>
    obtain ⟨e, hlive, hu, hs⟩ := hstats hstat
    exact queryStatisticsSet_returns hlive hu hs (hrest _ ⟨rfl, rfl, rfl⟩ rfl hcache)
  case isFalse => exact hrest _ ⟨rfl, rfl, rfl⟩ rfl hcache

/-- The client waits for the answer to a query, `g` is the progress of the response, and the current
    backend holds the packets `pkts`. -/
structure Answering (st : St) (g : ResultsetProgress) (cur : Nat) (pkts : List Pkt) : Prop
    extends Releasable st cur where
  command : st.sess.clientCommand = mysqlComQuery
  progress : st.sess.resultsetProgress = g
  input : (st.sess.mybes[cur]?.bind MysqlBackend.serverMyds).map (·.input.pkts) = some pkts
  cache : CacheReady st

/-- A response is being relayed, and the statistics of the query can be stored. -/
structure Relaying (st : St) (g : ResultsetProgress) (cur : Nat) (pkts : List Pkt) : Prop
    extends Answering st g cur pkts where
  stats : StatsReady st

/-- What one packet does: it goes behind the packets collected so far, and a first part of these is
    passed on. -/
structure Relays (st t : St) (g : ResultsetProgress) (cur : Nat) (p : Pkt) (pkts : List Pkt) :
    Prop where
  order : ∃ x, t.out = st.out ++ x ∧ st.sess.resultset ++ [p] = x ++ t.sess.resultset
  completed : resultsetStep p.kind g = .completed →
    t.sess.resultset = [] ∧ t.sess.resultsetProgress = .waiting
  continues : resultsetStep p.kind g ≠ .completed → Relaying t (resultsetStep p.kind g) cur pkts

theorem endsWithStatus_completed {r : MysqlResponseType} (h : endsWithStatus r g = true) :
    resultsetStep r g = .completed := by
  revert h
  cases r <;> cases g <;> decide

theorem completes_relays {v : St} (env : SrvEnv) (h : Relaying st g cur pkts)
    (hlast : resultsetStep p.kind g = .completed)
    (hv : OnlyMybes { st with sess := { st.sess with resultsetProgress := .completed } } v) :
    Returns (do
      modifySess (collect st.sh.glovars.mysqlMaxResultsetSize p)
      completeResultset env) (fun _ t => Relays st t g cur p pkts) v := by
  obtain ⟨x, size, cached, rs, hcollect, horder, hcached, hlarge⟩ :=
    collect_spec st.sh.glovars.mysqlMaxResultsetSize p v.sess
  have hsess := hv.sess
  have hglo : v.sh.glovars = st.sh.glovars := hv.glovars
  rw [returns_bind, returns_modifySess, hcollect]
  refine (completeResultset_returns env ?_ ?_).mono fun _ t ht => ?_
  · intro hstat
    rw [hsess]
    exact h.stats (hglo ▸ hstat)
  · intro hc
    rw [hsess] at hcached ⊢
    exact h.cache (hcached hc)
  · have hout : v.out = st.out := by rw [St.out, hsess, St.out]
    have hrs : v.sess.resultset = st.sess.resultset := by rw [hsess]
    rw [hrs] at horder
    refine ⟨?_, fun _ => ⟨?_, ht.waiting⟩, fun hne => absurd hlast hne⟩
    · by_cases hfits : size < v.sh.glovars.mysqlMaxResultsetSize
      · obtain ⟨hto, htr⟩ := ht.fits hfits
        refine ⟨x ++ rs, ?_, ?_⟩
        · rw [hto, ← append_assoc, ← hout]
          rfl
        · rw [htr, append_nil, horder]
      · obtain ⟨hto, htr⟩ := ht.large hfits
        refine ⟨x, ?_, ?_⟩
        · rw [hto, ← hout]
          rfl
        · rw [htr, horder]
    · by_cases hfits : size < v.sh.glovars.mysqlMaxResultsetSize
      · exact (ht.fits hfits).2
      · rw [(ht.large hfits).2]
        exact hlarge (hglo ▸ hfits)

theorem serverComQuery_relays (p : Pkt) (env : SrvEnv) (h : Relaying st g cur pkts) :
    Returns (serverComQuery p p.kind env) (fun _ t => Relays st t g cur p pkts) st := by
  unfold serverComQuery
  rw [returns_bind, returns_get, h.progress, returns_bind, returns_modifySess]
  by_cases hlast : resultsetStep p.kind g = .completed
  · rw [hlast, returns_bind, returns_when]
    split
    · have hrel : Releasable { st with sess := { st.sess with resultsetProgress := .completed } }
        cur :=
        ⟨h.current, h.myds, h.hostgroups, h.named, h.pools⟩
      exact (detachBackends_returns env.now hrel).mono fun _ v hv => completes_relays env h hlast hv
    · exact completes_relays env h hlast ⟨rfl, rfl, fun _ => rfl⟩
  · have hopen : endsWithStatus p.kind g ≠ true := fun hs => hlast (endsWithStatus_completed hs)
    obtain ⟨x, size, cached, rs, hcollect, horder, hcached, -⟩ :=
      collect_spec st.sh.glovars.mysqlMaxResultsetSize p
        { st.sess with resultsetProgress := resultsetStep p.kind g }
    rw [returns_bind, returns_when, if_neg hopen, returns_bind, returns_modifySess, hcollect,
      returns_when, if_neg hlast]
    refine ⟨⟨x, rfl, horder⟩, fun hc => absurd hc hlast, fun _ => ?_⟩
    exact ⟨⟨⟨h.current, h.myds, h.hostgroups, h.named, h.pools⟩, h.command, rfl, h.input,
      fun hc => h.cache (hcached hc)⟩, h.stats⟩

/-- Whether the stream of the current backend is in a transaction. -/
def St.inTrans (st : St) (cur : Nat) : Option Bool :=
  (st.sess.mybes[cur]?.bind MysqlBackend.serverMyds).map (·.activeTransaction)

/-- What taking a packet from the current backend does: the packet is off the array, and an OK or
    EOF packet sets the transaction flag. -/
structure Takes (st t : St) (g : ResultsetProgress) (cur : Nat) (p : Pkt) (pkts : List Pkt)
    (beyond : Nat → Byte) : Prop where
  answering : Answering t g cur pkts
  sess : t.sess = { st.sess with mybes := t.sess.mybes }
  sh : t.sh = st.sh
  inTrans : mysqlResponse beyond p = .okPacket ∨ mysqlResponse beyond p = .eofPacket →
    t.inTrans cur = some (isTransactionActive beyond p)

theorem takeServerPkt_takes (env : SrvEnv) (h : Answering st g cur (p :: pkts)) :
    Returns (takeServerPkt env) (fun a t => a = (p, mysqlResponse env.beyond p) ∧
      Takes st t g cur p pkts env.beyond) st := by
  obtain ⟨mybe, myds, hcur, hsome⟩ := h.myds
  have hinput : myds.input.pkts = p :: pkts := by
    have hin := h.input
    rw [hcur, bind_some, hsome, map_some] at hin
    exact some.inj hin
  have hlt : cur < st.sess.mybes.length := (List.getElem?_eq_some_iff.1 hcur).1
  unfold takeServerPkt
  rw [returns_bind, returns_get, h.current, returns_bind, deref, returns_lift_ok, returns_bind,
    returns_getMybe hcur, hsome, returns_bind, deref, returns_lift_ok, hinput]
  rw [returns_bind, returns_setMybe, returns_pure]
  refine ⟨rfl, ?_⟩
  refine ⟨⟨⟨h.current, ?_, ?_, ?_, h.pools⟩, h.command, h.progress, ?_, h.cache⟩, rfl, rfl,
    fun hr => ?_⟩
  · exact ⟨_, _, getElem?_set_self hlt, rfl⟩
  · rw [length_set]
    exact h.hostgroups
  · intro other hmem
    rcases mem_or_eq_of_mem_set hmem with hold | rfl
    · exact h.named other hold
    · exact h.named mybe (mem_of_getElem? hcur)
  · rw [getElem?_set_self hlt]
    rfl
  · rw [St.inTrans, getElem?_set_self hlt, bind_some, map_some, if_pos hr]

theorem takeServerPkt_returns (env : SrvEnv) (h : Relaying st g cur (p :: pkts)) :
    Returns (takeServerPkt env) (fun a t => a = (p, mysqlResponse env.beyond p) ∧ t.out = st.out ∧
      t.sess.resultset = st.sess.resultset ∧ Relaying t g cur pkts) st := by
  refine (takeServerPkt_takes env h.toAnswering).mono fun a t ht =>
    ⟨ht.1, ?_, ?_, ht.2.answering, ?_⟩
  · rw [St.out, ht.2.sess, St.out]
  · rw [ht.2.sess]
  · intro hstat
    rw [ht.2.sess]
    exact h.stats (ht.2.sh ▸ hstat)

theorem processServerPkt_relays (env : SrvEnv) (h : Relaying st g cur (p :: pkts))
    (hp : ∃ c, p.StartsWith c) :
    Returns (processServerPkt env) (fun _ t => Relays st t g cur p pkts) st := by
  obtain ⟨c, hc⟩ := hp
  refine (takeServerPkt_returns env h).bind fun a u hu => ?_
  obtain ⟨rfl, hout, hrs, hrel⟩ := hu
  dsimp only [answerPkt]
  rw [returns_bind, returns_get, hrel.command, mysqlResponse_kind hc]
  refine (serverComQuery_relays p env hrel).mono fun _ t ht => ⟨?_, ht.completed, ht.continues⟩
  rw [← hout, ← hrs]
  exact ht.order

/-! ## One call -/

/-- `resultset_progress` after the packets `ps`. -/
def progressAfter (g : ResultsetProgress) (ps : List Pkt) : ResultsetProgress :=
  ps.foldl (fun g p => resultsetStep p.kind g) g

theorem progressAfter_append (g : ResultsetProgress) (ps qs : List Pkt) :
    progressAfter g (ps ++ qs) = progressAfter (progressAfter g ps) qs := foldl_append ..

theorem Relaying.serverMyds (h : Relaying st g cur pkts) :
    ∃ myds, st.sess.serverMyds = some myds ∧ myds.input.pkts = pkts := by
  obtain ⟨myds, hmyds, hpkts⟩ := map_eq_some_iff.1 h.input
  refine ⟨myds, ?_, hpkts⟩
  unfold Session.serverMyds
  rw [h.current]
  exact hmyds

/-- What a call of `process_server_pkts` does with the packets `chunk`, if `rest` is still to
    come. -/
structure RelaysChunk (st t : St) (g : ResultsetProgress) (cur : Nat) (chunk rest : List Pkt) :
    Prop where
  order : ∃ x, t.out = st.out ++ x ∧ st.sess.resultset ++ chunk = x ++ t.sess.resultset
  completed : rest = [] → t.sess.resultset = [] ∧ t.sess.resultsetProgress = .waiting
  continues : rest ≠ [] → Relaying t (progressAfter g chunk) cur [] ∧
    Rest (progressAfter g chunk) rest

theorem processServerPktsFrom_relays (env : Nat → SrvEnv) (h : Relaying st g cur chunk)
    (hrest : Rest g (chunk ++ rest)) :
    Returns (processServerPktsFrom chunk.length env)
      (fun _ t => RelaysChunk st t g cur chunk rest) st := by
  -- one packet of the chunk at a time; only the last one of the response ends it
  induction chunk generalizing st g env with
  | nil =>
    refine (returns_pure _ _ _).2 ⟨⟨[], by simp⟩, fun hnil => ?_, fun _ => ⟨h, hrest⟩⟩
    subst hnil
    cases hrest
  | cons p chunk ih =>
    obtain ⟨hp, hstep⟩ := hrest.step
    obtain ⟨myds, hmyds, hpkts⟩ := h.serverMyds
    rw [length_cons, processServerPktsFrom, returns_bind, returns_get, hmyds]
    dsimp only
    rw [hpkts]
    refine (processServerPkt_relays (env 0) h hp).bind fun _ u hu => ?_
    obtain ⟨x, hout, hcollected⟩ := hu.order
    rcases hstep with ⟨hnil, hlast⟩ | ⟨hne, hopen, hrest'⟩
    · obtain ⟨rfl, rfl⟩ := append_eq_nil_iff.1 hnil
      refine (returns_pure _ _ _).2 ⟨⟨x, hout, hcollected⟩, fun _ => hu.completed hlast,
        fun hne => ?_⟩
      exact absurd rfl hne
    · refine (ih (fun k => env (k + 1)) (hu.continues hopen) hrest').mono fun _ t ht => ?_
      obtain ⟨y, hout', hcollected'⟩ := ht.order
      refine ⟨⟨x ++ y, ?_, ?_⟩, ht.completed, ht.continues⟩
      · rw [hout', hout, append_assoc]
      · calc st.sess.resultset ++ p :: chunk = (st.sess.resultset ++ [p]) ++ chunk := by simp
          _ = x ++ (u.sess.resultset ++ chunk) := by rw [hcollected, append_assoc]
          _ = (x ++ y) ++ t.sess.resultset := by rw [hcollected', append_assoc]

theorem processServerPkts_relays (env : Nat → SrvEnv) (h : Relaying st g cur chunk)
    (hrest : Rest g (chunk ++ rest)) :
    Returns (processServerPkts env) (fun _ t => RelaysChunk st t g cur chunk rest) st := by
  obtain ⟨myds, hmyds, hpkts⟩ := h.serverMyds
  unfold processServerPkts
  rw [returns_bind, returns_get, hmyds]
  dsimp only
  rw [hpkts]
  exact processServerPktsFrom_relays env h hrest

/-! ## A whole response -/

/-- The session between two calls of `process_server_pkts`, and the packets passed on so far. -/
structure RelayState where
  st : St
  sent : List Pkt

/-- A call of `process_server_pkts` that finds the packets `e.1`.  What the handler did before it
    (packets were received, others were moved to the client's buffer) is left open, as long as it
    did not touch the response. -/
def RelayStep (cur : Nat) (s : RelayState) (e : List Pkt × (Nat → SrvEnv))
    (t : RelayState) : Prop :=
  ∃ u x, Relaying u s.st.sess.resultsetProgress cur e.1 ∧ u.sess.resultset = s.st.sess.resultset ∧
    Ends (processServerPkts e.2) u () t.st ∧ t.st.out = u.out ++ x ∧ t.sent = s.sent ++ x

/-- The packets `past` have come, and `rest` is still to come. -/
structure RelayInv (past rest : List Pkt) (s : RelayState) : Prop where
  order : s.sent ++ s.st.sess.resultset = past
  completed : rest = [] → s.st.sess.resultset = [] ∧ s.st.sess.resultsetProgress = .waiting
  continues : rest ≠ [] → s.st.sess.resultsetProgress = progressAfter .waiting past ∧
    Rest (progressAfter .waiting past) rest

theorem processServerPkts_nil (env : Nat → SrvEnv) (h : Relaying st g cur []) :
    Ends (processServerPkts env) st () st := by
  obtain ⟨myds, hmyds, hpkts⟩ := h.serverMyds
  refine ends_bind.2 ⟨st, st, rfl, ?_⟩
  rw [hmyds]
  dsimp only
  rw [hpkts]
  rfl

variable {s : RelayState}

variable {t : RelayState}

theorem RelayInv.step {env : Nat → SrvEnv} (h : RelayInv past (chunk ++ rest) s)
    (hstep : RelayStep cur s (chunk, env) t) : RelayInv (past ++ chunk) rest t := by
  obtain ⟨u, x, hrel, hrs, hends, hout, hsent⟩ := hstep
  by_cases hchunk : chunk = []
  · -- no packet: the call does nothing
    subst hchunk
    obtain ⟨-, rfl⟩ := Prod.mk.inj (Eq.trans (processServerPkts_nil env hrel).symm hends)
    obtain rfl : x = [] := by simpa using hout
    have hprogress : t.st.sess.resultsetProgress = s.st.sess.resultsetProgress := hrel.progress
    rw [append_nil] at hsent ⊢
    refine ⟨?_, ?_, ?_⟩
    · rw [hsent, hrs]
      exact h.order
    · rw [hrs, hprogress]
      exact h.completed
    · rw [hprogress]
      exact h.continues
  · obtain ⟨hprogress, hrest⟩ := h.continues (append_ne_nil_of_left_ne_nil hchunk rest)
    rw [hprogress] at hrel
    have hc := (processServerPkts_relays env hrel hrest).of_ends hends
    obtain ⟨y, hout', hcollected⟩ := hc.order
    obtain rfl : x = y := append_cancel_left (hout.symm.trans hout')
    refine ⟨?_, hc.completed, fun hne => ?_⟩
    · rw [hsent, append_assoc, ← hcollected, hrs, ← append_assoc, h.order]
    · rw [progressAfter_append]
      obtain ⟨hrel', hrest'⟩ := hc.continues hne
      exact ⟨hrel'.progress, hrest'⟩

theorem RelayInv.run {es : List (List Pkt × (Nat → SrvEnv))}
    (hrun : Run (RelayStep cur) s es t) (h : RelayInv past ((es.map Prod.fst).flatten ++ rest) s) :
    RelayInv (past ++ (es.map Prod.fst).flatten) rest t := by
  induction hrun generalizing past with
  | nil s =>
    rw [map_nil, flatten_nil, append_nil]
    exact h
  | @cons s t u e es hstep hrun ih =>
    rw [map_cons, flatten_cons, append_assoc] at h
    rw [map_cons, flatten_cons, ← append_assoc]
    exact ih (h.step hstep)

theorem Rest.after {pre post : List Pkt} (h : Rest g (pre ++ p :: post)) :
    Rest (progressAfter g pre) (p :: post) := by
  induction pre generalizing g with
  | nil => exact h
  | cons q pre ih =>
    rcases h.step.2 with ⟨hnil, -⟩ | ⟨-, -, hrest⟩
    · simp at hnil
    · exact ih hrest

/-- A packet of a response completes it exactly if it is the last one. -/
theorem Rest.completed_iff {pre post : List Pkt} (h : Rest g (pre ++ p :: post)) :
    resultsetStep p.kind (progressAfter g pre) = .completed ↔ post = [] := by
  rcases h.after.step.2 with ⟨hnil, hlast⟩ | ⟨hne, hopen, -⟩
  · exact iff_of_true hlast hnil
  · exact iff_of_false hopen hne

/-- Wherever the packets of a response are cut into calls of `process_server_pkts`, they are passed
    on in order and once each; the response is complete at its last packet and not before. -/
theorem resultset_relay {ps rest : List Pkt} (hps : Response ps) {cur : Nat} {s t : RelayState}
    (hprogress : s.st.sess.resultsetProgress = .waiting) (hresultset : s.st.sess.resultset = [])
    (hsent : s.sent = []) {es : List (List Pkt × (Nat → SrvEnv))}
    (hrun : Run (RelayStep cur) s es t) (hsplit : ps = (es.map Prod.fst).flatten ++ rest) :
    t.sent ++ t.st.sess.resultset = (es.map Prod.fst).flatten ∧
      (rest ≠ [] →
        t.st.sess.resultsetProgress = progressAfter .waiting (es.map Prod.fst).flatten ∧
        t.st.sess.resultsetProgress ≠ .completed) ∧
      (rest = [] → t.sent = ps ∧ t.st.sess.resultset = [] ∧
        t.st.sess.resultsetProgress = .waiting) ∧
      -- the next call returns, whichever packets it finds
      (∀ chunk rest' env u, rest = chunk ++ rest' →
        Relaying u t.st.sess.resultsetProgress cur chunk →
        ∃ v, Ends (processServerPkts env) u () v) ∧
      ∀ pre p post, ps = pre ++ p :: post →
        (resultsetStep p.kind (progressAfter .waiting pre) = .completed ↔ post = []) := by
  have hne : ∀ {g ps}, Rest g ps → g ≠ .completed := by
    intro g ps h
    cases h with
    | row hg _ _ => rcases hg with rfl | rfl <;> decide
    | last hg _ => rcases hg with rfl | rfl <;> decide
    | _ => decide
  have hinv : RelayInv [] ((es.map Prod.fst).flatten ++ rest) s := by
    refine ⟨by rw [hsent, hresultset, append_nil], fun _ => ⟨hresultset, hprogress⟩, fun _ => ?_⟩
    rw [← hsplit]
    exact ⟨hprogress, hps.rest⟩
  have hend := RelayInv.run hrun hinv
  rw [nil_append] at hend
  refine ⟨hend.order, ?_, ?_, ?_, ?_⟩
  · intro hrest
    obtain ⟨hp, hr⟩ := hend.continues hrest
    exact ⟨hp, hp ▸ hne hr⟩
  · intro hrest
    obtain ⟨hrs, hp⟩ := hend.completed hrest
    have horder := hend.order
    rw [hrs, append_nil] at horder
    refine ⟨?_, hrs, hp⟩
    rw [horder, hsplit, hrest, append_nil]
  · intro chunk rest' env u hchunk hrel
    by_cases hnil : chunk = []
    · subst hnil
      exact ⟨u, processServerPkts_nil env hrel⟩
    · obtain ⟨hp, hr⟩ := hend.continues (hchunk ▸ append_ne_nil_of_left_ne_nil hnil rest')
      rw [hp] at hrel
      rw [hchunk] at hr
      obtain ⟨_, v, hv, -⟩ := (processServerPkts_relays env hrel hr).exists_ends
      exact ⟨v, hv⟩
  · intro pre p post hsplit
    have hrest := hps.rest
    rw [hsplit] at hrest
    exact hrest.completed_iff

/-- The packets `ps` have arrived from the server. -/
def St.receive (st : St) (cur : Nat) (ps : List Pkt) : St :=
  { st with sess := { st.sess with mybes := st.sess.mybes.modify cur fun mybe =>
      { mybe with serverMyds := mybe.serverMyds.map fun myds =>
          { myds with input := { myds.input with pkts := ps } } } } }

theorem Answering.receive (h : Answering st g cur pkts) (ps : List Pkt) :
    Answering (st.receive cur ps) g cur ps := by
  obtain ⟨mybe, myds, hcur, hsome⟩ := h.myds
  have hget : (st.receive cur ps).sess.mybes[cur]? = some { mybe with
      serverMyds := some { myds with input := { myds.input with pkts := ps } } } := by
    simp [St.receive, hcur, hsome]
  refine ⟨⟨h.current, ⟨_, _, hget, rfl⟩, ?_, ?_, h.pools⟩, h.command, h.progress, ?_, h.cache⟩
  · rw [St.receive, length_modify]
    exact h.hostgroups
  · intro other hmem c hc
    obtain ⟨i, hi⟩ := mem_iff_getElem?.1 hmem
    simp only [St.receive, getElem?_modify] at hi
    obtain ⟨old, hold, rfl⟩ := map_eq_some_iff.1 hi
    have hnamed := h.named old (mem_of_getElem? hold)
    split at hc
    · exact hnamed c hc
    · exact hnamed c hc
  · rw [hget]
    rfl

theorem Relaying.receive (h : Relaying st g cur pkts) (ps : List Pkt) :
    Relaying (st.receive cur ps) g cur ps :=
  ⟨h.toAnswering.receive ps, h.stats⟩

/-- However a response is cut into chunks, there is a run that receives these. -/
theorem exists_relayRun (env : Nat → SrvEnv) {chunks : List (List Pkt)} (hne : ∀ c ∈ chunks, c ≠ [])
    (hrel : Relaying s.st g cur []) (hrest : Rest g (chunks.flatten ++ rest)) :
    ∃ t, Run (RelayStep cur) s (chunks.map fun c => (c, env)) t := by
  induction chunks generalizing s g with
  | nil => exact ⟨s, .nil s⟩
  | cons c chunks ih =>
    rw [flatten_cons, append_assoc] at hrest
    obtain ⟨_, v, hends, hv⟩ := (processServerPkts_relays env (hrel.receive c) hrest).exists_ends
    obtain ⟨x, hout, -⟩ := hv.order
    have hstep : RelayStep cur s (c, env) ⟨v, s.sent ++ x⟩ :=
      ⟨s.st.receive cur c, x, hrel.progress ▸ hrel.receive c, rfl, hends, hout, rfl⟩
    by_cases hmore : chunks.flatten ++ rest = []
    · cases chunks with
      | nil => exact ⟨_, .cons hstep (.nil _)⟩
      | cons d chunks =>
        -- nothing is left, so there is no further chunk
        have hd := hne d (mem_cons_of_mem _ mem_cons_self)
        simp [hd] at hmore
    · obtain ⟨hrel', hrest'⟩ := hv.continues hmore
      obtain ⟨t, hrun⟩ :=
        @ih _ ⟨v, s.sent ++ x⟩ (fun d hd => hne d (mem_cons_of_mem _ hd)) hrel' hrest'
      exact ⟨t, .cons hstep hrun⟩

/-- A session whose first backend is to answer a query. -/
def askedOne : St :=
  let g := { glovarsDefault with mysqlHostgroups := 2, mysqlMaxResultsetSize := 12 }
  let mybe := { mysqlBackendNew with serverMyds := some (mysqlDataStreamNew (fun _ => 0) 1024 7) }
  { sh := Shared.init g id fun _ password => password,
    sess := { mysqlSessionNew (fun _ => 0) g 0 5 with
      clientCommand := mysqlComQuery, serverMybe := some 0, mybes := [mybe, mysqlBackendNew] } }

theorem relaying_askedOne : Relaying askedOne .waiting 0 [] := by
  refine ⟨⟨⟨rfl, ⟨_, _, rfl, rfl⟩, rfl, ?_, ?_⟩, rfl, rfl, rfl, ?_⟩, ?_⟩
  · intro mybe hmem c hc
    obtain rfl | rfl := mem_pair.1 hmem <;> cases hc
  · intro scope
    cases scope <;> exact fun _ hmcp => nomatch hmcp
  · exact nofun
  · exact nofun

/-- One column and a row whose value is the empty string; the response grows beyond the limit of
    12 bytes at the EOF packet. -/
def oneRow : List Pkt :=
  [⟨5, [1, 0, 0, 1, 1]⟩, ⟨6, [2, 0, 0, 2, 3, 100]⟩, ⟨9, [5, 0, 0, 3, 0xfe, 0, 0, 2, 0]⟩,
    ⟨5, [1, 0, 0, 4, 0]⟩, ⟨9, [5, 0, 0, 5, 0xfe, 0, 0, 2, 0]⟩]

instance (p : Pkt) (c : Byte) : Decidable (p.StartsWith c) := by
  unfold Pkt.StartsWith Pkt.WF
  infer_instance

theorem oneRow_parts : IsColumn ⟨5, [1, 0, 0, 1, 1]⟩ ∧
    (∀ p ∈ [(⟨6, [2, 0, 0, 2, 3, 100]⟩ : Pkt)], IsColumn p) ∧
    IsEof ⟨9, [5, 0, 0, 3, 0xfe, 0, 0, 2, 0]⟩ ∧ ∀ p ∈ [(⟨5, [1, 0, 0, 4, 0]⟩ : Pkt)], IsRow p := by
  refine ⟨⟨⟨1, by decide, by decide, by decide⟩, by decide⟩, ?_, ⟨by decide, by decide⟩, ?_⟩
  · intro p hp
    obtain rfl := mem_singleton.1 hp
    exact ⟨⟨3, by decide, by decide, by decide⟩, by decide⟩
  · intro p hp
    obtain rfl := mem_singleton.1 hp
    exact ⟨0, by decide, by decide, by decide⟩

theorem response_oneRow : Response oneRow := by
  obtain ⟨hcount, hdefs, heof, hrows⟩ := oneRow_parts
  exact .resultset hcount (by decide) hdefs heof hrows (.inl ⟨by decide, by decide⟩)

/-- The row and the last packet arrive apart from the others. -/
theorem resultset_relay_two_calls :
    ∃ t, Run (RelayStep 0) ⟨askedOne, []⟩
        [(oneRow.take 3, fun _ => ⟨fun _ => 0, fun _ => 0, true, fun _ => 0⟩),
          (oneRow.drop 3, fun _ => ⟨fun _ => 0, fun _ => 0, true, fun _ => 0⟩)] t ∧
      t.sent = oneRow ∧ t.st.sess.resultset = [] := by
  have hrest : Rest .waiting ([oneRow.take 3, oneRow.drop 3].flatten ++ []) := response_oneRow.rest
  obtain ⟨t, hrun⟩ :=
    @exists_relayRun _ 0 _ ⟨askedOne, []⟩ (fun _ => ⟨fun _ => 0, fun _ => 0, true, fun _ => 0⟩) _
    (by decide) relaying_askedOne hrest
  obtain ⟨hsent, hresultset, -⟩ :=
    (@resultset_relay oneRow [] response_oneRow 0 ⟨askedOne, []⟩ t rfl rfl rfl
    _ hrun rfl).2.2.1 rfl
  exact ⟨t, hrun, hsent, hresultset⟩

end ProxySQL
