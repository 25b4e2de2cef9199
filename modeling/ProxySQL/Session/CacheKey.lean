/-
  ProxySQL.Session.CacheKey

  The keys of the query cache.

  `compute_query_checksum` feeds a digest with the query, the user name and the
  schema, one behind the other and with nothing in between.  Two sessions feed
  the same bytes exactly if the boundaries between the three can be moved so that
  the values of the one become those of the other, and then the one is served
  what was stored for the other.
-/
import ProxySQL.Session.Effects

namespace ProxySQL

open Lib List

/-- What a cached result belongs to. -/
structure Tenant where
  query : List Byte
  username : Str
  schema : Str
deriving DecidableEq

/-- The bytes that are fed to the digest for `a`. -/
def Tenant.fed (a : Tenant) : List Byte := checksumInput a.query a.username a.schema

/-! ## Moving the boundaries -/

/-- The query of `b` is that of `a` and some bytes more.  They are taken from the user name of `a`,
    or are all of it and some of the schema, and the boundary behind the user name follows. -/
def Shift (a b : Tenant) : Prop :=
  (∃ x y z, b.query = a.query ++ x ∧ a.username = x ++ y ∧ b.username = y ++ z ∧
    a.schema = z ++ b.schema) ∨
  (∃ x z, b.query = a.query ++ x ∧ a.username = x ++ (b.username ++ z) ∧ b.schema = z ++ a.schema) ∨
  (∃ y, b.query = a.query ++ (a.username ++ y) ∧ a.schema = y ++ (b.username ++ b.schema))

theorem Shift.fed_eq {a b : Tenant} (h : Shift a b) : a.fed = b.fed := by
  unfold Tenant.fed checksumInput
  rcases h with ⟨x, y, z, hq, hu, hu', hs⟩ | ⟨x, z, hq, hu, hs⟩ | ⟨y, hq, hs⟩
  · rw [hq, hu, hu', hs]
    simp
  · rw [hq, hu, hs]
    simp
  · rw [hq, hs]
    simp

/-- If the query of `b` is the longer one, its additional bytes come from behind the query of `a`. -/
theorem shift_of_fed_eq {a b : Tenant} {x : List Byte} (hq : b.query = a.query ++ x)
    (h : a.username ++ a.schema = x ++ (b.username ++ b.schema)) : Shift a b := by
  rcases append_eq_append_iff.1 h with ⟨y, hx, hs⟩ | ⟨y, hu, hs⟩
  · -- the whole user name of `a` is in the query of `b`
    exact .inr (.inr ⟨y, hx ▸ hq, hs⟩)
  · rcases append_eq_append_iff.1 hs with ⟨z, hu', hs'⟩ | ⟨z, hy, hs'⟩
    · exact .inr (.inl ⟨x, z, hq, hu' ▸ hu, hs'⟩)
    · exact .inl ⟨x, y, z, hq, hu, hy, hs'⟩

theorem fed_eq_iff (a b : Tenant) : a.fed = b.fed ↔ Shift a b ∨ Shift b a := by
  constructor
  · intro h
    unfold Tenant.fed checksumInput at h
    rw [append_assoc, append_assoc] at h
    rcases append_eq_append_iff.1 h with ⟨x, hq, hrest⟩ | ⟨x, hq, hrest⟩
    · exact .inl (shift_of_fed_eq hq hrest)
    · exact .inr (shift_of_fed_eq hq hrest)
  · rintro (h | h)
    · exact h.fed_eq
    · exact h.fed_eq.symm

/-! ## What the cache serves -/

/-- The session is about to ask the cache on behalf of `a`. -/
structure Asks (st : St) (a : Tenant) : Prop where
  query : st.sess.queryInfo.query = a.query
  username : st.sess.mysqlUsername = some a.username
  schema : st.sess.mysqlSchemaCur = some a.schema
  checksum : st.sess.queryInfo.queryChecksum = none

/-- The packets for the client after the cache was asked. -/
def served (st : St) : List Pkt :=
  (outcome getResultFromMysqlQueryCache st).2.sess.clientMyds.output.pkts

theorem wp_computeQueryChecksum {st : St} {a : Tenant} (h : Asks st a)
    (Q : Except Fault (List Byte) → St → Prop) :
    wp computeQueryChecksum Q st ↔ Q (.ok a.fed) { st with sess := { st.sess with queryInfo :=
      { st.sess.queryInfo with queryChecksum := some a.fed } } } := by
  unfold computeQueryChecksum
  simp only [wp_bind, wp_get, wp_lift, h.checksum, h.username, h.schema, h.query, deref, wp_modifySess,
    wp_pure]
  exact Iff.rfl

theorem queryStatisticsSet_out (st : St) :
    wp queryStatisticsSet (fun _ t => t.sess.clientMyds = st.sess.clientMyds) st := by
  unfold queryStatisticsSet
  rw [wp_get_bind]
  split
  · exact rfl
  · exact rfl
  · simp only [wp_bind, wp_lift, wp_modifySess]
    split
    · split <;> trivial
    · trivial

theorem served_eq {st : St} {a : Tenant} (h : Asks st a) :
    served st = st.sess.clientMyds.output.pkts ++ (fdbGet st.sh (st.sh.md5 a.fed)).toList := by
  show wp getResultFromMysqlQueryCache (fun _ t => t.sess.clientMyds.output.pkts = _) st
  unfold getResultFromMysqlQueryCache
  rw [wp_bind, wp_computeQueryChecksum h]
  simp only [wp_get_bind]
  cases hget : fdbGet st.sh (st.sh.md5 a.fed) with
  | none => simp
  | some result =>
    simp only [wp_bind, wp_mySessAddPktOutClient, wp_modifySess, wp_record, wp_when]
    split
    · refine wp_of (queryStatisticsSet_out _) ?_
      intro r t ht
      cases r <;> simp [ht, Session.addOut, MysqlDataStream.addOut]
    · simp [Session.addOut, MysqlDataStream.addOut]

theorem fdbGet_fdbSet_of_ne {sh : Shared} {k key : Str} (value : List Byte) (expire : Int)
    (h : k ≠ key) : fdbGet (fdbSet sh key value expire) k = fdbGet sh k := by
  have hqc : (fdbSet sh key value expire).qc k = sh.qc k := if_neg h
  unfold fdbGet
  rw [hqc]
  rfl

theorem fdbGet_fdbSet_self (sh : Shared) (key : Str) (value : List Byte) :
    fdbGet (fdbSet sh key value (max 1 (sh.qcNow + 1))) key
      = some { length := value.length, data := value } := by
  have hpos : 0 < max 1 (sh.qcNow + 1) := by omega
  simp only [fdbGet, fdbSet, if_true, if_pos hpos]
  rw [if_pos]
  split <;> omega

theorem served_fdbSet {st : St} {a : Tenant} (h : Asks st a) (key : Str) (value : List Byte)
    (expire : Int) :
    served { st with sh := fdbSet st.sh key value expire } = st.sess.clientMyds.output.pkts ++
      (fdbGet (fdbSet st.sh key value expire) (st.sh.md5 a.fed)).toList :=
  @served_eq { st with sh := fdbSet st.sh key value expire } a
    ⟨h.query, h.username, h.schema, h.checksum⟩

/-- Two tenants feed different bytes to the digest exactly if the boundaries of the one cannot be
    moved to give the other; and in exactly these cases nothing that is stored for the second
    changes what the first is served. -/
theorem cacheKey_separates_iff (st : St) (a b : Tenant) (hasks : Asks st a)
    (hmd5 : Function.Injective st.sh.md5) :
    (a.fed ≠ b.fed ↔ ¬ (Shift a b ∨ Shift b a)) ∧
      ((∀ value expire, served { st with sh := fdbSet st.sh (st.sh.md5 b.fed) value expire } = served st)
        ↔ ¬ (Shift a b ∨ Shift b a)) := by
  rw [← fed_eq_iff]
  refine ⟨Iff.rfl, fun h heq => ?_, fun hne value expire => ?_⟩
  · -- a value that is longer than the one served now is served instead
    have hlong := h (0 :: ((fdbGet st.sh (st.sh.md5 a.fed)).map Pkt.data).getD []) (max 1 (st.sh.qcNow + 1))
    rw [served_fdbSet hasks, served_eq hasks, append_cancel_left_eq, heq, fdbGet_fdbSet_self] at hlong
    cases hget : fdbGet st.sh (st.sh.md5 b.fed) with
    | none => simp [hget] at hlong
    | some p =>
        rw [hget] at hlong
        have hdata := congrArg (List.map Pkt.data) hlong
        simp at hdata
  · have hkey : st.sh.md5 a.fed ≠ st.sh.md5 b.fed := fun heq => hne (hmd5 heq)
    rw [served_fdbSet hasks, served_eq hasks, fdbGet_fdbSet_of_ne value expire hkey]

/-- A session that is about to ask an empty cache on behalf of `a`. -/
def asking (a : Tenant) : St :=
  let s := mysqlSessionNew (fun _ => 0) glovarsDefault 0 5
  { sh := Shared.init glovarsDefault id fun _ password => password,
    sess := { s with
      mysqlUsername := some a.username, mysqlSchemaCur := some a.schema,
      queryInfo := { s.queryInfo with query := a.query } } }

theorem asks_asking (a : Tenant) : Asks (asking a) a := ⟨rfl, rfl, rfl, rfl⟩

/-- Users `bob` and `anna` are kept apart. -/
theorem cacheKey_separates_bob_anna :
    let bob : Tenant := ⟨bytesOf "SELECT 1", bytesOf "bob", bytesOf "d"⟩
    let anna : Tenant := ⟨bytesOf "SELECT 1", bytesOf "anna", bytesOf "d"⟩
    bob.fed ≠ anna.fed ∧ ∀ value expire,
      served { asking bob with sh := fdbSet (asking bob).sh anna.fed value expire } =
      served (asking bob) := by
  intro bob anna
  have hne : bob.fed ≠ anna.fed := by decide +kernel
  obtain ⟨hfed, hserved⟩ := cacheKey_separates_iff (asking bob) bob anna (asks_asking bob) fun _ _ h => h
  exact ⟨hne, hserved.2 (hfed.1 hne)⟩

/-- Where `b` ends the name of the user `bob` it starts the schema `by`, and the user `bobb` on the
    schema `y` is served the result stored for `bob`. -/
theorem cacheKey_bob_bobb :
    (⟨bytesOf "SELECT 1", bytesOf "bobb", bytesOf "y"⟩ : Tenant)
        ≠ ⟨bytesOf "SELECT 1", bytesOf "bob", bytesOf "by"⟩ ∧
      (⟨bytesOf "SELECT 1", bytesOf "bobb", bytesOf "y"⟩ : Tenant).fed
        = (⟨bytesOf "SELECT 1", bytesOf "bob", bytesOf "by"⟩ : Tenant).fed ∧
      served { asking ⟨bytesOf "SELECT 1", bytesOf "bobb", bytesOf "y"⟩ with
        sh := fdbSet (Shared.init glovarsDefault id fun _ password => password)
          (⟨bytesOf "SELECT 1", bytesOf "bob", bytesOf "by"⟩ : Tenant).fed (bytesOf "secret") 1 }
        = [{ length := 6, data := bytesOf "secret" }] := by
  decide +kernel

end ProxySQL
