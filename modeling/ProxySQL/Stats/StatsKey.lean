/-
  ProxySQL.Stats.StatsKey

  The key of a statistics record (`__generate_qr_hash_entry__key`).

  Six fields are joined with two underscores, which user names, schema names and
  addresses may contain.  The digest has a fixed length and the port has no
  underscore, so both can be read off the key.  The other four fields can be read off
  exactly if there is only one way to cut the key (`statsKey_separates_iff`); the
  general argument is in `Lib.Joined`.  Records with the same key are merged, whatever
  they are about (`Sound.merged_key`).

  The characters of the model's strings stand for bytes.
-/
import ProxySQL.Lib.Block
import ProxySQL.Lib.Joined
import ProxySQL.Stats.QueryStats

namespace ProxySQL.Stats

open Lib List Option

/-- The terminator. -/
def nul : Char := Char.ofNat 0

namespace QrHashEntry

/-- The size of the buffer for the key. -/
def keySize (e : QrHashEntry) : Nat :=
  e.queryDigestMd5.length + 3 + (e.mysqlServerAddress.map String.length).getD 0 + e.username.length
    + e.schemaname.length + 5 + (5 * 2 + 5)

/-- The buffer after `sprintf`; `none` is a write outside of it. -/
def printKey (e : QrHashEntry) : Option (List Char) :=
  store (replicate e.keySize nul) 0 (e.generateKey.toList ++ [nul])

/-- A record as the sessions make it: the digest is printed by `str2md5`, and the strings are terminated. -/
structure Regular (e : QrHashEntry) : Prop where
  length_digest : e.queryDigestMd5.length = 32
  username : nul ∉ e.username.toList
  schemaname : nul ∉ e.schemaname.toList
  address : nul ∉ (e.mysqlServerAddress.getD "").toList
  hostgroup : 0 ≤ e.hostgroupId ∧ e.hostgroupId < 64
  port : 0 ≤ e.mysqlServerPort ∧ e.mysqlServerPort ≤ 65535

/-- The records count the same; no address and an empty one are the same. -/
structure SameKind (e e' : QrHashEntry) : Prop where
  digest : e.queryDigestMd5 = e'.queryDigestMd5
  username : e.username = e'.username
  schemaname : e.schemaname = e'.schemaname
  hostgroup : e.hostgroupId = e'.hostgroupId
  address : e.mysqlServerAddress.getD "" = e'.mysqlServerAddress.getD ""
  port : e.mysqlServerPort = e'.mysqlServerPort

end QrHashEntry

/-! ## Numbers -/

theorem toString_of_nonneg {i : Int} (h : 0 ≤ i) : (toString i).toList = Nat.toDigits 10 i.toNat := by
  obtain ⟨n, rfl⟩ := Int.eq_ofNat_of_zero_le h
  exact Nat.toList_repr

theorem toString_inj_of_nonneg {i j : Int} (hi : 0 ≤ i) (hj : 0 ≤ j) (h : toString i = toString j) :
    i = j := by
  have hdigits := congrArg String.toList h
  rw [toString_of_nonneg hi, toString_of_nonneg hj] at hdigits
  -- a number can be read off its digits
  have hnat : i.toNat = j.toNat := by
    calc
      i.toNat = Nat.ofDigitChars 10 (Nat.toDigits 10 i.toNat) 0 := Nat.ofDigitChars_ten_toDigits.symm
      _ = Nat.ofDigitChars 10 (Nat.toDigits 10 j.toNat) 0 := by rw [hdigits]
      _ = j.toNat := Nat.ofDigitChars_ten_toDigits
  omega

theorem underscore_not_mem {i : Int} (h : 0 ≤ i) : '_' ∉ (toString i).toList := by
  rw [toString_of_nonneg h]
  exact Nat.underscore_not_in_toDigits

theorem nul_not_mem {i : Int} (h : 0 ≤ i) : nul ∉ (toString i).toList := by
  rw [toString_of_nonneg h]
  intro hmem
  exact absurd (Nat.isDigit_of_mem_toDigits (by decide) (by decide) hmem) (by decide)

theorem length_toString_le {i : Int} {k : Nat} (h : 0 ≤ i) (hk : 0 < k) (hlt : i < (10 ^ k : Nat)) :
    (toString i).length ≤ k := by
  obtain ⟨n, rfl⟩ := Int.eq_ofNat_of_zero_le h
  exact (Nat.length_repr_le_iff hk).2 (by exact_mod_cast hlt)

/-! ## Keys -/

/-- Hostgroup ids below 64, as they are printed. -/
def HostgroupText (xs : List Char) : Prop := ∃ h : Nat, h < 64 ∧ xs = (toString (h : Int)).toList

theorem hostgroupText_underscore (xs : List Char) (h : HostgroupText xs) : '_' ∉ xs := by
  obtain ⟨n, -, rfl⟩ := h
  exact underscore_not_mem (Int.natCast_nonneg n)

theorem hostgroupText_ne_nil (xs : List Char) (h : HostgroupText xs) : xs ≠ [] := by
  obtain ⟨n, -, rfl⟩ := h
  rw [toString_of_nonneg (Int.natCast_nonneg n)]
  exact Nat.toDigits_ne_nil

namespace QrHashEntry

variable {e e' : QrHashEntry}

theorem Regular.hostgroupText (he : e.Regular) : HostgroupText (toString e.hostgroupId).toList := by
  refine ⟨e.hostgroupId.toNat, by have := he.hostgroup; omega, ?_⟩
  rw [Int.toNat_of_nonneg he.hostgroup.1]

/-- The four fields between the digest and the port. -/
def Regular.fields (he : e.Regular) : Fields '_' HostgroupText where
  us := e.username.toList
  ss := e.schemaname.toList
  hs := (toString e.hostgroupId).toList
  as := (e.mysqlServerAddress.getD "").toList
  kind_hs := he.hostgroupText

theorem Regular.generateKey_toList (he : e.Regular) :
    e.generateKey.toList =
      e.queryDigestMd5.toList ++
      (['_', '_'] ++ (he.fields.joined ++ ['_', '_'] ++ (toString e.mysqlServerPort).toList)) := by
  have hsep : "__".toList = ['_', '_'] := by decide
  simp only [generateKey, String.toList_append, hsep, Regular.fields, Fields.joined, append_assoc]

/-- Digest and port can be read off the key, and the other fields can be if they are the only ones. -/
theorem Regular.generateKey_eq (he : e.Regular) (he' : e'.Regular) (h : e'.generateKey = e.generateKey) :
    e'.queryDigestMd5 = e.queryDigestMd5 ∧ he'.fields.joined = he.fields.joined ∧
      e'.mysqlServerPort = e.mysqlServerPort := by
  have hkey := congrArg String.toList h
  rw [he.generateKey_toList, he'.generateKey_toList] at hkey
  obtain ⟨hdigest, hrest⟩ := append_inj hkey (he'.length_digest.trans he.length_digest.symm)
  obtain ⟨hjoined, hport⟩ :=
    append_pair_inj_right (underscore_not_mem he'.port.1) (underscore_not_mem he.port.1)
    (append_cancel_left hrest)
  exact ⟨String.toList_inj.1 hdigest, hjoined,
    toString_inj_of_nonneg he'.port.1 he.port.1 (String.toList_inj.1 hport)⟩

theorem Regular.printKey_isSome (he : e.Regular) : e.printKey.isSome := by
  have hlength : e.generateKey.length = e.queryDigestMd5.length + e.username.length + e.schemaname.length
      + (e.mysqlServerAddress.getD "").length + 10 + (toString e.hostgroupId).length
      + (toString e.mysqlServerPort).length := by
    have hsep : "__".length = 2 := by decide
    simp only [generateKey, String.length_append, hsep]
    omega
  have haddress : (e.mysqlServerAddress.map String.length).getD 0 =
    (e.mysqlServerAddress.getD "").length := by
    cases e.mysqlServerAddress with
    | none => rfl
    | some a => rfl
  have hhostgroup : (toString e.hostgroupId).length ≤ 2 :=
    length_toString_le he.hostgroup.1 (by decide) (by have := he.hostgroup; omega)
  have hport : (toString e.mysqlServerPort).length ≤ 5 :=
    length_toString_le he.port.1 (by decide) (by have := he.port; omega)
  rw [printKey, store_eq]
  · rfl
  · rw [Nat.zero_add, length_append, String.length_toList, hlength, length_replicate, length_singleton,
      keySize, haddress]
    omega

/-- Another way to cut the key belongs to another record. -/
theorem Regular.exists_of_joined (he : e.Regular) {g : Fields '_' HostgroupText}
    (hg : g.joined = he.fields.joined) :
    ∃ (e' : QrHashEntry) (he' : e'.Regular), he'.fields = g ∧ e'.generateKey = e.generateKey := by
  obtain ⟨h, hlt, hhs⟩ := g.kind_hs
  have hnul : nul ∉ he.fields.joined := by
    simp only [Fields.joined, Regular.fields, mem_append, not_or]
    exact ⟨⟨⟨⟨⟨⟨he.username, by decide⟩, he.schemaname⟩, by decide⟩, nul_not_mem he.hostgroup.1⟩,
      by decide⟩, he.address⟩
  rw [← hg] at hnul
  simp only [Fields.joined, mem_append, not_or] at hnul
  obtain ⟨⟨⟨⟨⟨⟨hus, -⟩, hss⟩, -⟩, -⟩, -⟩, has⟩ := hnul
  have he' : ({ e with
      username := String.ofList g.us, schemaname := String.ofList g.ss, hostgroupId := h,
      mysqlServerAddress := some (String.ofList g.as) } : QrHashEntry).Regular :=
    { length_digest := he.length_digest
      username := by rw [String.toList_ofList]; exact hus
      schemaname := by rw [String.toList_ofList]; exact hss
      address := by rw [getD_some, String.toList_ofList]; exact has
      hostgroup := ⟨Int.natCast_nonneg h, by dsimp only; omega⟩
      port := he.port }
  have hfields : he'.fields = g := by
    obtain ⟨us, ss, hs, as, hkind⟩ := g
    obtain rfl := hhs
    simp only [Regular.fields, String.toList_ofList, getD_some]
  refine ⟨_, he', hfields, String.toList_inj.1 ?_⟩
  rw [he.generateKey_toList, he'.generateKey_toList, hfields, hg]

end QrHashEntry

/-- The key of a record is written inside its buffer, and no record that counts something else has it,
    exactly if the two underscores between the user and the schema are the only ones near, and the address,
    with two underscores in front, has no hostgroup id between two pairs of underscores. -/
theorem statsKey_separates_iff {e : QrHashEntry} (he : e.Regular) :
    (e.printKey.isSome ∧ ∀ e' : QrHashEntry, e'.Regular → e'.generateKey = e.generateKey → e'.SameKind e) ↔
      Cuts '_' e.username.toList e.schemaname.toList ∧
        ∀ h : Nat, h < 64 →
          ¬("__" ++ toString (h : Int) ++ "__").toList <:+:
            ("__" ++ e.mysqlServerAddress.getD "").toList := by
  have hunique := joined_unique_iff (f := he.fields) hostgroupText_underscore hostgroupText_ne_nil
  have hsep : "__".toList = ['_', '_'] := by decide
  have hfar : (∀ h : Nat, h < 64 →
      ¬("__" ++ toString (h : Int) ++ "__").toList <:+: ("__" ++ e.mysqlServerAddress.getD "").toList) ↔
        ∀ xs, HostgroupText xs → ¬['_', '_'] ++ xs ++ ['_', '_'] <:+: ['_', '_'] ++ he.fields.as := by
    simp only [String.toList_append, hsep]
    constructor
    · rintro h xs ⟨n, hn, rfl⟩
      exact h n hn
    · intro h n hn
      exact h _ ⟨n, hn, rfl⟩
  rw [hfar]
  refine Iff.trans ?_ hunique
  constructor
  · rintro ⟨-, hsame⟩ g hg
    obtain ⟨e', he', rfl, hkey⟩ := he.exists_of_joined hg
    obtain ⟨-, husername, hschemaname, hhostgroup, haddress, -⟩ := hsame e' he' hkey
    simp only [QrHashEntry.Regular.fields, husername, hschemaname, hhostgroup, haddress]
  · intro hall
    refine ⟨he.printKey_isSome, fun e' he' hkey => ?_⟩
    obtain ⟨hdigest, hjoined, hport⟩ := he.generateKey_eq he' hkey
    have hfields := hall he'.fields hjoined
    refine ⟨hdigest, String.toList_inj.1 (congrArg Fields.us hfields),
      String.toList_inj.1 (congrArg Fields.ss hfields), ?_,
      String.toList_inj.1 (congrArg Fields.as hfields), hport⟩
    exact toString_inj_of_nonneg he'.hostgroup.1 he.hostgroup.1
      (String.toList_inj.1 (congrArg Fields.hs hfields))

/-- A call whose lookup finds a record is about to merge records with the same key. -/
theorem QrStats.Sound.merged_key {s : QrStats} (h : s.Sound) {i own entry : Nat} {totalTime : Int}
    (hfound : s.sess i = .found own totalTime (some entry)) :
    ∃ e x, s.heap own = some e ∧ s.heap entry = some x ∧ e.generateKey = x.generateKey := by
  obtain ⟨⟨e, he, hkey, -⟩, -⟩ := h.own i own totalTime (by rw [hfound]; rfl)
  have hlookup := h.found i own totalTime (some entry) e hfound he
  obtain ⟨x, hx, hxkey, hxgen⟩ :=
    h.tables (e.key, entry) (mem_append_left _ (QrStats.mem_of_lookup hlookup))
  exact ⟨e, x, he, hx, by rw [hkey, hxgen, hxkey]⟩

/-- A record of user `u` on schema `s`. -/
def statsOf (u s : String) : QrHashEntry :=
  { QrStats.oneQuery with
    queryDigestMd5 := "0123456789abcdef0123456789abcdef", username := u, schemaname := s,
    mysqlServerAddress := some "10.0.0.1" }

theorem regular_statsOf {u s : String} (hu : nul ∉ u.toList) (hs : nul ∉ s.toList) :
    (statsOf u s).Regular where
  length_digest := show "0123456789abcdef0123456789abcdef".length = 32 by decide +kernel
  username := hu
  schemaname := hs
  address := show nul ∉ "10.0.0.1".toList by decide +kernel
  hostgroup := show (0 : Int) ≤ 0 ∧ (0 : Int) < 64 by decide
  port := show (0 : Int) ≤ 3306 ∧ (3306 : Int) ≤ 65535 by decide

/-- One underscore in the names does no harm. -/
theorem statsKey_separates_app_user :
    (statsOf "app_user" "my_db").printKey.isSome ∧
      ∀ e : QrHashEntry, e.Regular → e.generateKey = (statsOf "app_user" "my_db").generateKey →
        e.SameKind (statsOf "app_user" "my_db") := by
  refine (statsKey_separates_iff (regular_statsOf (by decide +kernel) (by decide +kernel))).2 ⟨?_, ?_⟩
  · refine ⟨?_, ?_, ?_, ?_⟩ <;> decide +kernel
  · decide +kernel

/-- A query of user `a` on schema `b__c` is counted for user `a__b` on schema `c`. -/
theorem statsKey_merges_users :
    (statsOf "a__b" "c").Regular ∧ (statsOf "a" "b__c").Regular ∧
      (statsOf "a__b" "c").generateKey = (statsOf "a" "b__c").generateKey ∧
      ∃ s x, Run (fun s e t => QrStats.step s e = .ok t) QrStats.init
          [.prepare 0 (statsOf "a__b" "c") 15, .lock 0, .lookup 0, .update 0, .unlock 0,
            .prepare 1 (statsOf "a" "b__c") 17, .lock 1, .lookup 1, .update 1, .unlock 1] s ∧
        s.cHash.map Prod.snd = [0] ∧ s.heap 0 = some x ∧ x.username = "a__b" ∧ x.execCnt = 2 := by
  refine ⟨regular_statsOf (by decide) (by decide), regular_statsOf (by decide) (by decide),
    by decide +kernel, ?_⟩
  have hexec : (exec (fun s e => (QrStats.step s e).toOption) QrStats.init
      [.prepare 0 (statsOf "a__b" "c") 15, .lock 0, .lookup 0, .update 0, .unlock 0,
        .prepare 1 (statsOf "a" "b__c") 17, .lock 1, .lookup 1, .update 1, .unlock 1]).map
      (fun s => (s.cHash.map Prod.snd, (s.heap 0).map fun x => (x.username, x.execCnt)))
      = some ([0], some ("a__b", 2)) := by decide +kernel
  obtain ⟨s, hs, hpair⟩ := map_eq_some_iff.1 hexec
  obtain ⟨htable, hrecord⟩ := Prod.mk.inj hpair
  obtain ⟨x, hx, hfields⟩ := map_eq_some_iff.1 hrecord
  obtain ⟨husername, hcount⟩ := Prod.mk.inj hfields
  exact ⟨s, x, QrStats.run_of_exec hs, htable, hx, husername, hcount⟩

end ProxySQL.Stats
