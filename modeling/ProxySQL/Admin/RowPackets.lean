/-
  ProxySQL.Admin.RowPackets

  The rows that the admin module sends (`mysql_pkt_to_sqlite_exec`).

  The first loop over the columns adds up sizes from `sqlite3_column_bytes`, the
  second writes the values as C strings.  They agree about a value just if it has
  no NUL byte; a long one is written without its length, as every string is.
-/
import Mathlib.Data.List.TakeWhile
import ProxySQL.Admin.ResultSet
import ProxySQL.Protocol.EncodedStrings

namespace ProxySQL

open Lib List

/-! ## The two loops -/

/-- The value has no NUL byte. -/
def NulFree (v : Option (List Byte)) : Prop := ∀ bs ∈ v, 0 ∉ bs

instance (v : Option (List Byte)) : Decidable (NulFree v) := inferInstanceAs (Decidable (∀ bs ∈ v, 0 ∉ bs))

theorem columnText_of_nulFree {v : Option (List Byte)} (h : NulFree v) : columnText v = v := by
  cases v with
  | none => rfl
  | some bs =>
    have hne : ∀ b ∈ bs, decide (b ≠ 0) = true := by
      intro b hb
      exact decide_eq_true fun h0 => h bs rfl (h0 ▸ hb)
    rw [columnText, Option.map_some, takeWhile_eq_self_iff.2 hne]

theorem writeencstrnull_snd (stack : Nat → Byte) (data : List Byte) (off : Nat) (s : Option (List Byte)) :
    (writeencstrnull stack data off s).2 = (encstr s).length := by
  cases s with
  | none => rfl
  | some s => rw [length_encstr_some, Nat.add_comm]; rfl

theorem writeencstrnulls_snd (stack : Nat → Byte) (ss : List (Option (List Byte))) (data : List Byte)
    (off : Nat) : (writeencstrnulls stack ss data off).2 = off + (ss.flatMap encstr).length := by
  induction ss generalizing data off with
  | nil => rfl
  | cons s ss ih =>
    rw [writeencstrnulls]
    simp only
    rw [ih, writeencstrnull_snd, flatMap_cons, length_append, Nat.add_assoc]

theorem lencint_mono {m n : Nat} (hmn : m ≤ n) (hn : n < 16777216) :
    lencint (BitVec.ofNat 64 m) ≤ lencint (BitVec.ofNat 64 n) := by
  have hm := toNat_ofNat_64 (by omega : m < 16777216)
  have hn' := toNat_ofNat_64 hn
  rcases encint_cases (BitVec.ofNat 64 m) with ⟨_, h, _⟩ | ⟨_, _, h, _⟩ | ⟨_, _, h, _⟩ | ⟨_, h, _⟩ <;>
    rcases encint_cases (BitVec.ofNat 64 n) with ⟨_, h', _⟩ | ⟨_, _, h', _⟩ | ⟨_, _, h', _⟩ | ⟨_, h', _⟩ <;>
    omega

/-- The size of a value without NUL bytes is that of its encoding, for the empty string and NULL too. -/
theorem columnSize_eq (v : Option (List Byte)) : columnSize v = (encstr v).length := by
  cases v with
  | none => rfl
  | some bs =>
    cases bs with
    | nil => rfl
    | cons b bs =>
      rw [length_encstr_some, Nat.add_comm]
      rfl

theorem length_columnText_lt {v : Option (List Byte)} (hv : ShorterThan 16777216 v) (h : ¬ NulFree v) :
    (encstr (columnText v)).length < (encstr v).length := by
  obtain ⟨bs, rfl, hbs⟩ : ∃ bs, v = some bs ∧ 0 ∈ bs := by
    simpa [NulFree] using h
  have hlt : (bs.takeWhile (· ≠ 0)).length < bs.length := by
    refine lt_of_le_of_ne (takeWhile_sublist _).length_le ?_
    intro heq
    have hall := takeWhile_eq_self_iff.1 (( takeWhile_prefix _).eq_of_length heq)
    exact of_decide_eq_true (hall 0 hbs) rfl
  have hmono := lencint_mono hlt.le (hv bs rfl)
  rw [columnText, Option.map_some, length_encstr_some, length_encstr_some]
  omega

theorem sum_columnSize (row : List (Option (List Byte))) :
    (row.map columnSize).sum = (row.flatMap encstr).length := by
  induction row with
  | nil => rfl
  | cons v row ih => rw [map_cons, sum_cons, ih, columnSize_eq, flatMap_cons, length_append]

variable {row : List (Option (List Byte))}

theorem shorter_of_rowlen (h : (row.map columnSize).sum < 2 ^ 24) : ∀ v ∈ row, ShorterThan 16777216 v := by
  rintro v hv t rfl
  have hle : columnSize (some t) ≤ (row.map columnSize).sum := le_sum_of_mem (mem_map_of_mem hv)
  rw [columnSize_eq, length_encstr_some] at hle
  omega

/-- The second loop never writes more than the first counted, and less for a value with a NUL byte. -/
theorem length_texts_le (h24 : ∀ v ∈ row, ShorterThan 16777216 v) :
    ((row.map columnText).flatMap encstr).length ≤ (row.flatMap encstr).length ∧
      (((row.map columnText).flatMap encstr).length = (row.flatMap encstr).length →
        ∀ v ∈ row, NulFree v) := by
  induction row with
  | nil => exact ⟨Nat.le_refl _, fun _ v hv => absurd hv not_mem_nil⟩
  | cons v row ih =>
    obtain ⟨hle, heq⟩ := ih fun w hw => h24 w (mem_cons_of_mem v hw)
    simp only [map_cons, flatMap_cons, length_append]
    by_cases hv : NulFree v
    · rw [columnText_of_nulFree hv]
      refine ⟨by omega, fun h => forall_mem_cons.2 ⟨hv, heq (by omega)⟩⟩
    · have hlt := length_columnText_lt (h24 v mem_cons_self) hv
      exact ⟨by omega, fun h => by omega⟩

/-! ## What a row packet holds -/

theorem rowPkt_payload {env : BlockEnv} {cols rownum : Nat} {enc : Option (List Byte) → List Byte}
    (hwrites : ∀ v ∈ row, Writes
      (lAlloc (env.fill (cols + 3 + rownum)) (sizeofMysqlHdr + (row.map columnSize).sum))
      (columnText v) (enc (columnText v)))
    (hsize : ((row.map columnText).flatMap enc).length = (row.map columnSize).sum) :
    (rowPkt env cols rownum row).payload = (row.map columnText).flatMap enc := by
  have hmem : ∀ s ∈ row.map columnText,
      Writes (lAlloc (env.fill (cols + 3 + rownum)) (sizeofMysqlHdr + (row.map columnSize).sum)) s
        (enc s) := by
    intro s hs
    obtain ⟨v, hv, rfl⟩ := mem_map.1 hs
    exact hwrites v hv
  generalize hhdr : (⟨BitVec.ofNat 24 (row.map columnSize).sum, BitVec.ofNat 8 (cols + 3 + rownum)⟩ :
    MysqlHdr).toBytes = hdr
  have hlen : hdr.length = sizeofMysqlHdr := by rw [← hhdr, MysqlHdr.length_toBytes]; rfl
  have hstrs := writeencstrnulls_eq (row.map columnText) hmem (env.stack (cols + 3 + rownum)) hdr
    (by rw [length_lAlloc, hsize, hlen])
  rw [hlen] at hstrs
  rw [rowPkt, Pkt.payload]
  rw [hhdr, hstrs]
  rw [overwrite_all (by rw [length_lAlloc, length_append, hsize, hlen])]
  exact drop_left' hlen

/-- A row is sent as it is: the second loop ends where the first said it would, and the values are read back
    from the packet, whatever its block held before. -/
def RowRoundTrips (row : List (Option (List Byte))) : Prop :=
  (∀ stack data, (writeencstrnulls stack (row.map columnText) data sizeofMysqlHdr).2
      = sizeofMysqlHdr + (row.map columnSize).sum) ∧
    ∀ env cols rownum, (lenencStrNull.times row.length).decode (rowPkt env cols rownum row).payload =
    some row

theorem map_columnText (h : ∀ v ∈ row, NulFree v) : row.map columnText = row := by
  have hmap : row.map columnText = row.map id := map_congr_left fun v hv => columnText_of_nulFree (h v hv)
  rw [hmap, map_id]

theorem length_flatMap_zeroEncstr (h24 : ∀ v ∈ row, ShorterThan 16777216 v) :
    (row.flatMap zeroEncstr).length = (row.flatMap encstr).length := by
  induction row with
  | nil => rfl
  | cons v row ih =>
    have hv : (zeroEncstr v).length = (encstr v).length := by
      cases v with
      | none => rfl
      | some s => rw [length_zeroEncstr_some (h24 _ mem_cons_self s rfl), length_encstr_some]
    rw [flatMap_cons, flatMap_cons, length_append, length_append, hv,
      ih fun w hw => h24 w (mem_cons_of_mem v hw)]

/-- A row of SQLite's values is sent as it is just if no value has a NUL byte and all are shorter than 65536
    bytes. -/
theorem rowRoundTrips_iff (row : List (Option (List Byte))) (hlen : (row.map columnSize).sum < 2 ^ 24) :
    RowRoundTrips row ↔ ∀ v ∈ row, NulFree v ∧ ShorterThan 65536 v := by
  have h24 := shorter_of_rowlen hlen
  constructor
  · rintro ⟨hend, hdecode⟩
    have hnul : ∀ v ∈ row, NulFree v := by
      have hsum := hend (fun _ => 0) []
      rw [writeencstrnulls_snd, sum_columnSize] at hsum
      exact (length_texts_le h24).2 (by omega)
    have htext := map_columnText hnul
    -- a block of zeros shows which values are written without their length
    have hzeros : (rowPkt .zero 0 0 row).payload = row.flatMap zeroEncstr := by
      have hpayload := @rowPkt_payload row .zero 0 0 zeroEncstr ?_ ?_
      · rw [hpayload, htext]
      · intro v hv
        rw [columnText_of_nulFree (hnul v hv)]
        show Writes (lAlloc (fun _ => 0) _) v (zeroEncstr v)
        rw [lAlloc_zeros]
        exact writes_zeros (h24 v hv) _
      · rw [htext, length_flatMap_zeroEncstr h24, sum_columnSize]
    have hstep := Decoder.step_of_decode (hdecode .zero 0 0)
    rw [hzeros, ← append_nil (row.flatMap zeroEncstr)] at hstep
    exact fun v hv => ⟨hnul v hv, shorter_of_step_zeros row [] [] hstep v hv⟩
  · intro h
    have htext := map_columnText fun v hv => (h v hv).1
    constructor
    · intro stack data
      rw [writeencstrnulls_snd, htext, sum_columnSize]
    · intro env cols rownum
      have hpayload := @rowPkt_payload row env cols rownum encstr ?_ ?_
      · rw [hpayload, htext]
        exact (reads_times row fun v hv => reads_encstr ((h v hv).2.mono (by decide))).decode
      · intro v hv
        rw [columnText_of_nulFree (h v hv).1]
        exact writes_short (h v hv).2 _
      · rw [htext, sum_columnSize]

theorem rowRoundTrips_example : RowRoundTrips [some [0x61, 0x62], none, some []] :=
  (rowRoundTrips_iff [some [0x61, 0x62], none, some []] (by decide)).2 (by decide)

/-- The blob `x'6100'` is announced with two bytes and written as one. -/
theorem rowRoundTrips_nul :
    ([some [0x61, 0x00]].map columnSize).sum = 3 ∧
      (writeencstrnulls (fun _ => 0) ([some [0x61, 0x00]].map columnText) (replicate 7 0) sizeofMysqlHdr).2
        = sizeofMysqlHdr + 2 ∧
      ¬ RowRoundTrips [some [0x61, 0x00]] := by
  refine ⟨by decide, by decide, ?_⟩
  rintro ⟨hend, -⟩
  exact absurd (hend (fun _ => 0) (replicate 7 0)) (by decide)

end ProxySQL
