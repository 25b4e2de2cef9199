/-
  ProxySQL.Protocol.EncodedStrings

  The strings that `writeencstrnull` writes, and what the protocol reads from
  them.

  `writeencstrnull` repeats the four widths of `writeencint` instead of calling
  it.  For a string of 65536 bytes or more it stores the tag of the three-byte
  width and leaves the three bytes themselves as they were, so what is read back
  depends on what the block held before.  `Writes` says what one call leaves in a
  given block; it is composed over the strings of a packet.
-/
import Mathlib.Algebra.Order.BigOperators.Group.List
import ProxySQL.Protocol.Decode
import ProxySQL.Protocol.ResultSet

namespace ProxySQL

open Lib List Option

/-! ## One string -/

/-- The encoding of a string, or of NULL, in the protocol. -/
def encstr : Option (List Byte) → List Byte
  | none => [0xfb]
  | some s => encint (BitVec.ofNat 64 s.length) ++ s

/-- Shorter than `n` bytes, or NULL. -/
def ShorterThan (n : Nat) (s : Option (List Byte)) : Prop := ∀ t ∈ s, t.length < n

instance (n : Nat) (s : Option (List Byte)) : Decidable (ShorterThan n s) :=
  inferInstanceAs (Decidable (∀ t ∈ s, t.length < n))

/-- What `writeencstrnull` leaves in a block of zeros. -/
def zeroEncstr : Option (List Byte) → List Byte
  | none => [0xfb]
  | some s => if s.length < 65536 then encstr (some s) else [0xfd, 0x00, 0x00, 0x00] ++ s

variable {n : Nat} {s : Option (List Byte)} {enc : Option (List Byte) → List Byte}

theorem toNat_ofNat_64 (h : n < 16777216) : (BitVec.ofNat 64 n).toNat = n := by
  rw [BitVec.toNat_ofNat, Nat.mod_eq_of_lt (by omega)]

theorem length_encstr_some {s : List Byte} :
    (encstr (some s)).length = lencint (BitVec.ofNat 64 s.length) + s.length := by
  rw [encstr, length_append, length_encint]

theorem lencint_long (h : 65536 ≤ n) (h24 : n < 16777216) : lencint (BitVec.ofNat 64 n) = 4 := by
  rw [lencint, toNat_ofNat_64 h24, if_neg (by omega), if_neg (by omega), if_pos ⟨h, h24⟩]

theorem length_zeroEncstr_some {s : List Byte} (h : s.length < 16777216) :
    (zeroEncstr (some s)).length = lencint (BitVec.ofNat 64 s.length) + s.length := by
  rw [zeroEncstr]
  split
  · exact length_encstr_some
  · rw [length_append, lencint_long (by omega) h]
    rfl

theorem zeroEncstr_of_short (h : ShorterThan 65536 s) : zeroEncstr s = encstr s := by
  cases s with
  | none => rfl
  | some s => rw [zeroEncstr, if_pos (h s rfl)]

/-- Written behind `ys` into the block `xs`, the string `s` leaves `w`, which has the returned length. -/
def Writes (xs : List Byte) (s : Option (List Byte)) (w : List Byte) : Prop :=
  ∀ (stack : Nat → Byte) (ys : List Byte), ys.length + w.length ≤ xs.length →
    writeencstrnull stack (overwrite xs 0 ys) ys.length s = (overwrite xs 0 (ys ++ w), w.length)

theorem writeencstrnull_short (h : ShorterThan 65536 s) (stack : Nat → Byte) {data : List Byte} {off : Nat}
    (hfit : off + (encstr s).length ≤ data.length) :
    writeencstrnull stack data off s = (overwrite data off (encstr s), (encstr s).length) := by
  cases s with
  | none => rfl
  | some s =>
    have hs : s.length < 65536 := h s rfl
    have hnat : (BitVec.ofNat 64 s.length).toNat = s.length := toNat_ofNat_64 (by omega)
    rw [length_encstr_some] at hfit
    -- the length goes in front in one or three bytes, as `writeencint` writes it
    have hwrite : ∀ w : List Byte, w.length = lencint (BitVec.ofNat 64 s.length) →
        overwrite (overwrite data off w) (off + lencint (BitVec.ofNat 64 s.length)) s
          = overwrite data off (w ++ s) := by
      intro w hw
      rw [← hw]
      exact overwrite_overwrite (by omega)
    have hret : (writeencstrnull stack data off (some s)).2 = (encstr (some s)).length := by
      rw [length_encstr_some, Nat.add_comm]
      rfl
    refine Prod.ext ?_ hret
    rcases encint_cases (BitVec.ofNat 64 s.length) with ⟨_, hl, he⟩ | ⟨_, _, hl, he⟩ | ⟨h3, _, _⟩ | ⟨h4, _⟩
    · have h1 := hwrite _ (by rw [hl, length_leBytes] : (leBytes 1 s.length).length = _)
      rw [encstr, he, hnat, ← h1, writeencstrnull]
      simp only [hl, if_true]
    · have htag : overwrite (overwrite data off [0xfc]) (off + 1) (leBytes 2 s.length)
          = overwrite data off (0xfc :: leBytes 2 s.length) :=
        @overwrite_overwrite _ data [0xfc] (leBytes 2 s.length) off (by simp; omega)
      have h3 := hwrite (0xfc :: leBytes 2 s.length) (by rw [hl, length_cons, length_leBytes])
      rw [encstr, he, hnat, ← h3, ← htag, writeencstrnull]
      simp only [hl]
      rfl
    · omega
    · omega

/-- A long one leaves three bytes of the block as they were. -/
theorem writeencstrnull_long {s : List Byte} (h : 65536 ≤ s.length) (h24 : s.length < 16777216)
    (stack : Nat → Byte) (data : List Byte) (off : Nat) :
    writeencstrnull stack data off (some s) = (overwrite (overwrite data off [0xfd]) (off + 4) s,
      s.length + 4) := by
  rw [writeencstrnull, lencint_long h h24]
  rfl

theorem writes_short (h : ShorterThan 65536 s) (xs : List Byte) : Writes xs s (encstr s) := by
  intro stack ys hfit
  rw [writeencstrnull_short h stack (by rw [length_overwrite (by omega)]; exact hfit),
    overwrite_next rfl hfit]

theorem lAlloc_zeros (n : Nat) : lAlloc (fun _ => 0) n = replicate n 0 := by
  rw [lAlloc, map_const', length_range]

theorem writes_zeros (h : ShorterThan 16777216 s) (n : Nat) : Writes (replicate n 0) s (zeroEncstr s) := by
  cases s with
  | none => exact writes_short (fun t ht => by cases ht) _
  | some s =>
    have h24 : s.length < 16777216 := h s rfl
    rw [zeroEncstr]
    split
    case isTrue hs =>
      refine writes_short ?_ _
      rintro t ⟨⟩
      exact hs
    case isFalse hs =>
      intro stack ys hfit
      simp only [length_append, length_cons, length_nil, length_replicate] at hfit
      have hzeros : slice (replicate n (0 : Byte)) (ys.length + 1) (ys.length + 1 + 3) = [0, 0, 0] := by
        rw [slice, drop_replicate, take_replicate]
        have h3 : min (ys.length + 1 + 3 - (ys.length + 1)) (n - (ys.length + 1)) = 3 := by omega
        rw [h3]
        rfl
      rw [writeencstrnull_long (by omega) h24, overwrite_next rfl (by simp; omega)]
      refine Prod.ext ?_ ?_
      · show overwrite (overwrite _ 0 (ys ++ [0xfd])) (ys.length + 1 + 3) s = _
        rw [overwrite_skip (by simp) (by simp; omega), hzeros]
        simp only [append_assoc, cons_append, nil_append]
      · simp only [length_append, length_cons, length_nil]
        omega

/-- In a block of zeros that it just fits in. -/
theorem writeencstrnull_long_zeros {s : List Byte} (h : 65536 ≤ s.length) (h24 : s.length < 16777216)
    (stack : Nat → Byte) :
    (writeencstrnull stack (replicate (s.length + 4) 0) 0 (some s)).1 = [0xfd, 0x00, 0x00, 0x00] ++ s := by
  have hshort : ShorterThan 16777216 (some s) := by
    rintro t ⟨⟩
    exact h24
  have hlen : ([0xfd, 0x00, 0x00, 0x00] ++ s : List Byte).length = s.length + 4 := by
    rfl
  have hleft := writes_zeros hshort (s.length + 4) stack []
  rw [zeroEncstr, if_neg (by omega)] at hleft
  have hblock := congrArg Prod.fst (hleft (by rw [hlen, length_replicate]; simp))
  exact hblock.trans (overwrite_all (by rw [nil_append, hlen, length_replicate]))

/-! ## Reading one string back -/

theorem reads_encstr (h : ShorterThan (2 ^ 64) s) : Reads lenencStrNull (encstr s) s := by
  cases s with
  | none => exact reads_lenencStrNull_none
  | some s => exact reads_lenencStrNull_some (h s rfl)

theorem reads_zero_length : Reads lenencStrNull [0xfd, 0x00, 0x00, 0x00] (some []) := by
  intro rest
  rfl

theorem ShorterThan.mono {m : Nat} (h : ShorterThan m s) (hmn : m ≤ n) : ShorterThan n s :=
  fun t ht => Nat.lt_of_lt_of_le (h t ht) hmn

/-- What is written for `s` does not depend on the block, has the returned length, and stands for `s`. -/
def RoundTrips (s : Option (List Byte)) : Prop :=
  ∃ w, lenencStrNull.decode w = some s ∧
    ∀ (stack : Nat → Byte) (data : List Byte) (off : Nat), off + w.length ≤ data.length →
      writeencstrnull stack data off s = (overwrite data off w, w.length)

theorem roundTrips_iff (h : ShorterThan 16777216 s) : RoundTrips s ↔ ShorterThan 65536 s := by
  constructor
  · rintro ⟨w, hdecode, hw⟩ t ht
    obtain rfl : s = some t := ht
    by_contra hlong
    have h24 : t.length < 16777216 := h t rfl
    -- in a block of zeros of the right size, the length of the string reads as zero
    have hzeros := hw (fun _ => 0) (replicate w.length 0) 0 (by simp)
    have hlen : w.length = t.length + 4 := by
      rw [writeencstrnull_long (by omega) h24] at hzeros
      exact (congrArg Prod.snd hzeros).symm
    have hw0 : w = [0xfd, 0x00, 0x00, 0x00] ++ t := by
      have hblock := congrArg Prod.fst hzeros
      rw [hlen, writeencstrnull_long_zeros (by omega) h24] at hblock
      exact (hblock.trans (overwrite_all (by rw [hlen, length_replicate]))).symm
    have hne : t ≠ [] := by
      rintro rfl
      exact hlong (by decide)
    rw [hw0, Decoder.decode, reads_zero_length t, bind_some, if_neg hne] at hdecode
    cases hdecode
  · intro hs
    exact ⟨encstr s, (reads_encstr (hs.mono (by decide))).decode, fun stack data off hfit =>
      writeencstrnull_short hs stack hfit⟩

/-! ## The strings of a packet -/

/-- Several strings, each behind what the ones before it left. -/
theorem writeencstrnulls_eq {xs : List Byte} (ss : List (Option (List Byte)))
    (hss : ∀ s ∈ ss, Writes xs s (enc s)) (stack : Nat → Byte) (ys : List Byte)
    (hfit : ys.length + (ss.flatMap enc).length ≤ xs.length) :
    writeencstrnulls stack ss (overwrite xs 0 ys) ys.length
      = (overwrite xs 0 (ys ++ ss.flatMap enc), ys.length + (ss.flatMap enc).length) := by
  induction ss generalizing ys with
  | nil => simp [writeencstrnulls]
  | cons s ss ih =>
    rw [flatMap_cons, length_append] at hfit
    have hs := hss s mem_cons_self stack ys (by omega)
    have hrest := ih (fun t ht => hss t (mem_cons_of_mem s ht)) (ys ++ enc s)
      (by rw [length_append]; omega)
    rw [length_append] at hrest
    rw [writeencstrnulls, hs]
    simp only
    rw [hrest, flatMap_cons, append_assoc, length_append, Nat.add_assoc]

/-- The names in a column definition, behind the catalog. -/
def columnNames : Decoder (List (Option (List Byte))) := do
  Decoder.tag [0x03, 0x64, 0x65, 0x66]
  lenencStrNull.times 5

/-- Strings that were written into a block of zeros are read back only if all are short. -/
theorem shorter_of_step_zeros (ss : List (Option (List Byte))) (rest r : List Byte)
    (h : (lenencStrNull.times ss.length).step (ss.flatMap zeroEncstr ++ rest) = some (ss, r)) :
    ∀ s ∈ ss, ShorterThan 65536 s := by
  induction ss with
  | nil => exact nofun
  | cons s ss ih =>
    rw [length_cons, Decoder.step_times_succ, flatMap_cons, append_assoc] at h
    by_cases hs : ShorterThan 65536 s
    · -- the first string is read back, and the others are what follows
      have hread := reads_encstr (hs.mono (by decide : 65536 ≤ 2 ^ 64)) (ss.flatMap zeroEncstr ++ rest)
      rw [zeroEncstr_of_short hs, hread, bind_some] at h
      obtain ⟨q, hq, heq⟩ := bind_eq_some_iff.1 h
      obtain ⟨hqs, rfl⟩ := Prod.mk.inj (some.inj heq)
      obtain ⟨-, hqss⟩ := List.cons.inj hqs
      refine forall_mem_cons.2 ⟨hs, ih ?_⟩
      rw [hq, ← hqss]
    · -- a long one reads as the empty string
      exfalso
      obtain ⟨t, rfl, ht⟩ : ∃ t, s = some t ∧ ¬ t.length < 65536 := by
        simpa [ShorterThan] using hs
      rw [zeroEncstr, if_neg ht, append_assoc, reads_zero_length, bind_some] at h
      obtain ⟨q, -, heq⟩ := bind_eq_some_iff.1 h
      obtain ⟨hnil, -⟩ := List.cons.inj (Prod.mk.inj (some.inj heq)).1
      obtain rfl : [] = t := some.inj hnil
      exact ht (by decide)

/-! ## Column definitions -/

/-- What follows the names in a column definition. -/
def columnDefTail (columnLength : BitVec 32) (columnType : BitVec 8) (flags : BitVec 16)
    (decimals : BitVec 8) : List Byte :=
  [0x0c, 0x21, 0x00] ++ leBytes 4 columnLength.toNat ++ leBytes 1 columnType.toNat ++ leBytes 2 flags.toNat
    ++ leBytes 1 decimals.toNat ++ [0x00, 0x00]

/-- The payload of a column definition, as far as it depends on the names. -/
def columnDefLength (names : List (List Byte)) : Nat :=
  4 + (names.map fun s => lencint (BitVec.ofNat 64 s.length) + s.length).sum + (1 + 2) + 4 + 1 + 2 + 1 + 2

theorem length_flatMap_enc (names : List (List Byte))
    (henc : ∀ s ∈ names, (enc (some s)).length = lencint (BitVec.ofNat 64 s.length) + s.length) :
    ((names.map some).flatMap enc).length
      = (names.map fun s => lencint (BitVec.ofNat 64 s.length) + s.length).sum := by
  induction names with
  | nil => rfl
  | cons s names ih =>
    rw [map_cons, flatMap_cons, length_append, henc s mem_cons_self,
      ih fun t ht => henc t (mem_cons_of_mem s ht), map_cons, sum_cons]

theorem myprotoColumnDef_payload {fill stack : Nat → Byte} (id : BitVec 32)
    (schema table orgTable name orgName : List Byte) (columnLength : BitVec 32) (columnType : BitVec 8)
    (flags : BitVec 16) (decimals : BitVec 8)
    (hlen : columnDefLength [schema, table, orgTable, name, orgName] < 2 ^ 24)
    (hwrites : ∀ s ∈ [schema, table, orgTable, name, orgName],
      Writes (lAlloc fill (columnDefLength [schema, table, orgTable, name, orgName] + 4)) (some s)
      (enc (some s)))
    (henc : ∀ s ∈ [schema, table, orgTable, name, orgName],
      (enc (some s)).length = lencint (BitVec.ofNat 64 s.length) + s.length) :
    (myprotoColumnDef fill stack id schema table orgTable name orgName columnLength columnType flags
      decimals).payload
      = [0x03, 0x64, 0x65, 0x66] ++ ([schema, table, orgTable, name, orgName].map some).flatMap enc
        ++ columnDefTail columnLength columnType flags decimals := by
  have hsum := length_flatMap_enc _ henc
  generalize hnames : [schema, table, orgTable, name, orgName] = names at hlen hwrites henc hsum ⊢
  have hnum : (BitVec.ofNat 24 (columnDefLength names)).toNat = columnDefLength names := by
    rw [BitVec.toNat_ofNat, Nat.mod_eq_of_lt hlen]
  have hmem : ∀ s ∈ names.map some, Writes (lAlloc fill (columnDefLength names + 4)) s (enc s) := by
    intro s hs
    obtain ⟨t, ht, rfl⟩ := mem_map.1 hs
    exact hwrites t ht
  have hdef : columnDefLength names = 17 + ((names.map some).flatMap enc).length := by
    rw [columnDefLength, hsum]
    omega
  -- the header and the catalog, which the names are written behind
  generalize hpre : (⟨BitVec.ofNat 24 (columnDefLength names), id.setWidth 8⟩ : MysqlHdr).toBytes = hdr
  have hhdr : hdr.length = 4 := by rw [← hpre, MysqlHdr.length_toBytes]
  have hfront : (hdr ++ [0x03, 0x64, 0x65, 0x66]).length = sizeofMysqlHdr + 4 := by
    rw [length_append, hhdr]
    rfl
  have hstrs := writeencstrnulls_eq (names.map some) hmem stack (hdr ++ [0x03, 0x64, 0x65, 0x66])
    (by rw [hfront, length_lAlloc, hdef, sizeofMysqlHdr]; omega)
  rw [hfront] at hstrs
  have hfold : 4 + (names.map fun s => lencint (BitVec.ofNat 64 s.length) + s.length).sum + (1 + 2) + 4 +
      1 + 2 + 1 + 2 = columnDefLength names := rfl
  unfold myprotoColumnDef
  dsimp only
  rw [hnames, hfold, hnum, hpre]
  simp only [sizeofMysqlHdr] at hstrs ⊢
  rw [overwrite_next hhdr (by rw [length_lAlloc]; simp; omega), hstrs]
  generalize (names.map some).flatMap enc = strs at hdef
  -- and the fields behind them
  have hall : ∀ n, n = columnDefLength names + 4 → overwrite (lAlloc fill n) 0
      (hdr ++ [0x03, 0x64, 0x65, 0x66] ++ strs ++ columnDefTail columnLength columnType flags decimals)
        = hdr ++ ([0x03, 0x64, 0x65, 0x66] ++ strs ++
          columnDefTail columnLength columnType flags decimals) := by
    rintro n rfl
    rw [overwrite_all (by simp [columnDefTail, hhdr]; omega)]
    simp only [append_assoc]
  rw [overwrite_next (by simp [hhdr]; omega) (by simp; omega),
    overwrite_next (by simp [hhdr]; omega) (by simp; omega), overwrite_next (by simp [hhdr]; omega)
      (by simp; omega), overwrite_next (by simp [hhdr]; omega) (by simp; omega),
    overwrite_next (by simp [hhdr]; omega) (by simp; omega),
    overwrite_next (by simp [hhdr]; omega) (by simp; omega)]
  have hdata := hall _ rfl
  simp only [columnDefTail, ← append_assoc] at hdata
  rw [hdata, Pkt.payload]
  simp only [columnDefTail, sizeofMysqlHdr, append_assoc]
  exact drop_left' hhdr

/-! ## Round trips -/

/-- The names of a column definition, for every block it may be built in. -/
def NamesRoundTrip (names : List (List Byte)) (build : (Nat → Byte) → (Nat → Byte) → Pkt) : Prop :=
  ∀ fill stack, (columnNames.step (build fill stack).payload).map Prod.fst = some (names.map some)

theorem step_columnNames (bs : List Byte) :
    columnNames.step ([0x03, 0x64, 0x65, 0x66] ++ bs) = (lenencStrNull.times 5).step bs := by
  rfl

theorem shorter_of_columnDefLength {names : List (List Byte)} (h : columnDefLength names < 2 ^ 24) :
    ∀ s ∈ names, s.length < 16777216 := by
  intro s hs
  have hle : lencint (BitVec.ofNat 64 s.length) + s.length
      ≤ (names.map fun s => lencint (BitVec.ofNat 64 s.length) + s.length).sum :=
    le_sum_of_mem (mem_map_of_mem hs)
  rw [columnDefLength] at h
  omega

theorem namesRoundTrip_iff (id : BitVec 32) (schema table orgTable name orgName : List Byte)
    (columnLength : BitVec 32) (columnType : BitVec 8) (flags : BitVec 16) (decimals : BitVec 8)
    (hlen : columnDefLength [schema, table, orgTable, name, orgName] < 2 ^ 24) :
    NamesRoundTrip [schema, table, orgTable, name, orgName] (fun fill stack =>
        myprotoColumnDef fill stack id schema table orgTable name orgName columnLength columnType flags
          decimals) ↔
      ∀ s ∈ [schema, table, orgTable, name, orgName], s.length < 65536 := by
  have h24 := shorter_of_columnDefLength hlen
  constructor
  · intro h s hs
    have hzeros := @myprotoColumnDef_payload zeroEncstr (fun _ => 0) (fun _ => 0) id schema
      table orgTable name orgName columnLength columnType flags decimals hlen ?_ ?_
    · have hstep := h (fun _ => 0) (fun _ => 0)
      rw [hzeros, append_assoc, step_columnNames] at hstep
      obtain ⟨⟨ss, r⟩, hr, rfl⟩ := map_eq_some_iff.1 hstep
      exact shorter_of_step_zeros ([schema, table, orgTable, name, orgName].map some) _ r hr (some s)
        (mem_map_of_mem hs) s rfl
    · intro t ht
      rw [lAlloc_zeros]
      refine writes_zeros ?_ _
      rintro u ⟨⟩
      exact h24 t ht
    · intro t ht
      exact length_zeroEncstr_some (h24 t ht)
  · intro h fill stack
    have hshort : ∀ s ∈ [schema, table, orgTable, name, orgName], ShorterThan 65536 (some s) := by
      rintro s hs t ⟨⟩
      exact h s hs
    have hpayload :=
      @myprotoColumnDef_payload encstr fill stack id schema table orgTable name orgName columnLength
      columnType flags decimals hlen (fun s hs => writes_short (hshort s hs) _)
        (fun s _ => length_encstr_some)
    have hread := @reads_times _ lenencStrNull encstr
      ([schema, table, orgTable, name, orgName].map some) ?_
    · have hstep := hread (columnDefTail columnLength columnType flags decimals)
      rw [hpayload, append_assoc, step_columnNames]
      exact congrArg (Option.map Prod.fst) hstep
    · intro s hs
      obtain ⟨t, ht, rfl⟩ := mem_map.1 hs
      exact reads_encstr ((hshort t ht).mono (by decide))

/-- A string is written so that it can be read back just if it is shorter than 65536 bytes, and the names of
    a column definition are just if all of them are. -/
theorem encodedStrings_roundTrip_iff (s : Option (List Byte)) (id : BitVec 32)
    (schema table orgTable name orgName : List Byte) (columnLength : BitVec 32) (columnType : BitVec 8)
    (flags : BitVec 16) (decimals : BitVec 8) (hs : ShorterThan 16777216 s)
    (hlen : columnDefLength [schema, table, orgTable, name, orgName] < 2 ^ 24) :
    (RoundTrips s ↔ ShorterThan 65536 s) ∧
      (NamesRoundTrip [schema, table, orgTable, name, orgName] (fun fill stack =>
          myprotoColumnDef fill stack id schema table orgTable name orgName columnLength columnType flags
            decimals) ↔
        ∀ s ∈ [schema, table, orgTable, name, orgName], s.length < 65536) :=
  ⟨roundTrips_iff hs, namesRoundTrip_iff id schema table orgTable name orgName columnLength columnType flags
    decimals hlen⟩

theorem encodedStrings_roundTrip_short :
    RoundTrips (some [0x61]) ∧ RoundTrips none ∧
      NamesRoundTrip [[], [], [], [0x61], []]
        (fun fill stack => myprotoColumnDef fill stack 2 [] [] [] [0x61] [] 100 15 0 0) := by
  have hlen : columnDefLength [[], [], [], [0x61], []] < 2 ^ 24 := by decide
  obtain ⟨hstr, hnames⟩ :=
    encodedStrings_roundTrip_iff (some [0x61]) 2 [] [] [] [0x61] [] 100 15 0 0 (by decide) hlen
  obtain ⟨hnull, -⟩ := encodedStrings_roundTrip_iff none 2 [] [] [] [0x61] [] 100 15 0 0 (by decide) hlen
  exact ⟨hstr.2 (by decide), hnull.2 (by decide), hnames.2 (by decide)⟩

/-- In a block of zeros, 65536 bytes are read back as none. -/
theorem writeencstrnull_65536 :
    (lenencStrNull.step (writeencstrnull (fun _ => 0) (replicate (65536 + 4) 0) 0
        (some (replicate 65536 0x61))).1).map Prod.fst = some (some []) ∧
      ¬ RoundTrips (some (replicate 65536 0x61)) := by
  have hlen : (replicate 65536 (0x61 : Byte)).length = 65536 := length_replicate
  generalize replicate 65536 (0x61 : Byte) = s at hlen
  rw [← hlen]
  constructor
  · rw [writeencstrnull_long_zeros (by omega) (by omega), reads_zero_length]
    rfl
  · rw [roundTrips_iff]
    · intro h
      exact Nat.lt_irrefl _ (Nat.lt_of_lt_of_eq (h s rfl) hlen.symm)
    · rintro t ⟨⟩
      omega

end ProxySQL
