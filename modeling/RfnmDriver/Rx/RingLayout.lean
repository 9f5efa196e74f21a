import Mathlib.Data.Fintype.EquivFin
import Mathlib.Data.Fintype.Pi
import Mathlib.Tactic.IntervalCases
import RfnmDriver.Library.Lanes

/-!
# The sample layout of an ADC slot

The VSPA writes 768 samples of two twelve-bit values into 2304 bytes: the values of the first 576
samples in bits `[15:4]` of 1152 words, those of the others spread over the four spare bits of
these words. `rfnm_remap_packed_vspa_aarch64` makes standard packed samples of three bytes of it;
the estimator of `rfnm_qec` reads the words directly. Read `remapped_direct` and `remapped_extra`
first.
-/

namespace RfnmDriver.Rx.RingLayout

open Lanes

variable {src dest : Mem 8} {x0 x1 sample rounds : Nat}

/-! ## The routine -/

/-- Bytes of a slot: 576 words of two, 768 samples of three. -/
def slotBytes : Nat := 2304

/-- `dest + 1728`: where the extra samples go. -/
def extraOffset : Nat := 1728

/-- `v1` to `v3` of a group of sixteen samples loaded to `v0` to `v3`. -/
def packDirect (v : Nat → Reg 8) : List (Reg 8) :=
  [sri (shl (v 1) 4) (v 0) 4, sri (v 2) (v 1) 4, v 3]

/-- The extra bits of a group: those of `v0`, and those of `v2` above them. -/
def extraBits (v : Nat → Reg 8) : Reg 8 :=
  sli (v 0) (v 2) 4

/-- The extra bits of the three lines (`v16`, `v18` and `v20`) as sixteen samples. -/
def packExtra (v16 v18 v20 : Reg 8) : List (Reg 8) :=
  [sli v16 v18 4, bsl (movi 0x0F#8) v20 v16, sri v20 v18 4]

/-- The normal portions of a line of two groups. -/
def remapLine (src : Mem 8) (x1 x0 : Nat) (dest : Mem 8) : Mem 8 :=
  st 16 (packDirect (ld 4 src (x1 + 64))) (st 16 (packDirect (ld 4 src x1)) dest x0) (x0 + 48)

/-- The registers of the loop, as offsets into the two buffers, and the destination. -/
structure Remap where
  x0 : Nat
  x1 : Nat
  x4 : Nat
  dest : Mem 8

/-- One round of the loop: the three lines, then their extra bits. -/
def remapRound (src : Mem 8) (loop : Remap) : Remap :=
  let line0 := remapLine src loop.x1 loop.x0 loop.dest
  let line1 := remapLine src (loop.x1 + 128) (loop.x0 + 96) line0
  let line2 := remapLine src (loop.x1 + 256) (loop.x0 + 192) line1
  let v16 := extraBits (ld 4 src loop.x1)
  let v17 := extraBits (ld 4 src (loop.x1 + 64))
  let v18 := extraBits (ld 4 src (loop.x1 + 128))
  let v19 := extraBits (ld 4 src (loop.x1 + 192))
  let v20 := extraBits (ld 4 src (loop.x1 + 256))
  let v21 := extraBits (ld 4 src (loop.x1 + 320))
  { x0 := loop.x0 + 288
    x1 := loop.x1 + 384
    x4 := loop.x4 + 96
    dest := st 16 (packExtra v17 v19 v21) (st 16 (packExtra v16 v18 v20) line2 loop.x4)
      (loop.x4 + 48) }

/-- `rfnm_remap_packed_vspa_aarch64`: `x5` is the end of the source. -/
def remapPacked (src dest : Mem 8) : Option (Mem 8) :=
  (doWhile (remapRound src) (fun loop => loop.x1 != slotBytes) slotBytes
    ⟨0, 0, extraOffset, dest⟩).map Remap.dest

/-! ## The two readings of a slot -/

/-- The little-endian word `p[k]`. -/
def ringWord (src : Mem 8) (k : Nat) : BitVec 16 :=
  src (2 * k + 1) ++ src (2 * k)

/-- `(s16)(p[k] & 0xFFF0) >> 4`, the value of `qec_slot_scalar`. -/
def directValue (src : Mem 8) (k : Nat) : BitVec 16 :=
  (ringWord src k &&& 0xFFF0#16).sshiftRight 4

/-- The four bits of a word that hold no value of the first 576 samples. -/
def spareBits (src : Mem 8) (k : Nat) : BitVec 4 :=
  (ringWord src k).extractLsb' 0 4

/-- A standard packed sample: two twelve-bit values in three little-endian bytes. -/
def packedSample (bytes : Mem 8) (sample : Nat) : BitVec 24 :=
  bytes (3 * sample + 2) ++ bytes (3 * sample + 1) ++ bytes (3 * sample)

/-- The first value of a packed sample. -/
def firstValue (bytes : Mem 8) (sample : Nat) : BitVec 12 :=
  (packedSample bytes sample).extractLsb' 0 12

/-- The second value of a packed sample. -/
def secondValue (bytes : Mem 8) (sample : Nat) : BitVec 12 :=
  (packedSample bytes sample).extractLsb' 12 12

/-- The sample of the first 576 that carries, in this line, four bits of an extra sample. -/
def carrier (extra line : Nat) : Nat :=
  96 * (extra / 32) + 32 * line + extra % 32

/-- The value that the spare bits of three words give, those of the first line lowest. Even words
carry first values, odd ones second values. -/
def spareValue (src : Mem 8) (extra parity : Nat) : BitVec 12 :=
  spareBits src (2 * carrier extra 2 + parity) ++ spareBits src (2 * carrier extra 1 + parity) ++
    spareBits src (2 * carrier extra 0 + parity)

/-! ## What a round stores -/

/-- A byte of a direct sample. -/
def directByte (src : Mem 8) (sample byte : Nat) : BitVec 8 :=
  (packDirect (ld 4 src (4 * sample))).getD byte (fun _ => 0) 0

/-- A byte of an extra sample. -/
def extraByte (src : Mem 8) (extra byte : Nat) : BitVec 8 :=
  (packExtra (extraBits (ld 4 src (4 * carrier extra 0)))
    (extraBits (ld 4 src (4 * carrier extra 1)))
    (extraBits (ld 4 src (4 * carrier extra 2)))).getD byte (fun _ => 0) 0

/-- The lanes of a group are its samples. -/
theorem packDirect_lane (src : Mem 8) (sample byte lane : Nat) :
    (packDirect (ld 4 src (4 * sample))).getD byte (fun _ => 0) lane =
      directByte src (sample + lane) byte := by
  have hlane : ∀ reg, ld 4 src (4 * sample) reg lane = ld 4 src (4 * (sample + lane)) reg 0 :=
    fun reg => by
      show src (4 * sample + 4 * lane + reg) = src (4 * (sample + lane) + 4 * 0 + reg)
      congr 1
      omega
  match byte with
  | 0 => simp only [directByte, packDirect, List.getD_cons_zero, sri, shl, hlane]
  | 1 => simp only [directByte, packDirect, List.getD_cons_succ, List.getD_cons_zero, sri, hlane]
  | 2 => exact hlane 3
  | _ + 3 => rfl

/-- What is made of the extra bits of three lines goes lane by lane. -/
theorem packExtra_congr {v v' : Nat → Nat → Reg 8} {lane lane' : Nat}
    (h : ∀ line reg, v line reg lane = v' line reg lane') (byte : Nat) :
    (packExtra (extraBits (v 0)) (extraBits (v 1)) (extraBits (v 2))).getD byte (fun _ => 0) lane =
      (packExtra (extraBits (v' 0)) (extraBits (v' 1)) (extraBits (v' 2))).getD byte (fun _ => 0)
        lane' := by
  match byte with
  | 0 => simp only [packExtra, extraBits, List.getD_cons_zero, sli, h]
  | 1 =>
      simp only [packExtra, extraBits, List.getD_cons_succ, List.getD_cons_zero, sli, bsl, movi, h]
  | 2 => simp only [packExtra, extraBits, List.getD_cons_succ, List.getD_cons_zero, sli, sri, h]
  | _ + 3 => rfl

/-- The extra bits of a group of the three lines of a round. -/
def extraGroup (src : Mem 8) (round group : Nat) : List (Reg 8) :=
  packExtra (extraBits (ld 4 src (4 * (96 * round + 32 * 0 + 16 * group))))
    (extraBits (ld 4 src (4 * (96 * round + 32 * 1 + 16 * group))))
    (extraBits (ld 4 src (4 * (96 * round + 32 * 2 + 16 * group))))

/-- The lanes of a group of extra samples. -/
theorem extraGroup_lane (src : Mem 8) {round group lane : Nat} (hgroup : group < 2)
    (hlane : lane < 16) (byte : Nat) :
    (extraGroup src round group).getD byte (fun _ => 0) lane =
      extraByte src (32 * round + 16 * group + lane) byte := by
  refine @packExtra_congr (fun line => ld 4 src (4 * (96 * round + 32 * line + 16 * group)))
    (fun line => ld 4 src (4 * carrier (32 * round + 16 * group + lane) line)) lane 0
    (fun line reg => ?_) byte
  show src (4 * (96 * round + 32 * line + 16 * group) + 4 * lane + reg) =
    src (4 * carrier (32 * round + 16 * group + lane) line + 4 * 0 + reg)
  congr 1
  unfold carrier
  omega

/-- A group of sixteen direct samples. -/
theorem st_packDirect (src dest : Mem 8) (first addr : Nat) :
    st 16 (packDirect (ld 4 src (4 * first))) dest (3 * first) addr =
      if first ≤ addr / 3 ∧ addr / 3 < first + 16 then directByte src (addr / 3) (addr % 3)
      else dest addr := by
  exact st_structures dest (List.cons_ne_nil _ _)
    (fun lane _ byte => packDirect_lane src first byte lane) addr

/-- The two groups of a line. -/
theorem remapLine_eq (src dest : Mem 8) (first addr : Nat) :
    remapLine src (4 * first) (3 * first) dest addr =
      if first ≤ addr / 3 ∧ addr / 3 < first + 32 then directByte src (addr / 3) (addr % 3)
      else dest addr := by
  unfold remapLine
  rw [show 4 * first + 64 = 4 * (first + 16) by omega,
    show 3 * first + 48 = 3 * (first + 16) by omega, st_packDirect, st_packDirect]
  split_ifs <;> first | rfl | omega

/-- The two groups of extra samples of a round. -/
theorem st_extraGroups (src dest : Mem 8) (round addr : Nat) :
    st 16 (extraGroup src round 1) (st 16 (extraGroup src round 0) dest
      (extraOffset + 96 * round)) (extraOffset + 96 * round + 48) addr =
      if 576 + 32 * round ≤ addr / 3 ∧ addr / 3 < 576 + 32 * round + 32 then
        extraByte src (addr / 3 - 576) (addr % 3)
      else dest addr := by
  have hgroup : ∀ (group : Nat) (mem : Mem 8), group < 2 →
      st 16 (extraGroup src round group) mem (3 * (576 + 32 * round + 16 * group)) addr =
        if 576 + 32 * round + 16 * group ≤ addr / 3 ∧
            addr / 3 < 576 + 32 * round + 16 * group + 16 then
          extraByte src (addr / 3 - 576) (addr % 3)
        else mem addr := by
    intro group mem hgroup
    refine @st_structures 8 16 (576 + 32 * round + 16 * group) (extraGroup src round group) mem
      (List.cons_ne_nil _ _) (fun sample => extraByte src (sample - 576))
      (fun lane hlane byte => ?_) addr
    rw [extraGroup_lane src hgroup hlane, Nat.add_assoc 576, Nat.add_assoc 576,
      Nat.add_sub_cancel_left]
  have hfirst : extraOffset + 96 * round = 3 * (576 + 32 * round + 16 * 0) := by
    simp only [extraOffset]
    omega
  have hsecond : extraOffset + 96 * round + 48 = 3 * (576 + 32 * round + 16 * 1) := by
    simp only [extraOffset]
    omega
  rw [hsecond, hgroup 1 _ Nat.one_lt_two, hfirst, hgroup 0 _ Nat.zero_lt_two]
  split_ifs <;> first | rfl | omega

/-- The destination after so many rounds. -/
def remapped (src dest : Mem 8) (rounds : Nat) : Mem 8 := fun addr =>
  if addr / 3 < 96 * rounds then directByte src (addr / 3) (addr % 3)
  else if 576 ≤ addr / 3 ∧ addr / 3 < 576 + 32 * rounds then
    extraByte src (addr / 3 - 576) (addr % 3)
  else dest addr

/-- One round stores the direct samples of its three lines and the extra ones. -/
theorem remapRound_eq (src dest : Mem 8) {rounds : Nat} (h : rounds < 6) :
    remapRound src ⟨288 * rounds, 384 * rounds, extraOffset + 96 * rounds,
      remapped src dest rounds⟩ =
      ⟨288 * (rounds + 1), 384 * (rounds + 1), extraOffset + 96 * (rounds + 1),
        remapped src dest (rounds + 1)⟩ := by
  -- three lines of 32 samples a round, then their extra bytes
  have hlines : ∀ (mem : Mem 8) (addr : Nat),
      remapLine src (384 * rounds + 256) (288 * rounds + 192)
        (remapLine src (384 * rounds + 128) (288 * rounds + 96)
          (remapLine src (384 * rounds) (288 * rounds) mem)) addr =
        if 96 * rounds ≤ addr / 3 ∧ addr / 3 < 96 * rounds + 96 then
          directByte src (addr / 3) (addr % 3)
        else mem addr := by
    intro mem addr
    rw [show 384 * rounds + 256 = 4 * (96 * rounds + 64) by omega,
      show 288 * rounds + 192 = 3 * (96 * rounds + 64) by omega, remapLine_eq,
      show 384 * rounds + 128 = 4 * (96 * rounds + 32) by omega,
      show 288 * rounds + 96 = 3 * (96 * rounds + 32) by omega, remapLine_eq,
      show 384 * rounds = 4 * (96 * rounds) by omega,
      show 288 * rounds = 3 * (96 * rounds) by omega, remapLine_eq]
    split_ifs <;> first | rfl | omega
  have hdest : (remapRound src ⟨288 * rounds, 384 * rounds, extraOffset + 96 * rounds,
      remapped src dest rounds⟩).dest = remapped src dest (rounds + 1) := by
    funext addr
    have hextra := st_extraGroups src (remapLine src (384 * rounds + 256) (288 * rounds + 192)
      (remapLine src (384 * rounds + 128) (288 * rounds + 96)
        (remapLine src (384 * rounds) (288 * rounds) (remapped src dest rounds)))) rounds addr
    rw [hlines] at hextra
    have hbase : ∀ group line : Nat, 4 * (96 * rounds + 32 * line + 16 * group) =
        384 * rounds + 128 * line + 64 * group := fun group line => by omega
    simp only [extraGroup, hbase] at hextra
    refine hextra.trans ?_
    unfold remapped
    split_ifs <;> first | rfl | omega
  unfold remapRound at hdest ⊢
  simp only [Remap.mk.injEq]
  exact ⟨by omega, by omega, by omega, hdest⟩

/-- The registers and the destination after so many rounds. -/
theorem iterate_remapRound (src dest : Mem 8) {rounds : Nat} (h : rounds ≤ 6) :
    (remapRound src)^[rounds] ⟨0, 0, extraOffset, dest⟩ =
      ⟨288 * rounds, 384 * rounds, extraOffset + 96 * rounds, remapped src dest rounds⟩ := by
  induction rounds with
  | zero =>
      have hnone : remapped src dest 0 = dest := by
        funext addr
        unfold remapped
        rw [if_neg (by omega), if_neg (by omega)]
      rw [hnone]
      rfl
  | succ rounds ih =>
      rw [Function.iterate_succ_apply', ih (by omega)]
      exact remapRound_eq src dest (by omega)

/-- The routine returns after six rounds. -/
theorem remapPacked_eq (src dest : Mem 8) : remapPacked src dest = some (remapped src dest 6) := by
  have hrun : doWhile (remapRound src) (fun loop => loop.x1 != slotBytes) slotBytes
      ⟨0, 0, extraOffset, dest⟩ = some ((remapRound src)^[5 + 1] ⟨0, 0, extraOffset, dest⟩) := by
    refine doWhile_eq (fun round hround => ?_) ?_ (by simp [slotBytes])
    · rw [iterate_remapRound src dest (by omega)]
      simp only [slotBytes, bne_iff_ne]
      omega
    · rw [iterate_remapRound src dest (by omega)]
      rfl
  rw [remapPacked, hrun, iterate_remapRound src dest (by omega)]
  rfl

/-! ## Bits -/

/-- The three bytes of a direct sample, out of its four. -/
theorem direct_bits (b0 b1 b2 b3 : BitVec 8) :
    b3 ++ (b2 &&& BitVec.allOnes 8 <<< (8 - 4) ||| b1 >>> 4) ++
      (b1 <<< 4 &&& BitVec.allOnes 8 <<< (8 - 4) ||| b0 >>> 4) =
      (b3 ++ b2).extractLsb' 4 12 ++ (b1 ++ b0).extractLsb' 4 12 := by
  apply BitVec.eq_of_getLsbD_eq
  intro i hi
  simp only [BitVec.getLsbD_append, BitVec.getLsbD_or, BitVec.getLsbD_and, BitVec.getLsbD_shiftLeft,
    BitVec.getLsbD_ushiftRight, BitVec.getLsbD_extractLsb', BitVec.getLsbD_allOnes]
  interval_cases i <;> simp

/-- The three bytes of an extra sample, out of the extra bits of three lines. -/
theorem extra_bits (a0 a2 b0 b2 c0 c2 : BitVec 8) (v16 v18 v20 : BitVec 8)
    (h16 : v16 = a0 &&& BitVec.allOnes 8 >>> (8 - 4) ||| a2 <<< 4)
    (h18 : v18 = b0 &&& BitVec.allOnes 8 >>> (8 - 4) ||| b2 <<< 4)
    (h20 : v20 = c0 &&& BitVec.allOnes 8 >>> (8 - 4) ||| c2 <<< 4) :
    (v20 &&& BitVec.allOnes 8 <<< (8 - 4) ||| v18 >>> 4) ++
      (0x0F#8 &&& v20 ||| ~~~0x0F#8 &&& v16) ++
      (v16 &&& BitVec.allOnes 8 >>> (8 - 4) ||| v18 <<< 4) =
      c2.extractLsb' 0 4 ++ b2.extractLsb' 0 4 ++ a2.extractLsb' 0 4 ++
        (c0.extractLsb' 0 4 ++ b0.extractLsb' 0 4 ++ a0.extractLsb' 0 4) := by
  subst h16 h18 h20
  apply BitVec.eq_of_getLsbD_eq
  intro i hi
  simp only [BitVec.getLsbD_append, BitVec.getLsbD_or, BitVec.getLsbD_and, BitVec.getLsbD_shiftLeft,
    BitVec.getLsbD_ushiftRight, BitVec.getLsbD_extractLsb', BitVec.getLsbD_allOnes,
    BitVec.getLsbD_not]
  interval_cases i <;> simp

/-- The value of the scalar decode is the upper twelve bits of the word, sign-extended. -/
theorem directValue_eq (src : Mem 8) (k : Nat) :
    directValue src k = ((ringWord src k).extractLsb' 4 12).signExtend 16 := by
  unfold directValue
  generalize ringWord src k = word
  apply BitVec.eq_of_getLsbD_eq
  intro i hi
  simp only [BitVec.getLsbD_sshiftRight, BitVec.getLsbD_and,
    BitVec.getLsbD_signExtend, BitVec.getLsbD_extractLsb', BitVec.msb_eq_getLsbD_last]
  interval_cases i <;> simp

/-! ## The values of the samples -/

/-- A direct sample is packed from the upper bits of its two words. -/
theorem packedSample_direct (src dest : Mem 8) {sample : Nat} (h : sample < 576) :
    packedSample (remapped src dest 6) sample =
      (ringWord src (2 * sample + 1)).extractLsb' 4 12 ++
        (ringWord src (2 * sample)).extractLsb' 4 12 := by
  have hbyte : ∀ byte < 3, remapped src dest 6 (3 * sample + byte) =
      directByte src sample byte := by
    intro byte hlt
    have hdiv : (3 * sample + byte) / 3 = sample := by omega
    have hmod : (3 * sample + byte) % 3 = byte := by omega
    unfold remapped
    rw [hdiv, hmod, if_pos (by omega)]
  have hword : ∀ byte < 2, ringWord src (2 * sample + byte) =
      src (4 * sample + 2 * byte + 1) ++ src (4 * sample + 2 * byte) := by
    intro byte _
    unfold ringWord
    rw [show 2 * (2 * sample + byte) = 4 * sample + 2 * byte by omega]
  unfold packedSample
  rw [hbyte 2 (by omega), hbyte 1 (by omega), ← Nat.add_zero (3 * sample), hbyte 0 (by omega),
    hword 1 (by omega), ← Nat.add_zero (2 * sample), hword 0 (by omega)]
  exact direct_bits _ _ _ _

/-- An extra sample is packed from the spare bits of six words. -/
theorem packedSample_extra (src dest : Mem 8) {extra : Nat} (h : extra < 192) :
    packedSample (remapped src dest 6) (576 + extra) =
      spareValue src extra 1 ++ spareValue src extra 0 := by
  have hbyte : ∀ byte < 3, remapped src dest 6 (3 * (576 + extra) + byte) =
      extraByte src extra byte := by
    intro byte hlt
    have hdiv : (3 * (576 + extra) + byte) / 3 = 576 + extra := by omega
    have hmod : (3 * (576 + extra) + byte) % 3 = byte := by omega
    unfold remapped
    rw [hdiv, hmod, if_neg (by omega), if_pos (by omega), Nat.add_sub_cancel_left]
  have hspare : ∀ line : Nat, ∀ parity < 2, spareBits src (2 * carrier extra line + parity) =
      (src (4 * carrier extra line + 2 * parity)).extractLsb' 0 4 := by
    intro line parity _
    unfold spareBits ringWord
    rw [show 2 * (2 * carrier extra line + parity) = 4 * carrier extra line + 2 * parity by omega]
    apply BitVec.eq_of_getLsbD_eq
    intro i hi
    simp only [BitVec.getLsbD_extractLsb', BitVec.getLsbD_append]
    interval_cases i <;> simp
  unfold packedSample spareValue
  rw [hbyte 2 (by omega), hbyte 1 (by omega), ← Nat.add_zero (3 * (576 + extra)),
    hbyte 0 (by omega)]
  simp only [hspare _ 1 (by omega), hspare _ 0 (by omega)]
  exact extra_bits _ _ _ _ _ _ _ _ _ rfl rfl rfl

/-- The values of a direct sample are the upper bits of its two words. -/
theorem values_direct (src dest : Mem 8) {sample : Nat} (h : sample < 576) :
    firstValue (remapped src dest 6) sample = (ringWord src (2 * sample)).extractLsb' 4 12 ∧
      secondValue (remapped src dest 6) sample =
        (ringWord src (2 * sample + 1)).extractLsb' 4 12 := by
  unfold firstValue secondValue
  rw [packedSample_direct src dest h]
  exact ⟨BitVec.extractLsb'_append_eq_right, BitVec.extractLsb'_append_eq_left⟩

/-- The values of an extra sample are put together from the spare bits of its words. -/
theorem values_extra (src dest : Mem 8) {extra : Nat} (h : extra < 192) :
    firstValue (remapped src dest 6) (576 + extra) = spareValue src extra 0 ∧
      secondValue (remapped src dest 6) (576 + extra) = spareValue src extra 1 := by
  unfold firstValue secondValue
  rw [packedSample_extra src dest h]
  exact ⟨BitVec.extractLsb'_append_eq_right, BitVec.extractLsb'_append_eq_left⟩

/-! ## The routine as a map of byte strings -/

/-- A slot as the bytes in front of a memory. -/
def toMem (slot : Fin slotBytes → BitVec 8) : Mem 8 := fun addr =>
  if h : addr < slotBytes then slot ⟨addr, h⟩ else 0

/-- What the routine makes of a slot. -/
def remapString (slot : Fin slotBytes → BitVec 8) : Fin slotBytes → BitVec 8 := fun i =>
  ((remapPacked (toMem slot) fun _ => 0).getD fun _ => 0) i

/-- Equal strings of bits of two parts have equal parts. -/
theorem eq_and_eq_of_append_eq {w v : Nat} {a c : BitVec w} {b d : BitVec v} (h : a ++ b = c ++ d) :
    a = c ∧ b = d := by
  have hleft := congrArg (BitVec.extractLsb' v w) h
  have hright := congrArg (BitVec.extractLsb' 0 v) h
  rw [BitVec.extractLsb'_append_eq_left, BitVec.extractLsb'_append_eq_left] at hleft
  rw [BitVec.extractLsb'_append_eq_right, BitVec.extractLsb'_append_eq_right] at hright
  exact ⟨hleft, hright⟩

/-- The three parts of a spare value are those of its words. -/
theorem spareBits_eq_of_spareValue {src' : Mem 8} {extra parity : Nat}
    (h : spareValue src extra parity = spareValue src' extra parity) {line : Nat}
    (hline : line < 3) :
    spareBits src (2 * carrier extra line + parity) =
      spareBits src' (2 * carrier extra line + parity) := by
  obtain ⟨hupper, hfirst⟩ := eq_and_eq_of_append_eq h
  obtain ⟨hthird, hsecond⟩ := eq_and_eq_of_append_eq hupper
  match line with
  | 0 => exact hfirst
  | 1 => exact hsecond
  | 2 => exact hthird

/-- The packed samples of the output determine every word of the slot. -/
theorem ringWord_eq_of_packedSample {src src' : Mem 8} (dest dest' : Mem 8)
    (h : ∀ sample < 768, packedSample (remapped src dest 6) sample =
      packedSample (remapped src' dest' 6) sample) {k : Nat} (hk : k < 1152) :
    ringWord src k = ringWord src' k := by
  have hsplit : ∀ word : BitVec 16, word = word.extractLsb' 4 12 ++ word.extractLsb' 0 4 := by
    intro word
    have happend : word.extractLsb' 4 12 ++ word.extractLsb' 0 4 = word.extractLsb' 0 16 :=
      BitVec.extractLsb'_append_extractLsb'_eq_extractLsb' rfl
    rw [happend, BitVec.extractLsb'_eq_self]
  have hcarrier : carrier (32 * (k / 2 / 96) + k / 2 % 32) (k / 2 / 32 % 3) = k / 2 := by
    unfold carrier
    omega
  have hdirect := h (k / 2) (by omega)
  rw [packedSample_direct src dest (by omega), packedSample_direct src' dest' (by omega)] at hdirect
  obtain ⟨hodd, heven⟩ := eq_and_eq_of_append_eq hdirect
  have hextra := h (576 + (32 * (k / 2 / 96) + k / 2 % 32)) (by omega)
  rw [packedSample_extra src dest (by omega), packedSample_extra src' dest' (by omega)] at hextra
  obtain ⟨hoddSpare, hevenSpare⟩ := eq_and_eq_of_append_eq hextra
  have hline : k / 2 / 32 % 3 < 3 := Nat.mod_lt _ (by omega)
  -- its upper 12 bits are a direct sample, the rest is a third of a spare one
  obtain hk2 | hk2 : k = 2 * (k / 2) ∨ k = 2 * (k / 2) + 1 := by omega
  · have hspare := spareBits_eq_of_spareValue hevenSpare hline
    rw [hcarrier, Nat.add_zero, ← hk2] at hspare
    rw [← hk2] at heven
    rw [hsplit (ringWord src k), hsplit (ringWord src' k), heven]
    exact congrArg _ hspare
  · have hspare := spareBits_eq_of_spareValue hoddSpare hline
    rw [hcarrier, ← hk2] at hspare
    rw [← hk2] at hodd
    rw [hsplit (ringWord src k), hsplit (ringWord src' k), hodd]
    exact congrArg _ hspare

/-- No two slots have the same output. -/
theorem remapString_injective : Function.Injective remapString := by
  intro slot slot' h
  have hout : ∀ addr < slotBytes, remapped (toMem slot) (fun _ => 0) 6 addr =
      remapped (toMem slot') (fun _ => 0) 6 addr := by
    intro addr haddr
    have hbyte := congrFun h ⟨addr, haddr⟩
    simpa only [remapString, remapPacked_eq, Option.getD_some] using hbyte
  have hword : ∀ k < 1152, ringWord (toMem slot) k = ringWord (toMem slot') k := by
    intro k hk
    refine ringWord_eq_of_packedSample (fun _ => 0) (fun _ => 0) (fun sample hsample => ?_) hk
    unfold packedSample
    rw [hout _ (by unfold slotBytes; omega), hout _ (by unfold slotBytes; omega),
      hout _ (by unfold slotBytes; omega)]
  have hmem : ∀ addr < slotBytes, toMem slot addr = toMem slot' addr := by
    intro addr haddr
    have hlt : addr / 2 < 1152 := by unfold slotBytes at haddr; omega
    obtain ⟨hhigh, hlow⟩ := eq_and_eq_of_append_eq (hword (addr / 2) hlt)
    obtain heven | hodd : addr = 2 * (addr / 2) ∨ addr = 2 * (addr / 2) + 1 := by omega
    · rwa [← heven] at hlow
    · rwa [← hodd] at hhigh
  funext i
  have hi := hmem i i.isLt
  unfold toMem at hi
  rwa [dif_pos i.isLt, dif_pos i.isLt] at hi

/-- The packed samples depend on the words of the slot only. -/
theorem packedSample_congr {src src' : Mem 8} (dest dest' : Mem 8)
    (h : ∀ k < 1152, ringWord src k = ringWord src' k) {sample : Nat} (hsample : sample < 768) :
    packedSample (remapped src dest 6) sample = packedSample (remapped src' dest' 6) sample := by
  by_cases hdirect : sample < 576
  · rw [packedSample_direct src dest hdirect, packedSample_direct src' dest' hdirect,
      h _ (by omega), h _ (by omega)]
  · obtain ⟨extra, rfl⟩ := Nat.exists_eq_add_of_le (Nat.le_of_not_lt hdirect)
    have hspare : ∀ line < 3, ∀ parity < 2, spareBits src (2 * carrier extra line + parity) =
        spareBits src' (2 * carrier extra line + parity) := by
      intro line hline parity hparity
      unfold spareBits
      rw [h _ (by unfold carrier; omega)]
    rw [packedSample_extra src dest (by omega), packedSample_extra src' dest' (by omega)]
    unfold spareValue
    simp only [hspare 0 (by omega) 0 (by omega), hspare 1 (by omega) 0 (by omega),
      hspare 2 (by omega) 0 (by omega), hspare 0 (by omega) 1 (by omega),
      hspare 1 (by omega) 1 (by omega), hspare 2 (by omega) 1 (by omega)]

/-- The output depends on the bytes of the slot only. -/
theorem remapped_eq_remapString (src dest : Mem 8) (i : Fin slotBytes) :
    remapped src dest 6 i = remapString (fun j => src j) i := by
  have hmem : ∀ addr < slotBytes, src addr = toMem (fun j => src j) addr := fun addr haddr => by
    unfold toMem
    rw [dif_pos haddr]
  have hword : ∀ k < 1152, ringWord src k = ringWord (toMem fun j => src j) k := by
    intro k hk
    unfold ringWord
    rw [hmem _ (by unfold slotBytes; omega), hmem (2 * k) (by unfold slotBytes; omega)]
  have hi : (i : Nat) < 2304 := i.isLt
  have hsample := packedSample_congr dest (fun _ => 0) hword (show (i : Nat) / 3 < 768 by omega)
  obtain ⟨hupper, hfirst⟩ := eq_and_eq_of_append_eq hsample
  obtain ⟨hthird, hsecond⟩ := eq_and_eq_of_append_eq hupper
  show _ = ((remapPacked (toMem fun j => src j) fun _ => 0).getD fun _ => 0) i
  rw [remapPacked_eq, Option.getD_some]
  obtain hbyte | hbyte | hbyte : (i : Nat) = 3 * (i / 3) ∨ (i : Nat) = 3 * (i / 3) + 1 ∨
      (i : Nat) = 3 * (i / 3) + 2 := by omega
  · rwa [← hbyte] at hfirst
  · rwa [← hbyte] at hsecond
  · rwa [← hbyte] at hthird

/-- **The ring layout.** The routine returns with the values of the direct decode as its first 576
samples, the ones put together from the spare bits as the others, and nothing written behind them;
as a map of byte strings it is a bijection. -/
theorem remapPacked_layout :
    (∀ src dest : Mem 8, ∃ out, remapPacked src dest = some out ∧
      (∀ sample < 576,
        (firstValue out sample).signExtend 16 = directValue src (2 * sample) ∧
          (secondValue out sample).signExtend 16 = directValue src (2 * sample + 1)) ∧
      (∀ extra < 192,
        firstValue out (576 + extra) = spareValue src extra 0 ∧
          secondValue out (576 + extra) = spareValue src extra 1) ∧
      (∀ i : Fin slotBytes, out i = remapString (fun j => src j) i) ∧
      ∀ addr, slotBytes ≤ addr → out addr = dest addr) ∧
    Function.Bijective remapString := by
  have : Finite (BitVec 8) := Finite.of_injective BitVec.toFin fun _ _ => BitVec.eq_of_toFin_eq
  refine ⟨fun src dest => ⟨_, remapPacked_eq src dest, fun sample h => ?_, fun extra h =>
    values_extra src dest h, remapped_eq_remapString src dest, fun addr h => ?_⟩,
    Finite.injective_iff_bijective.mp remapString_injective⟩
  · obtain ⟨hfirst, hsecond⟩ := values_direct src dest h
    rw [hfirst, hsecond, directValue_eq, directValue_eq]
    exact ⟨rfl, rfl⟩
  · unfold remapped
    unfold slotBytes at h
    rw [if_neg (by omega), if_neg (by omega)]

end RfnmDriver.Rx.RingLayout
