import RfnmDriver.Rx.Packet
import RfnmDriver.Rx.RingLayout

/-!
# Filling a local packet with 16-bit samples

`rfnm_local_fill_cs16` widens packed samples to 16 bits a value, by `rfnm_unpack12to16_aarch64` when
the bytes to write are whole blocks of 256 and by a C loop otherwise. The vector loop counts its
bytes down and tests at the end of a round, so on a count of zero it runs on. Read
`localFillCs16_eq` first.
-/

namespace RfnmDriver.Rx.Cs16Fill

open Lanes RingLayout

variable {src dest : Mem 8} {elems rounds addr : Nat}

/-! ## The vector path -/

/-- What is stored of sixteen samples: `v0` to `v3` of the three registers loaded. -/
def unpackGroup (v : Nat → Reg 8) : List (Reg 8) :=
  [shl (ushr (v 1) 4) 4, v 2, shl (v 0) 4, orr (ushr (v 0) 4) (shl (v 1) 4)]

/-- The registers of the loop: offsets into the buffers, and the bytes to go. -/
structure Unpack where
  dest : Nat
  src : Nat
  count : BitVec 64
  mem : Mem 8

/-- One round: 192 bytes to 256. -/
def unpackRound (src : Mem 8) (loop : Unpack) : Unpack :=
  let group0 := st 16 (unpackGroup (ld 3 src loop.src)) loop.mem loop.dest
  let group1 := st 16 (unpackGroup (ld 3 src (loop.src + 48))) group0 (loop.dest + 64)
  let group2 := st 16 (unpackGroup (ld 3 src (loop.src + 96))) group1 (loop.dest + 128)
  { dest := loop.dest + 256
    src := loop.src + 192
    count := loop.count - 256
    mem := st 16 (unpackGroup (ld 3 src (loop.src + 144))) group2 (loop.dest + 192) }

/-- `rfnm_unpack12to16_aarch64`; the fuel bounds the rounds of its loop. -/
def unpack12to16 (fuel : Nat) (dest src : Mem 8) (bytes : BitVec 32) : Option (Mem 8) :=
  (doWhile (unpackRound src) (fun loop => loop.count != 0) fuel
    ⟨0, 0, bytes.setWidth 64, dest⟩).map Unpack.mem

/-! ## The C path -/

/-- A little-endian 16-bit store. -/
def store16 (mem : Mem 8) (base : Nat) (value : BitVec 16) : Mem 8 := fun addr =>
  if addr = base then value.extractLsb' 0 8
  else if addr = base + 1 then value.extractLsb' 8 8
  else mem addr

/-- `lp`. -/
def packedWord (src : Mem 8) (base : Nat) : BitVec 32 :=
  (src base).setWidth 32 ||| (src (base + 1)).setWidth 32 <<< 8 |||
    (src (base + 2)).setWidth 32 <<< 16

/-- The C loop, after so many samples. -/
def fillLoop (dest src : Mem 8) : Nat → Mem 8
  | 0 => dest
  | c + 1 =>
      let lp := packedWord src (3 * c)
      store16 (store16 (fillLoop dest src c) (4 * c) (((lp >>> 12 &&& 0xfff) <<< 4).setWidth 16))
        (4 * c + 2) (((lp &&& 0xfff) <<< 4).setWidth 16)

/-- `rfnm_local_fill_cs16`. -/
def localFillCs16 (fuel : Nat) (dest src : Mem 8) (elems : BitVec 32) : Option (Mem 8) :=
  if elems * 4 &&& 255 = 0 then unpack12to16 fuel dest src (elems * 4)
  else some (fillLoop dest src elems.toNat)

/-- A little-endian 16-bit value. -/
def value16 (mem : Mem 8) (addr : Nat) : BitVec 16 :=
  mem (addr + 1) ++ mem addr

/-! ## What the rounds store -/

/-- A byte of a widened sample. -/
def fillByte (src : Mem 8) (sample byte : Nat) : BitVec 8 :=
  (unpackGroup (ld 3 src (3 * sample))).getD byte (fun _ => 0) 0

/-- The lanes of a group are its samples. -/
theorem unpackGroup_lane (src : Mem 8) (sample byte lane : Nat) :
    (unpackGroup (ld 3 src (3 * sample))).getD byte (fun _ => 0) lane =
      fillByte src (sample + lane) byte := by
  have hlane : ∀ reg, ld 3 src (3 * sample) reg lane = ld 3 src (3 * (sample + lane)) reg 0 :=
    fun reg => by
      show src (3 * sample + 3 * lane + reg) = src (3 * (sample + lane) + 3 * 0 + reg)
      rw [Nat.mul_add, Nat.mul_zero, Nat.add_zero]
  match byte with
  | 0 => simp only [fillByte, unpackGroup, List.getD_cons_zero, shl, ushr, hlane]
  | 1 => exact hlane 2
  | 2 => simp only [fillByte, unpackGroup, List.getD_cons_succ, List.getD_cons_zero, shl, hlane]
  | 3 =>
      simp only [fillByte, unpackGroup, List.getD_cons_succ, List.getD_cons_zero, shl, ushr, orr,
        hlane]
  | _ + 4 => rfl

/-- A group of sixteen samples. -/
theorem st_unpackGroup (src mem : Mem 8) (first addr : Nat) :
    st 16 (unpackGroup (ld 3 src (3 * first))) mem (4 * first) addr =
      if first ≤ addr / 4 ∧ addr / 4 < first + 16 then fillByte src (addr / 4) (addr % 4)
      else mem addr := by
  exact st_structures mem (List.cons_ne_nil _ _)
    (fun lane _ byte => unpackGroup_lane src first byte lane) addr

/-- A destination filled with the first samples. -/
def filled (dest src : Mem 8) (elems : Nat) : Mem 8 := fun addr =>
  if addr / 4 < elems then fillByte src (addr / 4) (addr % 4) else dest addr

/-- One round fills 64 samples. -/
theorem unpackRound_filled (dest src : Mem 8) (rounds : Nat) (count : BitVec 64) :
    unpackRound src ⟨256 * rounds, 192 * rounds, count, filled dest src (64 * rounds)⟩ =
      ⟨256 * (rounds + 1), 192 * (rounds + 1), count - 256,
        filled dest src (64 * (rounds + 1))⟩ := by
  have hmem : (unpackRound src ⟨256 * rounds, 192 * rounds, count,
      filled dest src (64 * rounds)⟩).mem = filled dest src (64 * (rounds + 1)) := by
    funext addr
    show st 16 (unpackGroup (ld 3 src (192 * rounds + 144)))
      (st 16 (unpackGroup (ld 3 src (192 * rounds + 96)))
        (st 16 (unpackGroup (ld 3 src (192 * rounds + 48)))
          (st 16 (unpackGroup (ld 3 src (192 * rounds))) _ (256 * rounds)) (256 * rounds + 64))
        (256 * rounds + 128)) (256 * rounds + 192) addr = _
    rw [show 192 * rounds + 144 = 3 * (64 * rounds + 48) by omega,
      show 256 * rounds + 192 = 4 * (64 * rounds + 48) by omega, st_unpackGroup,
      show 192 * rounds + 96 = 3 * (64 * rounds + 32) by omega,
      show 256 * rounds + 128 = 4 * (64 * rounds + 32) by omega, st_unpackGroup,
      show 192 * rounds + 48 = 3 * (64 * rounds + 16) by omega,
      show 256 * rounds + 64 = 4 * (64 * rounds + 16) by omega, st_unpackGroup,
      show 192 * rounds = 3 * (64 * rounds) by omega,
      show 256 * rounds = 4 * (64 * rounds) by omega, st_unpackGroup]
    simp only [filled]
    split_ifs <;> first | rfl | omega
  have hdest : 256 * rounds + 256 = 256 * (rounds + 1) := by omega
  have hsrc : 192 * rounds + 192 = 192 * (rounds + 1) := by omega
  calc unpackRound src ⟨256 * rounds, 192 * rounds, count, filled dest src (64 * rounds)⟩
      = ⟨256 * rounds + 256, 192 * rounds + 192, count - 256,
          (unpackRound src ⟨256 * rounds, 192 * rounds, count,
            filled dest src (64 * rounds)⟩).mem⟩ := rfl
    _ = _ := by rw [hmem, hdest, hsrc]

/-- The registers and the destination after so many rounds. -/
theorem iterate_unpackRound (dest src : Mem 8) (count : BitVec 64) (rounds : Nat) :
    (unpackRound src)^[rounds] ⟨0, 0, count, dest⟩ =
      ⟨256 * rounds, 192 * rounds, count - BitVec.ofNat 64 (256 * rounds),
        filled dest src (64 * rounds)⟩ := by
  induction rounds with
  | zero =>
      have hnone : filled dest src (64 * 0) = dest := by
        funext addr
        unfold filled
        rw [if_neg (by omega)]
      rw [hnone]
      show (⟨0, 0, count, dest⟩ : Unpack) = ⟨0, 0, count - 0#64, dest⟩
      rw [BitVec.sub_zero]
  | succ rounds ih =>
      have hcount : count - BitVec.ofNat 64 (256 * rounds) - 256 =
          count - BitVec.ofNat 64 (256 * (rounds + 1)) := by
        rw [Nat.mul_succ, BitVec.ofNat_add, BitVec.sub_sub]
        rfl
      rw [Function.iterate_succ_apply', ih, unpackRound_filled, hcount]

/-- On a positive number of blocks the vector loop returns after as many rounds. -/
theorem unpack12to16_eq (dest src : Mem 8) {blocks : Nat} {bytes : BitVec 32} {fuel : Nat}
    (hbytes : bytes.toNat = 256 * blocks) (hblocks : 0 < blocks) (hfuel : blocks ≤ fuel) :
    unpack12to16 fuel dest src bytes = some (filled dest src (64 * blocks)) := by
  have hlt := bytes.isLt
  have hcount : (bytes.setWidth 64).toNat = 256 * blocks := by
    rw [BitVec.toNat_setWidth, Nat.mod_eq_of_lt (by omega), hbytes]
  have hrun : doWhile (unpackRound src) (fun loop => loop.count != 0) fuel
      ⟨0, 0, bytes.setWidth 64, dest⟩ =
        some ((unpackRound src)^[blocks] ⟨0, 0, bytes.setWidth 64, dest⟩) :=
    doWhile_count Unpack.count (fun _ => rfl) hcount (show 0 < 256 by omega) hblocks hfuel
  rw [unpack12to16, hrun, iterate_unpackRound]
  rfl

/-- Whatever the count, a vector loop that returns has filled the first block. -/
theorem filled_of_unpack12to16 {fuel : Nat} {bytes : BitVec 32} {out : Mem 8}
    (h : unpack12to16 fuel dest src bytes = some out) :
    ∃ rounds, out = filled dest src (64 * (rounds + 1)) := by
  obtain ⟨final, hrun, rfl⟩ := Option.map_eq_some_iff.mp h
  obtain ⟨rounds, rfl⟩ := exists_rounds_of_doWhile hrun
  exact ⟨rounds, by rw [iterate_unpackRound]⟩

/-! ## What the C loop stores -/

/-- The two values that the C loop stores are the ones of the packed sample, the second one first,
in the upper bits. -/
theorem packedWord_values (src : Mem 8) (sample : Nat) :
    ((packedWord src (3 * sample) >>> 12 &&& 0xfff) <<< 4).setWidth 16 =
        secondValue src sample ++ 0#4 ∧
      ((packedWord src (3 * sample) &&& 0xfff) <<< 4).setWidth 16 =
        firstValue src sample ++ 0#4 := by
  unfold packedWord secondValue firstValue packedSample
  constructor
  · apply BitVec.eq_of_getLsbD_eq
    intro i hi
    simp only [BitVec.getLsbD_setWidth, BitVec.getLsbD_shiftLeft, BitVec.getLsbD_and,
      BitVec.getLsbD_ushiftRight, BitVec.getLsbD_or, BitVec.getLsbD_append,
      BitVec.getLsbD_extractLsb']
    interval_cases i <;> simp
  · apply BitVec.eq_of_getLsbD_eq
    intro i hi
    simp only [BitVec.getLsbD_setWidth, BitVec.getLsbD_shiftLeft, BitVec.getLsbD_and,
      BitVec.getLsbD_or, BitVec.getLsbD_append, BitVec.getLsbD_extractLsb']
    interval_cases i <;> simp

/-- The bytes of a widened sample are those of its two values. -/
theorem fillByte_values (src : Mem 8) (sample : Nat) :
    fillByte src sample 1 ++ fillByte src sample 0 = secondValue src sample ++ 0#4 ∧
      fillByte src sample 3 ++ fillByte src sample 2 = firstValue src sample ++ 0#4 := by
  unfold secondValue firstValue packedSample
  constructor
  · show (src (3 * sample + 2) ++ src (3 * sample + 1) >>> 4 <<< 4 : BitVec (8 + 8)) = _
    apply BitVec.eq_of_getLsbD_eq
    intro i hi
    simp only [BitVec.getLsbD_shiftLeft, BitVec.getLsbD_ushiftRight, BitVec.getLsbD_append,
      BitVec.getLsbD_extractLsb']
    interval_cases i <;> simp
  · show ((src (3 * sample) >>> 4 ||| src (3 * sample + 1) <<< 4) ++ src (3 * sample) <<< 4 :
      BitVec (8 + 8)) = _
    apply BitVec.eq_of_getLsbD_eq
    intro i hi
    simp only [BitVec.getLsbD_shiftLeft, BitVec.getLsbD_ushiftRight, BitVec.getLsbD_or,
      BitVec.getLsbD_append, BitVec.getLsbD_extractLsb']
    interval_cases i <;> simp

/-- The two bytes of a 16-bit string. -/
theorem bytes_of_append {high low : BitVec 8} {value : BitVec 16} (h : high ++ low = value) :
    high = value.extractLsb' 8 8 ∧ low = value.extractLsb' 0 8 := by
  subst h
  exact ⟨BitVec.extractLsb'_append_eq_left.symm, BitVec.extractLsb'_append_eq_right.symm⟩

/-- The C loop fills the samples it has come to. -/
theorem fillLoop_eq (dest src : Mem 8) (elems : Nat) :
    fillLoop dest src elems = filled dest src elems := by
  induction elems with
  | zero =>
      funext addr
      unfold filled
      rw [if_neg (Nat.not_lt_zero _)]
      rfl
  | succ c ih =>
      obtain ⟨hsecond, hfirst⟩ := packedWord_values src c
      obtain ⟨hupper, hlower⟩ := fillByte_values src c
      obtain ⟨hbyte1, hbyte0⟩ := bytes_of_append hupper
      obtain ⟨hbyte3, hbyte2⟩ := bytes_of_append hlower
      funext addr
      show store16 (store16 (fillLoop dest src c) (4 * c) _) (4 * c + 2) _ addr = _
      rw [ih, hsecond, hfirst]
      simp only [store16, filled]
      by_cases hhere : addr / 4 = c
      · obtain h | h | h | h : addr = 4 * c ∨ addr = 4 * c + 1 ∨ addr = 4 * c + 2 ∨
            addr = 4 * c + 3 := by omega
        · rw [if_neg (by omega), if_neg (by omega), if_pos h, if_pos (by omega), hhere,
            show addr % 4 = 0 by omega, hbyte0]
        · rw [if_neg (by omega), if_neg (by omega), if_neg (by omega), if_pos h, if_pos (by omega),
            hhere, show addr % 4 = 1 by omega, hbyte1]
        · rw [if_pos h, if_pos (by omega), hhere, show addr % 4 = 2 by omega, hbyte2]
        · rw [if_neg (by omega), if_pos (by omega), if_pos (by omega), hhere,
            show addr % 4 = 3 by omega, hbyte3]
      · rw [if_neg (by omega), if_neg (by omega), if_neg (by omega), if_neg (by omega)]
        exact if_congr (by omega) rfl rfl

/-- A twelve-bit value in the upper bits of sixteen is sixteen times as large, with its sign. -/
theorem toInt_append_zero (value : BitVec 12) : (value ++ 0#4).toInt = 16 * value.toInt := by
  have hnat : (value ++ 0#4).toNat = 16 * value.toNat := by
    rw [BitVec.toNat_append]
    simp [Nat.shiftLeft_eq]
    omega
  have hlt := value.isLt
  rw [BitVec.toInt_eq_toNat_cond, BitVec.toInt_eq_toNat_cond, hnat]
  split_ifs <;> omega

/-- A filled destination has the two values of every sample, widened, and nothing else changed. -/
theorem filled_values (dest src : Mem 8) (elems : Nat) :
    (∀ c < elems,
      (value16 (filled dest src elems) (4 * c)).toInt = 16 * (secondValue src c).toInt ∧
        (value16 (filled dest src elems) (4 * c + 2)).toInt = 16 * (firstValue src c).toInt) ∧
    ∀ addr, 4 * elems ≤ addr → filled dest src elems addr = dest addr := by
  constructor
  · intro c hc
    have hbyte : ∀ byte < 4, filled dest src elems (4 * c + byte) = fillByte src c byte := by
      intro byte hlt
      have hdiv : (4 * c + byte) / 4 = c := by omega
      have hmod : (4 * c + byte) % 4 = byte := by omega
      unfold filled
      rw [hdiv, hmod, if_pos hc]
    obtain ⟨hupper, hlower⟩ := fillByte_values src c
    constructor
    · unfold value16
      rw [hbyte 1 (by omega), ← Nat.add_zero (4 * c), hbyte 0 (by omega), hupper,
        toInt_append_zero]
    · unfold value16
      rw [Nat.add_assoc, hbyte 3 (by omega), hbyte 2 (by omega), hlower, toInt_append_zero]
  · intro addr haddr
    unfold filled
    rw [if_neg (by omega)]

/-! ## The two paths -/

/-- Whole blocks, and so the vector path, are the multiples of 64 samples modulo the wrap. -/
theorem blocks_iff (elems : BitVec 32) :
    elems * 4 &&& 255 = 0 ↔ elems.toNat % 64 = 0 := by
  have hnat : (elems * 4 &&& 255).toNat = elems.toNat * 4 % 2 ^ 32 % 2 ^ 8 := by
    rw [BitVec.toNat_and, BitVec.toNat_mul]
    exact Nat.and_two_pow_sub_one_eq_mod _ 8
  constructor
  · intro hzero
    have h : (elems * 4 &&& 255).toNat = 0 := by
      rw [hzero]
      rfl
    omega
  · intro hmod
    apply BitVec.eq_of_toNat_eq
    show (elems * 4 &&& 255).toNat = 0
    omega

/-- **The two paths of the fill.** On every count that the vector path is not taken for, and on
every other one between 1 and `2 ^ 30 - 1`, the fill returns with the bytes of the C loop: the two
values of every sample with their sign in the upper bits of 16, the second one first, and nothing
written behind them. -/
theorem localFillCs16_eq (dest src : Mem 8) (elems : BitVec 32)
    (helems : elems * 4 &&& 255 ≠ 0 ∨ 0 < elems.toNat ∧ elems.toNat < 2 ^ 30) :
    ∃ out, (∀ fuel, elems.toNat ≤ fuel → localFillCs16 fuel dest src elems = some out) ∧
      out = fillLoop dest src elems.toNat ∧
      (∀ c < elems.toNat,
        (value16 out (4 * c)).toInt = 16 * (secondValue src c).toInt ∧
          (value16 out (4 * c + 2)).toInt = 16 * (firstValue src c).toInt) ∧
      ∀ addr, 4 * elems.toNat ≤ addr → out addr = dest addr := by
  obtain ⟨hvalues, hbehind⟩ := filled_values dest src elems.toNat
  refine ⟨filled dest src elems.toNat, fun fuel hfuel => ?_, (fillLoop_eq dest src _).symm, hvalues,
    hbehind⟩
  unfold localFillCs16
  split
  next hblock =>
    obtain ⟨hpos, hlt⟩ := helems.resolve_left fun h => h hblock
    have hmod := (blocks_iff elems).mp hblock
    have hbytes : (elems * 4).toNat = 256 * (elems.toNat / 64) := by
      rw [BitVec.toNat_mul]
      show elems.toNat * 4 % 2 ^ 32 = _
      omega
    rw [unpack12to16_eq dest src hbytes (by omega) (by omega)]
    congr 2
    omega
  next => rw [fillLoop_eq]

/-- One block of ones. -/
theorem localFillCs16_eq_block :
    ∃ out, (∀ fuel, (64#32).toNat ≤ fuel →
      localFillCs16 fuel (fun _ => 0) (fun _ => 255) 64 = some out) ∧ out 255 = 255 := by
  obtain ⟨out, hrun, hout, -⟩ := localFillCs16_eq (fun _ => 0) (fun _ => 255) 64
    (.inr ⟨by decide, by decide⟩)
  refine ⟨out, hrun, ?_⟩
  rw [hout, fillLoop_eq]
  rfl

/-- On no samples, and on `2 ^ 30 + 64` of them, the fill never returns with the bytes of the C
loop: the vector loop fills a block before it tests the count, and the bytes to write have wrapped
around to one block. -/
theorem localFillCs16_wraps :
    (¬ ∃ fuel, localFillCs16 fuel (fun _ => 0) (fun _ => 255) 0 =
        some (fillLoop (fun _ => 0) (fun _ => 255) (0#32).toNat)) ∧
      ¬ ∃ fuel, localFillCs16 fuel (fun _ => 0) (fun _ => 255) 0x40000040 =
        some (fillLoop (fun _ => 0) (fun _ => 255) (0x40000040#32).toNat) := by
  constructor
  · rintro ⟨fuel, h⟩
    -- byte 1 is written in the first round, and by no round of the C loop
    have hrun : unpack12to16 fuel (fun _ => 0) (fun _ => 255) 0 = some _ := h
    obtain ⟨rounds, hout⟩ := filled_of_unpack12to16 hrun
    have hbyte := congrFun hout 1
    unfold filled at hbyte
    rw [if_pos (by omega)] at hbyte
    exact absurd hbyte (by decide)
  · rintro ⟨fuel, h⟩
    -- byte 256 is behind the one block of the vector loop
    cases fuel with
    | zero => cases h
    | succ fuel =>
        have hrun : unpack12to16 (fuel + 1) (fun _ => 0) (fun _ => 255) 256 =
            some (filled (fun _ => 0) (fun _ => 255) (64 * 1)) :=
          unpack12to16_eq _ _ rfl Nat.zero_lt_one (Nat.succ_pos fuel)
        have hout := Option.some.inj (hrun.symm.trans h)
        rw [fillLoop_eq] at hout
        have hbyte := congrFun hout 256
        unfold filled at hbyte
        rw [if_neg (by decide), if_pos (by decide)] at hbyte
        exact absurd hbyte (by decide)

/-- Every sub-buffer that `rfnm_handler_in` fills in takes the vector path: it has 64, 128, 192 or
256 samples, as it was not empty and passed the header checks. -/
theorem vector_of_lane {sub : SubBuffer} {lane : Fin 4} (h : sub.lane? = some lane)
    (hsize : sub.size ≠ 0) :
    BitVec.ofNat 32 sub.size * 4 &&& 255 = 0 ∧ 0 < (BitVec.ofNat 32 sub.size).toNat ∧
      (BitVec.ofNat 32 sub.size).toNat < 2 ^ 30 := by
  obtain ⟨hmod, hle⟩ := SubBuffer.size_of_lane h
  have hnat : (BitVec.ofNat 32 sub.size).toNat = sub.size := by
    rw [BitVec.toNat_ofNat]
    omega
  rw [blocks_iff, hnat]
  omega

end RfnmDriver.Rx.Cs16Fill
