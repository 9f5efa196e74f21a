import RfnmDriver.Rx.Cs16Fill

/-!
# Packing samples and unpacking them

`rfnm_pack16to12_aarch64` makes three bytes of the four of a sample of two sign-magnitude values,
and `rfnm_unpack12to16_aarch64` makes four of them again. Each keeps the upper twelve bits of a
value, and the second one stores the two values the other way round. `pack_unpack` says what a block
of samples is behind both, and `pack_returns_iff` for which byte counts the first one comes back,
and when.
-/

namespace RfnmDriver.Rx.PackRoundTrip

open Lanes RingLayout Cs16Fill

variable {src dest : Mem 8} {rounds sample lane : Nat}

/-! ## Vector registers of halfwords -/

/-- Register `reg` of an `ld2` of halfwords. -/
def ldHalf (mem : Mem 8) (base reg : Nat) : Reg 16 := fun lane =>
  value16 mem (base + 4 * lane + 2 * reg)

/-- `cmlt` with zero. -/
def cmltZero (v : Reg 16) : Reg 16 := fun lane =>
  if (v lane).slt 0#16 then BitVec.allOnes 16 else 0#16

/-- `and` of a register with another. -/
def and {w : Nat} (v v' : Reg w) : Reg w := fun lane => v lane &&& v' lane

/-- `sub` of a register from another. -/
def sub (v v' : Reg 16) : Reg 16 := fun lane => v lane - v' lane

/-- `sshr`. -/
def sshr (v : Reg 16) (n : Nat) : Reg 16 := fun lane => (v lane).sshiftRight n

/-- `shrn`: the narrowed lanes go into the lower half, and the upper half is cleared. -/
def shrn (v : Reg 16) (n : Nat) : Reg 8 := fun lane =>
  if lane < 8 then (v lane >>> n).setWidth 8 else 0#8

/-- `shrn2`: the narrowed lanes go into the upper half. -/
def shrn2 (dest : Reg 8) (v : Reg 16) (n : Nat) : Reg 8 := fun lane =>
  if lane < 8 then dest lane else (v (lane - 8) >>> n).setWidth 8

/-- A register of halfwords by its bytes. -/
def byBytes (v : Reg 16) : Reg 8 := fun lane =>
  (v (lane / 2)).extractLsb' (8 * (lane % 2)) 8

/-- `uzp1`: the even bytes of two registers. -/
def uzp1 (v v' : Reg 8) : Reg 8 := fun lane =>
  if lane < 8 then v (2 * lane) else v' (2 * (lane - 8))

/-- `uzp2`: the odd bytes of two registers. -/
def uzp2 (v v' : Reg 8) : Reg 8 := fun lane =>
  if lane < 8 then v (2 * lane + 1) else v' (2 * (lane - 8) + 1)

/-! ## The routine -/

/-- Sign and magnitude to two's complement: the `and`, `cmlt`, `sub` and `bsl` of a register. -/
def fromSignMagnitude (v : Reg 16) : Reg 16 :=
  bsl (cmltZero v) (sub (and (movi 0x8000#16) v) v) v

/-- `v28` to `v30` of sixteen samples: `v26`, `v27` the first eight, `v30` and `v31` the others. -/
def packGroup (v26 v27 v30 v31 : Reg 16) : List (Reg 8) :=
  let v1 := fromSignMagnitude v26
  let v0 := fromSignMagnitude v30
  let v23 := fromSignMagnitude v27
  let v30 := fromSignMagnitude v31
  let v28 := shrn2 (shrn v1 4) v0 4
  let v29 := shl (shrn2 (shrn v23 4) v30 4) 4
  let top := and (uzp1 (byBytes (sshr v1 12)) (byBytes (sshr v0 12))) (movi 0x0F#8)
  [v28, orr top v29, uzp2 (byBytes v23) (byBytes v30)]

/-- The registers of the loop, the pointers as offsets into the two buffers, and the destination. -/
structure Pack where
  x0 : BitVec 64
  x1 : BitVec 64
  dest : Mem 8

/-- One round: 64 bytes to 48. -/
def packRound (src : Mem 8) (loop : Pack) : Pack where
  x0 := loop.x0 + 48
  x1 := loop.x1 + 64
  dest := st 16 (packGroup (ldHalf src loop.x1.toNat 0) (ldHalf src loop.x1.toNat 1)
    (ldHalf src (loop.x1 + 32).toNat 0) (ldHalf src (loop.x1 + 32).toNat 1)) loop.dest
    loop.x0.toNat

/-- `x3`: the end of the last whole block of the source. -/
def packEnd (x1 x2 : BitVec 64) : BitVec 64 :=
  x1 + ((((x2 - 4) >>> 2) + 1) >>> 4) <<< 6

/-- `rfnm_pack16to12_aarch64`; the fuel bounds the rounds of its loop. -/
def pack16to12 (fuel : Nat) (dest src : Mem 8) (bytes : BitVec 32) : Option (Mem 8) :=
  let x2 := bytes.setWidth 64
  if x2 ≤ 3#64 then some dest
  else (doWhile (packRound src) (fun loop => packEnd 0 x2 != loop.x1) fuel
    ⟨0, 0, dest⟩).map Pack.dest

/-! ## What a round stores -/

/-- A sign-magnitude value as two's complement. -/
def signed (value : BitVec 16) : BitVec 16 :=
  if value.msb then 0x8000#16 - value else value

/-- The two values of a sample. -/
def inPhase (src : Mem 8) (sample : Nat) : BitVec 16 := signed (value16 src (4 * sample))
def quadrature (src : Mem 8) (sample : Nat) : BitVec 16 := signed (value16 src (4 * sample + 2))

/-- A byte of a packed sample. -/
def packByte (src : Mem 8) (sample : Nat) : Nat → BitVec 8
  | 0 => (inPhase src sample).extractLsb' 4 8
  | 1 => (quadrature src sample).extractLsb' 4 4 ++ (inPhase src sample).extractLsb' 12 4
  | 2 => (quadrature src sample).extractLsb' 8 8
  | _ => 0#8

/-- Packed samples ahead of what the destination held. -/
def packed (dest src : Mem 8) (samples : Nat) : Mem 8 := fun addr =>
  if addr / 3 < samples then packByte src (addr / 3) (addr % 3) else dest addr

/-- The select takes the negated magnitude where the sign is set. -/
theorem fromSignMagnitude_lane (v : Reg 16) (lane : Nat) :
    fromSignMagnitude v lane = signed (v lane) := by
  have hselect (mask value other : BitVec 16) :
      (if mask.slt 0#16 then BitVec.allOnes 16 else 0#16) &&& value |||
          ~~~(if mask.slt 0#16 then BitVec.allOnes 16 else 0#16) &&& other =
        if mask.msb then value else other := by
    rw [BitVec.slt_zero_eq_msb]
    cases mask.msb with
    | false =>
      show 0#16 &&& value ||| ~~~0#16 &&& other = other
      rw [BitVec.zero_and, BitVec.zero_or]
      exact BitVec.allOnes_and
    | true =>
      show BitVec.allOnes 16 &&& value ||| ~~~BitVec.allOnes 16 &&& other = value
      rw [BitVec.not_allOnes, BitVec.zero_and, BitVec.or_zero]
      exact BitVec.allOnes_and
  show (if (v lane).slt 0#16 then BitVec.allOnes 16 else 0#16) &&&
      ((0x8000#16 &&& v lane) - v lane) |||
    ~~~(if (v lane).slt 0#16 then BitVec.allOnes 16 else 0#16) &&& v lane = _
  rw [hselect]
  unfold signed
  split
  · next hmsb =>
    have hbit : 0x8000#16 &&& v lane = 0x8000#16 := by
      apply BitVec.eq_of_getLsbD_eq
      intro i hi
      rw [BitVec.msb_eq_getLsbD_last] at hmsb
      rw [BitVec.getLsbD_and]
      by_cases hlast : i = 15
      · rw [hlast, hmsb, Bool.and_true]
      · have hzero : (0x8000#16).getLsbD i = false := by
          interval_cases i <;> first | rfl | exact absurd rfl hlast
        rw [hzero, Bool.false_and]
    rw [hbit]
  · rfl

/-- Two registers of eight halfwords as one of sixteen. -/
def joined (v v' : Reg 16) : Reg 16 := fun lane =>
  if lane < 8 then v lane else v' (lane - 8)

theorem shrn2_lane (v v' : Reg 16) (n lane : Nat) :
    shrn2 (shrn v n) v' n lane = (joined v v' lane >>> n).setWidth 8 := by
  unfold shrn2 shrn joined
  split <;> rfl

theorem uzp1_lane (v v' : Reg 16) (lane : Nat) :
    uzp1 (byBytes v) (byBytes v') lane = (joined v v' lane).extractLsb' 0 8 := by
  unfold uzp1 byBytes joined
  split <;> rw [Nat.mul_div_cancel_left _ (by decide), Nat.mul_mod_right, Nat.mul_zero]

theorem uzp2_lane (v v' : Reg 16) (lane : Nat) :
    uzp2 (byBytes v) (byBytes v') lane = (joined v v' lane).extractLsb' 8 8 := by
  have hhalf (k : Nat) : (2 * k + 1) / 2 = k ∧ (2 * k + 1) % 2 = 1 := by omega
  unfold uzp2 byBytes joined
  split <;> rw [(hhalf _).1, (hhalf _).2]

theorem joined_sshr (v v' : Reg 16) (n lane : Nat) :
    joined (sshr v n) (sshr v' n) lane = (joined v v' lane).sshiftRight n := by
  unfold joined sshr
  split <;> rfl

/-- The registers of a load and of the next one are the values of sixteen samples. -/
theorem joined_load (src : Mem 8) (first reg lane : Nat) :
    joined (fromSignMagnitude (ldHalf src (4 * first) reg))
        (fromSignMagnitude (ldHalf src (4 * first + 32) reg)) lane =
      signed (value16 src (4 * (first + lane) + 2 * reg)) := by
  unfold joined
  split
  · rw [fromSignMagnitude_lane]
    unfold ldHalf
    rw [Nat.mul_add]
  · rw [fromSignMagnitude_lane]
    unfold ldHalf
    rw [show 4 * first + 32 + 4 * (lane - 8) + 2 * reg = 4 * (first + lane) + 2 * reg by omega]

/-- The byte in the middle has the lower bits of one value over the upper bits of the other. -/
theorem middle_byte (first second : BitVec 16) :
    ((first.sshiftRight 12).extractLsb' 0 8 &&& 0x0F#8 |||
        (second >>> 4).setWidth 8 <<< 4 : BitVec 8) =
      second.extractLsb' 4 4 ++ first.extractLsb' 12 4 := by
  apply BitVec.eq_of_getLsbD_eq
  intro i hi
  simp only [BitVec.getLsbD_or, BitVec.getLsbD_and, BitVec.getLsbD_extractLsb',
    BitVec.getLsbD_sshiftRight, BitVec.getLsbD_shiftLeft, BitVec.getLsbD_setWidth,
    BitVec.getLsbD_ushiftRight, BitVec.getLsbD_append]
  interval_cases i <;> simp

theorem low_byte (value : BitVec 16) : (value >>> 4).setWidth 8 = value.extractLsb' 4 8 := by
  apply BitVec.eq_of_getLsbD_eq
  intro i hi
  rw [BitVec.getLsbD_setWidth, BitVec.getLsbD_ushiftRight, BitVec.getLsbD_extractLsb']

/-- The three registers of a group hold the three bytes of its samples. -/
theorem packGroup_lane (src : Mem 8) (first lane byte : Nat) :
    (packGroup (ldHalf src (4 * first) 0) (ldHalf src (4 * first) 1)
        (ldHalf src (4 * first + 32) 0) (ldHalf src (4 * first + 32) 1)).getD byte
        (fun _ => 0) lane =
      packByte src (first + lane) byte := by
  have hfirst := joined_load src first 0 lane
  have hsecond := joined_load src first 1 lane
  match byte with
  | 0 =>
    show shrn2 (shrn _ 4) _ 4 lane = (inPhase src (first + lane)).extractLsb' 4 8
    rw [shrn2_lane, hfirst, low_byte]
    rfl
  | 1 =>
    show uzp1 (byBytes (sshr _ 12)) (byBytes (sshr _ 12)) lane &&& 0x0F#8 |||
      shrn2 (shrn _ 4) _ 4 lane <<< 4 = _
    rw [uzp1_lane, joined_sshr, shrn2_lane, hfirst, hsecond, middle_byte]
    rfl
  | 2 =>
    show uzp2 (byBytes _) (byBytes _) lane = _
    rw [uzp2_lane, hsecond]
    rfl
  | _ + 3 => rfl

/-- A group of sixteen samples. -/
theorem st_packGroup (src mem : Mem 8) (first addr : Nat) :
    st 16 (packGroup (ldHalf src (4 * first) 0) (ldHalf src (4 * first) 1)
        (ldHalf src (4 * first + 32) 0) (ldHalf src (4 * first + 32) 1)) mem (3 * first) addr =
      if first ≤ addr / 3 ∧ addr / 3 < first + 16 then packByte src (addr / 3) (addr % 3)
      else mem addr := by
  exact st_structures mem (List.cons_ne_nil _ _)
    (fun lane _ byte => packGroup_lane src first lane byte) addr

/-- The registers after so many rounds. -/
def reached (dest src : Mem 8) (rounds : Nat) : Pack :=
  ⟨BitVec.ofNat 64 (48 * rounds), BitVec.ofNat 64 (64 * rounds), packed dest src (16 * rounds)⟩

/-- One round packs sixteen samples. -/
theorem packRound_reached (dest src : Mem 8) {rounds : Nat} (hrounds : rounds < 2 ^ 58) :
    packRound src (reached dest src rounds) = reached dest src (rounds + 1) := by
  have hoffset (offset : Nat) (hlt : offset < 2 ^ 64) : (BitVec.ofNat 64 offset).toNat = offset :=
    Nat.mod_eq_of_lt hlt
  have hupper : (BitVec.ofNat 64 (64 * rounds) + 32).toNat = 64 * rounds + 32 := by
    rw [show (32 : BitVec 64) = BitVec.ofNat 64 32 from rfl, ← BitVec.ofNat_add,
      hoffset _ (by omega)]
  have hdest : (packRound src (reached dest src rounds)).dest =
      packed dest src (16 * (rounds + 1)) := by
    funext addr
    simp only [packRound, reached]
    rw [hupper, hoffset _ (by omega), hoffset _ (by omega),
      show 64 * rounds = 4 * (16 * rounds) by omega,
      show 48 * rounds = 3 * (16 * rounds) by omega, st_packGroup]
    simp only [packed]
    split_ifs <;> first | rfl | omega
  have hx0 : BitVec.ofNat 64 (48 * rounds) + 48 = BitVec.ofNat 64 (48 * (rounds + 1)) := by
    rw [Nat.mul_add, BitVec.ofNat_add]
    rfl
  have hx1 : BitVec.ofNat 64 (64 * rounds) + 64 = BitVec.ofNat 64 (64 * (rounds + 1)) := by
    rw [Nat.mul_add, BitVec.ofNat_add]
    rfl
  calc packRound src (reached dest src rounds)
      = ⟨BitVec.ofNat 64 (48 * rounds) + 48, BitVec.ofNat 64 (64 * rounds) + 64,
          (packRound src (reached dest src rounds)).dest⟩ := rfl
    _ = reached dest src (rounds + 1) := by rw [hdest, hx0, hx1, reached]

/-- Up to the round at which the pointers would wrap. -/
theorem iterate_packRound (dest src : Mem 8) {rounds : Nat} (hrounds : rounds ≤ 2 ^ 58) :
    (packRound src)^[rounds] ⟨0, 0, dest⟩ = reached dest src rounds := by
  induction rounds with
  | zero =>
    have hnone : packed dest src (16 * 0) = dest := by
      funext addr
      unfold packed
      rw [if_neg (by omega)]
    rw [reached, hnone]
    rfl
  | succ rounds ih =>
    rw [Function.iterate_succ_apply', ih (by omega), packRound_reached dest src (by omega)]

/-! ## When it comes back -/

/-- The source ends with the last whole block, for every count that a pointer holds. -/
theorem packEnd_eq (start : BitVec 64) (bytes : BitVec 32) :
    packEnd start (bytes.setWidth 64) = start + BitVec.ofNat 64 (64 * (bytes.toNat / 64)) := by
  have hlt := bytes.isLt
  have hwide : (bytes.setWidth 64).toNat = bytes.toNat := by
    rw [BitVec.toNat_setWidth, Nat.mod_eq_of_lt (by omega)]
  have hless : (bytes.setWidth 64 - 4).toNat = (2 ^ 64 - 4 + bytes.toNat) % 2 ^ 64 := by
    rw [BitVec.toNat_sub, hwide]
    rfl
  unfold packEnd
  congr 1
  apply BitVec.eq_of_toNat_eq
  rw [BitVec.toNat_shiftLeft, BitVec.toNat_ushiftRight, BitVec.toNat_add, BitVec.toNat_ushiftRight,
    hless, Nat.shiftLeft_eq, Nat.shiftRight_eq_div_pow, Nat.shiftRight_eq_div_pow,
    BitVec.toNat_ofNat]
  show ((2 ^ 64 - 4 + bytes.toNat) % 2 ^ 64 / 2 ^ 2 + 1) % 2 ^ 64 / 2 ^ 4 * 2 ^ 6 % 2 ^ 64 = _
  omega

/-- The test fails at the round that has gone as far as the end, and at none before it. -/
theorem again_iff (dest src : Mem 8) {bytes : BitVec 32} {rounds : Nat}
    (hrounds : rounds ≤ 2 ^ 58) :
    (packEnd 0 (bytes.setWidth 64) != ((packRound src)^[rounds] ⟨0, 0, dest⟩).x1) = true ↔
      bytes.toNat / 64 ≠ rounds % 2 ^ 58 := by
  have hlt := bytes.isLt
  rw [iterate_packRound dest src hrounds, packEnd_eq, bne_iff_ne, ne_eq, ne_eq, not_iff_not,
    show (0 : BitVec 64) = 0#64 from rfl, BitVec.zero_add, ← BitVec.toNat_inj]
  show 64 * (bytes.toNat / 64) % 2 ^ 64 = 64 * rounds % 2 ^ 64 ↔ _
  omega

/-- The count is compared as a 64-bit one. -/
theorem few_iff (bytes : BitVec 32) : bytes.setWidth 64 ≤ 3#64 ↔ bytes.toNat < 4 := by
  have hlt := bytes.isLt
  rw [BitVec.le_def, BitVec.toNat_setWidth]
  show bytes.toNat % 2 ^ 64 ≤ 3 ↔ _
  omega

/-- Where the loop first finds its end, for a count with a sample in it: at the last whole block, or
if there is none, where its pointers have gone around. -/
theorem rounds_spec (dest src : Mem 8) {bytes : BitVec 32} {rounds : Nat}
    (hrounds : rounds + 1 = bytes.toNat / 64 ∨ bytes.toNat < 64 ∧ rounds + 1 = 2 ^ 58) :
    (∀ round < rounds, (packEnd 0 (bytes.setWidth 64) !=
        ((packRound src)^[round + 1] ⟨0, 0, dest⟩).x1) = true) ∧
      (packEnd 0 (bytes.setWidth 64) !=
        ((packRound src)^[rounds + 1] ⟨0, 0, dest⟩).x1) = false := by
  have hlt := bytes.isLt
  constructor
  · intro round hround
    rw [again_iff dest src (by omega)]
    omega
  · rw [← Bool.not_eq_true, again_iff dest src (by omega)]
    omega

/-- So it comes back within that many rounds. -/
theorem pack16to12_isSome_iff (dest src : Mem 8) {bytes : BitVec 32} {rounds : Nat}
    (hsample : 4 ≤ bytes.toNat)
    (hrounds : rounds + 1 = bytes.toNat / 64 ∨ bytes.toNat < 64 ∧ rounds + 1 = 2 ^ 58)
    (fuel : Nat) : (pack16to12 fuel dest src bytes).isSome ↔ rounds + 1 ≤ fuel := by
  obtain ⟨hagain, hend⟩ := rounds_spec dest src hrounds
  unfold pack16to12
  dsimp only
  rw [if_neg (mt (few_iff bytes).mp (by omega)), Option.isSome_map]
  exact doWhile_isSome_iff hagain hend fuel

/-- On a block or more it packs the whole blocks. -/
theorem pack16to12_eq (dest src : Mem 8) {bytes : BitVec 32} {fuel : Nat}
    (hbytes : 64 ≤ bytes.toNat) (hfuel : bytes.toNat / 64 ≤ fuel) :
    pack16to12 fuel dest src bytes = some (packed dest src (16 * (bytes.toNat / 64))) := by
  have hlt := bytes.isLt
  obtain ⟨rounds, hrounds⟩ : ∃ rounds, bytes.toNat / 64 = rounds + 1 :=
    ⟨bytes.toNat / 64 - 1, by omega⟩
  obtain ⟨hagain, hend⟩ := rounds_spec dest src (Or.inl hrounds.symm)
  have hrun : doWhile (packRound src)
      (fun loop => packEnd 0 (bytes.setWidth 64) != loop.x1) fuel ⟨0, 0, dest⟩ =
        some ((packRound src)^[rounds + 1] ⟨0, 0, dest⟩) :=
    doWhile_eq hagain hend (by omega)
  unfold pack16to12
  dsimp only
  rw [if_neg (mt (few_iff bytes).mp (by omega)), hrun, iterate_packRound dest src (by omega),
    hrounds]
  rfl

/-- Within so many rounds it has come back just if there is no sample to pack, or there is a block
and they are enough for the blocks, or they are enough for the pointers to go around. Below a block
the end that it looks for is the beginning, which it has passed before it looks. -/
theorem pack_returns_iff (dest src : Mem 8) (bytes : BitVec 32) (fuel : Nat) (start : BitVec 64) :
    ((pack16to12 fuel dest src bytes).isSome ↔
        bytes.toNat < 4 ∨ (64 ≤ bytes.toNat ∧ bytes.toNat / 64 ≤ fuel) ∨ 2 ^ 58 ≤ fuel) ∧
      (packEnd start (bytes.setWidth 64) = start ↔ bytes.toNat < 64) := by
  have hlt := bytes.isLt
  constructor
  · rcases Nat.lt_or_ge bytes.toNat 4 with hnone | hfew
    · unfold pack16to12
      rw [if_pos ((few_iff bytes).mpr hnone)]
      exact iff_of_true rfl (Or.inl hnone)
    rcases Nat.lt_or_ge bytes.toNat 64 with hshort | hblocks
    · obtain ⟨last, hlast⟩ : ∃ last, last + 1 = 2 ^ 58 := ⟨2 ^ 58 - 1, by omega⟩
      rw [pack16to12_isSome_iff dest src hfew (Or.inr ⟨hshort, hlast⟩)]
      omega
    · obtain ⟨last, hlast⟩ : ∃ last, last + 1 = bytes.toNat / 64 :=
        ⟨bytes.toNat / 64 - 1, by omega⟩
      rw [pack16to12_isSome_iff dest src hfew (Or.inl hlast)]
      omega
  · rw [packEnd_eq, BitVec.add_right_eq_self, ← BitVec.toNat_inj, BitVec.toNat_ofNat]
    show 64 * (bytes.toNat / 64) % 2 ^ 64 = 0 ↔ _
    omega

/-! ## There and back -/

/-- The number that a sign-magnitude value stands for. -/
theorem signed_toInt (value : BitVec 16) :
    (signed value).toInt =
      if value.msb then 2 ^ 15 - (value.toNat : ℤ) else (value.toNat : ℤ) := by
  have hlt := value.isLt
  have hmsb := BitVec.msb_eq_decide value
  unfold signed
  cases hsign : value.msb with
  | false =>
    rw [hsign] at hmsb
    have hsmall : value.toNat < 2 ^ 15 := Nat.not_le.mp (of_decide_eq_false hmsb.symm)
    show value.toInt = (value.toNat : ℤ)
    rw [BitVec.toInt_eq_toNat_cond]
    split <;> omega
  | true =>
    rw [hsign] at hmsb
    have hlarge : 2 ^ 15 ≤ value.toNat := of_decide_eq_true hmsb.symm
    show (0x8000#16 - value).toInt = 2 ^ 15 - (value.toNat : ℤ)
    have hsum : (0x8000#16 - value).toNat = (2 ^ 16 - value.toNat + 2 ^ 15) % 2 ^ 16 :=
      BitVec.toNat_sub ..
    rw [BitVec.toInt_eq_toNat_cond, hsum]
    split <;> omega

/-- The two values of a packed sample are the upper twelve bits. -/
theorem packed_values (dest src : Mem 8) {samples sample : Nat} (hsample : sample < samples) :
    firstValue (packed dest src samples) sample = (inPhase src sample).extractLsb' 4 12 ∧
      secondValue (packed dest src samples) sample = (quadrature src sample).extractLsb' 4 12 := by
  have hbyte : ∀ byte < 3, packed dest src samples (3 * sample + byte) =
      packByte src sample byte := by
    intro byte hlt
    unfold packed
    rw [show (3 * sample + byte) / 3 = sample by omega, if_pos hsample,
      show (3 * sample + byte) % 3 = byte by omega]
  unfold firstValue secondValue packedSample
  rw [hbyte 2 (by omega), hbyte 1 (by omega), ← Nat.add_zero (3 * sample), hbyte 0 (by omega)]
  unfold packByte
  constructor
  · apply BitVec.eq_of_getLsbD_eq
    intro i hi
    simp only [BitVec.getLsbD_extractLsb', BitVec.getLsbD_append]
    interval_cases i <;> simp
  · apply BitVec.eq_of_getLsbD_eq
    intro i hi
    simp only [BitVec.getLsbD_extractLsb', BitVec.getLsbD_append]
    interval_cases i <;> simp

/-- The upper twelve bits where they were. -/
theorem cut_append (value : BitVec 16) : value.extractLsb' 4 12 ++ 0#4 = value &&& 0xFFF0#16 := by
  apply BitVec.eq_of_getLsbD_eq
  intro i hi
  simp only [BitVec.getLsbD_append, BitVec.getLsbD_extractLsb', BitVec.getLsbD_and]
  interval_cases i <;> simp

/-- On whole blocks of 256 bytes, samples packed and unpacked are the samples in two's complement
without their lowest four bits, the second value ahead of the first, and nothing is written behind
either of them. -/
theorem pack_unpack (packedDest dest src : Mem 8) {bytes : BitVec 32}
    (hblocks : bytes.toNat % 256 = 0) (hpos : 0 < bytes.toNat) :
    ∃ twelve sixteen,
      (∀ fuel, bytes.toNat ≤ fuel → pack16to12 fuel packedDest src bytes = some twelve) ∧
      (∀ fuel, bytes.toNat ≤ fuel → unpack12to16 fuel dest twelve bytes = some sixteen) ∧
      (∀ sample < bytes.toNat / 4,
        value16 sixteen (4 * sample) = quadrature src sample &&& 0xFFF0#16 ∧
          value16 sixteen (4 * sample + 2) = inPhase src sample &&& 0xFFF0#16) ∧
      (∀ addr, 3 * (bytes.toNat / 4) ≤ addr → twelve addr = packedDest addr) ∧
      ∀ addr, bytes.toNat ≤ addr → sixteen addr = dest addr := by
  obtain ⟨blocks, hbytes⟩ : ∃ blocks, bytes.toNat = 256 * blocks := ⟨bytes.toNat / 256, by omega⟩
  have hsamples : 16 * (bytes.toNat / 64) = bytes.toNat / 4 := by omega
  have hwide : 64 * blocks = bytes.toNat / 4 := by omega
  refine ⟨packed packedDest src (bytes.toNat / 4),
    filled dest (packed packedDest src (bytes.toNat / 4)) (bytes.toNat / 4), ?_, ?_, ?_, ?_, ?_⟩
  · intro fuel hfuel
    rw [pack16to12_eq packedDest src (by omega) (by omega), hsamples]
  · intro fuel hfuel
    rw [unpack12to16_eq dest _ hbytes (by omega) (by omega), hwide]
  · intro sample hsample
    obtain ⟨hsecond, hfirst⟩ := (filled_values dest
      (packed packedDest src (bytes.toNat / 4)) (bytes.toNat / 4)).1 sample hsample
    obtain ⟨hpackedFirst, hpackedSecond⟩ := packed_values packedDest src hsample
    rw [hpackedSecond, ← toInt_append_zero, cut_append] at hsecond
    rw [hpackedFirst, ← toInt_append_zero, cut_append] at hfirst
    exact ⟨BitVec.eq_of_toInt_eq hsecond, BitVec.eq_of_toInt_eq hfirst⟩
  · intro addr haddr
    unfold packed
    rw [if_neg (by omega)]
  · intro addr haddr
    exact (filled_values dest _ _).2 addr (by omega)

/-- A block of values of minus one. -/
theorem pack_unpack_block :
    ∃ twelve sixteen,
      (∀ fuel, 256 ≤ fuel → pack16to12 fuel (fun _ => 0) (fun addr =>
        if addr % 2 = 0 then 0x01 else 0x80) 256 = some twelve) ∧
      (∀ fuel, 256 ≤ fuel → unpack12to16 fuel (fun _ => 0) twelve 256 = some sixteen) ∧
      value16 sixteen 0 = 0xFFF0#16 := by
  obtain ⟨twelve, sixteen, htwelve, hsixteen, hvalues, -⟩ := pack_unpack (fun _ => 0) (fun _ => 0)
    (fun addr => if addr % 2 = 0 then 0x01 else 0x80) (show (256#32).toNat % 256 = 0 by decide)
    (by decide)
  refine ⟨twelve, sixteen, htwelve, hsixteen, ?_⟩
  exact (hvalues 0 (by decide)).1.trans (by decide)

end RfnmDriver.Rx.PackRoundTrip
