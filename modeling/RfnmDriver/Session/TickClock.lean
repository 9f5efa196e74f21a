import RfnmDriver.Library.StepSystem
import RfnmDriver.Library.WrapClock

/-!
# The extended tick clock

The LA9310's counter has 32 bits and wraps about every 70 s. A timer samples it once a second and
counts the wraps, and `rfnm_phytimer_now64` puts the count and a fresh reading together under a
seqlock. A sample below the one before is a wrap if it can be one sample period away, and otherwise
a restart of the counter, which moves the time generation. The sampler reads the counter before it
takes the lock, so a reader may work from a base that is a sample old. `exact_of_paced` is the
result for every run and every interleaving of readers.
-/

namespace RfnmDriver.Session

open StepSystem WrapClock

/-- `RFNM_PHY64_MAX_STEP`. -/
def maxStep : Nat :=
  8 * 61440000

/-- What the hardware counter reads after so many ticks. -/
def low (time : Nat) : BitVec 32 :=
  BitVec.ofNat 32 time

/-- Where `rfnm_phy64_timer_fn` is. -/
inductive Sampler
  | idle
  /-- It has read the counter. -/
  | read (lo : BitVec 32)
  /-- It has found a restart and given the lock back. -/
  | restart
  deriving DecidableEq, Repr

/-- Where a call of `rfnm_phytimer_now64` is, with its local variables. -/
inductive Stage
  | idle
  | begun (seq : Nat)
  | gotWraps (seq : Nat) (wraps : BitVec 32)
  | gotBase (seq : Nat) (wraps snapLo : BitVec 32)
  /-- The counter was read at this time. -/
  | gotLow (seq : Nat) (wraps snapLo lo : BitVec 32) (time : Nat)
  /-- `read_seqretry` found no change. -/
  | checked (wraps snapLo lo : BitVec 32) (time : Nat)
  deriving DecidableEq, Repr

/-- A reader, and what statements about its call speak of. -/
structure Reader where
  stage : Stage
  /-- When the call began. -/
  entered : Nat
  /-- The first sample was in place by then. -/
  sampled : Bool
  deriving DecidableEq, Repr

/-- A call that returned. -/
structure Reading where
  value : BitVec 64
  entered : Nat
  /-- When the counter was read. -/
  time : Nat
  returned : Nat
  sampled : Bool
  deriving DecidableEq, Repr

/-- The clock's state, its sampler and its readers. -/
structure TickClock where
  /-- The ticks the counter stands for; it shows the low 32 bits. -/
  now : Nat
  /-- `rfnm_phy64_wraps`. -/
  wraps : BitVec 32
  /-- `rfnm_phy64_last_lo`. -/
  lastLo : BitVec 32
  /-- `rfnm_phy64_valid`. -/
  valid : Bool
  /-- `rfnm_phy_gen`. -/
  phyGen : BitVec 32
  /-- The sections of `rfnm_phy64_lock` that writers have left. -/
  seq : Nat
  sampler : Sampler
  readers : Nat → Reader
  /-- What the code does not keep: when the sampler last read the counter, when it read the first
  sample, and the calls that returned. -/
  lastRead : Option Nat
  first : Option Nat
  log : List Reading

/-- One step. -/
inductive ClockEvent
  /-- Time passes. -/
  | tick (ticks : Nat)
  /-- The timer fires and reads the counter. -/
  | sampleRead
  /-- Its section under the lock. -/
  | sampleWrite
  /-- `rfnm_phy_gen_bump`. -/
  | sampleBump
  /-- A reader calls `rfnm_phytimer_now64` and passes `read_seqbegin`. -/
  | enter (reader : Nat)
  | readWraps (reader : Nat)
  | readBase (reader : Nat)
  | readLow (reader : Nat)
  /-- `read_seqretry`. -/
  | check (reader : Nat)
  /-- The wrap test outside the lock, and the return. -/
  | finish (reader : Nat)
  deriving DecidableEq, Repr

/-- The module's zeroed memory, with the counter anywhere. -/
def TickClock.init (start : Nat) : TickClock where
  now := start
  wraps := 0
  lastLo := 0
  valid := false
  phyGen := 1
  seq := 0
  sampler := .idle
  readers := fun _ => ⟨.idle, 0, false⟩
  lastRead := none
  first := none
  log := []

namespace TickClock

variable (clock : TickClock)

/-! ## Steps -/

/-- `rfnm_phy64_timer_fn` under the lock. -/
def sampleWrite (lo : BitVec 32) : TickClock :=
  let clock := { clock with seq := clock.seq + 1 }
  if clock.valid = false then
    { clock with lastLo := lo, valid := true, sampler := .idle, first := clock.lastRead }
  else if lo < clock.lastLo then
    if BitVec.ofNat 32 maxStep < lo - clock.lastLo then { clock with sampler := .restart }
    else { clock with wraps := clock.wraps + 1, lastLo := lo, sampler := .idle }
  else { clock with lastLo := lo, sampler := .idle }

/-- `rfnm_phy_gen_bump`. -/
def genBump : TickClock :=
  { clock with
    wraps := 0
    valid := false
    seq := clock.seq + 1
    phyGen := clock.phyGen + 1
    sampler := .idle }

/-- The reader's call goes on. -/
def setStage (reader : Nat) (stage : Stage) : TickClock :=
  { clock with
    readers := Function.update clock.readers reader { clock.readers reader with stage := stage } }

/-- The value `rfnm_phytimer_now64` returns. -/
def value (valid : Bool) (wraps snapLo lo : BitVec 32) : BitVec 64 :=
  let wraps := if valid = true ∧ lo < snapLo then wraps + 1 else wraps
  (wraps.setWidth 64 <<< 32) ||| lo.setWidth 64

/-- The reader returns. -/
def finish (reader : Nat) (wraps snapLo lo : BitVec 32) (time : Nat) : TickClock :=
  { clock.setStage reader .idle with
    log := clock.log ++ [⟨value clock.valid wraps snapLo lo, (clock.readers reader).entered, time,
      clock.now, (clock.readers reader).sampled⟩] }

/-- One step; `none` when it is not enabled. -/
def next : ClockEvent → Option TickClock
  | .tick ticks => some { clock with now := clock.now + ticks }
  | .sampleRead =>
      if clock.sampler = .idle then
        some { clock with sampler := .read (low clock.now), lastRead := some clock.now }
      else none
  | .sampleWrite =>
      match clock.sampler with
      | .read lo => some (clock.sampleWrite lo)
      | _ => none
  | .sampleBump => if clock.sampler = .restart then some clock.genBump else none
  | .enter reader =>
      if (clock.readers reader).stage = .idle then
        some { clock with
          readers := Function.update clock.readers reader
            ⟨.begun clock.seq, clock.now, clock.valid⟩ }
      else none
  | .readWraps reader =>
      match (clock.readers reader).stage with
      | .begun seq => some (clock.setStage reader (.gotWraps seq clock.wraps))
      | _ => none
  | .readBase reader =>
      match (clock.readers reader).stage with
      | .gotWraps seq wraps => some (clock.setStage reader (.gotBase seq wraps clock.lastLo))
      | _ => none
  | .readLow reader =>
      match (clock.readers reader).stage with
      | .gotBase seq wraps snapLo =>
          some (clock.setStage reader (.gotLow seq wraps snapLo (low clock.now) clock.now))
      | _ => none
  | .check reader =>
      match (clock.readers reader).stage with
      | .gotLow seq wraps snapLo lo time =>
          if clock.seq = seq then some (clock.setStage reader (.checked wraps snapLo lo time))
          else some (clock.setStage reader (.begun clock.seq))
      | _ => none
  | .finish reader =>
      match (clock.readers reader).stage with
      | .checked wraps snapLo lo time => some (clock.finish reader wraps snapLo lo time)
      | _ => none

/-! ## The property and the assumption -/

/-- The sampler's executions are at most the believable step apart. -/
def Paced : Prop :=
  ∀ time ∈ clock.lastRead, clock.now ≤ time + maxStep

instance : Decidable clock.Paced :=
  Option.decidableForallMem _

/-- The time of the first sample as read, and the ticks since. -/
def extended (first time : Nat) : Nat :=
  first % 2 ^ 32 + (time - first)

/-- Every reading begun after the first sample shows the counter at a moment of its call, and is
the extended time of that moment modulo `2 ^ 64`, and in full where that is within the range; within
it, readings do not decrease; and the generation has not moved. -/
structure Exact (range : Nat → Prop) (clock : TickClock) : Prop where
  generation : clock.phyGen = 1
  during : ∀ reading ∈ clock.log, reading.entered ≤ reading.time ∧ reading.time ≤ reading.returned
  congruent : ∀ reading ∈ clock.log, reading.sampled = true →
    reading.value.setWidth 32 = low reading.time
  modular : ∀ first ∈ clock.first, ∀ reading ∈ clock.log, reading.sampled = true →
    reading.value = BitVec.ofNat 64 (extended first reading.time)
  exact : ∀ first ∈ clock.first, ∀ reading ∈ clock.log, reading.sampled = true →
    range (extended first reading.time) → reading.value.toNat = extended first reading.time
  increasing : ∀ first ∈ clock.first, ∀ earlier ∈ clock.log, ∀ later ∈ clock.log,
    earlier.sampled = true → later.sampled = true → earlier.returned ≤ later.entered →
      range (extended first later.time) → earlier.value ≤ later.value

/-! ## The value of a reading -/

/-- The wraps between the first sample and this time, as the code counts them. -/
def wrapsAt (first time : Nat) : BitVec 32 :=
  BitVec.ofNat 32 (time / 2 ^ 32 - first / 2 ^ 32)

variable {clock} {following : TickClock} {first base time entered : Nat} {event : ClockEvent}
  {range : Nat → Prop}

theorem low_lt_low : low time < low base ↔ time % 2 ^ 32 < base % 2 ^ 32 := by
  rw [BitVec.lt_def, low, low, BitVec.toNat_ofNat, BitVec.toNat_ofNat]

/-- A reading less than a wrap after a base counts the wraps of its time. -/
theorem wrapsAt_of_near (hfirst : first ≤ base) (hle : base ≤ time)
    (hnear : time < base + 2 ^ 32) :
    wrapsAt first time =
      if low time < low base then wrapsAt first base + 1 else wrapsAt first base := by
  have hquot : first / 2 ^ 32 ≤ base / 2 ^ 32 := Nat.div_le_div_right hfirst
  simp only [low_lt_low, wrapsAt, div_of_near hle hnear]
  split
  · rw [Nat.sub_add_comm hquot, BitVec.ofNat_add]
    rfl
  · rfl

/-- The count of wraps over the low word is the extended time. -/
theorem join_wrapsAt (hle : first ≤ time) :
    ((wrapsAt first time).setWidth 64 <<< 32) ||| (low time).setWidth 64 =
      BitVec.ofNat 64 (extended first time) := by
  have hfirst := Nat.div_add_mod first (2 ^ 32)
  have htime := Nat.div_add_mod time (2 ^ 32)
  have hquot : first / 2 ^ 32 ≤ time / 2 ^ 32 := Nat.div_le_div_right hle
  have hlow : time % 2 ^ 32 < 2 ^ 32 := Nat.mod_lt _ (by positivity)
  have hextended : extended first time =
      2 ^ 32 * (time / 2 ^ 32 - first / 2 ^ 32) + time % 2 ^ 32 := by
    unfold extended
    omega
  have hcount := Nat.mod_lt (time / 2 ^ 32 - first / 2 ^ 32) (show 0 < 2 ^ 32 by positivity)
  apply BitVec.eq_of_toNat_eq
  rw [BitVec.toNat_or, BitVec.toNat_shiftLeft, BitVec.toNat_setWidth, BitVec.toNat_setWidth,
    BitVec.toNat_ofNat, wrapsAt, low, BitVec.toNat_ofNat, BitVec.toNat_ofNat, hextended,
    Nat.shiftLeft_eq, Nat.mod_eq_of_lt (by omega : _ % 2 ^ 32 < 2 ^ 64),
    Nat.mod_eq_of_lt (by omega : time % 2 ^ 32 < 2 ^ 64),
    Nat.mod_eq_of_lt (by omega : _ % 2 ^ 32 * 2 ^ 32 < 2 ^ 64), ← Nat.shiftLeft_eq,
    ← Nat.shiftLeft_add_eq_or_of_lt hlow, Nat.shiftLeft_eq,
    show (2 : Nat) ^ 64 = 2 ^ 32 * 2 ^ 32 by norm_num, Nat.mod_mul,
    Nat.mul_add_mod, Nat.mod_mod, Nat.mul_add_div (by positivity), Nat.div_eq_of_lt hlow,
    Nat.add_zero]
  ring

/-- A reading from a base less than a wrap old is the extended time. -/
theorem value_of_near (hfirst : first ≤ base) (hle : base ≤ time)
    (hnear : time < base + 2 ^ 32) :
    value true (wrapsAt first base) (low base) (low time) =
      BitVec.ofNat 64 (extended first time) := by
  rw [← join_wrapsAt (hfirst.trans hle), wrapsAt_of_near hfirst hle hnear]
  simp only [value, true_and]

/-! ## The invariant -/

/-- The counter was read during the call. -/
def Timed (entered now : Nat) : Stage → Prop
  | .gotLow _ _ _ _ time | .checked _ _ _ time => entered ≤ time ∧ time ≤ now
  | _ => entered ≤ now

/-- What the call read is the base in place, or the sequence number tells that it is not; after the
check it is a base less than a wrap older than the reading of the counter. -/
def Fresh (clock : TickClock) (first base : Nat) : Stage → Prop
  | .idle => True
  | .begun seq => seq ≤ clock.seq
  | .gotWraps seq wraps => seq ≤ clock.seq ∧ (seq = clock.seq → wraps = clock.wraps)
  | .gotBase seq wraps snapLo =>
      seq ≤ clock.seq ∧ (seq = clock.seq → wraps = clock.wraps ∧ snapLo = clock.lastLo)
  | .gotLow seq wraps snapLo lo time =>
      seq ≤ clock.seq ∧ lo = low time ∧
        (seq = clock.seq → wraps = clock.wraps ∧ snapLo = clock.lastLo ∧ base ≤ time)
  | .checked wraps snapLo lo time =>
      lo = low time ∧ ∃ older, first ≤ older ∧ older ≤ time ∧ time < older + 2 ^ 32 ∧
        wraps = wrapsAt first older ∧ snapLo = low older

/-- Before the first sample is in place. -/
structure Unsampled (clock : TickClock) : Prop where
  valid : clock.valid = false
  noFirst : clock.first = none
  wraps : clock.wraps = 0
  sampler : clock.sampler = .idle ∨ ∃ time, clock.sampler = .read (low time) ∧
    clock.lastRead = some time ∧ time ≤ clock.now
  readers : ∀ reader, (clock.readers reader).sampled = false
  log : ∀ reading ∈ clock.log, reading.sampled = false

/-- The sample taken at `base` is in place, and the sampler has read the counter for the next one
at most the believable step later. -/
structure Sampled (clock : TickClock) (first base : Nat) : Prop where
  valid : clock.valid = true
  firstRead : clock.first = some first
  le : first ≤ base
  past : base ≤ clock.now
  lo : clock.lastLo = low base
  wraps : clock.wraps = wrapsAt first base
  sampler : clock.sampler = .idle ∧ clock.lastRead = some base ∨
    ∃ time, clock.sampler = .read (low time) ∧ clock.lastRead = some time ∧ base ≤ time ∧
      time ≤ base + maxStep ∧ time ≤ clock.now
  readers : ∀ reader, (clock.readers reader).sampled = true →
    clock.Fresh first base (clock.readers reader).stage
  log : ∀ reading ∈ clock.log, reading.sampled = true →
    first ≤ reading.time ∧ reading.value = BitVec.ofNat 64 (extended first reading.time)

/-- What holds between the steps. -/
structure Inv (clock : TickClock) : Prop where
  generation : clock.phyGen = 1
  timed : ∀ reader, Timed (clock.readers reader).entered clock.now (clock.readers reader).stage
  during : ∀ reading ∈ clock.log, reading.entered ≤ reading.time ∧ reading.time ≤ reading.returned
  sampled : clock.Unsampled ∨ ∃ first base, clock.Sampled first base

theorem init_inv (start : Nat) : (init start).Inv where
  generation := rfl
  timed := fun _ => Nat.zero_le start
  during := fun _ hreading => absurd hreading List.not_mem_nil
  sampled := Or.inl
    ⟨rfl, rfl, rfl, Or.inl rfl, fun _ => rfl, fun _ hreading => absurd hreading List.not_mem_nil⟩

/-- A reading of the extended time shows the counter. -/
theorem setWidth_extended (hle : first ≤ time) :
    (BitVec.ofNat 64 (extended first time)).setWidth 32 = low time := by
  apply BitVec.eq_of_toNat_eq
  rw [BitVec.toNat_setWidth, BitVec.toNat_ofNat, low, BitVec.toNat_ofNat,
    Nat.mod_mod_of_dvd _ (by norm_num)]
  unfold extended
  omega

/-- The extended time goes on with the time. -/
theorem extended_mono (hle : time ≤ entered) : extended first time ≤ extended first entered := by
  unfold extended
  omega

/-- The invariant makes the readings exact. -/
theorem Inv.exact (h : clock.Inv) (hrange : ∀ ticks, range ticks → ticks < 2 ^ 64) :
    clock.Exact range := by
  -- there is one first sample, and every reading after it is an extended time
  have hlog : ∀ first ∈ clock.first, ∀ reading ∈ clock.log, reading.sampled = true →
      first ≤ reading.time ∧ reading.value = BitVec.ofNat 64 (extended first reading.time) := by
    intro first hfirst reading hreading hsampled
    rcases h.sampled with hnone | ⟨other, base, hbase⟩
    · rw [hnone.noFirst] at hfirst
      cases hfirst
    · rw [hbase.firstRead] at hfirst
      obtain rfl := Option.some.inj hfirst
      exact hbase.log reading hreading hsampled
  have hexact : ∀ first ∈ clock.first, ∀ reading ∈ clock.log, reading.sampled = true →
      range (extended first reading.time) →
        reading.value.toNat = extended first reading.time := by
    intro first hfirst reading hreading hsampled hwithin
    rw [(hlog first hfirst reading hreading hsampled).2, BitVec.toNat_ofNat,
      Nat.mod_eq_of_lt (hrange _ hwithin)]
  refine ⟨h.generation, h.during, ?_, ?_, hexact, ?_⟩
  · intro reading hreading hsampled
    rcases h.sampled with hnone | ⟨first, base, hbase⟩
    · exact absurd ((hnone.log reading hreading).symm.trans hsampled) Bool.false_ne_true
    · obtain ⟨hle, hvalue⟩ := hbase.log reading hreading hsampled
      rw [hvalue, setWidth_extended hle]
  · exact fun first hfirst reading hreading hsampled =>
      (hlog first hfirst reading hreading hsampled).2
  · intro first hfirst earlier hearlier later hlater hsampled hlaterSampled horder hwithin
    have htimes : earlier.time ≤ later.time :=
      ((h.during earlier hearlier).2.trans horder).trans (h.during later hlater).1
    have hlt := hrange _ hwithin
    have hmono : extended first earlier.time ≤ extended first later.time := extended_mono htimes
    rw [BitVec.le_def, (hlog first hfirst earlier hearlier hsampled).2,
      (hlog first hfirst later hlater hlaterSampled).2, BitVec.toNat_ofNat, BitVec.toNat_ofNat,
      Nat.mod_eq_of_lt (hmono.trans_lt hlt), Nat.mod_eq_of_lt hlt]
    exact hmono

/-! ## The sampler's steps -/

/-- The base in place is less than a wrap old. -/
theorem Sampled.near (h : clock.Sampled first base) (hpaced : clock.Paced) :
    clock.now < base + 2 ^ 32 := by
  have hstep : 2 * maxStep < 2 ^ 32 := by decide
  rcases h.sampler with ⟨-, hread⟩ | ⟨time, -, hread, -, hle, -⟩
  · have hlast := hpaced base hread
    omega
  · have hlast := hpaced time hread
    omega

theorem Sampled.fresh (h : clock.Sampled first base) {reader : Nat} {stage : Stage}
    (hsampled : (clock.readers reader).sampled = true)
    (hstage : (clock.readers reader).stage = stage) : clock.Fresh first base stage :=
  hstage ▸ h.readers reader hsampled

/-- What a call read before a writer's section is no longer current. -/
theorem Fresh.write {stage : Stage} (h : clock.Fresh first base stage)
    (hseq : following.seq = clock.seq + 1) (newer : Nat) : following.Fresh first newer stage := by
  cases stage with
  | idle => trivial
  | begun seq =>
      unfold Fresh at h ⊢
      omega
  | gotWraps seq wraps =>
      obtain ⟨hle, -⟩ := h
      exact ⟨by omega, fun hsame => by omega⟩
  | gotBase seq wraps snapLo =>
      obtain ⟨hle, -⟩ := h
      exact ⟨by omega, fun hsame => by omega⟩
  | gotLow seq wraps snapLo lo time =>
      obtain ⟨hle, hlo, -⟩ := h
      exact ⟨by omega, hlo, fun hsame => by omega⟩
  | checked wraps snapLo lo time => exact h

/-- The first sample is put in place. -/
theorem Unsampled.sampleWrite (h : clock.Unsampled) (hlast : clock.lastRead = some time)
    (hpast : time ≤ clock.now) :
    (clock.sampleWrite (low time)).Sampled time time := by
  have hwrite : clock.sampleWrite (low time) =
      { clock with
        seq := clock.seq + 1
        lastLo := low time
        valid := true
        sampler := .idle
        first := clock.lastRead } := by
    unfold TickClock.sampleWrite
    exact if_pos h.valid
  rw [hwrite]
  refine ⟨rfl, hlast, le_rfl, hpast, rfl, ?_, Or.inl ⟨rfl, hlast⟩, fun reader hsampled => ?_,
    fun reading hreading hsampled => ?_⟩
  · rw [wrapsAt, Nat.sub_self]
    exact h.wraps
  · exact absurd ((h.readers reader).symm.trans hsampled) Bool.false_ne_true
  · exact absurd ((h.log reading hreading).symm.trans hsampled) Bool.false_ne_true

/-- A further sample at most the believable step later is not taken for a restart, and it counts
its wrap. -/
theorem Sampled.sampleWrite_eq (h : clock.Sampled first base) (hle : base ≤ time)
    (hstep : time ≤ base + maxStep) :
    clock.sampleWrite (low time) =
      { clock with
        seq := clock.seq + 1
        wraps := wrapsAt first time
        lastLo := low time
        sampler := .idle } := by
  have hmax : maxStep < 2 ^ 32 := by decide
  have hnear : time < base + 2 ^ 32 := by omega
  have hbelievable : ¬BitVec.ofNat 32 maxStep < low time - clock.lastLo := by
    rw [h.lo, BitVec.lt_def, low, low, toNat_sub_of_near hle hnear, BitVec.toNat_ofNat,
      Nat.mod_eq_of_lt hmax]
    omega
  rw [wrapsAt_of_near h.le hle hnear, ← h.lo, ← h.wraps]
  simp only [TickClock.sampleWrite, h.valid, Bool.true_eq_false, if_false, hbelievable]
  split <;> rfl

/-- It is then the base in place. -/
theorem Sampled.sampleWrite (h : clock.Sampled first base) (hlast : clock.lastRead = some time)
    (hle : base ≤ time) (hstep : time ≤ base + maxStep) (hpast : time ≤ clock.now) :
    (clock.sampleWrite (low time)).Sampled first time := by
  rw [h.sampleWrite_eq hle hstep]
  exact ⟨h.valid, h.firstRead, h.le.trans hle, hpast, rfl, rfl, Or.inl ⟨rfl, hlast⟩,
    fun reader hsampled => (h.readers reader hsampled).write rfl time, h.log⟩

/-- The sampler's section leaves the generation, the readers and the log alone. -/
theorem sampleWrite_frame (clock : TickClock) (lo : BitVec 32) :
    (clock.sampleWrite lo).phyGen = clock.phyGen ∧
      (clock.sampleWrite lo).readers = clock.readers ∧
      (clock.sampleWrite lo).now = clock.now ∧ (clock.sampleWrite lo).log = clock.log := by
  unfold TickClock.sampleWrite
  simp only
  split_ifs <;> exact ⟨rfl, rfl, rfl, rfl⟩

/-- The sampler's section keeps the invariant. -/
theorem Inv.sampleWrite (h : clock.Inv) {lo : BitVec 32} (hread : clock.sampler = .read lo) :
    (clock.sampleWrite lo).Inv := by
  obtain ⟨hgen, hreaders, hnow, hlog⟩ := sampleWrite_frame clock lo
  refine ⟨hgen.trans h.generation, ?_, ?_, Or.inr ?_⟩
  · rw [hreaders, hnow]
    exact h.timed
  · rw [hlog]
    exact h.during
  · rcases h.sampled with hnone | ⟨first, base, hbase⟩
    · -- the first sample, which starts the extension
      rcases hnone.sampler with hidle | ⟨time, hsampler, hlast, hpast⟩
      · rw [hidle] at hread
        cases hread
      · rw [hsampler] at hread
        obtain rfl := Sampler.read.inj hread
        exact ⟨time, time, hnone.sampleWrite hlast hpast⟩
    · rcases hbase.sampler with ⟨hidle, -⟩ | ⟨time, hsampler, hlast, hle, hstep, hpast⟩
      · rw [hidle] at hread
        cases hread
      · rw [hsampler] at hread
        obtain rfl := Sampler.read.inj hread
        exact ⟨first, time, hbase.sampleWrite hlast hle hstep hpast⟩

/-- The timer fires at most the believable step after the last time. -/
theorem Inv.sampleRead (h : clock.Inv) (hpaced : clock.Paced) (hidle : clock.sampler = .idle) :
    { clock with sampler := .read (low clock.now), lastRead := some clock.now : TickClock }.Inv := by
  refine ⟨h.generation, h.timed, h.during, ?_⟩
  rcases h.sampled with hnone | ⟨first, base, hbase⟩
  · exact Or.inl ⟨hnone.valid, hnone.noFirst, hnone.wraps,
      Or.inr ⟨clock.now, rfl, rfl, le_rfl⟩, hnone.readers, hnone.log⟩
  · rcases hbase.sampler with ⟨-, hlast⟩ | ⟨time, hsampler, -⟩
    · exact Or.inr ⟨first, base, hbase.valid, hbase.firstRead, hbase.le, hbase.past, hbase.lo,
        hbase.wraps, Or.inr ⟨clock.now, rfl, rfl, hbase.past, hpaced base hlast, le_rfl⟩,
        hbase.readers, hbase.log⟩
    · rw [hidle] at hsampler
      cases hsampler

/-- No restart is ever found. -/
theorem Inv.not_restart (h : clock.Inv) : clock.sampler ≠ .restart := by
  intro hrestart
  rcases h.sampled with hnone | ⟨first, base, hbase⟩
  · rcases hnone.sampler with hsampler | ⟨time, hsampler, -⟩
    · rw [hrestart] at hsampler
      cases hsampler
    · rw [hrestart] at hsampler
      cases hsampler
  · rcases hbase.sampler with ⟨hsampler, -⟩ | ⟨time, hsampler, -⟩
    · rw [hrestart] at hsampler
      cases hsampler
    · rw [hrestart] at hsampler
      cases hsampler

/-- Time passes. -/
theorem Inv.tick (h : clock.Inv) (ticks : Nat) :
    { clock with now := clock.now + ticks : TickClock }.Inv := by
  refine ⟨h.generation, fun reader => ?_, h.during, ?_⟩
  · have htimed := h.timed reader
    simp only
    cases hstage : (clock.readers reader).stage with
    | gotLow | checked =>
        rw [hstage] at htimed
        exact ⟨htimed.1, htimed.2.trans (Nat.le_add_right _ _)⟩
    | _ =>
        rw [hstage] at htimed
        exact htimed.trans (Nat.le_add_right _ _)
  · rcases h.sampled with hnone | ⟨first, base, hbase⟩
    · refine Or.inl ⟨hnone.valid, hnone.noFirst, hnone.wraps, ?_, hnone.readers, hnone.log⟩
      refine hnone.sampler.imp_right ?_
      rintro ⟨time, hsampler, hlast, hpast⟩
      exact ⟨time, hsampler, hlast, hpast.trans (Nat.le_add_right _ _)⟩
    · refine Or.inr ⟨first, base, hbase.valid, hbase.firstRead, hbase.le,
        hbase.past.trans (Nat.le_add_right _ _), hbase.lo, hbase.wraps, ?_, hbase.readers,
        hbase.log⟩
      refine hbase.sampler.imp_right ?_
      rintro ⟨time, hsampler, hlast, hle, hstep, hpast⟩
      exact ⟨time, hsampler, hlast, hle, hstep, hpast.trans (Nat.le_add_right _ _)⟩

/-! ## The readers' steps -/

/-- A reader's call goes on with what is timed and fresh. -/
theorem Inv.reader (h : clock.Inv) (reader : Nat) (status : Reader)
    (htimed : Timed status.entered clock.now status.stage)
    (hsampled : status.sampled = true → clock.valid = true)
    (hfresh : ∀ first base, clock.Sampled first base → status.sampled = true →
      clock.Fresh first base status.stage) :
    { clock with readers := Function.update clock.readers reader status : TickClock }.Inv := by
  refine ⟨h.generation, fun other => ?_, h.during, ?_⟩
  · by_cases hsame : other = reader
    · subst hsame
      simpa only [Function.update_self] using htimed
    · simpa only [Function.update_of_ne hsame] using h.timed other
  · rcases h.sampled with hnone | ⟨first, base, hbase⟩
    · refine Or.inl ⟨hnone.valid, hnone.noFirst, hnone.wraps, hnone.sampler, fun other => ?_,
        hnone.log⟩
      by_cases hsame : other = reader
      · subst hsame
        simp only [Function.update_self]
        rw [← Bool.not_eq_true]
        exact fun hset => absurd (hnone.valid.symm.trans (hsampled hset)) Bool.false_ne_true
      · simp only [Function.update_of_ne hsame]
        exact hnone.readers other
    · refine Or.inr ⟨first, base, hbase.valid, hbase.firstRead, hbase.le, hbase.past, hbase.lo,
        hbase.wraps, hbase.sampler, fun other hother => ?_, hbase.log⟩
      by_cases hsame : other = reader
      · subst hsame
        simp only [Function.update_self] at hother ⊢
        exact hfresh first base hbase hother
      · simp only [Function.update_of_ne hsame] at hother ⊢
        exact hbase.readers other hother

/-- The same within a call. -/
theorem Inv.setStage (h : clock.Inv) (reader : Nat) {stage : Stage}
    (htimed : Timed (clock.readers reader).entered clock.now stage)
    (hfresh : ∀ first base, clock.Sampled first base → (clock.readers reader).sampled = true →
      clock.Fresh first base stage) : (clock.setStage reader stage).Inv := by
  refine h.reader reader _ htimed (fun hset => ?_) hfresh
  rcases h.sampled with hnone | ⟨first, base, hbase⟩
  · exact absurd ((hnone.readers reader).symm.trans hset) Bool.false_ne_true
  · exact hbase.valid

/-- A call that returns logs the extended time of its reading. -/
theorem Inv.finish (h : clock.Inv) {reader : Nat} {wraps snapLo lo : BitVec 32}
    (hstage : (clock.readers reader).stage = .checked wraps snapLo lo time) :
    (clock.finish reader wraps snapLo lo time).Inv := by
  have htimed := h.timed reader
  rw [hstage] at htimed
  -- the reader goes back to idle, and its reading joins the log
  have hidle : (clock.setStage reader .idle).Inv :=
    h.setStage reader (htimed.1.trans htimed.2) fun _ _ _ _ => trivial
  refine ⟨hidle.generation, hidle.timed, ?_, ?_⟩
  · intro reading hreading
    rcases List.mem_append.mp hreading with hbefore | hnew
    · exact h.during reading hbefore
    · obtain rfl := List.mem_singleton.mp hnew
      exact htimed
  · rcases h.sampled with hnone | ⟨first, base, hbase⟩
    · refine Or.inl ⟨hnone.valid, hnone.noFirst, hnone.wraps, hnone.sampler, ?_, ?_⟩
      · intro other
        show (Function.update clock.readers reader _ other).sampled = false
        by_cases hsame : other = reader
        · subst hsame
          rw [Function.update_self]
          exact hnone.readers other
        · rw [Function.update_of_ne hsame]
          exact hnone.readers other
      · intro reading hreading
        rcases List.mem_append.mp hreading with hbefore | hnew
        · exact hnone.log reading hbefore
        · obtain rfl := List.mem_singleton.mp hnew
          exact hnone.readers reader
    · refine Or.inr ⟨first, base, hbase.valid, hbase.firstRead, hbase.le, hbase.past, hbase.lo,
        hbase.wraps, hbase.sampler, ?_, ?_⟩
      · intro other hother
        show clock.Fresh first base (Function.update clock.readers reader _ other).stage
        change (Function.update clock.readers reader _ other).sampled = true at hother
        by_cases hsame : other = reader
        · subst hsame
          rw [Function.update_self]
          trivial
        · rw [Function.update_of_ne hsame] at hother ⊢
          exact hbase.readers other hother
      · intro reading hreading hsampled
        rcases List.mem_append.mp hreading with hbefore | hnew
        · exact hbase.log reading hbefore hsampled
        · -- the base was in place at some time of the call, less than a turn before the reading
          obtain rfl := List.mem_singleton.mp hnew
          have hfresh := hbase.fresh hsampled hstage
          obtain ⟨rfl, older, hfirst, hle, hnear, rfl, rfl⟩ := hfresh
          refine ⟨hfirst.trans hle, ?_⟩
          show value clock.valid _ _ _ = _
          rw [hbase.valid]
          exact value_of_near hfirst hle hnear

/-! ## Runs -/

/-- A step taken in time keeps the invariant. -/
theorem next_inv (h : clock.Inv) (hpaced : clock.Paced)
    (hnext : clock.next event = some following) : following.Inv := by
  cases event with
  | tick ticks =>
      obtain rfl := Option.some.inj hnext
      exact h.tick ticks
  | sampleRead =>
      obtain ⟨hidle, rfl⟩ := of_guard hnext
      exact h.sampleRead hpaced hidle
  | sampleWrite =>
      simp only [next] at hnext
      split at hnext
      · next lo hread =>
          obtain rfl := Option.some.inj hnext
          exact h.sampleWrite hread
      · cases hnext
  | sampleBump =>
      obtain ⟨hrestart, -⟩ := of_guard hnext
      exact absurd hrestart h.not_restart
  | enter reader =>
      obtain ⟨-, rfl⟩ := of_guard hnext
      exact h.reader reader ⟨.begun clock.seq, clock.now, clock.valid⟩ le_rfl id
        fun _ _ _ _ => Nat.le_refl clock.seq
  | readWraps reader =>
      simp only [next] at hnext
      have htimed := h.timed reader
      split at hnext
      · next seq hstage =>
          obtain rfl := Option.some.inj hnext
          rw [hstage] at htimed
          refine h.setStage reader htimed fun first base hbase hset => ?_
          have hfresh := hbase.fresh hset hstage
          exact ⟨hfresh, fun _ => rfl⟩
      · cases hnext
  | readBase reader =>
      simp only [next] at hnext
      have htimed := h.timed reader
      split at hnext
      · next seq wraps hstage =>
          obtain rfl := Option.some.inj hnext
          rw [hstage] at htimed
          refine h.setStage reader htimed fun first base hbase hset => ?_
          have hfresh := hbase.fresh hset hstage
          exact ⟨hfresh.1, fun hsame => ⟨hfresh.2 hsame, rfl⟩⟩
      · cases hnext
  | readLow reader =>
      simp only [next] at hnext
      have htimed := h.timed reader
      split at hnext
      · next seq wraps snapLo hstage =>
          obtain rfl := Option.some.inj hnext
          rw [hstage] at htimed
          refine h.setStage reader ⟨htimed, le_rfl⟩ fun first base hbase hset => ?_
          have hfresh := hbase.fresh hset hstage
          exact ⟨hfresh.1, rfl, fun hsame =>
            ⟨(hfresh.2 hsame).1, (hfresh.2 hsame).2, hbase.past⟩⟩
      · cases hnext
  | check reader =>
      simp only [next] at hnext
      have htimed := h.timed reader
      split at hnext
      · next seq wraps snapLo lo time hstage =>
          rw [hstage] at htimed
          split at hnext
          · next hsame =>
              -- no writer came between, so the base read is the one in place
              obtain rfl := Option.some.inj hnext
              refine h.setStage reader htimed fun first base hbase hset => ?_
              have hfresh := hbase.fresh hset hstage
              obtain ⟨-, hlo, hcurrent⟩ := hfresh
              obtain ⟨hwraps, hsnap, hle⟩ := hcurrent hsame.symm
              have hnear := hbase.near hpaced
              exact ⟨hlo, base, hbase.le, hle, htimed.2.trans_lt hnear,
                hwraps.trans hbase.wraps, hsnap.trans hbase.lo⟩
          · obtain rfl := Option.some.inj hnext
            exact h.setStage reader (htimed.1.trans htimed.2)
              fun _ _ _ _ => Nat.le_refl clock.seq
      · cases hnext
  | finish reader =>
      simp only [next] at hnext
      split at hnext
      · next wraps snapLo lo time hstage =>
          obtain rfl := Option.some.inj hnext
          exact h.finish hstage
      · cases hnext

/-- In every run in which the sampler's executions are at most the believable step apart, with any
readers and from any state of the counter, every reading is exact modulo `2 ^ 64`, and in full and in
order below it. -/
theorem exact_of_paced (start : Nat) (events : List ClockEvent)
    (hpaced : Always next Paced (init start) events) :
    Always next (Exact (· < 2 ^ 64)) (init start) events := by
  have halways : Always next Inv (init start) events :=
    always_of_guarded (fun clock event following h hcondition hnext =>
      next_inv h hcondition hnext) (init_inv start) hpaced.guarded
  exact halways.mono fun clock h => h.exact fun _ hlt => hlt

/-- One call of `rfnm_phytimer_now64` that is not disturbed. -/
def call : List ClockEvent :=
  [.enter 0, .readWraps 0, .readBase 0, .readLow 0, .check 0, .finish 0]

/-- The counter wraps between the first sample and a reading, and the sampler has not caught up. -/
theorem exact_of_paced_wrap :
    Always next (Exact (· < 2 ^ 64)) (init 4294967196)
      ([.sampleRead, .sampleWrite, .tick 200] ++ call ++ [.sampleRead] ++ call ++
        [.sampleWrite] ++ call) :=
  exact_of_paced 4294967196 _ (by decide)

/-! ## The end of the range -/

/-- One execution of the sampler, as late as it may be. -/
def beat : List ClockEvent :=
  [.tick maxStep, .sampleRead, .sampleWrite]

/-- The sampler has just run and no reader is under way. -/
structure Resting (clock : TickClock) (time : Nat) : Prop where
  sampled : clock.Sampled 0 time
  sampler : clock.sampler = .idle
  now : clock.now = time
  lastRead : clock.lastRead = some time
  readers : clock.readers = fun _ => ⟨.idle, 0, false⟩

/-- The sampler runs once more. -/
theorem Resting.beat (h : clock.Resting time) :
    ∃ following, run next clock beat = some following ∧ following.Resting (time + maxStep) ∧
      Always next Paced clock beat := by
  have hbase := h.sampled
  have hmiddle : Sampled { clock with
      now := time + maxStep
      sampler := .read (low (time + maxStep))
      lastRead := some (time + maxStep) } 0 time :=
    ⟨hbase.valid, hbase.firstRead, hbase.le, Nat.le_add_right _ _, hbase.lo, hbase.wraps,
      Or.inr ⟨time + maxStep, rfl, rfl, Nat.le_add_right _ _, le_rfl, le_rfl⟩, hbase.readers,
      hbase.log⟩
  have hwrite := hmiddle.sampleWrite_eq (Nat.le_add_right time maxStep) le_rfl
  have hsampled := hmiddle.sampleWrite rfl (Nat.le_add_right time maxStep) le_rfl le_rfl
  rw [hwrite] at hsampled
  refine ⟨_, ?_, ⟨hsampled, rfl, rfl, rfl, h.readers⟩, ?_⟩
  · simp [run, TickClock.beat, next, h.sampler, h.now, hwrite]
  · simp [Always, TickClock.beat, next, h.sampler, h.now, hwrite, Paced, h.lastRead]

/-- It runs any number of times. -/
theorem Resting.beats (h : clock.Resting time) (count : Nat) :
    ∃ following, run next clock (List.replicate count TickClock.beat).flatten = some following ∧
      following.Resting (time + count * maxStep) ∧
      Always next Paced clock (List.replicate count TickClock.beat).flatten := by
  induction count generalizing clock time with
  | zero =>
      refine ⟨clock, rfl, by simpa using h, ?_⟩
      simp [Always, Paced, h.lastRead, h.now]
  | succ count ih =>
      obtain ⟨middle, hbeat, hmiddle, hpaced⟩ := h.beat
      obtain ⟨following, hrest, hfollowing, hpacedRest⟩ := ih hmiddle
      rw [List.replicate_succ, List.flatten_cons]
      refine ⟨following, ?_, ?_, hpaced.append fun reached hreached => ?_⟩
      · rw [run_append, hbeat]
        exact hrest
      · rwa [Nat.add_assoc, Nat.add_comm maxStep, ← Nat.succ_mul] at hfollowing
      · obtain rfl := Option.some.inj (hbeat.symm.trans hreached)
        exact hpacedRest

/-- A reader calls, and its reading is of now. -/
theorem Resting.call (h : clock.Resting time) :
    ∃ following, run next clock call = some following ∧ Always next Paced clock call ∧
      following.first = some 0 ∧
      ∃ reading ∈ following.log, reading.sampled = true ∧ reading.time = time := by
  refine ⟨_, by simp [run, TickClock.call, next, setStage, h.readers]; rfl, ?_, ?_, ?_⟩
  · simp [Always, TickClock.call, next, setStage, h.readers, Paced, h.lastRead, h.now,
      TickClock.finish]
  · exact h.sampled.firstRead
  · refine ⟨_, List.mem_append_right _ (List.mem_singleton_self _), ?_, h.now⟩
    simpa using h.sampled.valid

/-- After `2 ^ 64` ticks the extension starts again from the low word. -/
theorem reading_overflows :
    ¬∀ (start : Nat) (events : List ClockEvent), Always next Paced (init start) events →
      Always next (Exact fun _ => True) (init start) events := by
  intro h
  have hstart : run next (init 0) [.sampleRead, .sampleWrite] =
      some { init 0 with
        lastRead := some 0
        first := some 0
        valid := true
        seq := 1 } := rfl
  have hresting : Resting { init 0 with
      lastRead := some 0
      first := some 0
      valid := true
      seq := 1 } 0 :=
    ⟨⟨rfl, rfl, le_rfl, le_rfl, rfl, rfl, Or.inl ⟨rfl, rfl⟩,
      fun _ hset => absurd hset Bool.false_ne_true,
      fun _ hreading => absurd hreading List.not_mem_nil⟩, rfl, rfl, rfl, rfl⟩
  -- the believable step times this count is past the range
  obtain ⟨late, hbeats, hlate, hpacedBeats⟩ := hresting.beats (2 ^ 36)
  obtain ⟨last, hcall, hpacedCall, hfirst, reading, hreading, hsampled, htime⟩ := hlate.call
  have hpaced : Always next Paced (init 0) ([.sampleRead, .sampleWrite] ++
      ((List.replicate (2 ^ 36) beat).flatten ++ call)) := by
    refine Always.append (by decide) fun middle hmiddle => ?_
    obtain rfl := Option.some.inj (hstart.symm.trans hmiddle)
    refine hpacedBeats.append fun reached hreached => ?_
    obtain rfl := Option.some.inj (hbeats.symm.trans hreached)
    exact hpacedCall
  have hrun : run next (init 0) ([.sampleRead, .sampleWrite] ++
      ((List.replicate (2 ^ 36) beat).flatten ++ call)) = some last := by
    rw [run_append, hstart, Option.bind_eq_bind, Option.bind_some, run_append, hbeats,
      Option.bind_eq_bind, Option.bind_some, hcall]
  have hexact := (h 0 _ hpaced).final hrun
  have hvalue := hexact.exact 0 hfirst reading hreading hsampled trivial
  have hlt := reading.value.isLt
  rw [hvalue, htime] at hlt
  unfold extended maxStep at hlt
  omega

end TickClock

end RfnmDriver.Session
