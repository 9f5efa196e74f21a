import RfnmDriver.Library.NumberedLog
import RfnmDriver.Rx.Assembler

/-!
# What a lane owes the consumer at a seam

`usb_cc` and `local_cc` count the packets a lane hands on, so a packet the lane drops leaves no hole
in them: the DISCONT flag has to tell of it. `LaneLog` records the packets a lane completes and
hands on, and `Joins` is what each of them owes to the one before. `Trail` ties the log to the
lane's partial packet, its pending mark and the sub-buffer it took last; each operation on the
lane keeps it. Read `Trail` first.
-/

namespace RfnmDriver.Rx

open Ownership NumberedLog

/-- A packet a lane has handed on. -/
structure Shipment where
  packet : Packet
  /-- The rate step of its last sub-buffer. -/
  rate : Nat
  /-- Which of the lane's complete packets it is, counted from 1. -/
  serial : Nat

namespace Shipment

/-- The stamp plus the sample count times the rate step. -/
def endTick (shipment : Shipment) : BitVec 32 :=
  shipment.packet.phytimer + elapsed shipment.rate shipment.packet.elemCnt

/-- What a consumer may conclude from two headers: with consecutive `usb_cc`, the same epoch and no
DISCONT on the second, that one starts where the first ends. -/
def Honest (first second : Shipment) : Prop :=
  second.packet.usbCc = first.packet.usbCc + 1 → second.packet.epoch = first.packet.epoch →
    second.packet.discont = false → second.packet.phytimer = first.endTick

instance (first second : Shipment) : Decidable (first.Honest second) :=
  inferInstanceAs (Decidable (_ → _ → _ → _))

/-- A packet with this stamp and epoch is the next complete one of the lane, and in the epoch of
the one before it starts where that ends. -/
def Resumes (before : Option Shipment) (serial : Nat) (epoch : BitVec 8)
    (phytimer : BitVec 32) : Prop :=
  serial = lastNumber Shipment.serial before + 1 ∧
    ∀ first ∈ before, epoch = first.packet.epoch → phytimer = first.endTick

instance (before : Option Shipment) (serial : Nat) (epoch : BitVec 8) (phytimer : BitVec 32) :
    Decidable (Resumes before serial epoch phytimer) :=
  have : Decidable (∀ first ∈ before, epoch = first.packet.epoch → phytimer = first.endTick) :=
    Option.decidableForallMem _
  inferInstanceAs (Decidable (_ ∧ _))

/-- A packet counts one on, and carries DISCONT unless it resumes. -/
def Joins (before : Option Shipment) (next : Shipment) : Prop :=
  next.packet.usbCc = lastNumber (·.packet.usbCc) before + 1 ∧
    (next.packet.discont = true ∨
      Resumes before next.serial next.packet.epoch next.packet.phytimer)

/-- The `cc` numbers the packets of a lane. -/
theorem numbers_joins : Numbers (·.packet.usbCc) Joins :=
  fun _ _ h => h.1

/-- Consecutive packets of a lane's log are honest. -/
theorem Joins.honest {first second : Shipment} (h : Joins (some first) second) :
    first.Honest second := by
  intro _ hepoch hdiscont
  rcases h.2 with hmarked | hresumes
  · exact absurd (hmarked.symm.trans hdiscont) (by decide)
  · exact hresumes.2 first rfl hepoch

end Shipment

/-- What a lane has completed and handed on so far. -/
structure LaneLog where
  /-- How many packets the lane completed, handed on or not. -/
  formed : Nat
  shipped : List Shipment

namespace LaneLog

/-- Nothing yet. -/
def fresh : LaneLog :=
  ⟨0, []⟩

/-- The packet handed on last. -/
def last (log : LaneLog) : Option Shipment :=
  log.shipped.getLast?

/-- A complete packet is handed on. -/
def ship (log : LaneLog) (packet : Packet) (rate : Nat) : LaneLog where
  formed := log.formed + 1
  shipped := log.shipped ++ [⟨packet, rate, log.formed + 1⟩]

/-- A complete packet is lost. -/
def lose (log : LaneLog) : LaneLog :=
  { log with formed := log.formed + 1 }

@[simp]
theorem last_ship (log : LaneLog) (packet : Packet) (rate : Nat) :
    (log.ship packet rate).last = some ⟨packet, rate, log.formed + 1⟩ := by
  simp [last, ship]

end LaneLog

/-- The logs hold a history of packets handed on, each in the log of one lane. -/
def LogsHold (history : List Packet) (logs : Fin 4 → LaneLog) : Prop :=
  history.Perm ((List.finRange 4).flatMap fun lane => (logs lane).shipped.map Shipment.packet)

/-- A packet handed on goes into the history and into the log of its lane. -/
theorem LogsHold.ship {history : List Packet} {logs : Fin 4 → LaneLog} (h : LogsHold history logs)
    (lane : Fin 4) (packet : Packet) (rate : Nat) :
    LogsHold (history ++ [packet])
      (Function.update logs lane ((logs lane).ship packet rate)) := by
  have hlane : (fun other => (Function.update logs lane ((logs lane).ship packet rate)
        other).shipped.map Shipment.packet) =
      Function.update (fun other => (logs other).shipped.map Shipment.packet) lane
        ((logs lane).shipped.map Shipment.packet ++ [packet]) := by
    funext other
    by_cases hsame : other = lane
    · subst hsame
      simp [LaneLog.ship]
    · simp [hsame]
  rw [LogsHold, hlane]
  exact perm_concat (List.nodup_finRange 4) (List.mem_finRange lane) h

/-- A packet lost goes into neither. -/
theorem LogsHold.lose {history : List Packet} {logs : Fin 4 → LaneLog} (h : LogsHold history logs)
    (lane : Fin 4) : LogsHold history (Function.update logs lane (logs lane).lose) := by
  have hlane : (fun other => (Function.update logs lane (logs lane).lose
        other).shipped.map Shipment.packet) =
      fun other => (logs other).shipped.map Shipment.packet := by
    funext other
    by_cases hsame : other = lane
    · subst hsame
      simp [LaneLog.lose]
    · simp [hsame]
  rw [LogsHold, hlane]
  exact h

/-- The rate step of a lane's last sub-buffer. -/
def rateOf (before : Option SubBuffer) : Nat :=
  before.elim 0 SubBuffer.rate

namespace Assembler

open Shipment

variable {assembler following : Assembler} {ring full : Nat} {lane other : Fin 4}
  {sub : SubBuffer} {source : Nat → Sample} {offset : Nat} {copied : Bool}
  {before : Option SubBuffer} {log : LaneLog}

/-! ## The invariant of a lane -/

/-- The packets handed on are joined, and the lane's `cc` is that of the last. -/
structure Counted (assembler : Assembler) (lane : Fin 4) (log : LaneLog) : Prop where
  linked : Linked Joins none log.shipped
  cc : assembler.cc lane = lastNumber (·.packet.usbCc) log.last

/-- A packet that this sub-buffer begins will join the log: the lane's mark is pending, the
sub-buffer carries DISCONT, or it resumes the last packet. -/
def Ready (assembler : Assembler) (lane : Fin 4) (log : LaneLog) (sub : SubBuffer) : Prop :=
  assembler.jumpDiscont lane = true ∨ sub.discont = true ∨
    Resumes log.last (log.formed + 1) sub.epoch sub.phytimer

instance : Decidable (assembler.Ready lane log sub) :=
  inferInstanceAs (Decidable (_ ∨ _ ∨ _))

/-- The lane between two sub-buffers, `before` being the one it took last. -/
structure Trail (assembler : Assembler) (lane : Fin 4) (before : Option SubBuffer)
    (log : LaneLog) : Prop extends assembler.Counted lane log where
  even : assembler.adcBufSize lane % 2 = 0
  /-- A partial packet has its header already, and will join the log. -/
  header : assembler.Filling lane → (assembler.packet lane).discont = true ∨
    Resumes log.last (log.formed + 1) (assembler.packet lane).epoch
      (assembler.packet lane).phytimer
  /-- Unless the lane is marked, a partial packet ends where the lane's last sub-buffer did. -/
  reaches : assembler.Filling lane → assembler.jumpDiscont lane = false → ∃ sub ∈ before,
    sub.epoch = (assembler.packet lane).epoch ∧ sub.endTick =
      (assembler.packet lane).phytimer + elapsed sub.rate (assembler.adcBufSize lane)
  /-- Without a partial packet, a sub-buffer that continues the last one begins one that joins. -/
  ready : ¬assembler.Filling lane → ∀ prev ∈ before, ∀ sub : SubBuffer, sub.Continues prev →
    assembler.Ready lane log sub

/-- The module init: nothing handed on, nothing under way. -/
theorem trail_init (buf : Nat → Packet) (lane : Fin 4) :
    (Assembler.init buf).Trail lane none .fresh where
  linked := trivial
  cc := rfl
  even := rfl
  header := fun hfilling => absurd rfl hfilling
  reaches := fun hfilling => absurd rfl hfilling
  ready := nofun

/-! ## Operations on other lanes -/

/-- A lane whose cc, fill, mark and partial header an operation leaves alone. -/
structure Spared (assembler following : Assembler) (lane : Fin 4) : Prop where
  cc : following.cc lane = assembler.cc lane
  size : following.adcBufSize lane = assembler.adcBufSize lane
  mark : following.jumpDiscont lane = assembler.jumpDiscont lane
  header : following.Filling lane →
    (following.packet lane).phytimer = (assembler.packet lane).phytimer ∧
      (following.packet lane).epoch = (assembler.packet lane).epoch ∧
      (following.packet lane).discont = (assembler.packet lane).discont

/-- Its trail is what it was. -/
theorem Trail.spare (h : assembler.Trail lane before log)
    (hspared : Spared assembler following lane) : following.Trail lane before log := by
  have hfilling : following.Filling lane ↔ assembler.Filling lane := by
    rw [Filling, Filling, hspared.size]
  constructor
  · exact ⟨h.linked, hspared.cc.trans h.cc⟩
  · rw [hspared.size]
    exact h.even
  · intro hfollowing
    obtain ⟨hphytimer, hepoch, hdiscont⟩ := hspared.header hfollowing
    rw [hphytimer, hepoch, hdiscont]
    exact h.header (hfilling.mp hfollowing)
  · intro hfollowing hmark
    obtain ⟨hphytimer, hepoch, -⟩ := hspared.header hfollowing
    rw [hphytimer, hepoch, hspared.size]
    exact h.reaches (hfilling.mp hfollowing) (hspared.mark ▸ hmark)
  · intro hidle prev hprev sub hcontinues
    rw [Ready, hspared.mark]
    exact h.ready (fun hfollowing => hidle (hfilling.mpr hfollowing)) prev hprev sub hcontinues

/-- A lane that hands a packet on, drops one or moves on spares the others. -/
theorem spared_ship (hne : other ≠ lane) : Spared assembler (assembler.ship ring lane) other := by
  constructor
  · simp [ship, mint, clear, advance, hne]
  · simp [ship, mint, clear, advance, hne]
  · rfl
  · intro _
    simp only [ship, mint, clear, advance, packet, Function.update_of_ne hne]
    -- in a shared slot too, the fields written at ship time are none of these
    by_cases hslot : assembler.adcBuf other = assembler.adcBuf lane
    · rw [hslot, Function.update_self]
      exact ⟨rfl, rfl, rfl⟩
    · rw [Function.update_of_ne hslot]
      exact ⟨rfl, rfl, rfl⟩

theorem spared_drop (hne : other ≠ lane) :
    Spared assembler ((assembler.markDiscont lane).clear lane) other := by
  constructor <;> simp [markDiscont, clear, packet, hne]

theorem spared_moveOn (hne : other ≠ lane) :
    Spared assembler ((assembler.clear lane).advance ring lane) other := by
  constructor <;> simp [clear, advance, packet, hne]

theorem spared_append (hne : other ≠ lane)
    (hslot : assembler.Filling other → assembler.adcBuf other ≠ assembler.adcBuf lane) :
    Spared assembler (assembler.append lane sub source offset copied) other := by
  constructor
  · rfl
  · simp [append, hne]
  · simp only [append]
    split
    · rw [Function.update_of_ne hne]
    · rfl
  · intro hfilling
    have hother : assembler.Filling other := by
      simpa [Filling, append, hne] using hfilling
    simp [append, packet, hslot hother]

/-! ## Operations on the lane -/

/-- A lane without a partial packet. -/
theorem Counted.trail (h : assembler.Counted lane log) (hempty : assembler.adcBufSize lane = 0)
    (hready : ∀ prev ∈ before, ∀ sub : SubBuffer, sub.Continues prev →
      assembler.Ready lane log sub) : assembler.Trail lane before log where
  toCounted := h
  even := by rw [hempty]
  header := fun hfilling => absurd hempty hfilling
  reaches := fun hfilling => absurd hempty hfilling
  ready := fun _ => hready

/-- The lane's partial packet is handed on: it joins the log, and a sub-buffer that continues its
last one resumes it. -/
theorem Trail.ship (h : assembler.Trail lane before log) (hfilling : assembler.Filling lane) :
    (assembler.ship ring lane).Trail lane before
      (log.ship (assembler.minted lane) (rateOf before)) := by
  have hjoins : Joins log.last ⟨assembler.minted lane, rateOf before, log.formed + 1⟩ := by
    refine ⟨?_, h.header hfilling⟩
    show assembler.cc lane + 1 = _
    rw [h.cc]
  have hcounted : (assembler.ship ring lane).Counted lane
      (log.ship (assembler.minted lane) (rateOf before)) := by
    constructor
    · refine h.linked.concat ?_
      rw [Option.or_none]
      exact hjoins
    · rw [LaneLog.last_ship]
      simp [Assembler.ship, mint, clear, advance, minted]
  refine hcounted.trail (by simp [Assembler.ship, mint, clear, advance]) ?_
  intro prev hprev sub hcontinues
  obtain rfl : before = some prev := hprev
  -- without a mark of its own the next packet goes on where this one ends
  by_cases hmark : assembler.jumpDiscont lane = true
  · exact Or.inl hmark
  · by_cases hdiscont : sub.discont = true
    · exact Or.inr (Or.inl hdiscont)
    · obtain ⟨last, hlast, hepoch, hend⟩ := h.reaches hfilling (Bool.not_eq_true _ ▸ hmark)
      obtain rfl := Option.some.inj hlast
      refine Or.inr (Or.inr ?_)
      rw [LaneLog.last_ship]
      refine ⟨rfl, fun first hfirst hsame => ?_⟩
      obtain rfl := Option.some.inj hfirst
      rw [(hcontinues (Bool.not_eq_true _ ▸ hdiscont) (hsame.trans hepoch.symm)).1]
      exact hend

/-- The lane's packet is dropped and the lane marked. -/
theorem Counted.drop (h : assembler.Counted lane log) :
    ((assembler.markDiscont lane).clear lane).Trail lane before log := by
  have hcounted : ((assembler.markDiscont lane).clear lane).Counted lane log := ⟨h.linked, h.cc⟩
  refine hcounted.trail (by simp [clear]) fun prev _ sub _ => Or.inl ?_
  simp [markDiscont, clear]

/-- A sub-buffer that is ready begins a packet that will join. -/
theorem Counted.birth (h : assembler.Counted lane log) (hempty : assembler.adcBufSize lane = 0)
    (hready : assembler.Ready lane log sub) (heven : sub.size % 2 = 0) (hsize : sub.size ≠ 0) :
    (assembler.append lane sub source offset copied).Trail lane (some sub) log := by
  have hheader : ((assembler.append lane sub source offset copied).packet lane).discont =
        (sub.discont || assembler.jumpDiscont lane) ∧
      ((assembler.append lane sub source offset copied).packet lane).epoch = sub.epoch ∧
      ((assembler.append lane sub source offset copied).packet lane).phytimer = sub.phytimer := by
    simp [append, packet, filled, hempty, Packet.birth]
  obtain ⟨hdiscont, hepoch, hphytimer⟩ := hheader
  have hfill : (assembler.append lane sub source offset copied).adcBufSize lane = sub.size := by
    simp [append, hempty]
  constructor
  · exact ⟨h.linked, h.cc⟩
  · rw [hfill]
    exact heven
  · intro _
    rw [hdiscont, hepoch, hphytimer, Bool.or_eq_true]
    rcases hready with hmark | hown | hresumes
    · exact Or.inl (Or.inr hmark)
    · exact Or.inl (Or.inl hown)
    · exact Or.inr hresumes
  · intro _ _
    refine ⟨sub, rfl, hepoch.symm, ?_⟩
    rw [hphytimer, hfill]
    rfl
  · intro hidle
    exact absurd (hfill.trans_ne hsize) hidle

/-- A sub-buffer goes into the lane's partial packet. -/
theorem Trail.append (h : assembler.Trail lane before log) (hfilling : assembler.Filling lane)
    (hdiscont : sub.discont = false) (hepoch : sub.epoch = (assembler.packet lane).epoch)
    (hstream : ∀ prev ∈ before, sub.Continues prev) (heven : sub.size % 2 = 0) :
    (assembler.append lane sub source offset copied).Trail lane (some sub) log := by
  have hsize : assembler.adcBufSize lane ≠ 0 := hfilling
  -- a packet that is being filled keeps the header of its first sub-buffer
  have hheader : ((assembler.append lane sub source offset copied).packet lane).discont =
        (assembler.packet lane).discont ∧
      ((assembler.append lane sub source offset copied).packet lane).epoch =
        (assembler.packet lane).epoch ∧
      ((assembler.append lane sub source offset copied).packet lane).phytimer =
        (assembler.packet lane).phytimer := by
    simp only [Assembler.append, packet, Function.update_self, filled, if_neg hsize]
    cases copied <;> exact ⟨rfl, rfl, rfl⟩
  have hfill : (assembler.append lane sub source offset copied).adcBufSize lane =
      assembler.adcBufSize lane + sub.size := by
    simp [Assembler.append]
  constructor
  · exact ⟨h.linked, h.cc⟩
  · have := h.even
    rw [hfill]
    omega
  · intro _
    rw [hheader.1, hheader.2.1, hheader.2.2]
    exact h.header hfilling
  · intro _ hmark
    have hunmarked : assembler.jumpDiscont lane = false := by
      simpa [Assembler.append, hsize] using hmark
    obtain ⟨prev, hprev, hprevEpoch, hprevEnd⟩ := h.reaches hfilling hunmarked
    obtain ⟨hstart, hrate⟩ := hstream prev hprev hdiscont (hepoch.trans hprevEpoch.symm)
    refine ⟨sub, rfl, hepoch.trans hheader.2.1.symm, ?_⟩
    rw [hheader.2.2, hfill, SubBuffer.endTick, hstart, hprevEnd, hrate, BitVec.add_assoc,
      ← elapsed_add prev.rate h.even]
  · intro hidle
    refine absurd ?_ hidle
    show (assembler.append lane sub source offset copied).adcBufSize lane ≠ 0
    omega

/-! ## All lanes -/

section Lanes

variable {last later : Fin 4 → Option SubBuffer} {logs : Fin 4 → LaneLog}

/-- No two lanes fill one slot, and every lane keeps its trail. -/
structure Trails (assembler : Assembler) (last : Fin 4 → Option SubBuffer)
    (logs : Fin 4 → LaneLog) : Prop where
  slots : Exclusive assembler.owned
  lane : ∀ lane, assembler.Trail lane (last lane) (logs lane)

/-- The lane may take the sub-buffer: it begins a packet that will join, in a slot no other lane
fills, or continues the partial packet. -/
structure Poised (assembler : Assembler) (lane : Fin 4) (sub : SubBuffer)
    (last : Fin 4 → Option SubBuffer) (logs : Fin 4 → LaneLog) : Prop where
  slots : Exclusive assembler.owned
  others : ∀ other, other ≠ lane → assembler.Trail other (last other) (logs other)
  here : (assembler.adcBufSize lane = 0 ∧ assembler.Counted lane (logs lane) ∧
      assembler.Ready lane (logs lane) sub ∧ Unowned assembler.owned lane (assembler.adcBuf lane)) ∨
    (assembler.Filling lane ∧ assembler.Trail lane (last lane) (logs lane) ∧
      sub.discont = false ∧ sub.epoch = (assembler.packet lane).epoch)

/-- The lane takes the sub-buffer. -/
theorem Poised.append (h : assembler.Poised lane sub last logs)
    (hstream : ∀ prev ∈ last lane, sub.Continues prev) (heven : sub.size % 2 = 0)
    (hsize : sub.size ≠ 0) :
    (assembler.append lane sub source offset copied).Trails
      (Function.update last lane (some sub)) logs := by
  have hfree : Unowned assembler.owned lane (assembler.adcBuf lane) := by
    rcases h.here with ⟨-, -, -, hfree⟩ | ⟨hfilling, -⟩
    · exact hfree
    · exact h.slots.unowned (mem_owned.mpr ⟨hfilling, rfl⟩)
  constructor
  · rw [owned_append hsize]
    exact h.slots.take hfree
  · intro other
    by_cases hsame : other = lane
    · subst hsame
      rw [Function.update_self]
      rcases h.here with ⟨hempty, hcounted, hready, -⟩ | ⟨hfilling, htrail, hdiscont, hepoch⟩
      · exact hcounted.birth hempty hready heven hsize
      · exact htrail.append hfilling hdiscont hepoch hstream heven
    · rw [Function.update_of_ne hsame]
      refine (h.others other hsame).spare (spared_append hsame fun hfilling hslot => ?_)
      exact hfree hsame (mem_owned.mpr ⟨hfilling, hslot⟩)

/-- The packet of a lane is handed on. -/
theorem Trails.ship (h : assembler.Trails last logs) (hfilling : assembler.Filling lane) :
    (assembler.ship ring lane).Trails last (Function.update logs lane
      ((logs lane).ship (assembler.minted lane) (rateOf (last lane)))) := by
  constructor
  · exact h.slots.weaken fun other slot howns => (mem_owned_ship howns).2
  · intro other
    by_cases hsame : other = lane
    · subst hsame
      rw [Function.update_self]
      exact (h.lane other).ship hfilling
    · rw [Function.update_of_ne hsame]
      exact (h.lane other).spare (spared_ship hsame)

/-- The packet of a lane is dropped and the lane marked: nothing is asked of its next sub-buffer. -/
theorem Trails.drop (h : assembler.Trails last logs)
    (hlater : ∀ other, other ≠ lane → later other = last other) :
    ((assembler.markDiscont lane).clear lane).Trails later logs := by
  constructor
  · exact h.slots.weaken fun other slot howns => (mem_owned_clear howns).2
  · intro other
    by_cases hsame : other = lane
    · subst hsame
      exact (h.lane other).drop
    · rw [hlater other hsame]
      exact (h.lane other).spare (spared_drop hsame)

/-- With every lane marked, nothing is asked of the next sub-buffers. -/
theorem Trails.markAll (h : assembler.Trails last logs) :
    assembler.markAll.Trails later logs where
  slots := h.slots
  lane := fun lane =>
    { linked := (h.lane lane).linked
      cc := (h.lane lane).cc
      even := (h.lane lane).even
      header := (h.lane lane).header
      reaches := fun _ hmark => Bool.noConfusion hmark
      ready := fun _ _ _ _ _ => Or.inl rfl }

/-- Without partial packets and without a sub-buffer to continue, only the counts remain. -/
theorem Trails.emptied (h : assembler.Trails last logs) (hcc : following.cc = assembler.cc)
    (hempty : following.adcBufSize = fun _ => 0) : following.Trails (fun _ => none) logs where
  slots := by
    intro first second slot hfirst
    rw [owned_of_clear hempty] at hfirst
    cases hfirst
  lane := fun lane =>
    have hcounted : following.Counted lane (logs lane) :=
      ⟨(h.lane lane).linked, (congrFun hcc lane).trans (h.lane lane).cc⟩
    hcounted.trail (congrFun hempty lane) nofun

/-! ## The lane a sub-buffer finds -/

/-- A lane in a free slot that nothing was begun in. -/
theorem poised_of_empty (hslots : Exclusive assembler.owned)
    (hothers : ∀ other, other ≠ lane → assembler.Trail other (last other) (logs other))
    (hcounted : assembler.Counted lane (logs lane)) (hempty : assembler.adcBufSize lane = 0)
    (hready : assembler.Ready lane (logs lane) sub)
    (hfree : Unowned assembler.owned lane (assembler.adcBuf lane)) :
    assembler.Poised lane sub last logs :=
  ⟨hslots, hothers, Or.inl ⟨hempty, hcounted, hready, hfree⟩⟩

/-- A sub-buffer that forces nothing out. Only the first one after a restart has none before it
while the lane is neither filling nor marked. -/
theorem Trails.stay (h : assembler.Trails last logs) (hstays : ¬assembler.Flushes lane full sub)
    (hstream : ∀ prev ∈ last lane, sub.Continues prev)
    (hfree : ¬assembler.Filling lane → Unowned assembler.owned lane (assembler.adcBuf lane))
    (hfirst : ¬assembler.Filling lane → last lane = none →
      assembler.Ready lane (logs lane) sub) : assembler.Poised lane sub last logs := by
  have hlane := h.lane lane
  by_cases hfilling : assembler.Filling lane
  · refine ⟨h.slots, fun other _ => h.lane other, Or.inr ⟨hfilling, hlane, ?_⟩⟩
    simp only [Flushes, SeamFlush, not_or, not_and, Bool.not_eq_true, not_not] at hstays
    exact hstays.2 hfilling
  · have hready : assembler.Ready lane (logs lane) sub := by
      cases hlast : last lane with
      | none => exact hfirst hfilling hlast
      | some prev => exact hlane.ready hfilling prev hlast sub (hstream prev hlast)
    exact poised_of_empty h.slots (fun other _ => h.lane other) hlane.toCounted
      (not_not.mp hfilling) hready (hfree hfilling)

/-- A sub-buffer that finds the packet before it handed on. -/
theorem Trails.shipFor (h : assembler.Trails last logs) (hfilling : assembler.Filling lane)
    (hstream : ∀ prev ∈ last lane, sub.Continues prev)
    (hhead : Unowned assembler.owned lane assembler.head) :
    (assembler.ship ring lane).Poised lane sub last (Function.update logs lane
      ((logs lane).ship (assembler.minted lane) (rateOf (last lane)))) := by
  have hship : (assembler.ship ring lane).Trails last _ := h.ship hfilling
  have hlane := hship.lane lane
  have hempty : (assembler.ship ring lane).adcBufSize lane = 0 := by
    simp [Assembler.ship, mint, clear, advance]
  refine poised_of_empty hship.slots (fun other _ => hship.lane other) hlane.toCounted hempty ?_ ?_
  · cases hlast : last lane with
    | none =>
        -- with nothing known of the sub-buffers before it, a partial packet is marked
        by_cases hmark : assembler.jumpDiscont lane = true
        · exact Or.inl hmark
        · obtain ⟨prev, hprev, -⟩ :=
            (h.lane lane).reaches hfilling (Bool.not_eq_true _ ▸ hmark)
          rw [hlast] at hprev
          cases hprev
    | some prev =>
        rw [← hlast]
        exact hlane.ready (fun hfilling => hfilling hempty) prev hlast sub (hstream prev hlast)
  · have hslot : (assembler.ship ring lane).adcBuf lane = assembler.head := by
      simp [Assembler.ship, mint, clear, advance]
    intro other hne howns
    rw [hslot] at howns
    exact hhead hne (mem_owned_ship howns).2

/-- A sub-buffer that finds the packet before it dropped, and the lane marked for it. -/
theorem Trails.dropFor (h : assembler.Trails last logs) (hfilling : assembler.Filling lane) :
    ((assembler.markDiscont lane).clear lane).Poised lane sub last logs := by
  have hdrop : ((assembler.markDiscont lane).clear lane).Trails last logs := h.drop fun _ _ => rfl
  refine poised_of_empty hdrop.slots (fun other _ => hdrop.lane other) (hdrop.lane lane).toCounted
    (by simp [clear]) (Or.inl (by simp [markDiscont, clear])) ?_
  intro other hne howns
  exact h.slots.unowned (mem_owned.mpr ⟨hfilling, rfl⟩) hne (mem_owned_clear howns).2

/-- A sub-buffer that finds the packet before it lost, and makes up for it with its own DISCONT or
the lane's mark. -/
theorem Trails.loseFor (h : assembler.Trails last logs)
    (hdeclared : assembler.jumpDiscont lane = true ∨ sub.discont = true)
    (hhead : Unowned assembler.owned lane assembler.head) :
    ((assembler.clear lane).advance ring lane).Poised lane sub last
      (Function.update logs lane (logs lane).lose) := by
  refine poised_of_empty ?_ (fun other hne => ?_) ?_ ?_ ?_ ?_
  · exact h.slots.weaken fun other slot howns => (mem_owned_advance howns).2
  · rw [Function.update_of_ne hne]
    exact (h.lane other).spare (spared_moveOn hne)
  · rw [Function.update_self]
    exact ⟨(h.lane lane).linked, (h.lane lane).cc⟩
  · simp [clear, advance]
  · exact hdeclared.imp_right Or.inl
  · have hslot : ((assembler.clear lane).advance ring lane).adcBuf lane = assembler.head := by
      simp [clear, advance]
    intro other hne howns
    rw [hslot] at howns
    exact hhead hne (mem_owned_advance howns).2

end Lanes

end Assembler

end RfnmDriver.Rx
