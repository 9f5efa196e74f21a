import RfnmDriver.Rx.Assembler

/-!
# Partial packets without a seam

`Seamless` says of an assembler that no two lanes fill one slot, and that every partial packet was
captured without a gap and ends where the lane's next sub-buffer starts, unless the lane's DISCONT
mark is pending. Operations that drop or hand on packets keep it (`Seamless.vacate`), and a
sub-buffer does (`Seamless.append`) when it begins a packet or continues an unmarked one.
-/

namespace RfnmDriver.Rx.Assembler

open Ownership

variable {assembler following : Assembler} {ring : Nat} {lane other : Fin 4} {sub : SubBuffer}
  {source : Nat → Sample} {offset : Nat} {copied : Bool} {before later : Fin 4 → Option SubBuffer}
  {missing : Fin 4 → Bool}

/-- The lane's partial packet: unless part of the payload is missing it is continuous, and unless
the lane is marked it ends where the sub-buffer before the next one did. -/
structure Partial (assembler : Assembler) (lane : Fin 4) (before : Option SubBuffer)
    (missing : Bool) (rate : Nat) : Prop where
  even : assembler.adcBufSize lane % 2 = 0
  continuous : missing = false →
    (assembler.packet lane).ContinuousTo rate (assembler.adcBufSize lane)
  reaches : assembler.jumpDiscont lane = false → ∃ sub ∈ before, sub.rate = rate ∧
    sub.epoch = (assembler.packet lane).epoch ∧
    sub.endTick = (assembler.packet lane).phytimer + elapsed rate (assembler.adcBufSize lane)

/-- No two lanes fill one slot, and no partial packet has a seam inside. -/
def Seamless (assembler : Assembler) (before : Fin 4 → Option SubBuffer)
    (missing : Fin 4 → Bool) : Prop :=
  Exclusive assembler.owned ∧
    ∀ lane, assembler.Filling lane →
      ∃ rate, assembler.Partial lane (before lane) (missing lane) rate

/-- The lane's partial packet is still there, in its slot, and the lane's mark is not cleared. -/
structure Kept (assembler following : Assembler) (lane : Fin 4) : Prop where
  size : following.adcBufSize lane = assembler.adcBufSize lane
  slot : following.adcBuf lane = assembler.adcBuf lane
  mark : following.jumpDiscont lane = false → assembler.jumpDiscont lane = false
  adcId : (following.packet lane).adcId = (assembler.packet lane).adcId
  phytimer : (following.packet lane).phytimer = (assembler.packet lane).phytimer
  epoch : (following.packet lane).epoch = (assembler.packet lane).epoch
  payload : (following.packet lane).payload = (assembler.packet lane).payload

theorem Kept.refl (lane : Fin 4) : Kept assembler assembler lane :=
  ⟨rfl, rfl, id, rfl, rfl, rfl, rfl⟩

theorem Kept.trans {middle : Assembler} (h : Kept assembler middle lane)
    (hrest : Kept middle following lane) : Kept assembler following lane where
  size := hrest.size.trans h.size
  slot := hrest.slot.trans h.slot
  mark hmark := h.mark (hrest.mark hmark)
  adcId := hrest.adcId.trans h.adcId
  phytimer := hrest.phytimer.trans h.phytimer
  epoch := hrest.epoch.trans h.epoch
  payload := hrest.payload.trans h.payload

/-! ## Packets that leave -/

/-- A partial packet that is kept has no seam, as long as an unmarked lane's next sub-buffer is the
same. -/
theorem Partial.keep {last next : Option SubBuffer} {hole : Bool} {rate : Nat}
    (h : assembler.Partial lane last hole rate) (hkept : Kept assembler following lane)
    (hnext : following.jumpDiscont lane = false → next = last) :
    following.Partial lane next hole rate := by
  constructor
  · rw [hkept.size]
    exact h.even
  · intro hhole k hk
    rw [hkept.payload, hkept.phytimer]
    exact h.continuous hhole k (hkept.size ▸ hk)
  · intro hmark
    rw [hnext hmark, hkept.size, hkept.phytimer, hkept.epoch]
    exact h.reaches (hkept.mark hmark)

/-- When every partial packet left is kept, there is still no seam. -/
theorem Seamless.vacate (h : assembler.Seamless before missing)
    (hkept : ∀ lane, following.Filling lane → Kept assembler following lane)
    (hlater : ∀ lane, following.Filling lane → following.jumpDiscont lane = false →
      later lane = before lane) : following.Seamless later missing := by
  constructor
  · refine h.1.weaken fun lane slot howns => ?_
    obtain ⟨hfilling, hslot⟩ := mem_owned.mp howns
    have hlane := hkept lane hfilling
    refine mem_owned.mpr ⟨?_, hlane.slot ▸ hslot⟩
    rw [Filling, ← hlane.size]
    exact hfilling
  · intro lane hfilling
    have hlane := hkept lane hfilling
    have hbefore : assembler.Filling lane := by
      rw [Filling, ← hlane.size]
      exact hfilling
    obtain ⟨rate, hpartial⟩ := h.2 lane hbefore
    exact ⟨rate, hpartial.keep hlane (hlater lane hfilling)⟩

/-- Without partial packets there is no seam. -/
theorem seamless_of_clear (hclear : assembler.adcBufSize = fun _ => 0) :
    assembler.Seamless before missing := by
  constructor
  · intro first second slot hfirst
    rw [owned_of_clear hclear] at hfirst
    cases hfirst
  · intro lane hfilling
    exact absurd (congrFun hclear lane) hfilling

/-- A lane that holds a packet after another lane's packet is gone. -/
theorem ne_of_filling (hempty : following.adcBufSize lane = 0)
    (hfilling : following.Filling other) : other ≠ lane := by
  intro hsame
  exact hfilling (hsame ▸ hempty)

/-- Nothing is asked of the next sub-buffer of a lane without a packet. -/
theorem Seamless.move (h : assembler.Seamless before missing)
    (hempty : assembler.adcBufSize lane = 0) (next : Option SubBuffer) :
    assembler.Seamless (Function.update before lane next) missing := by
  refine h.vacate (fun other _ => .refl other) fun other hfilling _ => ?_
  exact Function.update_of_ne (ne_of_filling hempty hfilling) ..

/-- A ship keeps the packets of the other lanes. -/
theorem kept_ship (hfilling : (assembler.ship ring lane).Filling other) :
    Kept assembler (assembler.ship ring lane) other := by
  have hne : other ≠ lane :=
    ne_of_filling (by simp [Assembler.ship, mint, Assembler.clear, advance]) hfilling
  constructor <;>
    simp only [Assembler.ship, mint, Assembler.clear, advance, packet, Function.update_of_ne hne,
      imp_self]
  -- even in a shared slot the stamp, the epoch and the payload stay
  all_goals
    by_cases hslot : assembler.adcBuf other = assembler.adcBuf lane
    · rw [hslot, Function.update_self]
      rfl
    · rw [Function.update_of_ne hslot]

/-- A drop keeps the packets of the other lanes. -/
theorem kept_clear (hfilling : (assembler.clear lane).Filling other) :
    Kept assembler (assembler.clear lane) other := by
  have hne : other ≠ lane := ne_of_filling (by simp [Assembler.clear]) hfilling
  exact ⟨by simp [Assembler.clear, hne], rfl, id, rfl, rfl, rfl, rfl⟩

/-- A mark on a lane keeps every packet. -/
theorem kept_markDiscont : Kept assembler (assembler.markDiscont lane) other := by
  refine ⟨rfl, rfl, fun hmark => ?_, rfl, rfl, rfl, rfl⟩
  by_cases hsame : other = lane
  · subst hsame
    simp [Assembler.markDiscont] at hmark
  · simpa [Assembler.markDiscont, hsame] using hmark

/-- The lane's packet is handed on; the header fields written then are no other packet's time. -/
theorem Seamless.ship (h : assembler.Seamless before missing) :
    (assembler.ship ring lane).Seamless before missing :=
  h.vacate (fun _ => kept_ship) fun _ _ _ => rfl

/-- The lane's packet is dropped. -/
theorem Seamless.clear (h : assembler.Seamless before missing) :
    (assembler.clear lane).Seamless before missing :=
  h.vacate (fun _ => kept_clear) fun _ _ _ => rfl

/-- A lane without a packet moves to another slot. -/
theorem Seamless.advance (h : assembler.Seamless before missing)
    (hempty : assembler.adcBufSize lane = 0) :
    (assembler.advance ring lane).Seamless before missing := by
  refine h.vacate (fun other hfilling => ?_) fun _ _ _ => rfl
  have hne : other ≠ lane := ne_of_filling hempty hfilling
  constructor <;> simp [Assembler.advance, packet, hne]

/-- A mark on a lane asks less of its packet. -/
theorem Seamless.markDiscont (h : assembler.Seamless before missing) :
    (assembler.markDiscont lane).Seamless before missing :=
  h.vacate (fun _ _ => kept_markDiscont) fun _ _ _ => rfl

/-- Marks on all lanes keep every packet. -/
theorem kept_markAll : Kept assembler assembler.markAll other := by
  refine ⟨rfl, rfl, fun hmark => ?_, rfl, rfl, rfl, rfl⟩
  cases hmark

/-- With every lane marked, nothing is asked of the next sub-buffers. -/
theorem Seamless.markAll (h : assembler.Seamless before missing) :
    assembler.markAll.Seamless later missing := by
  refine h.vacate (fun other _ => kept_markAll) fun other _ hmark => ?_
  cases hmark

/-- A packet handed on with its whole payload is continuous. -/
theorem Seamless.continuous_minted (h : assembler.Seamless before missing)
    (hwhole : missing lane = false) : (assembler.minted lane).Continuous := by
  by_cases hfilling : assembler.Filling lane
  · obtain ⟨rate, hpartial⟩ := h.2 lane hfilling
    exact ⟨rate, hpartial.continuous hwhole⟩
  · refine ⟨0, fun k hk => ?_⟩
    have hempty : assembler.adcBufSize lane = 0 := not_not.mp hfilling
    simp only [minted, hempty] at hk
    omega

/-! ## Packets that grow -/

/-- A sub-buffer that begins a packet. -/
theorem partial_birth (hempty : assembler.adcBufSize lane = 0) (heven : sub.size % 2 = 0)
    (hsource : ∀ position < sub.size, source (offset + position) = sub.sample position) :
    (assembler.append lane sub source offset copied).Partial lane (some sub) (!copied)
      sub.rate := by
  constructor
  · simp [append, hempty, heven]
  · intro hcopied
    have hcopied : copied = true := by simpa using hcopied
    simp only [append, packet, Function.update_self, filled, hempty, hcopied, if_true,
      Nat.zero_add]
    exact Packet.continuousTo_birth hsource
  · intro _
    refine ⟨sub, rfl, rfl, ?_, ?_⟩
    · simp [append, packet, filled, hempty, Packet.birth]
    · simp [append, packet, filled, hempty, Packet.birth, SubBuffer.endTick]

/-- A sub-buffer that continues an unmarked packet. -/
theorem Partial.append {prev : SubBuffer} {hole : Bool} {rate : Nat}
    (h : assembler.Partial lane (some prev) hole rate) (hfilling : assembler.Filling lane)
    (hmark : assembler.jumpDiscont lane = false) (hdiscont : sub.discont = false)
    (hepoch : sub.epoch = (assembler.packet lane).epoch) (hstream : sub.Continues prev)
    (heven : sub.size % 2 = 0)
    (hsource : ∀ position < sub.size, source (offset + position) = sub.sample position) :
    (assembler.append lane sub source offset copied).Partial lane (some sub) (hole || !copied)
      rate := by
  -- the new sub-buffer begins where the packet ends
  obtain ⟨last, hlast, rfl, hprevEpoch, hprevEnd⟩ := h.reaches hmark
  obtain rfl := Option.some.inj hlast
  obtain ⟨hstart, hrate⟩ := hstream hdiscont (hepoch.trans hprevEpoch.symm)
  rw [hprevEnd] at hstart
  have hsize : assembler.adcBufSize lane ≠ 0 := hfilling
  constructor
  · have := h.even
    simp only [Assembler.append, Function.update_self]
    omega
  · intro hwhole
    obtain ⟨hhole, hcopied⟩ : hole = false ∧ copied = true := by simpa using hwhole
    simp only [Assembler.append, packet, Function.update_self, filled, hsize, hcopied, if_true,
      if_false]
    rw [← hrate] at hstart ⊢
    exact Packet.continuousTo_copy (hrate ▸ h.continuous hhole) h.even hstart hsource
  · intro _
    have htime : ((assembler.append lane sub source offset copied).packet lane).phytimer =
        (assembler.packet lane).phytimer ∧
        ((assembler.append lane sub source offset copied).packet lane).epoch =
          (assembler.packet lane).epoch := by
      simp only [Assembler.append, packet, Function.update_self, filled, hsize, if_false]
      cases copied <;> exact ⟨rfl, rfl⟩
    refine ⟨sub, rfl, hrate, hepoch.trans htime.2.symm, ?_⟩
    rw [htime.1, SubBuffer.endTick, hstart, hrate, BitVec.add_assoc,
      ← elapsed_add prev.rate h.even]
    simp [Assembler.append]

/-- A sub-buffer leaves the packets in other slots alone. -/
theorem kept_append (hne : other ≠ lane)
    (hslot : assembler.adcBuf other ≠ assembler.adcBuf lane) :
    Kept assembler (assembler.append lane sub source offset copied) other := by
  constructor
  · simp [append, hne]
  · rfl
  · simp only [append]
    split
    · rw [Function.update_of_ne hne]
      exact id
    · exact id
  all_goals simp [append, packet, hslot]

/-- There is no seam after a sub-buffer that begins a packet in a slot no other lane fills, or
continues an unmarked packet of its epoch without DISCONT. -/
theorem Seamless.append (h : assembler.Seamless before missing)
    (hunowned : ¬assembler.Filling lane →
      Unowned assembler.owned lane (assembler.adcBuf lane))
    (hcontinues : assembler.Filling lane → assembler.jumpDiscont lane = false ∧
      sub.discont = false ∧ sub.epoch = (assembler.packet lane).epoch)
    (hstream : ∀ prev ∈ before lane, sub.Continues prev) (heven : sub.size % 2 = 0)
    (hsize : sub.size ≠ 0)
    (hsource : ∀ position < sub.size, source (offset + position) = sub.sample position) :
    (assembler.append lane sub source offset copied).Seamless
      (Function.update before lane (some sub))
      (Function.update missing lane
        (if assembler.adcBufSize lane = 0 then !copied else missing lane || !copied)) := by
  have hfree : Unowned assembler.owned lane (assembler.adcBuf lane) := by
    by_cases hfilling : assembler.Filling lane
    · exact h.1.unowned (mem_owned.mpr ⟨hfilling, rfl⟩)
    · exact hunowned hfilling
  constructor
  · rw [owned_append hsize]
    exact h.1.take hfree
  · intro other hother
    by_cases hsame : other = lane
    · subst hsame
      simp only [Function.update_self]
      by_cases hempty : assembler.adcBufSize other = 0
      · rw [if_pos hempty]
        exact ⟨sub.rate, partial_birth hempty heven hsource⟩
      · -- the mark is what tells that sub-buffers were skipped since the packet began
        rw [if_neg hempty]
        obtain ⟨rate, hpartial⟩ := h.2 other hempty
        obtain ⟨hmark, hdiscont, hepoch⟩ := hcontinues hempty
        obtain ⟨prev, hprev, -⟩ := hpartial.reaches hmark
        have hbefore : before other = some prev := hprev
        rw [hbefore] at hpartial
        exact ⟨rate, hpartial.append hempty hmark hdiscont hepoch (hstream prev hprev) heven
          hsource⟩
    · rw [Function.update_of_ne hsame, Function.update_of_ne hsame]
      have hfilling : assembler.Filling other := by
        simpa [Filling, Assembler.append, hsame] using hother
      -- another lane fills another packet, which the copy leaves alone
      have hslot : assembler.adcBuf other ≠ assembler.adcBuf lane := fun hslot =>
        hfree hsame (mem_owned.mpr ⟨hfilling, hslot⟩)
      obtain ⟨rate, hpartial⟩ := h.2 other hfilling
      exact ⟨rate, hpartial.keep (kept_append hsame hslot) fun _ => rfl⟩

/-! ## A sub-buffer after the flush -/

/-- The sub-buffer puts no seam into a packet: it continues a packet only while the lane is not
marked, and begins one only in a slot no other lane fills. `moves` says the lane gets the slot at
the head when its packet is forced out. -/
def SeamKept (assembler : Assembler) (lane : Fin 4) (full : Nat) (sub : SubBuffer)
    (moves : Prop) : Prop :=
  (assembler.Filling lane → ¬assembler.Flushes lane full sub →
      assembler.jumpDiscont lane = false) ∧
    (¬assembler.Filling lane → ¬assembler.Flushes lane full sub →
      Unowned assembler.owned lane (assembler.adcBuf lane)) ∧
    (assembler.Flushes lane full sub → moves →
      Unowned assembler.owned lane assembler.head)

instance (full : Nat) (moves : Prop) [Decidable moves] :
    Decidable (assembler.SeamKept lane full sub moves) :=
  inferInstanceAs (Decidable (_ ∧ _ ∧ _))

/-- A sub-buffer that forces nothing out carries no DISCONT and is of the packet's epoch. -/
theorem continues_of_stays {full : Nat} (hstays : ¬assembler.Flushes lane full sub)
    (hfilling : assembler.Filling lane) :
    sub.discont = false ∧ sub.epoch = (assembler.packet lane).epoch := by
  simp only [Flushes, SeamFlush, not_or, not_and, Bool.not_eq_true, not_not] at hstays
  exact hstays.2 hfilling

/-- What a flush leaves: the lane as it was, or without a packet and in a slot no other lane
fills. -/
def FlushedTo (assembler flushed : Assembler) (lane : Fin 4) (full : Nat) (sub : SubBuffer) :
    Prop :=
  (¬assembler.Flushes lane full sub ∧ flushed = assembler) ∨
    (flushed.adcBufSize lane = 0 ∧ Unowned flushed.owned lane (flushed.adcBuf lane))

/-- There is no seam after the flush and the append of a sub-buffer that keeps off the seams. -/
theorem Seamless.appendAfter {flushed : Assembler} {full : Nat} {moves : Prop}
    (h : flushed.Seamless before missing) (hkept : assembler.SeamKept lane full sub moves)
    (hflushed : FlushedTo assembler flushed lane full sub)
    (hstream : ∀ prev ∈ before lane, sub.Continues prev) (heven : sub.size % 2 = 0)
    (hsize : sub.size ≠ 0)
    (hsource : ∀ position < sub.size, source (offset + position) = sub.sample position) :
    (flushed.append lane sub source offset copied).Seamless
      (Function.update before lane (some sub))
      (Function.update missing lane
        (if flushed.adcBufSize lane = 0 then !copied else missing lane || !copied)) := by
  rcases hflushed with ⟨hstays, rfl⟩ | ⟨hempty, hunowned⟩
  · refine h.append (fun hidle => hkept.2.1 hidle hstays) (fun hfilling => ?_) hstream heven hsize
      hsource
    exact ⟨hkept.1 hfilling hstays, continues_of_stays hstays hfilling⟩
  · exact h.append (fun _ => hunowned) (fun hfilling => absurd hempty hfilling) hstream heven
      hsize hsource

end RfnmDriver.Rx.Assembler
