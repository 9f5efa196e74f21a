import RfnmDriver.Eth.TxIngest

/-!
# The receive loop against the stream

As long as no frame of 16-bit samples has got as far as the loop takes it to go, what is committed
and what is in hand are the stream, cut at the frame boundaries (`InStep`); from then on a frame is
lost. `ingest_exact_iff` puts the two together.
-/

namespace RfnmDriver.Eth

open StepSystem FrameStream

variable {layout : TxLayout} {ingest following : TxIngest} {frames earlier later : List (List Byte)}
  {frame rest bytes : List Byte} {n : Nat}

/-! ## Frame lengths -/

/-- A frame of packed samples is as long as the loop takes it to be. -/
theorem TxLayout.WellFormed.length_packed (hwf : layout.WellFormed frame)
    (hpacked : ¬ layout.Cs16 frame) : frame.length = layout.frameNeed (layout.head frame) := by
  rw [hwf.length, if_neg hpacked]
  rfl

/-- A frame of 16-bit samples is longer than the loop takes it to be. -/
theorem TxLayout.WellFormed.lt_length (hwf : layout.WellFormed frame)
    (hcs16 : layout.Cs16 frame) : layout.frameNeed (layout.head frame) < frame.length := by
  rw [hwf.length, if_pos hcs16, frameNeed]
  have hmulti : 0 < layout.multi (layout.head frame) := hwf.headOk.2.1
  have hpayload := Nat.mul_lt_mul_of_pos_left layout.packs hmulti
  omega

/-- The loop takes no frame to be longer than it is. -/
theorem TxLayout.WellFormed.frameNeed_le (hwf : layout.WellFormed frame) :
    layout.frameNeed (layout.head frame) ≤ frame.length := by
  by_cases hcs16 : layout.Cs16 frame
  · exact (hwf.lt_length hcs16).le
  · exact (hwf.length_packed hcs16).ge

/-- A frame has a payload. -/
theorem TxLayout.WellFormed.headSize_lt (hwf : layout.WellFormed frame) :
    layout.headSize < layout.frameNeed (layout.head frame) := by
  have hpayload := Nat.mul_pos (show 0 < layout.multi (layout.head frame) from hwf.headOk.2.1)
    layout.baseBufsize12_pos
  rw [frameNeed]
  omega

/-! ## Where received bytes go -/

/-- Without a slot they belong to the header. -/
theorem TxIngest.store_header (hslot : ingest.slot = none) (bytes : List Byte) :
    ingest.store bytes =
      { ingest with received := ingest.received ++ bytes, hdr := ingest.hdr ++ bytes } := by
  rw [store, hslot]

/-- With one they belong to the frame. -/
theorem TxIngest.store_more {slot : Nat} (hslot : ingest.slot = some slot)
    (hmore : (ingest.frame ++ bytes).length ≠ ingest.frameNeed) :
    ingest.store bytes =
      { ingest with
        received := ingest.received ++ bytes
        frame := ingest.frame ++ bytes } := by
  rw [store, hslot]
  exact if_neg hmore

/-- The last of them commit it. -/
theorem TxIngest.store_last {slot : Nat} (hslot : ingest.slot = some slot)
    (hlast : (ingest.frame ++ bytes).length = ingest.frameNeed) :
    ingest.store bytes =
      { ingest with
        received := ingest.received ++ bytes
        slot := none
        frame := []
        committed := ingest.committed ++ [ingest.frame ++ bytes]
        committedSlots := slot :: ingest.committedSlots } := by
  rw [store, hslot]
  exact if_pos hlast

/-- They are recorded, wherever they go. -/
theorem TxIngest.received_store (ingest : TxIngest) (bytes : List Byte) :
    (ingest.store bytes).received = ingest.received ++ bytes := by
  unfold store
  cases ingest.slot with
  | none => rfl
  | some slot =>
      dsimp only
      split <;> rfl

/-- They commit no fewer frames. -/
theorem TxIngest.committed_store (ingest : TxIngest) (bytes : List Byte) :
    ingest.committed <+: (ingest.store bytes).committed := by
  unfold store
  cases ingest.slot with
  | none => exact List.prefix_rfl
  | some slot =>
      dsimp only
      split
      · exact List.prefix_append _ _
      · exact List.prefix_rfl

/-! ## In step with the stream -/

/-- The bytes of the frame under way. -/
def TxIngest.underWay (ingest : TxIngest) : List Byte :=
  match ingest.slot with
  | none => ingest.hdr
  | some _ => ingest.frame

/-- The committed frames are the first frames of the stream, all of packed samples; the frame
under way has not got as far as the loop takes it to go. -/
structure InStep (layout : TxLayout) (frames : List (List Byte)) (ingest : TxIngest)
    (later : List (List Byte)) (rest : List Byte) : Prop where
  frames_eq : frames = ingest.committed ++ later
  received : ingest.received = ingest.committed.flatten ++ rest
  packed : ∀ frame ∈ ingest.committed, ¬ layout.Cs16 frame
  short : ∀ frame tail, later = frame :: tail →
    rest.length < layout.frameNeed (layout.head frame)
  underWay : ingest.connected = true → rest = ingest.underWay
  need : ∀ frame tail, later = frame :: tail → ingest.slot ≠ none →
    ingest.frameNeed = layout.frameNeed (layout.head frame)

/-- A frame of 16-bit samples was committed cut short. -/
def Lost (layout : TxLayout) (frames : List (List Byte)) (ingest : TxIngest) : Prop :=
  ∃ earlier frame later, frames = earlier ++ frame :: later ∧ layout.Cs16 frame ∧
    earlier ++ [frame.take (layout.frameNeed (layout.head frame))] <+: ingest.committed ∧
      earlier.flatten.length + layout.frameNeed (layout.head frame) ≤ ingest.received.length

/-- What is received behind the committed frames belongs to the next frame. -/
theorem InStep.rest_initial (h : InStep layout frames ingest (frame :: later) rest)
    (hwf : ∀ frame ∈ frames, layout.WellFormed frame)
    (hstream : ingest.received ++ bytes <+: frames.flatten)
    (hlength : (rest ++ bytes).length ≤ layout.frameNeed (layout.head frame)) :
    rest ++ bytes <+: frame := by
  have hframe : layout.WellFormed frame :=
    hwf frame (by rw [h.frames_eq]; exact List.mem_append_right _ List.mem_cons_self)
  rw [h.received, h.frames_eq, List.append_assoc] at hstream
  exact rest_initial_frame hstream (hlength.trans hframe.frameNeed_le)

/-- While the stream goes on, there is a frame under way. -/
theorem InStep.exists_frame (h : InStep layout frames ingest later rest)
    (hstream : ingest.received ++ bytes <+: frames.flatten) (hbytes : rest ++ bytes ≠ []) :
    ∃ frame tail, later = frame :: tail := by
  rw [h.received, h.frames_eq, List.append_assoc] at hstream
  have hrest := FrameStream.rest_initial hstream
  cases later with
  | nil => exact absurd (List.prefix_nil.mp hrest) hbytes
  | cons frame tail => exact ⟨frame, tail, rfl⟩

/-- In step, what is committed is what the stream has completed. -/
theorem InStep.committed_eq (h : InStep layout frames ingest later rest)
    (hwf : ∀ frame ∈ frames, layout.WellFormed frame) :
    ingest.committed = complete frames ingest.received.length := by
  have hlength : ingest.received.length = ingest.committed.flatten.length + rest.length := by
    rw [h.received, List.length_append]
  have hframes := h.frames_eq
  rw [hframes] at hwf ⊢
  refine (complete_of_split hlength ?_).symm
  intro frame tail hlater
  have hframe : layout.WellFormed frame := hwf frame (by simp [hlater])
  exact lt_of_lt_of_le (h.short frame tail hlater) hframe.frameNeed_le

/-- In step, no frame of 16-bit samples has got as far as the loop takes it to go. -/
theorem InStep.not_cutsShort (h : InStep layout frames ingest later rest)
    (hwf : ∀ frame ∈ frames, layout.WellFormed frame) :
    ¬ layout.CutsShort frames ingest.received.length := by
  intro hcut
  obtain ⟨earlier, frame, behind, hframes, hcs16, hle⟩ := hcut
  have hlength : ingest.received.length = ingest.committed.flatten.length + rest.length := by
    rw [h.received, List.length_append]
  have hsplit := h.frames_eq.symm.trans hframes
  obtain ⟨between, hmore⟩ | ⟨between, hmore⟩ := List.append_eq_append_iff.mp hsplit
  · -- the long frame is yet to come, so what was received ends before it
    obtain ⟨hearlier, hlater⟩ := hmore
    cases between with
    | nil =>
        have hshort := h.short frame behind hlater
        rw [List.append_nil] at hearlier
        rw [hearlier] at hle
        omega
    | cons next tail =>
        have hshort := h.short next _ hlater
        have hnext : layout.WellFormed next := hwf next (by rw [hframes, hearlier]; simp)
        have hneed := hnext.frameNeed_le
        have hflatten : earlier.flatten.length =
            ingest.committed.flatten.length + (next.length + tail.flatten.length) := by
          rw [hearlier]
          simp
        omega
  · -- the long frame is among the committed ones, which are all packed
    obtain ⟨hcommitted, hbetween⟩ := hmore
    cases between with
    | nil =>
        have hshort := h.short frame behind hbetween.symm
        rw [List.append_nil] at hcommitted
        rw [← hcommitted] at hle
        omega
    | cons next tail =>
        obtain ⟨rfl, -⟩ := List.cons.inj hbetween
        exact h.packed frame (by rw [hcommitted]; simp) hcs16

/-- A lost frame is committed in place of the one the stream has. -/
theorem Lost.committed_ne (h : Lost layout frames ingest)
    (hwf : ∀ frame ∈ frames, layout.WellFormed frame) :
    ingest.committed ≠ complete frames ingest.received.length := by
  intro heq
  obtain ⟨earlier, frame, later, hframes, hcs16, hpart, -⟩ := h
  have hframe : layout.WellFormed frame := hwf frame (by rw [hframes]; simp)
  have hlt := hframe.lt_length hcs16
  have hwhole : earlier ++ [frame.take (layout.frameNeed (layout.head frame))] <+: frames := by
    rw [heq] at hpart
    exact hpart.trans (complete_initial _ _)
  rw [hframes, List.prefix_append_right_inj] at hwhole
  have htake : frame.take (layout.frameNeed (layout.head frame)) = frame :=
    (List.cons_prefix_cons.mp hwhole).1
  have hlength := congrArg List.length htake
  rw [List.length_take] at hlength
  omega

/-- A frame is lost to the cut. -/
theorem Lost.cutsShort (h : Lost layout frames ingest) :
    layout.CutsShort frames ingest.received.length := by
  obtain ⟨earlier, frame, later, hframes, hcs16, -, hle⟩ := h
  exact ⟨earlier, frame, later, hframes, hcs16, hle⟩

/-- A lost frame stays lost while the connection lasts. -/
theorem Lost.grow (h : Lost layout frames ingest)
    (hcommitted : ingest.committed <+: following.committed)
    (hreceived : ingest.received <+: following.received) : Lost layout frames following := by
  obtain ⟨earlier, frame, later, hframes, hcs16, hpart, hle⟩ := h
  exact ⟨earlier, frame, later, hframes, hcs16, hpart.trans hcommitted,
    hle.trans hreceived.length_le⟩

/-- Every slot taken is committed, given back or in hand; nothing is in hand without a connection,
and with a slot in hand `hdr_have` is 0. -/
structure TxIngest.Accounted (ingest : TxIngest) : Prop where
  conserved : ingest.taken.Perm
    (ingest.slot.toList ++ (ingest.committedSlots ++ ingest.aborted))
  idle : ingest.connected = false → ingest.slot = none ∧ ingest.hdr = []
  copied : ingest.slot ≠ none → ingest.hdr = []

/-- The invariant of the receive loop. -/
structure TxIngest.Inv (layout : TxLayout) (frames : List (List Byte)) (ingest : TxIngest) :
    Prop where
  accounted : ingest.Accounted
  /-- While the stream is one of `frames`, the loop is in step with it or has lost a frame. -/
  tracks : ingest.received <+: frames.flatten →
    (∃ later rest, InStep layout frames ingest later rest) ∨ Lost layout frames ingest

/-! ## Steps -/

/-- A new connection starts at a frame boundary. -/
theorem InStep.start (hwf : ∀ frame ∈ frames, layout.WellFormed frame)
    (hreceived : ingest.received = []) (hcommitted : ingest.committed = [])
    (hslot : ingest.slot = none) (hhdr : ingest.hdr = []) :
    InStep layout frames ingest frames [] where
  frames_eq := by rw [hcommitted, List.nil_append]
  received := by rw [hreceived, hcommitted]; rfl
  packed := by rw [hcommitted]; exact fun _ hmem => absurd hmem List.not_mem_nil
  short := by
    intro frame tail hframes
    have hframe : layout.WellFormed frame := hwf frame (by rw [hframes]; exact List.mem_cons_self)
    have hlt := hframe.headSize_lt
    show 0 < layout.frameNeed (layout.head frame)
    omega
  underWay := by
    intro _
    rw [TxIngest.underWay, hslot, hhdr]
  need := fun _ _ _ hsome => absurd hslot hsome

/-- Bytes of a header keep the loop in step. -/
theorem InStep.store_header (h : InStep layout frames ingest later rest)
    (hwf : ∀ frame ∈ frames, layout.WellFormed frame) (hconnected : ingest.connected = true)
    (hslot : ingest.slot = none) (hwants : bytes.length ≤ ingest.wants layout) :
    InStep layout frames (ingest.store bytes) later (rest ++ bytes) := by
  have hrest : rest = ingest.hdr := by
    rw [h.underWay hconnected, TxIngest.underWay, hslot]
  rw [TxIngest.wants, hslot] at hwants
  rw [TxIngest.store_header hslot]
  refine ⟨h.frames_eq, ?_, h.packed, ?_, ?_, fun _ _ _ hsome => absurd hslot hsome⟩
  · show ingest.received ++ bytes = _
    rw [h.received, List.append_assoc]
  · intro frame tail hlater
    have hframe : layout.WellFormed frame := hwf frame (by simp [h.frames_eq, hlater])
    have hlt := hframe.headSize_lt
    have hshort := h.short frame tail hlater
    rw [List.length_append]
    change bytes.length ≤ layout.headSize - ingest.hdr.length at hwants
    rw [← hrest] at hwants
    omega
  · intro _
    show rest ++ bytes = TxIngest.underWay { ingest with hdr := ingest.hdr ++ bytes, .. }
    rw [TxIngest.underWay, hslot, hrest]

/-- Bytes of a payload keep the loop in step, unless with them a frame of 16-bit samples is
committed. -/
theorem InStep.store_payload {slot : Nat} (h : InStep layout frames ingest later rest)
    (hwf : ∀ frame ∈ frames, layout.WellFormed frame) (hconnected : ingest.connected = true)
    (hslot : ingest.slot = some slot) (hhdr : ingest.hdr = []) (hbytes : bytes ≠ [])
    (hwants : bytes.length ≤ ingest.wants layout)
    (hstream : ingest.received ++ bytes <+: frames.flatten) :
    (∃ later rest, InStep layout frames (ingest.store bytes) later rest) ∨
      Lost layout frames (ingest.store bytes) := by
  have hrest : rest = ingest.frame := by
    rw [h.underWay hconnected, TxIngest.underWay, hslot]
  obtain ⟨frame, tail, rfl⟩ := h.exists_frame hstream (by simp [hbytes])
  have hframe : layout.WellFormed frame := hwf frame (by simp [h.frames_eq])
  have hneed : ingest.frameNeed = layout.frameNeed (layout.head frame) :=
    h.need frame tail rfl (by rw [hslot]; exact Option.some_ne_none slot)
  have hshort := h.short frame tail rfl
  have hlength : (rest ++ bytes).length ≤ layout.frameNeed (layout.head frame) := by
    rw [TxIngest.wants, hslot] at hwants
    change bytes.length ≤ ingest.frameNeed - ingest.frame.length at hwants
    rw [← hrest, hneed] at hwants
    rw [List.length_append]
    omega
  have hpart := h.rest_initial hwf hstream hlength
  by_cases hlast : (ingest.frame ++ bytes).length = ingest.frameNeed
  · -- the frame is complete: it is committed, and the next header is due
    have htaken : ingest.frame ++ bytes =
        frame.take (layout.frameNeed (layout.head frame)) := by
      rw [← hneed, ← hlast, ← hrest]
      exact List.prefix_iff_eq_take.mp hpart
    rw [TxIngest.store_last hslot hlast]
    by_cases hcs16 : layout.Cs16 frame
    · -- a frame of 16-bit samples is longer than the engine waits for
      refine Or.inr ⟨ingest.committed, frame, tail, h.frames_eq, hcs16, ?_, ?_⟩
      · rw [htaken]
      · show _ ≤ (ingest.received ++ bytes).length
        rw [h.received, List.append_assoc, List.length_append, hrest, hlast, hneed]
    · have hwhole : ingest.frame ++ bytes = frame := by
        rw [htaken, ← hframe.length_packed hcs16, List.take_length]
      refine Or.inl ⟨tail, [], ?_, ?_, ?_, ?_, ?_, fun _ _ _ hsome => absurd rfl hsome⟩
      · rw [hwhole, h.frames_eq]
        simp
      · show ingest.received ++ bytes = _
        rw [hwhole, h.received, List.append_assoc, hrest, hwhole]
        simp
      · intro other hother
        rw [hwhole] at hother
        obtain hother | hother := List.mem_append.mp hother
        · exact h.packed other hother
        · rw [List.mem_singleton.mp hother]
          exact hcs16
      · intro next later hlater
        have hnext : layout.WellFormed next := hwf next (by simp [h.frames_eq, hlater])
        have hlt := hnext.headSize_lt
        show 0 < layout.frameNeed (layout.head next)
        omega
      · exact fun _ => hhdr.symm
  · -- the frame still lacks bytes
    rw [TxIngest.store_more hslot hlast]
    refine Or.inl ⟨frame :: tail, rest ++ bytes, h.frames_eq, ?_, h.packed, ?_, ?_, ?_⟩
    · show ingest.received ++ bytes = _
      rw [h.received, List.append_assoc]
    · intro other behind heq
      obtain ⟨rfl, rfl⟩ := List.cons.inj heq
      rw [← hrest, hneed] at hlast
      omega
    · intro _
      show rest ++ bytes = TxIngest.underWay { ingest with frame := ingest.frame ++ bytes, .. }
      rw [TxIngest.underWay, hslot, hrest]
    · intro other behind heq _
      obtain ⟨rfl, rfl⟩ := List.cons.inj heq
      exact hneed

/-- A whole header in `hdr_buf` is that of the frame under way. -/
theorem InStep.hdr_eq (h : InStep layout frames ingest later rest)
    (hwf : ∀ frame ∈ frames, layout.WellFormed frame) (hconnected : ingest.connected = true)
    (hslot : ingest.slot = none) (hwhole : ingest.hdr.length = layout.headSize)
    (hstream : ingest.received <+: frames.flatten) :
    ∃ frame tail, later = frame :: tail ∧ ingest.hdr = layout.head frame ∧
      layout.WellFormed frame := by
  have hrest : rest = ingest.hdr := by
    rw [h.underWay hconnected, TxIngest.underWay, hslot]
  have hmore : ingest.received ++ [] <+: frames.flatten := by
    rw [List.append_nil]
    exact hstream
  have hpos := layout.headSize_pos
  have hne : rest ++ [] ≠ [] := by
    rw [List.append_nil, hrest]
    intro hnil
    rw [hnil, List.length_nil] at hwhole
    omega
  obtain ⟨frame, tail, rfl⟩ := h.exists_frame hmore hne
  have hframe : layout.WellFormed frame := hwf frame (by simp [h.frames_eq])
  have hshort := h.short frame tail rfl
  have hpart := h.rest_initial hwf hmore (by rw [List.append_nil]; omega)
  rw [List.append_nil, hrest] at hpart
  refine ⟨frame, tail, rfl, ?_, hframe⟩
  rw [TxLayout.head, ← hwhole]
  exact List.prefix_iff_eq_take.mp hpart

/-- The header is found good; with a free slot its frame goes there. -/
theorem InStep.parse (h : InStep layout frames ingest later rest)
    (hwf : ∀ frame ∈ frames, layout.WellFormed frame) (hconnected : ingest.connected = true)
    (hslot : ingest.slot = none) (hwhole : ingest.hdr.length = layout.headSize)
    (hstream : ingest.received <+: frames.flatten) (free : Option Nat) :
    InStep layout frames (ingest.parse layout free) later rest := by
  obtain ⟨frame, tail, rfl, hhdr, hframe⟩ := h.hdr_eq hwf hconnected hslot hwhole hstream
  have hok : layout.headOk ingest.hdr := by
    rw [hhdr]
    exact hframe.headOk
  have hrest : rest = ingest.hdr := by
    rw [h.underWay hconnected, TxIngest.underWay, hslot]
  unfold TxIngest.parse
  rw [if_pos hok]
  cases free with
  | none => exact h
  | some slot =>
      refine ⟨h.frames_eq, h.received, h.packed, h.short, fun _ => hrest, ?_⟩
      intro other behind heq _
      obtain ⟨rfl, rfl⟩ := List.cons.inj heq
      show layout.frameNeed ingest.hdr = _
      rw [hhdr]

/-- The connection ends; what was committed stays committed. -/
theorem InStep.drop (h : InStep layout frames ingest later rest) :
    InStep layout frames ingest.drop later rest :=
  ⟨h.frames_eq, h.received, h.packed, h.short, fun hconnected => Bool.noConfusion hconnected,
    fun _ _ _ hsome => absurd rfl hsome⟩

/-- Looking at a header commits and receives nothing. -/
theorem TxIngest.parse_frame (layout : TxLayout) (ingest : TxIngest) (free : Option Nat) :
    (ingest.parse layout free).committed = ingest.committed ∧
      (ingest.parse layout free).received = ingest.received := by
  unfold parse
  split
  · cases free with
    | none => exact ⟨rfl, rfl⟩
    | some slot => exact ⟨rfl, rfl⟩
  · exact ⟨rfl, rfl⟩

/-- Receiving takes no slot. -/
theorem TxIngest.Accounted.store (h : ingest.Accounted) (hconnected : ingest.connected = true)
    (bytes : List Byte) : (ingest.store bytes).Accounted := by
  have hno : ¬ ingest.connected = false := by
    rw [hconnected]
    exact Bool.noConfusion
  cases hslot : ingest.slot with
  | none =>
      rw [store_header hslot]
      exact ⟨h.conserved, fun hlost => absurd hlost hno, fun hsome => absurd hslot hsome⟩
  | some slot =>
      have hcopied : ingest.hdr = [] := h.copied (by rw [hslot]; exact Option.some_ne_none slot)
      by_cases hlast : (ingest.frame ++ bytes).length = ingest.frameNeed
      · rw [store_last hslot hlast]
        have hconserved := h.conserved
        rw [hslot] at hconserved
        exact ⟨hconserved, fun hlost => absurd hlost hno, fun hsome => absurd rfl hsome⟩
      · rw [store_more hslot hlast]
        exact ⟨h.conserved, fun hlost => absurd hlost hno, fun _ => hcopied⟩

/-- A slot is taken for a good header. -/
theorem TxIngest.Accounted.parse (h : ingest.Accounted) (hconnected : ingest.connected = true)
    (hslot : ingest.slot = none) (free : Option Nat) :
    (ingest.parse layout free).Accounted := by
  have hno : ¬ ingest.connected = false := by
    rw [hconnected]
    exact Bool.noConfusion
  unfold TxIngest.parse
  split
  · cases free with
    | none => exact h
    | some slot =>
        have hconserved := h.conserved
        rw [hslot] at hconserved
        exact ⟨hconserved.cons slot, fun hlost => absurd hlost hno, fun _ => rfl⟩
  · exact ⟨h.conserved, fun hlost => absurd hlost hno, fun _ => rfl⟩

/-- The slot in hand is given back when the connection ends. -/
theorem TxIngest.Accounted.drop (h : ingest.Accounted) : ingest.drop.Accounted := by
  refine ⟨?_, fun _ => ⟨rfl, rfl⟩, fun hsome => absurd rfl hsome⟩
  show ingest.taken.Perm (ingest.committedSlots ++ (ingest.slot.toList ++ ingest.aborted))
  refine h.conserved.trans ?_
  rw [← List.append_assoc, ← List.append_assoc]
  exact List.perm_append_comm.append_right _

/-- Receiving keeps the invariant. -/
theorem TxIngest.Inv.store (h : ingest.Inv layout frames)
    (hwf : ∀ frame ∈ frames, layout.WellFormed frame) (hconnected : ingest.connected = true)
    (hbytes : bytes ≠ []) (hwants : bytes.length ≤ ingest.wants layout) :
    (ingest.store bytes).Inv layout frames := by
  refine ⟨h.accounted.store hconnected bytes, ?_⟩
  intro hstream
  rw [received_store] at hstream
  obtain ⟨later, rest, hstep⟩ | hlost := h.tracks ((List.prefix_append _ _).trans hstream)
  · cases hslot : ingest.slot with
    | none => exact Or.inl ⟨later, _, hstep.store_header hwf hconnected hslot hwants⟩
    | some slot =>
        have hhdr := h.accounted.copied (by rw [hslot]; exact Option.some_ne_none slot)
        exact hstep.store_payload hwf hconnected hslot hhdr hbytes hwants hstream
  · refine Or.inr (hlost.grow (ingest.committed_store bytes) ?_)
    rw [received_store]
    exact List.prefix_append _ _

/-- Looking at a header keeps the invariant. -/
theorem TxIngest.Inv.parse (h : ingest.Inv layout frames)
    (hwf : ∀ frame ∈ frames, layout.WellFormed frame) (hconnected : ingest.connected = true)
    (hslot : ingest.slot = none) (hwhole : ingest.hdr.length = layout.headSize)
    (free : Option Nat) : (ingest.parse layout free).Inv layout frames := by
  refine ⟨h.accounted.parse hconnected hslot free, ?_⟩
  obtain ⟨hcommitted, hreceived⟩ := ingest.parse_frame layout free
  intro hstream
  rw [hreceived] at hstream
  obtain ⟨later, rest, hstep⟩ | hlost := h.tracks hstream
  · exact Or.inl ⟨later, rest, hstep.parse hwf hconnected hslot hwhole hstream free⟩
  · refine Or.inr (hlost.grow ?_ ?_)
    · rw [hcommitted]
    · rw [hreceived]

/-- Every step of the loop keeps the invariant. -/
theorem TxIngest.Inv.next (h : ingest.Inv layout frames)
    (hwf : ∀ frame ∈ frames, layout.WellFormed frame) {event : IngestEvent}
    (hnext : ingest.next layout event = some following) : following.Inv layout frames := by
  cases event with
  | connect =>
      obtain ⟨hdown, hsome⟩ := Option.ite_none_left_eq_some.mp hnext
      obtain rfl := Option.some.inj hsome
      obtain ⟨hslot, hhdr⟩ := h.accounted.idle (eq_false_of_ne_true hdown)
      refine ⟨⟨h.accounted.conserved, fun hlost => Bool.noConfusion hlost, h.accounted.copied⟩,
        fun _ => Or.inl ⟨frames, [], InStep.start hwf rfl rfl hslot hhdr⟩⟩
  | recv bytes =>
      obtain ⟨⟨hconnected, hbytes, hwants⟩, rfl⟩ := of_guard hnext
      exact h.store hwf hconnected hbytes hwants
  | wouldBlock =>
      obtain ⟨-, rfl⟩ := of_guard hnext
      exact h
  | header free =>
      obtain ⟨⟨hconnected, hslot, hwhole⟩, rfl⟩ := of_guard hnext
      exact h.parse hwf hconnected hslot hwhole free
  | closed =>
      obtain ⟨-, rfl⟩ := of_guard hnext
      refine ⟨h.accounted.drop, fun hstream => ?_⟩
      obtain ⟨later, rest, hstep⟩ | hlost := h.tracks hstream
      · exact Or.inl ⟨later, rest, hstep.drop⟩
      · exact Or.inr hlost

/-- A worker that starts is in step with any stream. -/
theorem TxIngest.Inv.init (hwf : ∀ frame ∈ frames, layout.WellFormed frame) :
    TxIngest.init.Inv layout frames :=
  ⟨⟨List.Perm.nil, fun _ => ⟨rfl, rfl⟩, fun _ => rfl⟩,
    fun _ => Or.inl ⟨frames, [], InStep.start hwf rfl rfl rfl rfl⟩⟩

/-- The loop's account of a stream of frames is exact as long as no frame of 16-bit samples has got
as far as the loop takes it to go, and never after. -/
theorem ingest_exact_iff (hwf : ∀ frame ∈ frames, layout.WellFormed frame)
    {events : List IngestEvent} (hrun : run (TxIngest.next layout) .init events = some ingest)
    (hstream : ingest.received <+: frames.flatten) :
    ingest.Exact frames ↔ ¬ layout.CutsShort frames ingest.received.length := by
  have hinv : ingest.Inv layout frames :=
    (always_of_inductive (fun _ _ _ hinv hnext => hinv.next hwf hnext)
      (TxIngest.Inv.init hwf)).final hrun
  obtain ⟨later, rest, hstep⟩ | hlost := hinv.tracks hstream
  · have hexact : ingest.Exact frames :=
      ⟨hstep.committed_eq hwf, hinv.accounted.conserved, fun hdown => (hinv.accounted.idle hdown).1⟩
    exact iff_of_true hexact (hstep.not_cutsShort hwf)
  · have hinexact : ¬ ingest.Exact frames := fun hexact =>
      hlost.committed_ne hwf hexact.committed
    exact iff_of_false hinexact (not_not_intro hlost.cutsShort)

/-- A header of two bytes, `multi` and `fmt`, and slots of two bytes, or of one packed. -/
def sampleLayout : TxLayout where
  headSize := 2
  magic := fun _ => txMagic
  multi := fun hdr => (hdr.headD 0).toNat
  fmt := fun hdr => (hdr.getLastD 0).toNat
  fmtCs16 := 2
  baseBufsize := 2
  baseBufsize12 := 1
  multiMax := 4
  headSize_pos := Nat.two_pos
  baseBufsize12_pos := Nat.one_pos
  packs := by decide

/-- A header arrives in two pieces and waits for a slot; the connection ends within the second
frame. -/
def splitHeader : List IngestEvent :=
  [.connect, .recv [1], .wouldBlock, .recv [0], .header none, .header (some 5), .recv [7],
    .recv [2, 0], .header (some 6), .recv [8], .closed]

/-- The first frame is committed, and the slot of the second one returned. -/
theorem ingest_exact_iff_split_header : ∃ ingest : TxIngest,
    run (TxIngest.next sampleLayout) .init splitHeader = some ingest ∧
      ingest.committed = [[1, 0, 7]] ∧ ingest.aborted = [6] ∧
      ingest.Exact [[1, 0, 7], [2, 0, 8, 9]] := by
  have hwf : ∀ frame ∈ [[1, 0, 7], [2, 0, 8, 9]], sampleLayout.WellFormed frame := by
    intro frame hmem
    obtain rfl | rfl := List.mem_pair.mp hmem
    · exact ⟨by decide, by decide⟩
    · exact ⟨by decide, by decide⟩
  have hrun : run (TxIngest.next sampleLayout) .init splitHeader = some _ := rfl
  refine ⟨_, hrun, rfl, rfl, (ingest_exact_iff hwf hrun ?_).mpr ?_⟩
  · exact ⟨[9], rfl⟩
  · intro hcut
    obtain ⟨earlier, frame, later, hframes, hcs16, -⟩ := hcut
    have hmem : frame ∈ [[1, 0, 7], [2, 0, 8, 9]] := by
      rw [hframes]
      simp
    obtain rfl | rfl := List.mem_pair.mp hmem
    · exact absurd hcs16 (by decide)
    · exact absurd hcs16 (by decide)

/-- A frame of 16-bit samples is committed without its last byte, and the frame behind it is
lost with the framing. -/
theorem cs16_frame_cut_short : ∃ ingest : TxIngest,
    (∀ frame ∈ [[1, 2, 7, 8], [1, 0, 9]], sampleLayout.WellFormed frame) ∧
    run (TxIngest.next sampleLayout) .init
      [.connect, .recv [1, 2], .header (some 5), .recv [7], .recv [8, 1], .header (some 6),
        .recv [0, 9], .header (some 6)] = some ingest ∧
      ingest.received = [[1, 2, 7, 8], [1, 0, 9]].flatten ∧ ingest.committed = [[1, 2, 7]] ∧
      ¬ ingest.Exact [[1, 2, 7, 8], [1, 0, 9]] := by
  refine ⟨_, ?_, rfl, rfl, rfl, ?_⟩
  · intro frame hmem
    obtain rfl | rfl := List.mem_pair.mp hmem
    · exact ⟨by decide, by decide⟩
    · exact ⟨by decide, by decide⟩
  · intro hexact
    exact absurd hexact.committed (by decide)

end RfnmDriver.Eth
