import RfnmDriver.Eth.RxSend

/-!
# The bytes on the wire against the records

What the socket has accepted, with what is left of the batch it is taking, is a list of whole
records (`Inv.pending`). A call that fails within a record breaks this, and the next batch is taken
where the record was cut: `framed_iff_startsRecord`.
-/

namespace RfnmDriver.Eth

open StepSystem

variable {layout : RxLayout} {worker following : SendWorker} {slot : RxSlot}
  {octets record accepted : List Octet} {records : List (List Octet)} {batch : List Iov}
  {octet : Octet}

/-! ## Records -/

/-- A record is as long as `iov_len` says. -/
theorem RxLayout.length_record (layout : RxLayout) (slot : RxSlot) :
    (layout.record slot).length = layout.iovLen slot := by
  rw [record, List.length_map, List.length_range]

/-- A record has a head. -/
theorem RxLayout.iovLen_pos (layout : RxLayout) (slot : RxSlot) : 0 < layout.iovLen slot := by
  have hhead := layout.headSize_pos
  unfold iovLen
  omega

/-- The bytes of a record, by position. -/
theorem RxLayout.getElem_record {index : Nat} (h : index < (layout.record slot).length) :
    (layout.record slot)[index].offset = index ∧
      (layout.record slot)[index].left = layout.iovLen slot - 1 - index ∧
      (layout.record slot)[index].handle = slot.handle := by
  simp [record]

/-- A record is not empty. -/
theorem RxLayout.IsRecord.ne_nil (h : layout.IsRecord record) : record ≠ [] := by
  obtain ⟨slot, -, rfl⟩ := h
  have hpos := layout.iovLen_pos slot
  have hlength := layout.length_record slot
  intro hnil
  rw [hnil, List.length_nil] at hlength
  omega

/-- A record starts with its first byte. -/
theorem RxLayout.IsRecord.head_offset (h : layout.IsRecord record)
    (hoctet : octet ∈ record.head?) : octet.offset = 0 := by
  obtain ⟨slot, -, rfl⟩ := h
  rw [List.head?_eq_getElem?] at hoctet
  obtain ⟨hlt, rfl⟩ := List.getElem?_eq_some_iff.mp hoctet
  exact (RxLayout.getElem_record hlt).1

/-- A record ends with its last byte. -/
theorem RxLayout.IsRecord.last_left (h : layout.IsRecord record)
    (hoctet : octet ∈ record.getLast?) : octet.left = 0 := by
  obtain ⟨slot, -, rfl⟩ := h
  rw [List.getLast?_eq_getElem?] at hoctet
  obtain ⟨hlt, rfl⟩ := List.getElem?_eq_some_iff.mp hoctet
  rw [(RxLayout.getElem_record hlt).2.1, layout.length_record]
  omega

/-- The start of a record ends in its last byte only if it is all of it. -/
theorem RxLayout.IsRecord.eq_of_initial (h : layout.IsRecord record) (hpart : octets <+: record)
    (hoctet : octet ∈ octets.getLast?) (hlast : octet.left = 0) : octets = record := by
  obtain ⟨slot, -, rfl⟩ := h
  have hlength := layout.length_record slot
  have hle := hpart.length_le
  rw [List.getLast?_eq_getElem?] at hoctet
  obtain ⟨hlt, hget⟩ := List.getElem?_eq_some_iff.mp hoctet
  have hindex : octets.length - 1 < (layout.record slot).length := by omega
  have hleft := (RxLayout.getElem_record hindex).2.1
  rw [← hpart.getElem hlt, hget, hlast] at hleft
  exact hpart.eq_of_length (by omega)

/-- Within a record each byte follows the one before. -/
theorem RxLayout.IsRecord.isChain (h : layout.IsRecord record) :
    record.IsChain fun octet following => following.Follows octet := by
  obtain ⟨slot, -, rfl⟩ := h
  rw [List.isChain_iff_getElem]
  intro index hindex
  have hlength := layout.length_record slot
  have hprev : index < (layout.record slot).length := Nat.lt_of_succ_lt hindex
  obtain ⟨hoffset, hleft, hhandle⟩ := RxLayout.getElem_record hprev
  obtain ⟨hoffset', -, hhandle'⟩ := RxLayout.getElem_record hindex
  unfold Octet.Follows
  rw [if_neg (by omega), hoffset, hoffset', hhandle, hhandle']
  exact ⟨rfl, rfl⟩

/-- In a list of whole records each byte follows the one before. -/
theorem isChain_records (hrecords : ∀ record ∈ records, layout.IsRecord record) :
    records.flatten.IsChain fun octet following => following.Follows octet := by
  have hne : [] ∉ records := fun hmem => (hrecords [] hmem).ne_nil rfl
  rw [List.isChain_flatten hne]
  refine ⟨fun record hmem => (hrecords record hmem).isChain, ?_⟩
  refine List.Pairwise.isChain (List.pairwise_of_forall_mem_list ?_)
  intro first hfirst second hsecond octet hoctet following hfollowing
  show ite _ _ _
  rw [if_pos ((hrecords first hfirst).last_left hoctet)]
  exact (hrecords second hsecond).head_offset hfollowing

/-- The start of a list of whole records that ends in the last byte of one is a list of whole
records. -/
theorem exists_whole (hrecords : ∀ record ∈ records, layout.IsRecord record)
    (hpart : accepted <+: records.flatten)
    (hlast : ∀ octet ∈ accepted.getLast?, octet.left = 0) :
    ∃ whole : List (List Octet), (∀ record ∈ whole, layout.IsRecord record) ∧
      accepted = whole.flatten := by
  induction records generalizing accepted with
  | nil => exact ⟨[], hrecords, List.prefix_nil.mp hpart⟩
  | cons record later ih =>
      have hrecord := hrecords record List.mem_cons_self
      have hlater : ∀ other ∈ later, layout.IsRecord other := fun other hother =>
        hrecords other (List.mem_cons_of_mem record hother)
      rw [List.flatten_cons] at hpart
      obtain hshort | hlong :=
        List.prefix_or_prefix_of_prefix hpart (List.prefix_append record later.flatten)
      · cases hend : accepted.getLast? with
        | none => exact ⟨[], by simp, List.getLast?_eq_none_iff.mp hend⟩
        | some octet =>
            have heq := hrecord.eq_of_initial hshort hend (hlast octet hend)
            exact ⟨[record], by simpa using hrecord, by simp [heq]⟩
      · obtain ⟨rest, rfl⟩ := hlong
        have hrest : rest <+: later.flatten := (List.prefix_append_right_inj record).mp hpart
        have hrestLast : ∀ octet ∈ rest.getLast?, octet.left = 0 := by
          intro octet hoctet
          exact hlast octet (by simp [Option.mem_def.mp hoctet])
        obtain ⟨whole, hwhole, rfl⟩ := ih hlater hrest hrestLast
        exact ⟨record :: whole, List.forall_mem_cons.mpr ⟨hrecord, hwhole⟩, rfl⟩

/-! ## Batches -/

/-- What is offered to the socket is the batch without what it has taken. -/
theorem flatten_kvecs (batch : List Iov) (skip : Nat) :
    (kvecs batch skip).flatten = (batchOctets batch).drop skip := by
  induction batch generalizing skip with
  | nil => simp [kvecs, batchOctets]
  | cons iov rest ih =>
      have hcons : batchOctets (iov :: rest) = iov.octets ++ batchOctets rest := rfl
      rw [hcons, List.drop_append]
      unfold kvecs
      split
      next hskip =>
        rw [ih, List.drop_eq_nil_of_le hskip, List.nil_append]
      next hskip =>
        have hzero : skip - iov.octets.length = 0 := by omega
        rw [List.flatten_cons, ih, hzero]

/-- A batch starts with the first byte of a record. -/
theorem head_batchOctets (hrecords : ∀ iov ∈ batch, layout.IsRecord iov.octets)
    (hoctet : octet ∈ (batchOctets batch).head?) : octet.offset = 0 := by
  cases batch with
  | nil => exact absurd hoctet (Option.not_mem_none octet)
  | cons iov rest =>
      have hrecord := hrecords iov List.mem_cons_self
      change octet ∈ (iov.octets ++ batchOctets rest).head? at hoctet
      rw [List.head?_append_of_ne_nil _ hrecord.ne_nil] at hoctet
      exact hrecord.head_offset hoctet

/-- The invariant of runs in which a batch starts where a record has ended. -/
structure SendWorker.Inv (layout : RxLayout) (worker : SendWorker) : Prop where
  framed : worker.Framed layout
  records : ∀ iov ∈ worker.phase.batch, layout.IsRecord iov.octets
  short : ∀ batch sent, worker.phase = .send batch sent → sent < (batchOctets batch).length
  /-- What the socket has taken and what is left of the batch are whole records. -/
  pending : ∀ batch sent, worker.phase = .send batch sent → 0 < sent →
    ∃ whole : List (List Octet), (∀ record ∈ whole, layout.IsRecord record) ∧
      worker.accepted ++ (batchOctets batch).drop sent = whole.flatten

/-- The start of a list of whole records is framed. -/
theorem SendWorker.Framed.of_initial (hrecords : ∀ record ∈ records, layout.IsRecord record)
    (hpart : worker.accepted <+: records.flatten) : worker.Framed layout :=
  ⟨⟨records, hrecords, hpart⟩, List.IsChain.prefix (isChain_records hrecords) hpart⟩

/-- Before the socket has taken anything, nothing breaks the framing. -/
theorem SendWorker.Framed.of_nil (h : worker.accepted = []) : worker.Framed layout := by
  refine .of_initial (List.forall_mem_nil _) ?_
  rw [h]
  exact List.nil_prefix

/-- The framing is that of the bytes the socket has accepted. -/
theorem SendWorker.Framed.congr (h : worker.Framed layout)
    (heq : following.accepted = worker.accepted) : following.Framed layout := by
  obtain ⟨records, hrecords, hpart⟩ := h.records
  refine .of_initial hrecords ?_
  rw [heq]
  exact hpart

/-- Where a batch starts at the end of a record, it and what the socket has taken are whole
records. -/
theorem SendWorker.Inv.whole (h : worker.Inv layout) {sent : Nat}
    (hphase : worker.phase = .send batch sent)
    (hstart : sent = 0 → ∀ octet ∈ worker.accepted.getLast?, octet.left = 0) :
    ∃ whole : List (List Octet), (∀ record ∈ whole, layout.IsRecord record) ∧
      worker.accepted ++ (batchOctets batch).drop sent = whole.flatten := by
  obtain rfl | hpos := Nat.eq_zero_or_pos sent
  · obtain ⟨records, hrecords, hpart⟩ := h.framed.records
    obtain ⟨whole, hwhole, heq⟩ := exists_whole hrecords hpart (hstart rfl)
    refine ⟨whole ++ batch.map Iov.octets, ?_, ?_⟩
    · intro record hmem
      obtain hold | hnew := List.mem_append.mp hmem
      · exact hwhole record hold
      · obtain ⟨iov, hiov, rfl⟩ := List.mem_map.mp hnew
        exact h.records iov (by rw [hphase]; exact hiov)
    · rw [heq, List.drop_zero, List.flatten_append]
      rfl
  · exact h.pending batch sent hphase hpos

/-- A worker with nothing in hand need only keep the framing. -/
theorem SendWorker.Inv.idle (hframed : worker.Framed layout)
    (hphase : worker.phase = .top ∨ worker.phase = .gather []) : worker.Inv layout := by
  refine ⟨hframed, ?_, ?_, ?_⟩
  · intro iov hiov
    obtain hphase | hphase := hphase <;> rw [hphase] at hiov <;>
      exact absurd hiov List.not_mem_nil
  · intro batch sent hsend
    obtain hphase | hphase := hphase <;> rw [hphase] at hsend <;> cases hsend
  · intro batch sent hsend
    obtain hphase | hphase := hphase <;> rw [hphase] at hsend <;> cases hsend

/-- The socket takes more of the batch. -/
theorem SendWorker.Inv.took (h : worker.Inv layout) {sent count : Nat}
    (hphase : worker.phase = .send batch sent)
    (hstart : sent = 0 → ∀ octet ∈ worker.accepted.getLast?, octet.left = 0) :
    (worker.took batch sent count).Inv layout := by
  obtain ⟨whole, hwhole, heq⟩ := h.whole hphase hstart
  have hmore : worker.accepted ++ ((batchOctets batch).drop sent).take count ++
      (batchOctets batch).drop (sent + count) = whole.flatten := by
    rw [List.append_assoc, ← List.drop_drop, List.take_append_drop, heq]
  have hpart : worker.accepted ++ ((batchOctets batch).drop sent).take count <+:
      whole.flatten := ⟨_, hmore⟩
  have hrecords := h.records
  rw [hphase] at hrecords
  unfold SendWorker.took
  rw [flatten_kvecs]
  dsimp only
  split
  next hshort =>
    refine ⟨.of_initial hwhole hpart, hrecords, ?_, ?_⟩
    · intro other place hsend
      cases hsend
      exact hshort
    · intro other place hsend _
      cases hsend
      exact ⟨whole, hwhole, hmore⟩
  next =>
    refine .idle (.of_initial hwhole hpart) ?_
    show ite _ _ _ = _ ∨ ite _ _ _ = _
    split
    · exact Or.inr rfl
    · exact Or.inl rfl

/-- A full batch goes to the socket. -/
theorem SendWorker.Inv.close (hframed : worker.Framed layout)
    (hrecords : ∀ iov ∈ batch, layout.IsRecord iov.octets) :
    (worker.close batch).Inv layout := by
  unfold SendWorker.close
  split
  next hempty => exact .idle (hframed.congr rfl) (Or.inl rfl)
  next hnonempty =>
    refine ⟨hframed.congr rfl, hrecords, ?_, ?_⟩
    · intro other sent hsend
      cases hsend
      obtain ⟨iov, rest, rfl⟩ := List.exists_cons_of_ne_nil hnonempty
      have hne := (hrecords iov List.mem_cons_self).ne_nil
      have hpos := List.length_pos_of_ne_nil hne
      show 0 < (iov.octets ++ batchOctets rest).length
      rw [List.length_append]
      omega
    · intro other sent hsend hpos
      cases hsend
      exact absurd hpos (Nat.lt_irrefl 0)

/-- A batch being filled need only keep the framing. -/
theorem SendWorker.Inv.filling (hframed : worker.Framed layout)
    (hrecords : ∀ iov ∈ batch, layout.IsRecord iov.octets)
    (hphase : worker.phase = .gather batch) : worker.Inv layout := by
  refine ⟨hframed, ?_, ?_, ?_⟩
  · rw [hphase]
    exact hrecords
  · intro other sent hsend
    rw [hphase] at hsend
    cases hsend
  · intro other sent hsend
    rw [hphase] at hsend
    cases hsend

/-- A packet is dequeued. -/
theorem SendWorker.Inv.gather (hframed : worker.Framed layout)
    (hrecords : ∀ iov ∈ batch, layout.IsRecord iov.octets) (slot : RxSlot) :
    (worker.gather layout batch slot).Inv layout := by
  unfold SendWorker.gather
  dsimp only
  split
  next hok =>
    have hmore : ∀ iov ∈ batch ++ [{ handle := slot.handle, octets := layout.record slot }],
        layout.IsRecord iov.octets := by
      intro iov hiov
      obtain hold | hnew := List.mem_append.mp hiov
      · exact hrecords iov hold
      · rw [List.mem_singleton.mp hnew]
        exact ⟨slot, hok, rfl⟩
    split
    · exact .close (hframed.congr rfl) hmore
    · exact .filling (hframed.congr rfl) hmore rfl
  next => exact .filling (hframed.congr rfl) hrecords rfl

/-- The first bytes of a batch follow what the socket has taken only where a record has ended. -/
theorem SendWorker.Inv.startsRecord_of_took (h : worker.Inv layout) {count : Nat}
    (hphase : worker.phase = .send batch 0) (hcount : 0 < count)
    (hframed : (worker.took batch 0 count).Framed layout) :
    ∀ octet ∈ worker.accepted.getLast?, octet.left = 0 := by
  intro octet hoctet
  have hshort := h.short batch 0 hphase
  have hrecords : ∀ iov ∈ batch, layout.IsRecord iov.octets := by
    have hinHand := h.records
    rw [hphase] at hinHand
    exact hinHand
  have hchain := hframed.resumes
  have haccepted : (worker.took batch 0 count).accepted =
      worker.accepted ++ (batchOctets batch).take count := by
    unfold SendWorker.took
    rw [flatten_kvecs, List.drop_zero]
    dsimp only
    split <;> rfl
  rw [haccepted, List.isChain_append] at hchain
  obtain ⟨first, rest, hbatch⟩ := List.exists_cons_of_length_pos hshort
  have hhead : first ∈ ((batchOctets batch).take count).head? := by
    obtain ⟨fewer, rfl⟩ := Nat.exists_eq_succ_of_ne_zero hcount.ne'
    rw [hbatch, List.take_succ_cons]
    rfl
  have hfollows := hchain.2.2 octet hoctet first hhead
  have hoffset : first.offset = 0 := head_batchOctets hrecords (by rw [hbatch]; rfl)
  by_contra hcut
  rw [Octet.Follows, if_neg hcut] at hfollows
  omega

/-! ## Runs -/

/-- Looking at the connection keeps what was accepted on it. -/
theorem SendWorker.Inv.track (h : worker.Inv layout) (conn : Option Nat)
    (hnext : worker.next layout (.track conn) = some following) : following.Inv layout := by
  obtain ⟨-, rfl⟩ := of_guard hnext
  refine .idle ?_ ?_
  · by_cases hsame : conn = worker.sock
    · exact h.framed.congr (if_pos hsame)
    · exact .of_nil (if_neg hsame)
  · show ite _ _ _ = _ ∨ ite _ _ _ = _
    split
    · exact Or.inl rfl
    · exact Or.inr rfl

/-- What a send call does, by its result. -/
theorem SendWorker.next_sendmsg {ret : Int}
    (hnext : worker.next layout (.sendmsg ret) = some following) :
    ∃ batch sent, worker.phase = .send batch sent ∧
      ((ret ≤ 0 ∧ following = { worker.release batch with phase := .top }) ∨
        (0 < ret ∧ following = worker.took batch sent ret.toNat)) := by
  unfold next at hnext
  cases hphase : worker.phase with
  | top => simp [hphase] at hnext
  | gather batch => simp [hphase] at hnext
  | send batch sent =>
      simp only [hphase] at hnext
      refine ⟨batch, sent, rfl, ?_⟩
      split at hnext
      next hfailed => exact Or.inl ⟨hfailed, (Option.some.inj hnext).symm⟩
      next htaken =>
        obtain ⟨-, hsome⟩ := Option.ite_none_right_eq_some.mp hnext
        exact Or.inr ⟨by omega, (Option.some.inj hsome).symm⟩

/-- A step that starts no batch within a record keeps the invariant. -/
theorem SendWorker.Inv.next (h : worker.Inv layout) {event : SendEvent}
    (hstart : worker.StartsRecord event)
    (hnext : worker.next layout event = some following) : following.Inv layout := by
  cases event with
  | track conn => exact h.track conn hnext
  | dequeue slot =>
      unfold SendWorker.next at hnext
      have hrecords := h.records
      cases hphase : worker.phase with
      | top => simp [hphase] at hnext
      | send batch sent => simp [hphase] at hnext
      | gather batch =>
          rw [hphase] at hrecords
          simp only [hphase] at hnext
          cases slot with
          | none =>
              obtain rfl := Option.some.inj hnext
              exact .close h.framed hrecords
          | some slot =>
              obtain rfl := Option.some.inj hnext
              exact .gather h.framed hrecords slot
  | sendmsg ret =>
      obtain ⟨batch, sent, hphase, ⟨-, rfl⟩ | ⟨hpos, rfl⟩⟩ := SendWorker.next_sendmsg hnext
      · exact .idle (h.framed.congr rfl) (Or.inl rfl)
      · refine h.took hphase ?_
        intro hzero
        rw [hzero] at hphase
        exact hstart ret batch rfl hpos hphase

/-- What a worker that has sent nothing has sent is framed. -/
theorem SendWorker.Inv.init : SendWorker.init.Inv layout :=
  .idle (.of_nil rfl) (Or.inl rfl)

/-- What a connection's socket has accepted stays framed throughout a run exactly when the socket
never accepts the first bytes of a batch on a connection where a record was cut. -/
theorem framed_iff_startsRecord {events : List SendEvent} :
    Always (SendWorker.next layout) (SendWorker.Framed layout) .init events ↔
      Guarded (SendWorker.next layout) SendWorker.StartsRecord .init events := by
  have hinit : SendWorker.init.Inv layout := .init
  refine always_iff_everyStep ?_ ?_ ?_ hinit
  · exact fun _ _ _ hinv hstart hnext => hinv.next hstart hnext
  · exact fun _ hinv => hinv.framed
  · intro worker event following hinv hnext hframed ret batch hevent hpos hphase
    subst hevent
    obtain ⟨other, sent, hother, ⟨hfailed, -⟩ | ⟨-, rfl⟩⟩ := SendWorker.next_sendmsg hnext
    · omega
    · obtain ⟨rfl, rfl⟩ := SendPhase.send.inj (hphase.symm.trans hother)
      exact hinv.startsRecord_of_took hphase (by omega) hframed

/-- Records with a head of one byte. -/
def sampleRx : RxLayout where
  headSize := 1
  fmtPacked12 := 0
  fmtCs16 := 2
  elemCntMax := 80
  headSize_pos := Nat.one_pos

/-- Packets of one packed element each. -/
def samplePacket (handle : Nat) : RxSlot where
  handle := handle
  fmt := 0
  elemCnt := 1
  pkt := fun _ => 0

/-- The socket takes half of a record, and fails; the next record is offered to the same
connection, and is taken. -/
theorem cut_record_desynchronises : ¬ Always (SendWorker.next sampleRx)
    (SendWorker.Framed sampleRx) .init
      [.track (some 0), .dequeue (some (samplePacket 0)), .dequeue none, .sendmsg 2,
        .sendmsg (-11), .track (some 0), .dequeue (some (samplePacket 1)), .dequeue none,
        .sendmsg 4] := by
  intro halways
  have hframed := halways.final rfl
  exact absurd hframed.resumes (by decide)

/-! ## Handles -/

/-- Every handle dequeued is in the batch or back in the pool, and there once. -/
def SendWorker.HandlesKept (worker : SendWorker) : Prop :=
  worker.dequeued.Perm (batchHandles worker.phase.batch ++ worker.released)

/-- A batch that is closed keeps its handles. -/
theorem SendWorker.HandlesKept.close
    (h : worker.dequeued.Perm (batchHandles batch ++ worker.released)) :
    (worker.close batch).HandlesKept := by
  unfold SendWorker.close
  split
  next hempty =>
    rw [hempty] at h
    exact h
  next => exact h

/-- A handle that is dequeued goes into the batch, or straight back. -/
theorem SendWorker.HandlesKept.gather
    (h : worker.dequeued.Perm (batchHandles batch ++ worker.released)) (slot : RxSlot) :
    (worker.gather layout batch slot).HandlesKept := by
  unfold SendWorker.gather
  dsimp only
  split
  · have hmore : (slot.handle :: worker.dequeued).Perm (batchHandles
        (batch ++ [{ handle := slot.handle, octets := layout.record slot }]) ++
          worker.released) := by
      unfold batchHandles
      rw [List.map_append, List.append_assoc]
      exact (h.cons _).trans List.perm_middle.symm
    split
    · exact .close hmore
    · exact hmore
  · exact (h.cons _).trans List.perm_middle.symm

/-- A batch that has been sent, or given up, goes back to the pool. -/
theorem SendWorker.HandlesKept.took {sent : Nat} (h : worker.HandlesKept)
    (hphase : worker.phase = .send batch sent) (count : Nat) :
    (worker.took batch sent count).HandlesKept := by
  unfold SendWorker.HandlesKept at h
  rw [hphase] at h
  unfold SendWorker.took
  dsimp only
  split
  · exact h
  · show worker.dequeued.Perm
      (batchHandles (SendPhase.batch (ite _ _ _)) ++ (batchHandles batch ++ worker.released))
    split <;> exact h

/-- Every step keeps account of the handles. -/
theorem SendWorker.HandlesKept.next (h : worker.HandlesKept) {event : SendEvent}
    (hnext : worker.next layout event = some following) : following.HandlesKept := by
  have hkept := h
  unfold HandlesKept at h
  cases event with
  | track conn =>
      obtain ⟨htop, rfl⟩ := of_guard hnext
      rw [htop] at h
      show worker.dequeued.Perm (batchHandles (SendPhase.batch (ite _ _ _)) ++ worker.released)
      split <;> exact h
  | dequeue slot =>
      unfold SendWorker.next at hnext
      cases hphase : worker.phase with
      | top => simp [hphase] at hnext
      | send batch sent => simp [hphase] at hnext
      | gather batch =>
          rw [hphase] at h
          simp only [hphase] at hnext
          cases slot with
          | none =>
              obtain rfl := Option.some.inj hnext
              exact .close h
          | some slot =>
              obtain rfl := Option.some.inj hnext
              exact .gather h slot
  | sendmsg ret =>
      obtain ⟨batch, sent, hphase, ⟨-, rfl⟩ | ⟨-, rfl⟩⟩ := SendWorker.next_sendmsg hnext
      · rw [hphase] at h
        exact h
      · exact hkept.took hphase _

/-- No packet of the pool is lost or given back twice, whatever the socket does. -/
theorem handles_kept {events : List SendEvent} :
    Always (SendWorker.next layout) SendWorker.HandlesKept .init events :=
  always_of_inductive (fun _ _ _ h hnext => h.next hnext) List.Perm.nil

end RfnmDriver.Eth
