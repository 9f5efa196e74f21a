import RfnmDriver.Tx.PoolConservation
import RfnmDriver.Usb.OutIngest

/-!
# Conservation of the USB OUT requests and buffers

Every request and every buffer is in one place at all times, and what is counted as accepted is on
the pending list. Four things break this: a packet that finds no pool element in its fifty tries is
counted like one that was queued (`given_up_counted`); a request that `usb_ep_queue` refuses, or
that completes on a disabled endpoint, is forgotten; and the worker and `rfnm_tx_flush_staging` may
both take one element, which queues its request twice. Read `ingest_conserves` first.
-/

namespace RfnmDriver.Usb.Out

open KernelList StepSystem

variable {size : Nat} {sizes : Sizes} {usb : UsbOut size} {watch following : Watch size}
  {event : Event size}

/-- Every request and every buffer is in one place, and the spares are all there, but for one that
the worker has exchanged. -/
structure UsbOut.Conserved (usb : UsbOut size) : Prop where
  requests : usb.places.Perm (List.range usb.requests)
  buffers : usb.buffers.Perm (List.range usb.created)
  spares : usb.txSpare.length + usb.worker.hand.length =
    if usb.sparesAllocated then txIngestSpares else 0

/-- What is reported as accepted was put on the pending list. -/
def Watch.CountsQueued (watch : Watch size) : Prop :=
  watch.usb.usbTxOk = watch.queued ∧ watch.usb.ingested = watch.queued

/-- The request keeps its buffer. -/
def Kept (usb following : UsbOut size) : Prop :=
  following.buf = usb.buf ∧ following.txSpare = usb.txSpare ∧ following.worker.hand = []

/-- The request gets a spare that nothing else has, and its own buffer is in the hand of the
worker. -/
def Exchanged (usb : UsbOut size) (ele : Element) (following : UsbOut size) : Prop :=
  ∃ spare ∈ usb.txSpare, spare ≠ usb.buf ele.req ∧ spare ∉ following.txSpare ∧
    following.buf = Function.update usb.buf ele.req spare ∧
      following.worker.hand = [usb.buf ele.req]

/-- The request is with the controller again, as it is. -/
def GoesBack (usb : UsbOut size) (req : Nat) (following : UsbOut size) : Prop :=
  following.atUdc = usb.atUdc ++ [req] ∧ following.buf = usb.buf ∧
    following.worker.hand = usb.worker.hand

/-- Requests change their buffer in the worker's check alone, where the first completed one keeps
it or exchanges it. Either way it goes back to the controller, and an exchanged buffer becomes a
spare after no more tries than are left. -/
def HandsOver (usb : UsbOut size) (event : Event size) (following : UsbOut size) : Prop :=
  match event, usb.worker with
  | .start, _ => ∀ req < usb.requests, following.buf req = usb.buf req
  | .check, .looked ele => Kept usb following ∨ Exchanged usb ele following
  | .submit _, .submitting req _ => GoesBack usb req following
  | .stagingSubmit ele _, _ => GoesBack usb ele.req following
  | .claim, .copying (.detached buf tries) usbCc => following.buf = usb.buf ∧
      ((∃ free, following.worker = .inserting (.detached buf tries) usbCc free) ∨
        ∃ left < tries, following.worker = .copying (.detached buf left) usbCc)
  | .insert, .inserting (.detached buf _) _ _ => following.buf = usb.buf ∧
      following.txSpare = buf :: usb.txSpare ∧ following.worker = .idle
  | _, _ => following.buf = usb.buf

/-- Only the shutdown of its endpoint frees a request. -/
def ShutdownFrees (usb : UsbOut size) (event : Event size) (following : UsbOut size) : Prop :=
  following.freed = match event with
    | .complete req _ status _ => if status = eShutdown then req :: usb.freed else usb.freed
    | _ => usb.freed

/-- The endpoint of a completion is enabled and a request that goes back is accepted; the element
that a thread works on is still on its list, the last try finds a free pool element, and the copy
that the consumer of the pool unlinks through is current. -/
def Delivered (usb : UsbOut size) (event : Event size) : Prop :=
  match event, usb.worker with
  | .complete _ _ _ enabled, _ => enabled = true
  | .check, .looked ele => usb.Listed ele
  | .unlink, .unlinking ele _ => usb.Listed ele
  | .stagingUnlink ele, _ => usb.Listed ele
  | .submit accepted, _ => accepted = true
  | .stagingSubmit _ accepted, _ => accepted = true
  | .claim, .copying (.detached _ tries) _ => tries ≤ 1 → firstFree usb.pool ≠ none
  | .pool event, _ => Tx.CopyCurrent usb.pool event
  | _, _ => True

instance (usb : UsbOut size) (event : Event size) : Decidable (Delivered usb event) := by
  unfold Delivered
  split <;> infer_instance

/-! ## Places -/

/-- What a step does to the places it does to the buffers, where the requests keep theirs. -/
theorem UsbOut.Conserved.of_places {following : UsbOut size} (h : usb.Conserved)
    (hplaces : following.places.Perm usb.places) (hrequests : following.requests = usb.requests)
    (hcreated : following.created = usb.created) (hbuf : following.buf = usb.buf)
    (hrest : (following.txSpare ++ following.worker.hand).Perm (usb.txSpare ++ usb.worker.hand))
    (hallocated : following.sparesAllocated = usb.sparesAllocated) : following.Conserved := by
  refine ⟨?_, ?_, ?_⟩
  · rw [hrequests]
    exact hplaces.trans h.requests
  · rw [hcreated]
    refine List.Perm.trans ?_ h.buffers
    simp only [UsbOut.buffers, List.append_assoc, hbuf]
    exact (hplaces.map usb.buf).append hrest
  · have hlength := hrest.length_eq
    simp only [List.length_append] at hlength
    rw [hlength, hallocated]
    exact h.spares

/-- No request is in two places. -/
theorem UsbOut.Conserved.places_nodup (h : usb.Conserved) : usb.places.Nodup :=
  h.requests.nodup_iff.mpr List.nodup_range

/-- A listed element is on one list, and once: unlinking takes its request off the lists. -/
theorem listDel_requests (h : usb.Conserved) {ele : Element} (hlisted : usb.Listed ele) :
    (usb.active.map (·.req) ++ usb.outUsb.map (·.req)).Perm
      (ele.req :: ((listDel usb ele).active.map (·.req) ++
        (listDel usb ele).outUsb.map (·.req))) := by
  have honce := List.nodup_iff_count_le_one.mp h.places_nodup ele.req
  simp only [UsbOut.places, List.count_append] at honce
  have hpos : ∀ list : List Element, ele ∈ list → 0 < (list.map (·.req)).count ele.req :=
    fun list hmem => List.count_pos_iff.mpr (List.mem_map_of_mem hmem)
  refine List.perm_iff_count.mpr fun req => ?_
  simp only [listDel, List.count_append, List.count_cons]
  by_cases hactive : ele ∈ usb.active
  · have hother : ele ∉ usb.outUsb := by
      intro hmem
      have := hpos _ hactive
      have := hpos _ hmem
      omega
    have hcount := ((List.perm_cons_erase hactive).map (·.req)).count_eq req
    simp only [List.map_cons, List.count_cons] at hcount
    rw [List.erase_of_not_mem hother]
    omega
  · have hcount := ((List.perm_cons_erase (hlisted.resolve_left hactive)).map
      (·.req)).count_eq req
    simp only [List.map_cons, List.count_cons] at hcount
    rw [List.erase_of_not_mem hactive]
    omega

/-- A request that gets another buffer leaves its own. -/
theorem map_update_perm (buf : Nat → Nat) {places : List Nat} (hnodup : places.Nodup) {req : Nat}
    (hmem : req ∈ places) (spare : Nat) :
    (places.map (Function.update buf req spare) ++ [buf req]).Perm
      (places.map buf ++ [spare]) := by
  have hcons := List.perm_cons_erase hmem
  have hothers : (places.erase req).map (Function.update buf req spare) =
      (places.erase req).map buf := by
    refine List.map_congr_left fun other hother => Function.update_of_ne ?_ _ _
    rintro rfl
    exact hnodup.not_mem_erase hother
  refine List.perm_iff_count.mpr fun other => ?_
  have hleft := (hcons.map (Function.update buf req spare)).count_eq other
  have hright := (hcons.map buf).count_eq other
  simp only [List.map_cons, Function.update_self, hothers, List.count_cons] at hleft hright
  simp only [List.count_append, List.count_singleton]
  omega

/-! ## The steps -/

/-- The first pass touches the spares only. -/
theorem allocSpares_eq (usb : UsbOut size) : ∃ txSpare created sparesAllocated,
    allocSpares usb = { usb with
      txSpare := txSpare
      created := created
      sparesAllocated := sparesAllocated } := by
  unfold allocSpares
  split
  · exact ⟨_, _, _, rfl⟩
  · exact ⟨_, _, _, rfl⟩

/-- The first pass keeps every buffer in one place. -/
theorem allocSpares_conserved (h : usb.Conserved) (hidle : usb.worker = .idle) :
    (allocSpares usb).Conserved ∧ (allocSpares usb).sparesAllocated = true := by
  have hhand : usb.worker.hand = [] := by rw [hidle]; rfl
  have hspares := h.spares
  rw [hhand, List.length_nil, Nat.add_zero] at hspares
  unfold allocSpares
  split
  next hfirst =>
    refine ⟨⟨h.requests, ?_, ?_⟩, rfl⟩
    · rw [List.range_add]
      refine List.perm_iff_count.mpr fun buf => ?_
      have hcount := h.buffers.count_eq buf
      simp only [UsbOut.buffers, UsbOut.places, hfirst.1, List.count_append,
        List.count_nil] at hcount ⊢
      rw [List.count_reverse]
      omega
    · show _ + usb.worker.hand.length = _
      rw [hhand]
      simp
  next hlater =>
    refine ⟨h, ?_⟩
    cases hallocated : usb.sparesAllocated with
    | true => rfl
    | false =>
        rw [hallocated, if_neg Bool.false_ne_true] at hspares
        exact absurd ⟨List.length_eq_zero_iff.mp hspares, hallocated⟩ hlater

/-- A request is allocated with its buffer. -/
theorem start_conserved (h : usb.Conserved) : (start usb).Conserved := by
  have hfresh : usb.places.map (Function.update usb.buf usb.requests usb.created) =
      usb.places.map usb.buf := by
    refine List.map_congr_left fun req hreq => Function.update_of_ne ?_ _ _
    exact (List.mem_range.mp (h.requests.mem_iff.mp hreq)).ne
  have hplaces : (start usb).places.Perm (usb.places ++ [usb.requests]) := by
    refine List.perm_iff_count.mpr fun req => ?_
    simp only [UsbOut.places, start, List.count_append]
    omega
  refine ⟨?_, ?_, h.spares⟩
  · rw [show (start usb).requests = usb.requests + 1 from rfl, List.range_succ]
    exact hplaces.trans (h.requests.append_right _)
  · rw [show (start usb).created = usb.created + 1 from rfl, List.range_succ]
    have hmap := hplaces.map (start usb).buf
    rw [List.map_append, show (start usb).buf = Function.update usb.buf usb.requests usb.created
      from rfl, hfresh, List.map_singleton, Function.update_self] at hmap
    refine List.perm_iff_count.mpr fun buf => ?_
    have hcount := h.buffers.count_eq buf
    have hmapcount := hmap.count_eq buf
    simp only [UsbOut.buffers, List.count_append] at hcount hmapcount ⊢
    rw [show (start usb).buf = Function.update usb.buf usb.requests usb.created from rfl]
    simp only [show (start usb).txSpare = usb.txSpare from rfl,
      show (start usb).worker = usb.worker from rfl]
    omega

/-- A completed request is freed, or waits for the worker. -/
theorem complete_conserved (h : usb.Conserved) {req : Nat} (hmem : req ∈ usb.atUdc)
    (packet : Packet) (status : Int) : (complete usb req packet status true).Conserved := by
  have hcons := (List.perm_cons_erase hmem).count_eq
  unfold complete
  split
  next hdisabled => cases hdisabled
  split
  · refine h.of_places (List.perm_iff_count.mpr fun other => ?_) rfl rfl rfl (.refl _) rfl
    have hcount := hcons other
    simp only [UsbOut.places, List.count_append, List.count_cons] at hcount ⊢
    omega
  · refine h.of_places (List.perm_iff_count.mpr fun other => ?_) rfl rfl rfl (.refl _) rfl
    have hcount := hcons other
    simp only [UsbOut.places, List.map_append, List.map_cons, List.map_nil, List.count_append,
      List.count_cons, List.count_nil] at hcount ⊢
    omega

/-- On an enabled endpoint a completion touches the completed and the freed requests only. -/
theorem complete_eq (usb : UsbOut size) (req : Nat) (packet : Packet) (status : Int) :
    ∃ active elements, complete usb req packet status true = { usb with
      atUdc := usb.atUdc.erase req
      active := active
      elements := elements
      freed := if status = eShutdown then req :: usb.freed else usb.freed } := by
  unfold complete
  by_cases hstatus : status = eShutdown
  · refine ⟨usb.active, usb.elements, ?_⟩
    simp only [hstatus, Bool.true_eq_false, if_false, if_true]
  · refine ⟨usb.active ++ [⟨usb.elements, req, packet⟩], usb.elements + 1, ?_⟩
    simp only [hstatus, Bool.true_eq_false, if_false]

/-- The element that the worker unlinks is in its hand. -/
theorem unlink_conserved (h : usb.Conserved) {ele : Element} {after : After}
    (hworker : usb.worker = .unlinking ele after) (hlisted : usb.Listed ele) :
    { listDel usb ele with worker := .submitting ele.req after }.Conserved := by
  have hlists := (listDel_requests h hlisted).count_eq
  refine h.of_places (List.perm_iff_count.mpr fun other => ?_) rfl rfl rfl ?_ rfl
  · have hcount := hlists other
    simp only [UsbOut.places, hworker, Worker.request, listDel, List.count_append, List.count_cons,
      List.count_nil] at hcount ⊢
    omega
  · rw [hworker]
    exact .refl _

/-- So is the one that a staging flush unlinks. -/
theorem stagingUnlink_conserved (h : usb.Conserved) {ele : Element} (hlisted : usb.Listed ele) :
    { listDel usb ele with
      flushLooked := usb.flushLooked.erase ele
      flushUnlinked := ele :: usb.flushUnlinked }.Conserved := by
  have hlists := (listDel_requests h hlisted).count_eq
  refine h.of_places (List.perm_iff_count.mpr fun other => ?_) rfl rfl rfl (.refl _) rfl
  have hcount := hlists other
  simp only [UsbOut.places, listDel, List.map_cons, List.count_append, List.count_cons] at hcount ⊢
  omega

/-- The request goes from the hand of a staging flush to the controller. -/
theorem stagingSubmit_conserved (h : usb.Conserved) {ele : Element}
    (hmem : ele ∈ usb.flushUnlinked) :
    { epQueue usb ele.req true with
      flushUnlinked := usb.flushUnlinked.erase ele }.Conserved := by
  have hcons := ((List.perm_cons_erase hmem).map (·.req)).count_eq
  refine h.of_places (List.perm_iff_count.mpr fun other => ?_) rfl rfl rfl (.refl _) rfl
  have hcount := hcons other
  simp only [UsbOut.places, epQueue, if_true, List.map_cons, List.count_append, List.count_cons,
    List.count_nil] at hcount ⊢
  omega

/-- The request goes from the hand of the worker to the controller, and the buffer to be copied
stays in it. -/
theorem submit_conserved (h : usb.Conserved) {req : Nat} {after : After}
    (hworker : usb.worker = .submitting req after) : (submit usb req after true).Conserved := by
  have hplaces : ∀ other, (usb.atUdc ++ [req]).count other + 0 =
      usb.atUdc.count other + usb.worker.request.count other := fun other => by
    rw [hworker, List.count_append]
    rfl
  cases after with
  | drop | copy buf usbCc | count =>
    refine h.of_places (List.perm_iff_count.mpr fun other => ?_) rfl rfl rfl ?_ rfl
    · have hcount := hplaces other
      simp only [UsbOut.places, submit, countOk, epQueue, if_true, Worker.request,
        List.count_append, List.count_nil] at hcount ⊢
      omega
    · rw [hworker]
      exact .refl _

/-- What is taken off the other list is in the hand of the worker. -/
theorem takeOther_conserved (h : usb.Conserved) (hidle : usb.worker = .idle) :
    (takeOther usb).Conserved := by
  unfold takeOther
  split
  · exact h
  next ele rest hother =>
    refine h.of_places (List.perm_iff_count.mpr fun other => ?_) rfl rfl rfl ?_ rfl
    · simp only [UsbOut.places, hother, hidle, Worker.request, List.map_cons, List.count_append,
        List.count_cons, List.count_nil]
      omega
    · rw [hidle]
      exact .refl _

/-- The reset moves the completed requests to the other list. -/
theorem reset_conserved (h : usb.Conserved) :
    { usb with outUsb := usb.outUsb ++ usb.active, active := [] }.Conserved := by
  refine h.of_places (List.perm_iff_count.mpr fun other => ?_) rfl rfl rfl (.refl _) rfl
  simp only [UsbOut.places, List.map_append, List.map_nil, List.count_append, List.count_nil]
  omega

/-- Moving the worker on changes nothing while it neither takes nor drops anything. -/
theorem worker_conserved (h : usb.Conserved) (worker : Worker size)
    (hrequest : worker.request = usb.worker.request) (hhand : worker.hand = usb.worker.hand) :
    { usb with worker := worker }.Conserved := by
  refine h.of_places (.of_eq ?_) rfl rfl rfl (.of_eq ?_) rfl
  · simp only [UsbOut.places, hrequest]
  · simp only [hhand]

/-- A listed request is in one of the places. -/
theorem UsbOut.Listed.mem_places {ele : Element} (hlisted : usb.Listed ele) :
    ele.req ∈ usb.places := by
  simp only [UsbOut.places, List.mem_append, List.mem_map]
  obtain hactive | hother := hlisted
  · exact .inl (.inl (.inl (.inl (.inr ⟨ele, hactive, rfl⟩))))
  · exact .inl (.inl (.inl (.inr ⟨ele, hother, rfl⟩)))

/-- With the spares allocated, a request that is found with good framing exchanges its buffer, and
one with bad framing keeps it. -/
theorem check_cases (sizes : Sizes) (h : usb.Conserved) {ele : Element}
    (hworker : usb.worker = .looked ele)
    (hallocated : usb.sparesAllocated = true) :
    check sizes usb ele =
        { usb with usbTxError := usb.usbTxError + 1, worker := .unlinking ele .drop } ∨
      ∃ spare rest, usb.txSpare = spare :: rest ∧ check sizes usb ele = { usb with
          buf := Function.update usb.buf ele.req spare
          txSpare := rest
          worker := .unlinking ele (.copy (usb.buf ele.req) ele.packet.usbCc) } := by
  have hspares := h.spares
  rw [hworker, hallocated] at hspares
  by_cases hframed : ele.packet.Framed sizes
  · cases hspare : usb.txSpare with
    | nil =>
        rw [hspare] at hspares
        cases hspares
    | cons spare rest =>
        exact .inr ⟨spare, rest, rfl, by simp only [check, hframed, if_true, hspare]⟩
  · exact .inl (by simp only [check, hframed, if_false])

/-- The exchange leaves the request with the spare, and its buffer in the hand of the worker. -/
theorem exchange_conserved (h : usb.Conserved) {ele : Element} (hworker : usb.worker = .looked ele)
    (hlisted : usb.Listed ele) {spare : Nat} {rest : List Nat}
    (hspare : usb.txSpare = spare :: rest) :
    { usb with
      buf := Function.update usb.buf ele.req spare
      txSpare := rest
      worker := .unlinking ele (.copy (usb.buf ele.req) ele.packet.usbCc) }.Conserved := by
  have hmap := map_update_perm usb.buf h.places_nodup hlisted.mem_places spare
  have hplaces : UsbOut.places { usb with
      buf := Function.update usb.buf ele.req spare
      txSpare := rest
      worker := .unlinking ele (.copy (usb.buf ele.req) ele.packet.usbCc) } = usb.places := by
    simp only [UsbOut.places, hworker, Worker.request]
  refine ⟨?_, ?_, ?_⟩
  · rw [hplaces]
    exact h.requests
  · refine (List.perm_iff_count.mpr fun buf => ?_).trans h.buffers
    have hcount := hmap.count_eq buf
    simp only [UsbOut.buffers, hplaces, hspare, hworker, Worker.hand, After.hand, List.count_append,
      List.count_cons, List.count_nil] at hcount ⊢
    omega
  · have hspares := h.spares
    rw [hspare, hworker] at hspares
    exact hspares

/-- A spare is not the buffer of a listed request, nor spare twice. -/
theorem spare_fresh (h : usb.Conserved) {ele : Element} (hlisted : usb.Listed ele) {spare : Nat}
    {rest : List Nat} (hspare : usb.txSpare = spare :: rest) :
    spare ≠ usb.buf ele.req ∧ spare ∉ rest := by
  have hnodup : usb.buffers.Nodup := h.buffers.nodup_iff.mpr List.nodup_range
  have honce := List.nodup_iff_count_le_one.mp hnodup spare
  simp only [UsbOut.buffers, hspare, List.count_append, List.count_cons, beq_self_eq_true,
    if_true] at honce
  constructor
  · rintro rfl
    have hpos := List.count_pos_iff.mpr (List.mem_map_of_mem (f := usb.buf) hlisted.mem_places)
    omega
  · intro hmem
    have hpos := List.count_pos_iff.mpr hmem
    omega

/-- The copied buffer becomes a spare. -/
theorem finishCopy_conserved (h : usb.Conserved) (buf : Nat) (hrequest : usb.worker.request = [])
    (hhand : usb.worker.hand = [buf]) : (finishCopy usb buf).Conserved := by
  refine h.of_places (.of_eq ?_) rfl rfl rfl ?_ rfl
  · rw [UsbOut.places, UsbOut.places, hrequest]
    rfl
  · rw [hhand]
    show (buf :: usb.txSpare ++ []).Perm _
    rw [List.append_nil]
    exact (List.perm_append_singleton buf usb.txSpare).symm

/-! ## The pool -/

/-- The first half of `rfnm_queue_local_buffer_tx` leaves the pending list alone. -/
theorem claim_pending {pool : Tx.Pool size} (h : pool.Held) :
    (Tx.claim pool).Held ∧
      (Tx.claim pool).contents .localBufferOut = pool.contents .localBufferOut := by
  obtain ⟨contents, hcontents⟩ := h
  obtain ⟨contents', hclaim, hpending, -⟩ := Tx.claim_holds hcontents.account
  have hheld := Tx.holdsAll_of_account hclaim
  refine ⟨⟨contents', hheld⟩, ?_⟩
  rw [hheld.contents_eq, hcontents.contents_eq, hpending]

/-- The second half puts one packet on it. -/
theorem commit_pending {pool following : Tx.Pool size} (h : pool.Held) {free : Fin size}
    {usbCc : Nat} (hstep : Tx.next pool (.commit free usbCc) = some following) :
    following.Held ∧ (following.contents .localBufferOut).length =
      (pool.contents .localBufferOut).length + 1 := by
  obtain ⟨contents, hcontents⟩ := h
  obtain ⟨hmem, hcommit⟩ :
      free ∈ pool.inHand ∧ Tx.commit pool free usbCc = some following := by
    simpa [Tx.next] using hstep
  obtain ⟨other, front, back, hother, hpending, -, -, hholds, -⟩ :=
    Tx.commit_holds hcontents.account (List.nodup_finRange size) hcontents.pending_length hmem usbCc
  obtain rfl := Option.some.inj (hother.symm.trans hcommit)
  have hheld := Tx.holdsAll_of_account hholds
  refine ⟨⟨_, hheld⟩, ?_⟩
  rw [hheld.contents_eq, hcontents.contents_eq, Function.update_self, hpending]
  simp only [List.length_append, List.length_cons]
  omega

/-! ## The invariant -/

/-- The worker is not on the path that it takes without a spare. -/
def Worker.Fast : Worker size → Prop
  | .unlinking _ .count | .submitting _ .count | .copying (.inPlace _) _
  | .inserting (.inPlace _) _ _ => False
  | _ => True

/-- Everything is in one place and the counts are right; the path without a spare is never taken,
since a worker that looks at a request has all of them. -/
structure Inv (watch : Watch size) : Prop where
  conserved : watch.usb.Conserved
  counts : watch.CountsQueued
  held : watch.usb.pool.Held
  fast : watch.usb.worker.Fast
  looked : ∀ ele, watch.usb.worker = .looked ele → watch.usb.sparesAllocated = true

/-- What a step owes, beside the invariant. -/
def Owed (usb : UsbOut size) (event : Event size) (following : UsbOut size) : Prop :=
  HandsOver usb event following ∧ ShutdownFrees usb event following

/-- The packets that the worker's step has put on the pending list are counted. -/
theorem Watch.next_eq (hstep : watch.next sizes event = some following) :
    ∃ usb, Out.next sizes watch.usb event = some usb ∧ following = ⟨usb, if event.byWorker
      then watch.queued + (usb.pending - watch.usb.pending) else watch.queued⟩ :=
  (Option.map_eq_some_iff.mp hstep).imp fun _ ⟨hnext, heq⟩ => ⟨hnext, heq.symm⟩

/-- A step that counts nothing, and by the worker leaves the pending list as long as it is, keeps
the invariant if it keeps everything in one place. -/
theorem Inv.of_uncounted (h : Inv watch) (event : Event size) (hconserved : usb.Conserved)
    (hheld : usb.pool.Held) (hpending : event.byWorker = true → usb.pending = watch.usb.pending)
    (hok : usb.usbTxOk = watch.usb.usbTxOk) (hingested : usb.ingested = watch.usb.ingested)
    (hfast : usb.worker.Fast)
    (hlooked : ∀ ele, usb.worker = .looked ele → usb.sparesAllocated = true) :
    Inv ⟨usb, if event.byWorker then watch.queued + (usb.pending - watch.usb.pending)
      else watch.queued⟩ := by
  have hsame : (if event.byWorker then watch.queued + (usb.pending - watch.usb.pending)
      else watch.queued) = watch.queued := by
    by_cases hworker : event.byWorker = true
    · rw [hpending hworker, Nat.sub_self, Nat.add_zero, ite_self]
    · rw [if_neg hworker]
  rw [hsame]
  exact ⟨hconserved, ⟨hok.trans h.counts.1, hingested.trans h.counts.2⟩, hheld, hfast, hlooked⟩

/-- Nor does one that leaves the pool alone. -/
theorem Inv.of_same_pool (h : Inv watch) (event : Event size) (hconserved : usb.Conserved)
    (hpool : usb.pool = watch.usb.pool) (hok : usb.usbTxOk = watch.usb.usbTxOk)
    (hingested : usb.ingested = watch.usb.ingested) (hfast : usb.worker.Fast)
    (hlooked : ∀ ele, usb.worker = .looked ele → usb.sparesAllocated = true) :
    Inv ⟨usb, if event.byWorker then watch.queued + (usb.pending - watch.usb.pending)
      else watch.queued⟩ :=
  h.of_uncounted event hconserved (hpool ▸ h.held)
    (fun _ => by rw [UsbOut.pending, UsbOut.pending, hpool]) hok hingested hfast hlooked

/-! ## One lemma for each step -/

/-- Where the worker stands at each of its steps, and what the step does. -/
def Stands (sizes : Sizes) (usb following : UsbOut size) : Event size → Prop
  | .look => usb.worker = .idle ∧ following = look usb
  | .flushLook => usb.worker = .idle ∧ following = flushLook usb
  | .takeOther => usb.worker = .idle ∧ following = takeOther usb
  | .check => ∃ ele, usb.worker = .looked ele ∧ following = check sizes usb ele
  | .unlink => ∃ ele after, usb.worker = .unlinking ele after ∧
      following = { listDel usb ele with worker := .submitting ele.req after }
  | .submit accepted => ∃ req after, usb.worker = .submitting req after ∧
      following = submit usb req after accepted
  | .claim => ∃ source usbCc, usb.worker = .copying source usbCc ∧
      following = claim usb source usbCc
  | .insert => ∃ source usbCc free, usb.worker = .inserting source usbCc free ∧
      insert usb source usbCc free = some following
  | .reset => usb.worker = .idle ∧
      following = { usb with outUsb := usb.outUsb ++ usb.active, active := [] }
  | _ => True

theorem stands_of_next {usb following : UsbOut size}
    (hnext : Out.next sizes usb event = some following) : Stands sizes usb following event := by
  unfold Out.next at hnext
  split at hnext
  case h_3 hworker | h_4 hworker | h_5 hworker | h_14 hworker =>
    exact ⟨hworker, (Option.some.inj hnext).symm⟩
  case h_6 ele hworker => exact ⟨ele, hworker, (Option.some.inj hnext).symm⟩
  case h_7 ele after hworker => exact ⟨ele, after, hworker, (Option.some.inj hnext).symm⟩
  case h_8 accepted req after hworker =>
    exact ⟨req, after, hworker, (Option.some.inj hnext).symm⟩
  case h_9 source usbCc hworker => exact ⟨source, usbCc, hworker, (Option.some.inj hnext).symm⟩
  case h_10 source usbCc free hworker => exact ⟨source, usbCc, free, hworker, hnext⟩
  case h_16 => cases hnext
  all_goals trivial

theorem start_spec (h : Inv watch) (hstep : watch.next sizes .start = some following) :
    Inv following ∧ Owed watch.usb .start following.usb := by
  obtain ⟨usb, hnext, rfl⟩ := Watch.next_eq hstep
  obtain rfl := Option.some.inj hnext
  exact ⟨h.of_same_pool .start (start_conserved h.conserved) rfl rfl rfl h.fast h.looked,
    fun req hreq => Function.update_of_ne hreq.ne _ _, rfl⟩

theorem complete_spec (h : Inv watch) {req : Nat} {packet : Packet} {status : Int} {enabled : Bool}
    (hdelivered : Delivered watch.usb (.complete req packet status enabled))
    (hstep : watch.next sizes (.complete req packet status enabled) = some following) :
    Inv following ∧ Owed watch.usb (.complete req packet status enabled) following.usb := by
  obtain ⟨usb, hnext, rfl⟩ := Watch.next_eq hstep
  obtain ⟨hmem, rfl⟩ := of_guard hnext
  obtain rfl : enabled = true := hdelivered
  have hconserved := complete_conserved h.conserved hmem packet status
  obtain ⟨active, elements, heq⟩ := complete_eq watch.usb req packet status
  rw [heq] at hconserved ⊢
  exact ⟨h.of_same_pool (.complete req packet status true) hconserved rfl rfl rfl h.fast h.looked,
    rfl, rfl⟩

theorem look_spec (h : Inv watch) (hstep : watch.next sizes .look = some following) :
    Inv following ∧ Owed watch.usb .look following.usb := by
  obtain ⟨usb, hnext, rfl⟩ := Watch.next_eq hstep
  obtain ⟨hidle, rfl⟩ := stands_of_next hnext
  obtain ⟨hconserved, hallocated⟩ := allocSpares_conserved h.conserved hidle
  obtain ⟨_, _, _, heq⟩ := allocSpares_eq watch.usb
  unfold look
  rw [heq] at hconserved hallocated ⊢
  dsimp only
  split
  · exact ⟨h.of_same_pool .look hconserved rfl rfl rfl h.fast fun _ _ => hallocated, rfl, rfl⟩
  · exact ⟨h.of_same_pool .look (worker_conserved hconserved _ (by rw [hidle]; rfl)
      (by rw [hidle]; rfl)) rfl rfl rfl trivial fun _ _ => hallocated, rfl, rfl⟩

theorem flushLook_spec (h : Inv watch) (hstep : watch.next sizes .flushLook = some following) :
    Inv following ∧ Owed watch.usb .flushLook following.usb := by
  obtain ⟨usb, hnext, rfl⟩ := Watch.next_eq hstep
  obtain ⟨hidle, rfl⟩ := stands_of_next hnext
  unfold flushLook
  split
  · exact ⟨h.of_same_pool .flushLook h.conserved rfl rfl rfl h.fast h.looked, rfl, rfl⟩
  · exact ⟨h.of_same_pool .flushLook (worker_conserved h.conserved _ (by rw [hidle]; rfl)
      (by rw [hidle]; rfl)) rfl rfl rfl trivial nofun, rfl, rfl⟩

theorem takeOther_spec (h : Inv watch) (hstep : watch.next sizes .takeOther = some following) :
    Inv following ∧ Owed watch.usb .takeOther following.usb := by
  obtain ⟨usb, hnext, rfl⟩ := Watch.next_eq hstep
  obtain ⟨hidle, rfl⟩ := stands_of_next hnext
  have hconserved := takeOther_conserved h.conserved hidle
  unfold takeOther at hconserved ⊢
  split at hconserved
  · exact ⟨h.of_same_pool .takeOther h.conserved rfl rfl rfl h.fast h.looked, rfl, rfl⟩
  · exact ⟨h.of_same_pool .takeOther hconserved rfl rfl rfl trivial nofun, rfl, rfl⟩

theorem check_spec (h : Inv watch) (hdelivered : Delivered watch.usb .check)
    (hstep : watch.next sizes .check = some following) :
    Inv following ∧ Owed watch.usb .check following.usb := by
  obtain ⟨usb, hnext, rfl⟩ := Watch.next_eq hstep
  obtain ⟨ele, hworker, rfl⟩ := stands_of_next hnext
  have hlisted : watch.usb.Listed ele := by
    simpa only [Delivered, hworker] using hdelivered
  simp only [Owed, HandsOver, ShutdownFrees, hworker]
  obtain heq | ⟨spare, rest, hspare, heq⟩ :=
    check_cases sizes h.conserved hworker (h.looked ele hworker)
  · rw [heq]
    have hsame := worker_conserved h.conserved (.unlinking ele .drop)
      (by rw [hworker]; rfl) (by rw [hworker]; rfl)
    exact ⟨h.of_same_pool .check ⟨hsame.requests, hsame.buffers, hsame.spares⟩ rfl rfl rfl trivial
      nofun, .inl ⟨rfl, rfl, rfl⟩, rfl⟩
  · rw [heq]
    obtain ⟨hne, hnot⟩ := spare_fresh h.conserved hlisted hspare
    exact ⟨h.of_same_pool .check (exchange_conserved h.conserved hworker hlisted hspare) rfl rfl rfl
      trivial nofun, .inr ⟨spare, hspare ▸ List.mem_cons_self, hne, hnot, rfl, rfl⟩, rfl⟩

theorem unlink_spec (h : Inv watch) (hdelivered : Delivered watch.usb .unlink)
    (hstep : watch.next sizes .unlink = some following) :
    Inv following ∧ Owed watch.usb .unlink following.usb := by
  obtain ⟨usb, hnext, rfl⟩ := Watch.next_eq hstep
  obtain ⟨ele, after, hworker, rfl⟩ := stands_of_next hnext
  have hlisted : watch.usb.Listed ele := by
    simpa only [Delivered, hworker] using hdelivered
  have hfast := h.fast
  rw [hworker] at hfast
  refine ⟨h.of_same_pool .unlink (unlink_conserved h.conserved hworker hlisted) rfl rfl rfl ?_
    nofun, rfl, rfl⟩
  cases after with
  | drop | copy buf usbCc => trivial
  | count => exact hfast

theorem submit_spec (h : Inv watch) {accepted : Bool}
    (hdelivered : Delivered watch.usb (.submit accepted))
    (hstep : watch.next sizes (.submit accepted) = some following) :
    Inv following ∧ Owed watch.usb (.submit accepted) following.usb := by
  obtain ⟨usb, hnext, rfl⟩ := Watch.next_eq hstep
  obtain ⟨req, after, hworker, rfl⟩ := stands_of_next hnext
  obtain rfl : accepted = true := hdelivered
  have hconserved := submit_conserved h.conserved hworker
  have hfast := h.fast
  rw [hworker] at hfast
  simp only [Owed, HandsOver, ShutdownFrees, GoesBack, hworker]
  cases after with
  | drop | copy buf usbCc =>
    exact ⟨h.of_same_pool (.submit true) hconserved rfl rfl rfl trivial nofun, ⟨rfl, rfl, rfl⟩, rfl⟩
  | count => exact hfast.elim

theorem claim_spec (h : Inv watch) (hdelivered : Delivered watch.usb .claim)
    (hstep : watch.next sizes .claim = some following) :
    Inv following ∧ Owed watch.usb .claim following.usb := by
  obtain ⟨usb, hnext, rfl⟩ := Watch.next_eq hstep
  obtain ⟨source, usbCc, hworker, rfl⟩ := stands_of_next hnext
  have hfast := h.fast
  rw [hworker] at hfast
  cases source with
  | inPlace ele => exact hfast.elim
  | detached buf tries =>
  simp only [Owed, HandsOver, ShutdownFrees, hworker]
  simp only [Delivered, hworker] at hdelivered
  cases hfree : firstFree watch.usb.pool with
  | some free =>
      obtain ⟨hheld, hpending⟩ := claim_pending h.held
      have hsame := worker_conserved h.conserved
        (.inserting (.detached buf tries) usbCc free) (by rw [hworker]; rfl) (by rw [hworker]; rfl)
      simp only [claim, hfree]
      exact ⟨h.of_uncounted .claim ⟨hsame.requests, hsame.buffers, hsame.spares⟩ hheld
        (fun _ => congrArg List.length hpending) rfl rfl trivial nofun,
        ⟨trivial, .inl ⟨free, rfl⟩⟩, trivial⟩
  | none =>
      have htries : ¬ tries ≤ 1 := fun hlast => hdelivered hlast hfree
      have hsame := worker_conserved h.conserved
        (.copying (.detached buf (tries - 1)) usbCc) (by rw [hworker]; rfl) (by rw [hworker]; rfl)
      simp only [claim, hfree, htries, if_false]
      exact ⟨h.of_same_pool .claim hsame rfl rfl rfl trivial nofun,
        ⟨trivial, .inr ⟨tries - 1, by omega, rfl⟩⟩, trivial⟩

theorem insert_spec (h : Inv watch) (hstep : watch.next sizes .insert = some following) :
    Inv following ∧ Owed watch.usb .insert following.usb := by
  obtain ⟨usb, hnext, rfl⟩ := Watch.next_eq hstep
  obtain ⟨source, usbCc, free, hworker, hinsert⟩ := stands_of_next hnext
  have hfast := h.fast
  rw [hworker] at hfast
  cases source with
  | inPlace ele => exact hfast.elim
  | detached buf tries =>
  obtain ⟨pool, hcommit, rfl⟩ := Option.map_eq_some_iff.mp hinsert
  obtain ⟨hheld, hpending⟩ := commit_pending h.held hcommit
  have hfinish := finishCopy_conserved h.conserved buf (by rw [hworker]; rfl)
    (by rw [hworker]; rfl)
  have hgain : (pool.contents .localBufferOut).length - watch.usb.pending = 1 := by
    rw [UsbOut.pending, hpending]
    omega
  simp only [Owed, HandsOver, ShutdownFrees, hworker]
  refine ⟨⟨⟨hfinish.requests, hfinish.buffers, hfinish.spares⟩, ?_, hheld, trivial, nofun⟩,
    ⟨rfl, rfl, rfl⟩, rfl⟩
  show _ = watch.queued + (_ - _) ∧ _ = watch.queued + (_ - _)
  simp only [UsbOut.pending] at hgain ⊢
  rw [hgain]
  exact ⟨congrArg (· + 1) h.counts.1, congrArg (· + 1) h.counts.2⟩

theorem stagingLook_spec (h : Inv watch) (hstep : watch.next sizes .stagingLook = some following) :
    Inv following ∧ Owed watch.usb .stagingLook following.usb := by
  obtain ⟨usb, hnext, rfl⟩ := Watch.next_eq hstep
  obtain rfl := Option.some.inj hnext
  exact ⟨h.of_same_pool .stagingLook
    (h.conserved.of_places (.refl _) rfl rfl rfl (.refl _) rfl) rfl rfl rfl h.fast h.looked,
    rfl, rfl⟩

theorem stagingUnlink_spec (h : Inv watch) {ele : Element}
    (hdelivered : Delivered watch.usb (.stagingUnlink ele))
    (hstep : watch.next sizes (.stagingUnlink ele) = some following) :
    Inv following ∧ Owed watch.usb (.stagingUnlink ele) following.usb := by
  obtain ⟨usb, hnext, rfl⟩ := Watch.next_eq hstep
  obtain ⟨-, rfl⟩ := of_guard hnext
  exact ⟨h.of_same_pool (.stagingUnlink ele) (stagingUnlink_conserved h.conserved hdelivered)
    rfl rfl rfl h.fast h.looked, rfl, rfl⟩

theorem stagingSubmit_spec (h : Inv watch) {ele : Element} {accepted : Bool}
    (hdelivered : Delivered watch.usb (.stagingSubmit ele accepted))
    (hstep : watch.next sizes (.stagingSubmit ele accepted) = some following) :
    Inv following ∧ Owed watch.usb (.stagingSubmit ele accepted) following.usb := by
  obtain ⟨usb, hnext, rfl⟩ := Watch.next_eq hstep
  obtain ⟨hmem, rfl⟩ := of_guard hnext
  obtain rfl : accepted = true := hdelivered
  exact ⟨h.of_same_pool (.stagingSubmit ele true) (stagingSubmit_conserved h.conserved hmem)
    rfl rfl rfl h.fast h.looked, ⟨rfl, rfl, rfl⟩, rfl⟩

theorem reset_spec (h : Inv watch) (hstep : watch.next sizes .reset = some following) :
    Inv following ∧ Owed watch.usb .reset following.usb := by
  obtain ⟨usb, hnext, rfl⟩ := Watch.next_eq hstep
  obtain ⟨-, rfl⟩ := stands_of_next hnext
  exact ⟨h.of_same_pool .reset (reset_conserved h.conserved) rfl rfl rfl h.fast h.looked, rfl, rfl⟩

theorem pool_spec (h : Inv watch) {event : Tx.Event size}
    (hdelivered : Delivered watch.usb (.pool event))
    (hstep : watch.next sizes (.pool event) = some following) :
    Inv following ∧ Owed watch.usb (.pool event) following.usb := by
  obtain ⟨usb, hnext, rfl⟩ := Watch.next_eq hstep
  obtain ⟨-, hmap⟩ := Option.ite_none_right_eq_some.mp hnext
  obtain ⟨pool, hpool, rfl⟩ := Option.map_eq_some_iff.mp hmap
  exact ⟨h.of_uncounted (.pool event) (h.conserved.of_places (.refl _) rfl rfl rfl (.refl _) rfl)
    (Tx.next_held h.held hdelivered hpool) nofun rfl rfl h.fast h.looked, rfl, rfl⟩

/-! ## Runs -/

/-- What every step that meets the condition does. -/
theorem next_spec (h : Inv watch) (hdelivered : Delivered watch.usb event)
    (hstep : watch.next sizes event = some following) :
    Inv following ∧ Owed watch.usb event following.usb := by
  cases event with
  | start => exact start_spec h hstep
  | complete req packet status enabled => exact complete_spec h hdelivered hstep
  | look => exact look_spec h hstep
  | flushLook => exact flushLook_spec h hstep
  | takeOther => exact takeOther_spec h hstep
  | check => exact check_spec h hdelivered hstep
  | unlink => exact unlink_spec h hdelivered hstep
  | submit accepted => exact submit_spec h hdelivered hstep
  | claim => exact claim_spec h hdelivered hstep
  | insert => exact insert_spec h hstep
  | stagingLook => exact stagingLook_spec h hstep
  | stagingUnlink ele => exact stagingUnlink_spec h hdelivered hstep
  | stagingSubmit ele accepted => exact stagingSubmit_spec h hdelivered hstep
  | reset => exact reset_spec h hstep
  | pool event => exact pool_spec h hdelivered hstep

/-- Before the first step nothing is allocated. -/
theorem init_inv (size : Nat) : Inv ⟨UsbOut.init size, 0⟩ :=
  ⟨⟨.refl _, .refl _, rfl⟩, ⟨rfl, rfl⟩, (Tx.init_holdsAll size).imp fun _ h => h.1, trivial, nofun⟩

/-- A header of two bytes, and slots of one. -/
def sampleSizes : Sizes := ⟨2, 1, 4⟩

/-- A good packet of one slot. -/
def samplePacket : Packet := ⟨Eth.txMagic, 1, 7, 3⟩

/-- A packet without framing. -/
def strayPacket : Packet := ⟨0, 1, 7, 3⟩

end RfnmDriver.Usb.Out
