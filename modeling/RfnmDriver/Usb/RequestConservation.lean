import RfnmDriver.Usb.RequestPool

/-!
# Conservation of the USB IN request pool

Between critical sections a request is on one of the three lists or in the hand of one context.
Two steps break this. The full-packet ship moves an element through pointers it copied outside the
locks, and a completion that appended to a one-entry free list meanwhile is unlinked with it
(`append_after_copy_loses_request`). Flush mode frees the element of every pooled request and
queues the request untracked, and when it completes the request is created a second time.
Read `conserved_of_undisturbed` first.
-/

namespace RfnmDriver.Usb

open KernelList KernelList.Links StepSystem Head

variable {pool following : Pool} {contents : Head → List Nat} {ele : Nat} {head : Head}

/-! ## Reading the holders -/

/-- The holders as one account: the three lists, and everything off the lists. -/
theorem Pool.holdsAll_iff : pool.HoldsAll contents ↔ Accounts pool.links contents
    (pool.inHand ++ pool.freed) (List.range pool.created) := by
  have htotal : ∀ ele, total contents ele = (contents reqBufferIn).count ele +
      (contents reqBufferInUsb).count ele + (contents reqInflightIn).count ele := by
    intro ele
    rw [Nat.add_assoc]
    rfl
  refine Accounts.iff_perm fun ele => ?_
  rw [htotal]
  simp only [List.count_append]
  omega

alias ⟨Pool.HoldsAll.account, holdsAll_of_account⟩ := Pool.holdsAll_iff

/-- The lists read off the pointers are the represented ones. -/
theorem Pool.HoldsAll.contents_eq (h : pool.HoldsAll contents) : pool.contents = contents :=
  h.account.read_eq (by simp)

/-- A pool whose holders hold everything is conserved. -/
theorem Pool.HoldsAll.conserved (h : pool.HoldsAll contents) : pool.Conserved := by
  have hlength := h.2.length_eq
  simp only [List.length_append, List.length_range] at hlength
  rw [Pool.Conserved, h.contents_eq]
  exact ⟨h, by omega⟩

/-- The first element of a list is on it. -/
theorem Pool.HoldsAll.first_mem (h : pool.HoldsAll contents) (hfirst : first pool head = some ele) :
    ele ∈ contents head :=
  List.mem_of_head? ((h.account.first_eq head).symm.trans hfirst)

/-- An empty list has no first element. -/
theorem Pool.HoldsAll.first_none (h : pool.HoldsAll contents) (hempty : contents head = []) :
    first pool head = none := by
  rw [first, h.account.first_eq, hempty]
  rfl

/-- Appending to a list tracks nothing. -/
@[simp] theorem append_inflightCnt (pool : Pool) (ele : Nat) (head : Head) :
    (append pool ele head).inflightCnt = pool.inflightCnt :=
  rfl

/-- Nor does unlinking. -/
@[simp] theorem unlink_inflightCnt (pool : Pool) (ele : Nat) :
    (unlink pool ele).inflightCnt = pool.inflightCnt :=
  rfl

/-! ## The invariant -/

/-- Every request is held; the element a worker is about to unlink is still on its list, and only
tracked requests complete. -/
structure Inv (pool : Pool) (contents : Head → List Nat) : Prop where
  holds : pool.HoldsAll contents
  peeked : ∀ ele, pool.worker = .peeked ele → ele ∈ contents reqBufferInUsb
  tracked : ∀ ele, pool.worker = .tracked ele → ele ∈ contents reqInflightIn ∧ ele ∉ pool.atUdc
  udc : ∀ ele ∈ pool.atUdc, ele ∈ contents reqInflightIn
  udc_nodup : pool.atUdc.Nodup
  not_flushing : ∀ ele, pool.worker ≠ .flushing ele

/-- A step keeps the invariant, and `rfnm_usb_inflight_cnt` goes with the length of the in-flight
list. -/
def Keeps (pool : Pool) (contents : Head → List Nat) (following : Pool) : Prop :=
  ∃ contents', Inv following contents' ∧
    (pool.inflightCnt = (contents reqInflightIn).length →
      following.inflightCnt = (contents' reqInflightIn).length)

/-- A step that looks and finds nothing. -/
theorem Inv.idle (h : Inv pool contents) : Keeps pool contents pool :=
  ⟨contents, h, id⟩

/-- Unlinking an element from its list into a hand. -/
theorem unlink_holdsAll (h : pool.HoldsAll contents) (hmem : ele ∈ contents head)
    (hlinks : following.links = pool.links.del (.inr ele)) (hfreed : following.freed = pool.freed)
    (hcreated : following.created = pool.created)
    (hhand : ∀ other, following.inHand.count other =
      pool.inHand.count other + if ele == other then 1 else 0) :
    following.HoldsAll (Function.update contents head ((contents head).erase ele)) := by
  rw [Pool.holdsAll_iff, hlinks, hfreed, hcreated]
  refine h.account.take hmem fun other => ?_
  rw [List.count_append, List.count_append, hhand]
  omega

/-- Appending an element from a hand to a list. -/
theorem append_holdsAll (h : pool.HoldsAll contents)
    (hlinks : following.links = pool.links.addTail (.inr ele) (.inl head))
    (hfreed : following.freed = pool.freed) (hcreated : following.created = pool.created)
    (hhand : ∀ other, pool.inHand.count other =
      following.inHand.count other + if ele == other then 1 else 0) :
    following.HoldsAll (Function.update contents head (contents head ++ [ele])) := by
  rw [Pool.holdsAll_iff, hlinks, hfreed, hcreated]
  refine h.account.give List.nodup_range head fun other => ?_
  rw [List.count_append, List.count_append, hhand]
  omega

/-- What does not touch the lists, the hands, the freed requests and the count of the created ones
keeps every request held. -/
theorem same_holdsAll (h : pool.HoldsAll contents) (hlinks : following.links = pool.links)
    (hfreed : following.freed = pool.freed) (hcreated : following.created = pool.created)
    (hhand : following.inHand = pool.inHand) : following.HoldsAll contents := by
  unfold Pool.HoldsAll
  rw [hlinks, hfreed, hcreated, hhand]
  exact h

/-- A request in a hand is freed. -/
theorem free_holdsAll (h : pool.HoldsAll contents) (hlinks : following.links = pool.links)
    (hfreed : following.freed = ele :: pool.freed) (hcreated : following.created = pool.created)
    (hhand : ∀ other, pool.inHand.count other =
      following.inHand.count other + if ele == other then 1 else 0) :
    following.HoldsAll contents := by
  rw [Pool.holdsAll_iff, hlinks, hfreed, hcreated]
  refine h.account.trade fun other => ?_
  rw [List.count_append, List.count_append, List.count_cons, hhand]
  omega

/-- A worker that neither is about to unlink an element nor waits for `usb_ep_queue`. -/
def Worker.Quiet (worker : Worker) : Prop :=
  ∀ ele, worker ≠ .peeked ele ∧ worker ≠ .tracked ele ∧ worker ≠ .flushing ele

/-- A step that leaves the lists alone keeps the invariant when it keeps every request held and
the worker where it is or makes it quiet. -/
theorem Inv.same (h : Inv pool contents) (hholds : following.HoldsAll contents)
    (hworker : following.worker = pool.worker ∨ following.worker.Quiet)
    (hudc : following.atUdc = pool.atUdc) : Inv following contents := by
  refine ⟨hholds, fun ele hele => ?_, fun ele hele => ?_, by rw [hudc]; exact h.udc,
    by rw [hudc]; exact h.udc_nodup, fun ele hele => ?_⟩
  · rcases hworker with hworker | hworker
    · exact h.peeked ele (hworker ▸ hele)
    · exact absurd hele (hworker ele).1
  · rcases hworker with hworker | hworker
    · rw [hudc]
      exact h.tracked ele (hworker ▸ hele)
    · exact absurd hele (hworker ele).2.1
  · rcases hworker with hworker | hworker
    · exact h.not_flushing ele (hworker ▸ hele)
    · exact (hworker ele).2.2 hele

/-- A step that appends an element keeps the invariant when it keeps every request held and the
worker where it is or makes it quiet. -/
theorem Inv.append (h : Inv pool contents) (head : Head) (ele : Nat)
    (hholds : following.HoldsAll (Function.update contents head (contents head ++ [ele])))
    (hworker : following.worker = pool.worker ∨ following.worker.Quiet)
    (hudc : following.atUdc = pool.atUdc) :
    Inv following (Function.update contents head (contents head ++ [ele])) := by
  refine ⟨hholds, fun other hother => ?_, fun other hother => ?_, fun other hother => ?_,
    by rw [hudc]; exact h.udc_nodup, fun other hother => ?_⟩
  · rcases hworker with hworker | hworker
    · exact mem_update_append head ele (h.peeked other (hworker ▸ hother))
    · exact absurd hother (hworker other).1
  · rcases hworker with hworker | hworker
    · obtain ⟨hmem, hnot⟩ := h.tracked other (hworker ▸ hother)
      exact ⟨mem_update_append head ele hmem, hudc ▸ hnot⟩
    · exact absurd hother (hworker other).2.1
  · exact mem_update_append head ele (h.udc other (hudc ▸ hother))
  · rcases hworker with hworker | hworker
    · exact h.not_flushing other (hworker ▸ hother)
    · exact (hworker other).2.2 hother

/-- A step that unlinks an element no completion is expected for keeps the invariant when it keeps
every request held, and the worker was not about to use that element or becomes quiet. -/
theorem Inv.unlink (h : Inv pool contents) (head : Head) (ele : Nat)
    (hholds : following.HoldsAll (Function.update contents head ((contents head).erase ele)))
    (hworker : following.worker = pool.worker ∧ (head = reqBufferIn ∨
      head = reqInflightIn ∧ ∀ other, pool.worker = .tracked other → other ≠ ele) ∨
        following.worker.Quiet)
    (hudc : ∀ other ∈ following.atUdc, other ∈ pool.atUdc ∧ (head = reqInflightIn → other ≠ ele))
    (hnodup : following.atUdc.Nodup) :
    Inv following (Function.update contents head ((contents head).erase ele)) := by
  refine ⟨hholds, fun other hother => ?_, fun other hother => ?_, fun other hother => ?_,
    hnodup, fun other hother => ?_⟩
  · rcases hworker with ⟨hworker, hhead⟩ | hworker
    · refine mem_update_erase head ele (h.peeked other (hworker ▸ hother)) (.inl ?_)
      rcases hhead with rfl | ⟨rfl, -⟩ <;> simp
    · exact absurd hother (hworker other).1
  · rcases hworker with ⟨hworker, hhead⟩ | hworker
    · obtain ⟨hmem, hnot⟩ := h.tracked other (hworker ▸ hother)
      refine ⟨mem_update_erase head ele hmem ?_, fun hin => hnot (hudc other hin).1⟩
      rcases hhead with rfl | ⟨rfl, hne⟩
      · exact .inl (by simp)
      · exact .inr (hne other (hworker ▸ hother))
    · exact absurd hother (hworker other).2.1
  · obtain ⟨hin, hne⟩ := hudc other hother
    refine mem_update_erase head ele (h.udc other hin) ?_
    by_cases hhead : head = reqInflightIn
    · exact .inr (hne hhead)
    · exact .inl (Ne.symm hhead)
  · rcases hworker with ⟨hworker, -⟩ | hworker
    · exact h.not_flushing other (hworker ▸ hother)
    · exact (hworker other).2.2 hother

/-! ## The completions -/

/-- A completion without context adds one created request, in its hand. -/
theorem adopt_inv (h : Inv pool contents) : Inv (adopt pool) contents := by
  refine h.same (holdsAll_of_account ⟨h.holds.1, fun other => ?_⟩) (.inl rfl) rfl
  have hcount := h.holds.account.count other
  simp only [adopt, Pool.inHand, List.count_append, List.count_cons, List.range_succ,
    List.count_nil] at hcount ⊢
  omega

theorem adopt_keeps (h : Inv pool contents) (hstep : next pool .adopt = some following) :
    Keeps pool contents following := by
  obtain rfl := Option.some.inj hstep
  exact ⟨contents, adopt_inv h, id⟩

/-- A completion with context takes its element off the in-flight list. -/
theorem complete_inv (h : Inv pool contents) (hmem : ele ∈ pool.atUdc) :
    Inv (complete pool ele)
      (Function.update contents reqInflightIn ((contents reqInflightIn).erase ele)) := by
  refine h.unlink reqInflightIn ele ?_ ?_ ?_ ?_
  · refine unlink_holdsAll h.holds (h.udc ele hmem) rfl rfl rfl fun other => ?_
    simp only [complete, unlink, Pool.inHand, List.count_append, List.count_cons]
    omega
  · -- a request the worker has yet to queue is not at the controller, so it cannot complete
    refine .inl ⟨rfl, .inr ⟨rfl, fun other hother => ?_⟩⟩
    rintro rfl
    exact (h.tracked other hother).2 hmem
  · intro other hother
    have hin : other ∈ pool.atUdc.erase ele := hother
    obtain ⟨hne, hold⟩ := h.udc_nodup.mem_erase_iff.mp hin
    exact ⟨hold, fun _ => hne⟩
  · exact h.udc_nodup.erase ele

theorem complete_keeps (h : Inv pool contents)
    (hstep : next pool (.complete ele) = some following) : Keeps pool contents following := by
  obtain ⟨hmem, rfl⟩ := of_guard hstep
  have hin := h.udc ele hmem
  exact ⟨_, complete_inv h hmem, fun hcnt => by simp [complete, hcnt, hin]⟩

/-- A completion's element goes back to the free list. -/
theorem readd_inv (h : Inv pool contents) (hmem : ele ∈ pool.completing) :
    Inv (readd pool ele)
      (Function.update contents reqBufferIn (contents reqBufferIn ++ [ele])) := by
  refine h.append _ _ (append_holdsAll h.holds rfl rfl rfl fun other => ?_) (.inl rfl) rfl
  have herase := count_erase_add hmem other
  simp only [readd, append, Pool.inHand, List.count_append]
  omega

theorem readd_keeps (h : Inv pool contents) (hstep : next pool (.readd ele) = some following) :
    Keeps pool contents following := by
  obtain ⟨hmem, rfl⟩ := of_guard hstep
  exact ⟨_, readd_inv h hmem, fun hcnt => by simpa [readd] using hcnt⟩

/-- A completion frees its request. -/
theorem completeDestroy_inv (h : Inv pool contents) (hmem : ele ∈ pool.completing) :
    Inv (completeDestroy pool ele) contents := by
  refine h.same (free_holdsAll h.holds rfl rfl rfl fun other => ?_) (.inl rfl) rfl
  have herase := count_erase_add hmem other
  simp only [completeDestroy, Pool.inHand, List.count_append]
  omega

theorem completeDestroy_keeps (h : Inv pool contents)
    (hstep : next pool (.completeDestroy ele) = some following) :
    Keeps pool contents following := by
  obtain ⟨hmem, rfl⟩ := of_guard hstep
  exact ⟨contents, completeDestroy_inv h hmem, id⟩

/-! ## The full-packet ship -/

/-- The full-packet ship looks at an element; it stays on the free list until the move. -/
theorem shipPeek_keeps (h : Inv pool contents) (hstep : next pool .shipPeek = some following) :
    Keeps pool contents following := by
  simp only [next] at hstep
  split at hstep
  · next ele hproducer hfirst =>
      obtain rfl := Option.some.inj hstep
      refine ⟨contents, h.same (same_holdsAll h.holds rfl rfl rfl ?_) (.inl rfl) rfl, id⟩
      simp [Pool.inHand, Producer.hand, hproducer]
  · obtain rfl := Option.some.inj hstep
    exact h.idle
  · cases hstep

/-- So does the copy of its pointers leave it there. -/
theorem shipCopy_keeps (h : Inv pool contents) (hstep : next pool .shipCopy = some following) :
    Keeps pool contents following := by
  simp only [next] at hstep
  split at hstep
  · next ele hproducer =>
      obtain rfl := Option.some.inj hstep
      refine ⟨contents, h.same (same_holdsAll h.holds rfl rfl rfl ?_) (.inl rfl) rfl, id⟩
      simp [Pool.inHand, Producer.hand, hproducer]
  · cases hstep

/-- With a current copy the full-packet ship moves its element from the free to the staged list. -/
theorem shipMove_inv (h : Inv pool contents) {before after : Node}
    (hproducer : pool.producer = .copied ele before after) (hmem : ele ∈ contents reqBufferIn)
    (hbefore : pool.links.prev (.inr ele) = before)
    (hafter : pool.links.next (.inr ele) = after) :
    Inv { pool with
      links := pool.links.moveSnapshot (.inr ele) (.inl reqBufferInUsb) before after
      producer := .idle }
      (Function.update (Function.update contents reqBufferIn ((contents reqBufferIn).erase ele))
        reqBufferInUsb (contents reqBufferInUsb ++ [ele])) := by
  have hne : reqBufferIn ≠ reqBufferInUsb := by simp
  have hmoved := h.holds.account.moveSnapshot hne hmem hbefore hafter
  have hkeep : ∀ {other : Nat} {head : Head}, head ≠ reqBufferIn → other ∈ contents head →
      other ∈ Function.update (Function.update contents reqBufferIn
        ((contents reqBufferIn).erase ele)) reqBufferInUsb (contents reqBufferInUsb ++ [ele])
          head := by
    intro other head hhead hin
    have happend := mem_update_append reqBufferInUsb ele
      (mem_update_erase reqBufferIn ele hin (.inl hhead))
    rwa [Function.update_of_ne hne.symm] at happend
  refine ⟨holdsAll_of_account (hmoved.trade fun other => ?_), fun other hother => ?_,
    fun other hother => ?_, fun other hother => ?_, h.udc_nodup, h.not_flushing⟩
  · simp [Pool.inHand, Producer.hand, hproducer]
  · exact hkeep (by simp) (h.peeked other hother)
  · obtain ⟨hin, hnot⟩ := h.tracked other hother
    exact ⟨hkeep (by simp) hin, hnot⟩
  · exact hkeep (by simp) (h.udc other hother)

theorem shipMove_keeps (h : Inv pool contents) (hundisturbed : Undisturbed pool .shipMove)
    (hstep : next pool .shipMove = some following) : Keeps pool contents following := by
  simp only [next] at hstep
  split at hstep
  · next ele before after hproducer =>
      obtain rfl := Option.some.inj hstep
      simp only [Undisturbed, hproducer] at hundisturbed
      rw [h.holds.contents_eq] at hundisturbed
      obtain ⟨hmem, hbefore, hafter⟩ := hundisturbed
      exact ⟨_, shipMove_inv h hproducer hmem hbefore hafter, fun hcnt => by simpa using hcnt⟩
  · cases hstep

/-! ## The partial flush -/

/-- The partial flush takes the first free element into its hand. -/
theorem partialPop_inv (h : Inv pool contents) (hproducer : pool.producer = .idle)
    (hmem : ele ∈ contents reqBufferIn) :
    Inv { unlink pool ele with producer := .holding ele }
      (Function.update contents reqBufferIn ((contents reqBufferIn).erase ele)) := by
  refine h.unlink _ _ (unlink_holdsAll h.holds hmem rfl rfl rfl fun other => ?_)
    (.inl ⟨rfl, .inl rfl⟩) (fun other hother => ⟨hother, by simp⟩) h.udc_nodup
  simp only [unlink, Pool.inHand, Producer.hand, hproducer, List.count_append,
    List.count_cons, List.count_nil]
  omega

theorem partialPop_keeps (h : Inv pool contents) (hstep : next pool .partialPop = some following) :
    Keeps pool contents following := by
  simp only [next] at hstep
  split at hstep
  · next ele hproducer hfirst =>
      obtain rfl := Option.some.inj hstep
      exact ⟨_, partialPop_inv h hproducer (h.holds.first_mem hfirst),
        fun hcnt => by simpa using hcnt⟩
  · obtain rfl := Option.some.inj hstep
    exact h.idle
  · cases hstep

/-- The partial flush stages the element of its hand. -/
theorem partialStage_inv (h : Inv pool contents) (hproducer : pool.producer = .holding ele) :
    Inv { append pool ele reqBufferInUsb with producer := .idle }
      (Function.update contents reqBufferInUsb (contents reqBufferInUsb ++ [ele])) := by
  refine h.append _ _ (append_holdsAll h.holds rfl rfl rfl fun other => ?_) (.inl rfl) rfl
  simp only [append, Pool.inHand, Producer.hand, hproducer, List.count_append,
    List.count_cons, List.count_nil]
  omega

theorem partialStage_keeps (h : Inv pool contents)
    (hstep : next pool .partialStage = some following) : Keeps pool contents following := by
  simp only [next] at hstep
  split at hstep
  · next ele hproducer =>
      obtain rfl := Option.some.inj hstep
      exact ⟨_, partialStage_inv h hproducer, fun hcnt => by simpa using hcnt⟩
  · cases hstep

/-! ## The worker -/

/-- The worker sees an element at the head of the staged list. -/
theorem workerPeek_inv (h : Inv pool contents) (hworker : pool.worker = .idle)
    (hmem : ele ∈ contents reqBufferInUsb) : Inv { pool with worker := .peeked ele } contents := by
  refine ⟨same_holdsAll h.holds rfl rfl rfl ?_, fun other hother => ?_, by simp, h.udc,
    h.udc_nodup, by simp⟩
  · simp [Pool.inHand, Worker.hand, hworker]
  · obtain rfl : ele = other := by simpa using hother
    exact hmem

theorem workerPeek_keeps (h : Inv pool contents) (hstep : next pool .workerPeek = some following) :
    Keeps pool contents following := by
  simp only [next] at hstep
  split at hstep
  · next ele hworker hfirst =>
      obtain rfl := Option.some.inj hstep
      exact ⟨contents, workerPeek_inv h hworker (h.holds.first_mem hfirst), id⟩
  · obtain rfl := Option.some.inj hstep
    exact h.idle
  · cases hstep

/-- The worker takes the element it saw, which is still there. -/
theorem workerTake_inv (h : Inv pool contents) (hworker : pool.worker = .peeked ele) :
    Inv { unlink pool ele with worker := .holding ele }
      (Function.update contents reqBufferInUsb ((contents reqBufferInUsb).erase ele)) := by
  refine h.unlink _ _ (unlink_holdsAll h.holds (h.peeked ele hworker) rfl rfl rfl
    fun other => ?_) (.inr (by simp [Worker.Quiet])) (fun other hother => ⟨hother, by simp⟩)
      h.udc_nodup
  simp only [unlink, Pool.inHand, Worker.hand, hworker, List.count_append,
    List.count_cons, List.count_nil]
  omega

theorem workerTake_keeps (h : Inv pool contents) (hstep : next pool .workerTake = some following) :
    Keeps pool contents following := by
  simp only [next] at hstep
  split at hstep
  · next ele hworker =>
      obtain rfl := Option.some.inj hstep
      exact ⟨_, workerTake_inv h hworker, fun hcnt => by simpa using hcnt⟩
  · cases hstep

/-- The worker appends the element it took to the in-flight list; nothing completes it yet. -/
theorem workerTrack_inv (h : Inv pool contents) (hworker : pool.worker = .holding ele) :
    Inv { append pool ele reqInflightIn with
      worker := .tracked ele
      inflightCnt := pool.inflightCnt + 1 }
      (Function.update contents reqInflightIn (contents reqInflightIn ++ [ele])) := by
  have hhand : ele ∈ pool.inHand ++ pool.freed := by simp [Pool.inHand, Worker.hand, hworker]
  have hnew := h.holds.account.not_mem_of_hand List.nodup_range hhand
  refine ⟨append_holdsAll h.holds rfl rfl rfl fun other => ?_, by simp, fun other hother => ?_,
    fun other hother => mem_update_append reqInflightIn ele (h.udc other hother), h.udc_nodup,
    by simp⟩
  · simp only [append, Pool.inHand, Worker.hand, hworker, List.count_append, List.count_cons,
      List.count_nil]
    omega
  · obtain rfl : ele = other := by simpa using hother
    exact ⟨by simp, fun hin => hnew _ (h.udc ele hin)⟩

theorem workerTrack_keeps (h : Inv pool contents)
    (hstep : next pool .workerTrack = some following) : Keeps pool contents following := by
  simp only [next] at hstep
  split at hstep
  · next ele hworker =>
      obtain rfl := Option.some.inj hstep
      exact ⟨_, workerTrack_inv h hworker, fun hcnt => by simp [hcnt]⟩
  · cases hstep

/-- A queued request may complete from now on. -/
theorem workerQueued_inv (h : Inv pool contents) (hworker : pool.worker = .tracked ele) :
    Inv { pool with worker := .idle, atUdc := ele :: pool.atUdc } contents := by
  obtain ⟨hmem, hnot⟩ := h.tracked ele hworker
  refine ⟨same_holdsAll h.holds rfl rfl rfl ?_, by simp, by simp, ?_,
    List.nodup_cons.mpr ⟨hnot, h.udc_nodup⟩, by simp⟩
  · simp [Pool.inHand, Worker.hand, hworker]
  · rintro other (_ | ⟨_, hother⟩)
    · exact hmem
    · exact h.udc other hother

theorem workerQueued_keeps (h : Inv pool contents)
    (hstep : next pool .workerQueued = some following) : Keeps pool contents following := by
  simp only [next] at hstep
  split at hstep
  · next ele hworker =>
      obtain rfl := Option.some.inj hstep
      exact ⟨contents, workerQueued_inv h hworker, id⟩
  · cases hstep

/-- A request that failed to queue leaves the in-flight list again. -/
theorem workerFail_inv (h : Inv pool contents) (hworker : pool.worker = .tracked ele) :
    Inv { unlink pool ele with
      worker := .failed ele
      inflightCnt := pool.inflightCnt - 1 }
      (Function.update contents reqInflightIn ((contents reqInflightIn).erase ele)) := by
  obtain ⟨hmem, hnot⟩ := h.tracked ele hworker
  refine h.unlink _ _ (unlink_holdsAll h.holds hmem rfl rfl rfl fun other => ?_)
    (.inr (by simp [Worker.Quiet]))
      (fun other hother => ⟨hother, fun _ => ne_of_mem_of_not_mem hother hnot⟩) h.udc_nodup
  simp only [unlink, Pool.inHand, Worker.hand, hworker, List.count_append,
    List.count_cons, List.count_nil]
  omega

theorem workerFail_keeps (h : Inv pool contents) (hstep : next pool .workerFail = some following) :
    Keeps pool contents following := by
  simp only [next] at hstep
  split at hstep
  · next ele hworker =>
      obtain rfl := Option.some.inj hstep
      have hin := (h.tracked ele hworker).1
      exact ⟨_, workerFail_inv h hworker, fun hcnt => by simp [hcnt, hin]⟩
  · cases hstep

/-- After a transient failure the element is free again. -/
theorem workerRecycle_inv (h : Inv pool contents) (hworker : pool.worker = .failed ele) :
    Inv { append pool ele reqBufferIn with worker := .idle }
      (Function.update contents reqBufferIn (contents reqBufferIn ++ [ele])) := by
  refine h.append _ _ (append_holdsAll h.holds rfl rfl rfl fun other => ?_)
    (.inr (by simp [Worker.Quiet])) rfl
  simp only [append, Pool.inHand, Worker.hand, hworker, List.count_append,
    List.count_cons, List.count_nil]
  omega

theorem workerRecycle_keeps (h : Inv pool contents)
    (hstep : next pool .workerRecycle = some following) : Keeps pool contents following := by
  simp only [next] at hstep
  split at hstep
  · next ele hworker =>
      obtain rfl := Option.some.inj hstep
      exact ⟨_, workerRecycle_inv h hworker, fun hcnt => by simpa using hcnt⟩
  · cases hstep

/-- After a teardown failure the request is freed. -/
theorem workerDestroy_inv (h : Inv pool contents) (hworker : pool.worker = .failed ele) :
    Inv { pool with worker := .idle, freed := ele :: pool.freed } contents := by
  refine h.same (free_holdsAll h.holds rfl rfl rfl fun other => ?_)
    (.inr (by simp [Worker.Quiet])) rfl
  simp only [Pool.inHand, Worker.hand, hworker, List.count_append, List.count_cons,
    List.count_nil]
  omega

theorem workerDestroy_keeps (h : Inv pool contents)
    (hstep : next pool .workerDestroy = some following) : Keeps pool contents following := by
  simp only [next] at hstep
  split at hstep
  · next ele hworker =>
      obtain rfl := Option.some.inj hstep
      exact ⟨contents, workerDestroy_inv h hworker, id⟩
  · cases hstep

/-! ## Flush mode -/

/-- Flush mode finds the list empty, and goes on. -/
theorem flushPeek_keeps (h : Inv pool contents) (hundisturbed : Undisturbed pool (.flushPeek head))
    (hstep : next pool (.flushPeek head) = some following) : Keeps pool contents following := by
  have hempty : contents head = [] := by
    simpa [Undisturbed, h.holds.contents_eq] using hundisturbed
  have hfirst := h.holds.first_none hempty
  simp only [next, hfirst] at hstep
  split at hstep
  · cases hstep
  · simp_all
  · obtain rfl := Option.some.inj hstep
    exact h.idle
  · cases hstep

/-- So it has nothing to take. -/
theorem flushTake_keeps (h : Inv pool contents) (hstep : next pool .flushTake = some following) :
    Keeps pool contents following := by
  simp only [next] at hstep
  split at hstep
  · next ele hworker => exact absurd hworker (h.not_flushing ele)
  · cases hstep

/-! ## The stream reset -/

/-- The reset takes a staged element into its hand; the worker is stopped. -/
theorem resetPop_inv (h : Inv pool contents) (hworker : pool.worker = .idle)
    (hresetting : pool.resetting = none) (hmem : ele ∈ contents reqBufferInUsb) :
    Inv { unlink pool ele with resetting := some ele }
      (Function.update contents reqBufferInUsb ((contents reqBufferInUsb).erase ele)) := by
  refine h.unlink _ _ (unlink_holdsAll h.holds hmem rfl rfl rfl fun other => ?_)
    (.inr (by simp [Worker.Quiet, unlink, hworker])) (fun other hother => ⟨hother, by simp⟩)
      h.udc_nodup
  simp only [unlink, Pool.inHand, hresetting, Option.toList_some, Option.toList_none,
    List.count_append, List.count_cons, List.count_nil]
  omega

theorem resetPop_keeps (h : Inv pool contents) (hstep : next pool .resetPop = some following) :
    Keeps pool contents following := by
  simp only [next] at hstep
  split at hstep
  · next ele hproducer hworker hresetting hfirst =>
      obtain rfl := Option.some.inj hstep
      exact ⟨_, resetPop_inv h hworker hresetting (h.holds.first_mem hfirst),
        fun hcnt => by simpa using hcnt⟩
  · obtain rfl := Option.some.inj hstep
    exact h.idle
  · cases hstep

/-- The reset frees the element of its hand. -/
theorem resetPush_inv (h : Inv pool contents) (hresetting : pool.resetting = some ele) :
    Inv { append pool ele reqBufferIn with resetting := none }
      (Function.update contents reqBufferIn (contents reqBufferIn ++ [ele])) := by
  refine h.append _ _ (append_holdsAll h.holds rfl rfl rfl fun other => ?_) (.inl rfl) rfl
  simp only [append, Pool.inHand, hresetting, Option.toList_some, Option.toList_none,
    List.count_append, List.count_cons, List.count_nil]
  omega

theorem resetPush_keeps (h : Inv pool contents) (hstep : next pool .resetPush = some following) :
    Keeps pool contents following := by
  simp only [next] at hstep
  split at hstep
  · next ele hresetting =>
      obtain rfl := Option.some.inj hstep
      exact ⟨_, resetPush_inv h hresetting, fun hcnt => by simpa using hcnt⟩
  · cases hstep

/-! ## The top-up -/

/-- The deficit is computed from the lists and changes none. -/
theorem topupCount_keeps (h : Inv pool contents)
    (hstep : next pool .topupCount = some following) : Keeps pool contents following := by
  obtain rfl := Option.some.inj hstep
  exact ⟨contents, h.same (same_holdsAll h.holds rfl rfl rfl rfl) (.inl rfl) rfl, id⟩

/-- The top-up mints a request into the free list. -/
theorem topupAdd_inv (h : Inv pool contents) : Inv (topupAdd pool)
    (Function.update contents reqBufferIn (contents reqBufferIn ++ [pool.created])) := by
  refine h.append reqBufferIn pool.created ?_ (.inl rfl) rfl
  refine holdsAll_of_account (h.holds.account.mint (by simp) reqBufferIn (fun _ => rfl)
    fun other => ?_)
  simp only [topupAdd, List.range_succ, List.count_append, List.count_singleton]

theorem topupAdd_keeps (h : Inv pool contents) (hstep : next pool .topupAdd = some following) :
    Keeps pool contents following := by
  obtain ⟨-, rfl⟩ : ¬pool.deficit = 0 ∧ topupAdd pool = following := by
    simpa [next] using hstep
  exact ⟨_, topupAdd_inv h, fun hcnt => by simpa [topupAdd] using hcnt⟩

/-! ## Runs -/

/-- The invariant, with the lists it is about left open. -/
def Pool.Sound (pool : Pool) : Prop :=
  ∃ contents, Inv pool contents

/-- Three empty lists and no request. -/
theorem init_sound : Pool.init.Sound := by
  have hempty : Pool.init.links.Represents fun _ => [] :=
    represents_empty fun head => by cases head <;> simp [Pool.init, initHead]
  exact ⟨_, ⟨hempty, .refl _⟩, by simp [Pool.init], by simp [Pool.init], by simp [Pool.init],
    List.nodup_nil, by simp [Pool.init]⟩

/-- Every undisturbed step keeps the invariant. -/
theorem next_inv {event : Event} (h : Inv pool contents) (hundisturbed : Undisturbed pool event)
    (hstep : next pool event = some following) : Keeps pool contents following := by
  cases event with
  | adopt => exact adopt_keeps h hstep
  | complete ele => exact complete_keeps h hstep
  | readd ele => exact readd_keeps h hstep
  | completeDestroy ele => exact completeDestroy_keeps h hstep
  | shipPeek => exact shipPeek_keeps h hstep
  | shipCopy => exact shipCopy_keeps h hstep
  | shipMove => exact shipMove_keeps h hundisturbed hstep
  | partialPop => exact partialPop_keeps h hstep
  | partialStage => exact partialStage_keeps h hstep
  | workerPeek => exact workerPeek_keeps h hstep
  | workerTake => exact workerTake_keeps h hstep
  | workerTrack => exact workerTrack_keeps h hstep
  | workerQueued => exact workerQueued_keeps h hstep
  | workerFail => exact workerFail_keeps h hstep
  | workerRecycle => exact workerRecycle_keeps h hstep
  | workerDestroy => exact workerDestroy_keeps h hstep
  | flushPeek head => exact flushPeek_keeps h hundisturbed hstep
  | flushTake => exact flushTake_keeps h hstep
  | topupCount => exact topupCount_keeps h hstep
  | topupAdd => exact topupAdd_keeps h hstep
  | resetPop => exact resetPop_keeps h hstep
  | resetPush => exact resetPush_keeps h hstep

/-- Every undisturbed step keeps the pool sound. -/
theorem next_sound {event : Event} (h : pool.Sound) (hundisturbed : Undisturbed pool event)
    (hstep : next pool event = some following) : following.Sound := by
  obtain ⟨contents, h⟩ := h
  obtain ⟨contents', h', -⟩ := next_inv h hundisturbed hstep
  exact ⟨contents', h'⟩

/-- In every interleaving in which the full-packet ship's copy is current whenever it moves an
element through it and flush mode finds no request to take, every request is at all times on
exactly one list or in one hand, and the requests created, less the freed ones, are as many. -/
theorem conserved_of_undisturbed (events : List Event)
    (hundisturbed : Guarded next Undisturbed Pool.init events) :
    Always next Pool.Conserved Pool.init events := by
  have hkeep : ∀ (pool : Pool) event following, pool.Sound → Undisturbed pool event →
      next pool event = some following → following.Sound := fun _ _ _ => next_sound
  refine (always_of_guarded hkeep init_sound hundisturbed).mono ?_
  intro pool ⟨contents, h⟩
  exact h.holds.conserved

/-- A run through every context: two requests are adopted, one is shipped while a third is
returned to the free list, one fails to queue, one completes. -/
theorem conserved_of_undisturbed_run :
    Always next Pool.Conserved Pool.init
      [.adopt, .readd 0, .adopt, .readd 1, .shipPeek, .shipCopy, .adopt, .readd 2, .shipMove,
        .workerPeek, .workerTake, .workerTrack, .workerQueued, .partialPop, .partialStage,
        .complete 0, .readd 0, .workerPeek, .workerTake, .workerTrack, .workerFail,
        .workerRecycle] :=
  conserved_of_undisturbed _ (by decide)

/-- A request that completes while the only free one is being filled is lost: it is appended
behind that element, and the unlink restores the neighbours from before. -/
theorem append_after_copy_loses_request :
    ¬ ∀ events : List Event, Always next Pool.Conserved Pool.init events := by
  intro h
  have := h [.adopt, .readd 0, .adopt, .shipPeek, .shipCopy, .readd 1, .shipMove]
  revert this
  decide

end RfnmDriver.Usb
