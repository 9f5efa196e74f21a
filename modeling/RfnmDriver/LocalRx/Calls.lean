import RfnmDriver.LocalRx.PoolConservation

/-!
# The calls that use the local RX pool

A GET or PUT ioctl, the last file release, a batch of the Ethernet worker and a copying consumer
each take several critical sections, and between two of them an element may be in nobody's list
but the caller's local variables. `Call` is the program point of such a call with the elements its
variables hold, and `Call.step` its next critical section. A call that returns is gone with its
variables, so an element it still held there would be lost: `local_rx_pool_conserved` says that
none is.
-/

namespace RfnmDriver.LocalRx

open KernelList KernelList.Links HandleTable StepSystem Head

/-- `RFNM_ETH_TX_BATCH`. -/
def rfnmEthTxBatch : Nat := 4

/-- The program point of a call together with the live element pointers. -/
inductive Call (size : Nat)
  /-- `RFNM_LOCAL_RX_GET`, at `rfnm_local_rx_cull_stale`. -/
  | getCull
  /-- At `rfnm_dequeue_local_buffer_rx_ref`. -/
  | getDequeue
  /-- At `xchg(&rfnm_local_zc_rx_owned[idx], ele)`. -/
  | getOwn (ele : Fin size)
  /-- At the release of the stale handle of the slot. -/
  | getRetire (idx stale : Fin size)
  /-- At `put_user`. -/
  | getPutUser (idx : Fin size)
  /-- `put_user` has faulted: at `xchg(&rfnm_local_zc_rx_owned[idx], NULL)`. -/
  | getUndo (idx : Fin size)
  /-- The undo found a handle: at its release. -/
  | getUndoRelease (stale : Fin size)
  /-- `RFNM_LOCAL_RX_PUT`, at the check of its argument and its `xchg`. -/
  | put (arg : Nat)
  /-- At the release of the handle the PUT got. -/
  | putRelease (ele : Fin size)
  /-- The last `rfnm_dev_release`, at turn `q` of its RX loop. -/
  | fileRelease (q : Nat)
  /-- At the release of the handle that slot `q` held. -/
  | fileReclaim (q : Nat) (stale : Fin size)
  /-- The Ethernet worker fills a batch. -/
  | ethGather (handles : List (Fin size))
  /-- At the release of a record with an invalid head. -/
  | ethDrop (handles : List (Fin size)) (handle : Fin size)
  /-- The batch was sent: the handles that are still to be released. -/
  | ethRelease (handles : List (Fin size))
  /-- `rfnm_dequeue_local_buffer_rx`, at its `list_del`. -/
  | copyDequeue
  /-- At its `list_add_tail`, behind the `memcpy`. -/
  | copyAdd (bufferEle : Fin size)
  deriving DecidableEq, Repr

/-- Who makes a call. -/
inductive Holder
  | ioctl
  | fileRelease
  | ethWorker
  | copyConsumer
  deriving DecidableEq, Repr

/-- What the environment answers to a step of a call. -/
structure Answer where
  /-- `rfnm_local_rx_queue_bound`. -/
  rfnmLocalRxQueueBound : Int
  /-- `put_user` faults. -/
  fault : Bool
  /-- The head of the packet has a known format and a count of 1 to
  `RFNM_USB_RX_PACKET_ELEM_CNT`. -/
  validHead : Bool
  deriving DecidableEq, Repr

variable {size : Nat}

/-- The elements in the local variables of a call. -/
def Call.hand : Call size → List (Fin size)
  | .getOwn ele | .getRetire _ ele | .getUndoRelease ele | .putRelease ele | .fileReclaim _ ele
  | .copyAdd ele => [ele]
  | .ethGather handles | .ethRelease handles => handles
  | .ethDrop handles handle => handle :: handles
  | _ => []

/-- Whose call it is. -/
def Call.holder : Call size → Holder
  | .fileRelease _ | .fileReclaim .. => .fileRelease
  | .ethGather _ | .ethDrop .. | .ethRelease _ => .ethWorker
  | .copyDequeue | .copyAdd _ => .copyConsumer
  | _ => .ioctl

/-- `rfnm_local_zc_rx_owned[idx]`; no handle outside the table. -/
def Pool.owned (pool : Pool size) (idx : Nat) : Option (Fin size) :=
  if h : idx < size then pool.zcRxOwned ⟨idx, h⟩ else none

/-- The next critical section or `xchg` of a call, and where it then stands; `none` when it has
returned. -/
def Call.step (pool : Pool size) (answer : Answer) : Call size → Pool size × Option (Call size)
  | .getCull => (cullStale pool answer.rfnmLocalRxQueueBound, some .getDequeue)
  | .getDequeue =>
      -- an empty queue is -ENOSPC
      (LocalRx.getDequeue pool, (first pool.links localBufferInUser).map .getOwn)
  | .getOwn ele =>
      let idx := pool.addr ele
      (LocalRx.getOwn pool ele, some (match pool.zcRxOwned idx with
        | some stale => .getRetire idx stale
        | none => .getPutUser idx))
  | .getRetire idx stale => (release pool stale, some (.getPutUser idx))
  | .getPutUser idx => (pool, if answer.fault then some (.getUndo idx) else none)
  | .getUndo idx => (disown pool idx, (pool.zcRxOwned idx).map .getUndoRelease)
  | .getUndoRelease stale => (release pool stale, none)
  | .put arg => (LocalRx.put pool arg, (pool.owned arg).map .putRelease)
  | .putRelease ele => (release pool ele, none)
  | .fileRelease q =>
      if h : q < size then
        (disown pool ⟨q, h⟩, some (match pool.zcRxOwned ⟨q, h⟩ with
          | some stale => .fileReclaim q stale
          | none => .fileRelease (q + 1)))
      else (pool, none)
  | .fileReclaim q stale => (release pool stale, some (.fileRelease (q + 1)))
  | .ethGather handles =>
      if handles.length < rfnmEthTxBatch then
        (dequeueRef pool, some (match first pool.links localBufferInUser with
          | some ele =>
              if answer.validHead then .ethGather (handles ++ [ele]) else .ethDrop handles ele
          | none => .ethRelease handles))
      else (pool, some (.ethRelease handles))
  | .ethDrop handles handle => (release pool handle, some (.ethGather handles))
  | .ethRelease [] => (pool, none)
  | .ethRelease (handle :: rest) => (release pool handle, some (.ethRelease rest))
  | .copyDequeue => (LocalRx.copyDequeue pool, (first pool.links localBufferInUser).map .copyAdd)
  | .copyAdd bufferEle => (release pool bufferEle, none)

/-- The pool and the calls under way, each with its program point. -/
structure Users (size : Nat) where
  pool : Pool size
  calls : List (Call size)

/-- The start of a call. -/
inductive Entry
  | get
  | put (arg : Nat)
  | fileRelease
  | ethBatch
  | copy
  deriving DecidableEq, Repr

/-- The first program point of a call. -/
def Entry.call : Entry → Call size
  | .get => .getCull
  | .put arg => .put arg
  | .fileRelease => .fileRelease 0
  | .ethBatch => .ethGather []
  | .copy => .copyDequeue

/-- One step of the producer, of a reset or of a call. -/
inductive Act (size : Nat)
  /-- The producer pops the free list. -/
  | shipPop
  /-- The producer queues what it popped. -/
  | shipQueue (slot : Fin size) (discont : Bool)
  /-- One turn of the reset's loop. -/
  | resetMove
  /-- A call begins. -/
  | enter (entry : Entry)
  /-- The call at this position takes its next step. -/
  | step (index : Nat) (answer : Answer)
  deriving DecidableEq

/-- One step; `none` when there is nobody to take it. -/
def Users.next (users : Users size) : Act size → Option (Users size)
  | .shipPop => (LocalRx.next users.pool .shipPop).map ({ users with pool := · })
  | .shipQueue slot discont =>
      (LocalRx.next users.pool (.shipQueue slot discont)).map ({ users with pool := · })
  | .resetMove => (LocalRx.next users.pool .resetMove).map ({ users with pool := · })
  | .enter entry => some { users with calls := users.calls ++ [entry.call] }
  | .step index answer =>
      users.calls[index]?.map fun call =>
        let (pool, rest) := call.step users.pool answer
        { pool, calls := users.calls.take index ++ rest.toList ++ users.calls.drop (index + 1) }

/-- After module init nobody uses the pool. -/
def Users.init (size : Nat) : Users size :=
  ⟨Pool.init size, []⟩

/-- The elements in the hands of one kind of caller. -/
def Users.heldBy (users : Users size) (holder : Holder) : List (Fin size) :=
  (users.calls.filter (·.holder = holder)).flatMap Call.hand

/-- The lists read off the pointers are well linked and disjoint, and every element is exactly
once on the free list, on the queue, in the ownership table, in a call under way or in the
producer's hand. -/
def Users.Conserved (users : Users size) : Prop :=
  users.pool.links.Represents users.pool.contents ∧
    (users.pool.contents localBufferIn ++ users.pool.contents localBufferInUser ++
      handles users.pool.zcRxOwned ++ users.heldBy .ioctl ++ users.heldBy .fileRelease ++
      users.heldBy .ethWorker ++ users.heldBy .copyConsumer ++
      users.pool.producer.toList).Perm (List.finRange size)

/-- A call that returns has put what it held on the free list. -/
def ReturnsHeld (users : Users size) (act : Act size) (following : Users size) : Prop :=
  match act with
  | .step index answer =>
      ∀ call ∈ users.calls[index]?, (call.step users.pool answer).2 = none →
        ∀ ele ∈ call.hand, ele ∈ following.pool.contents localBufferIn
  | _ => True

instance (users : Users size) : Decidable users.Conserved :=
  inferInstanceAs (Decidable (_ ∧ _))

/-! ## One step of a call -/

variable {pool : Pool size} {contents : Head → List (Fin size)} {answer : Answer}
  {call : Call size} {ele : Fin size} {others rest : List (Fin size)} {users following : Users size}
  {act : Act size}

/-- A cull takes nothing into a hand. -/
theorem cullLoop_inHand (bound : Int) (turns : Nat) (pool : Pool size) :
    (cullLoop bound turns pool).1.inHand = pool.inHand := by
  induction turns generalizing pool with
  | zero => rfl
  | succ turns ih =>
      unfold cullLoop
      split
      · split
        · exact ih _
        · rfl
      · rfl

@[simp] theorem markSeam_inHand (pool : Pool size) (culled : Nat) :
    (markSeam pool culled).inHand = pool.inHand := by
  unfold markSeam
  split <;> rfl

@[simp] theorem cullStale_inHand (pool : Pool size) (bound : Int) :
    (cullStale pool bound).inHand = pool.inHand := by
  unfold cullStale
  split
  · rfl
  · simp [cullLoop_inHand]

@[simp] theorem dequeueRef_inHand (pool : Pool size) :
    (dequeueRef pool).inHand = (first pool.links localBufferInUser).toList ++ pool.inHand := by
  unfold dequeueRef
  split <;> simp [*]

@[simp] theorem getDequeue_inHand (pool : Pool size) :
    (getDequeue pool).inHand = (first pool.links localBufferInUser).toList ++ pool.inHand := by
  unfold getDequeue
  split <;> simp [*]

@[simp] theorem copyDequeue_inHand (pool : Pool size) :
    (copyDequeue pool).inHand = (first pool.links localBufferInUser).toList ++ pool.inHand := by
  unfold copyDequeue
  split <;> simp [*]

@[simp] theorem disown_inHand (pool : Pool size) (idx : Fin size) :
    (disown pool idx).inHand = (pool.zcRxOwned idx).toList ++ pool.inHand := rfl

@[simp] theorem put_inHand (pool : Pool size) (arg : Nat) :
    (put pool arg).inHand = (pool.owned arg).toList ++ pool.inHand := by
  unfold put Pool.owned
  split <;> rfl

/-- A release takes the element out of the hand that held it. -/
theorem release_inHand (h : pool.inHand.Perm (ele :: rest)) :
    (release pool ele).inHand.Perm rest := by
  have herase : (pool.inHand.erase ele).Perm rest := by simpa using h.erase ele
  exact herase

/-- A GET's `xchg` trades its element for the stale handle. -/
theorem getOwn_inHand (h : pool.inHand.Perm (ele :: rest)) :
    (getOwn pool ele).inHand.Perm ((pool.zcRxOwned (pool.addr ele)).toList ++ rest) := by
  have herase : (pool.inHand.erase ele).Perm rest := by simpa using h.erase ele
  exact herase.append_left _

/-- What a step puts into the hands or takes out of them is what the call's variables get or
lose. -/
theorem Call.step_inHand (h : pool.inHand.Perm (call.hand ++ others)) :
    (call.step pool answer).1.inHand.Perm
      ((call.step pool answer).2.toList.flatMap Call.hand ++ others) := by
  cases call with
  | getCull => simpa [Call.step, Call.hand] using h
  | getDequeue | copyDequeue =>
      cases hfirst : first pool.links localBufferInUser <;>
        simpa [Call.step, Call.hand, hfirst] using h
  | getOwn ele =>
      have hown := getOwn_inHand h
      cases hstale : pool.zcRxOwned (pool.addr ele) <;>
        simpa [Call.step, Call.hand, hstale] using hown
  | getRetire _ ele | getUndoRelease ele | putRelease ele | fileReclaim _ ele | copyAdd ele =>
      simpa [Call.step, Call.hand] using release_inHand h
  | getPutUser idx =>
      cases hfault : answer.fault <;> simpa [Call.step, Call.hand, hfault] using h
  | getUndo idx =>
      cases hstale : pool.zcRxOwned idx <;> simpa [Call.step, Call.hand, hstale] using h
  | put arg =>
      cases howned : pool.owned arg <;> simpa [Call.step, Call.hand, howned] using h
  | fileRelease q =>
      by_cases hq : q < size
      · cases hstale : pool.zcRxOwned ⟨q, hq⟩ <;>
          simpa [Call.step, Call.hand, hq, hstale] using h
      · simpa [Call.step, Call.hand, hq] using h
  | ethGather handles =>
      by_cases hbatch : handles.length < rfnmEthTxBatch
      · cases hfirst : first pool.links localBufferInUser with
        | none => simpa [Call.step, Call.hand, hbatch, hfirst] using h
        | some ele =>
            -- the new handle goes behind the others, or is to be dropped
            have hcons := h.cons ele
            cases hvalid : answer.validHead with
            | false => simpa [Call.step, Call.hand, hbatch, hfirst, hvalid] using hcons
            | true =>
                have hmiddle := hcons.trans (List.perm_middle (a := ele)).symm
                simpa [Call.step, Call.hand, hbatch, hfirst, hvalid] using hmiddle
      · simpa [Call.step, Call.hand, hbatch] using h
  | ethDrop handles handle =>
      simpa [Call.step, Call.hand] using release_inHand h
  | ethRelease handles =>
      cases handles with
      | nil => simpa [Call.step, Call.hand] using h
      | cons handle rest => simpa [Call.step, Call.hand] using release_inHand h

/-- A step of a call is a critical section of the pool, or leaves it alone. -/
theorem Call.step_pool (answer : Answer) (h : pool.inHand.Perm (call.hand ++ others)) :
    (call.step pool answer).1 = pool ∨
      ∃ event, LocalRx.next pool event = some (call.step pool answer).1 := by
  have hmem : ∀ ele ∈ call.hand, ele ∈ pool.inHand := fun ele hele =>
    h.mem_iff.mpr (List.mem_append_left _ hele)
  cases call with
  | getCull => exact .inr ⟨.cull _, rfl⟩
  | getDequeue => exact .inr ⟨.getDequeue, rfl⟩
  | copyDequeue => exact .inr ⟨.copyDequeue, rfl⟩
  | getOwn ele => exact .inr ⟨.getOwn ele, if_pos (hmem ele (by simp [Call.hand]))⟩
  | getRetire _ ele | getUndoRelease ele | putRelease ele | fileReclaim _ ele | copyAdd ele
  | ethDrop _ ele => exact .inr ⟨.release ele, if_pos (hmem ele (by simp [Call.hand]))⟩
  | getPutUser idx => exact .inl rfl
  | getUndo idx => exact .inr ⟨.getFault idx, rfl⟩
  | put arg => exact .inr ⟨.put arg, rfl⟩
  | fileRelease q =>
      by_cases hq : q < size
      · exact .inr ⟨.fileRelease ⟨q, hq⟩, by simp [Call.step, hq, LocalRx.next]⟩
      · exact .inl (by simp [Call.step, hq])
  | ethGather handles =>
      by_cases hbatch : handles.length < rfnmEthTxBatch
      · exact .inr ⟨.dequeueRef, by simp [Call.step, hbatch, LocalRx.next]⟩
      · exact .inl (by simp [Call.step, hbatch])
  | ethRelease handles =>
      cases handles with
      | nil => exact .inl rfl
      | cons handle rest =>
          exact .inr ⟨.release handle, if_pos (hmem handle (by simp [Call.hand]))⟩

/-- The step with which a call returns puts what the call held on the free list. -/
theorem Call.step_returns (h : pool.HoldsAll contents)
    (hhand : pool.inHand.Perm (call.hand ++ others)) (hreturn : (call.step pool answer).2 = none)
    (hele : ele ∈ call.hand) : ele ∈ (call.step pool answer).1.contents localBufferIn := by
  have hmem : ele ∈ pool.inHand := hhand.mem_iff.mpr (List.mem_append_left _ hele)
  have hreleased : ele ∈ (release pool ele).contents localBufferIn := by
    rw [(release_holdsAll h hmem).contents_eq]
    simp
  -- the other calls that return hold nothing
  cases call with
  | getUndoRelease held | putRelease held | copyAdd held =>
      obtain rfl : ele = held := by simpa [Call.hand] using hele
      exact hreleased
  | getOwn | getRetire | fileReclaim | ethDrop => simp [Call.step] at hreturn
  | ethGather handles =>
      by_cases hbatch : handles.length < rfnmEthTxBatch <;> simp [Call.step, hbatch] at hreturn
  | ethRelease handles =>
      cases handles with
      | nil => simp [Call.hand] at hele
      | cons => simp [Call.step] at hreturn
  | _ => simp [Call.hand] at hele

/-! ## Runs -/

/-- The pool holds every element, and what it has in hand is what the calls hold. -/
def Users.Held (users : Users size) : Prop :=
  (∃ contents, users.pool.HoldsAll contents) ∧
    users.pool.inHand.Perm (users.calls.flatMap Call.hand)

/-- Every call is of one of the four kinds. -/
theorem Users.hands_perm (users : Users size) :
    (users.calls.flatMap Call.hand).Perm
      (users.heldBy .ioctl ++ users.heldBy .fileRelease ++ users.heldBy .ethWorker ++
        users.heldBy .copyConsumer) := by
  rw [List.perm_iff_count]
  intro ele
  obtain ⟨pool, calls⟩ := users
  simp only [Users.heldBy, List.count_append]
  induction calls with
  | nil => rfl
  | cons call rest ih =>
      cases hholder : call.holder <;> simp [hholder, List.count_append] at ih ⊢ <;> omega

/-- The account of the pool and the hands of the calls make the partition. -/
theorem Users.Held.conserved (h : users.Held) : users.Conserved := by
  obtain ⟨⟨contents, hheld⟩, hhands⟩ := h
  have hperm := hhands.trans users.hands_perm
  refine ⟨hheld.contents_eq ▸ hheld.1, List.perm_iff_count.mpr fun ele => ?_⟩
  have hall := hheld.2.count_eq ele
  have hcount := hperm.count_eq ele
  rw [hheld.contents_eq]
  simp only [List.count_append] at hall hcount ⊢
  omega

/-- The hands of the calls, with the one that moves in front. -/
theorem hands_getElem {calls : List (Call size)} {index : Nat} (hcall : calls[index]? = some call) :
    (calls.flatMap Call.hand).Perm (call.hand ++
      ((calls.take index).flatMap Call.hand ++ (calls.drop (index + 1)).flatMap Call.hand)) := by
  obtain ⟨hlt, hget⟩ := List.getElem?_eq_some_iff.mp hcall
  have hsplit : calls = calls.take index ++ call :: calls.drop (index + 1) := by
    rw [← hget, List.cons_getElem_drop_succ, List.take_append_drop]
  conv_lhs => rw [hsplit]
  simp only [List.flatMap_append, List.flatMap_cons]
  exact List.perm_append_comm_assoc _ _ _

/-- A critical section of the pool that leaves the hands alone keeps everything held. -/
theorem Users.Held.of_next {event : Event size} {pool : Pool size} (h : users.Held)
    (hnext : LocalRx.next users.pool event = some pool) (hhand : pool.inHand = users.pool.inHand) :
    ({ users with pool } : Users size).Held := by
  obtain ⟨⟨contents, hheld⟩, hhands⟩ := h
  obtain ⟨contents', hheld', -⟩ := next_holdsAll hheld hnext
  exact ⟨⟨contents', hheld'⟩, hhand ▸ hhands⟩

/-- A step of a call keeps everything held. -/
theorem Users.Held.of_step {index : Nat} (h : users.Held)
    (hcall : users.calls[index]? = some call) :
    (⟨(call.step users.pool answer).1, users.calls.take index ++
      (call.step users.pool answer).2.toList ++ users.calls.drop (index + 1)⟩ :
        Users size).Held := by
  obtain ⟨⟨contents, hheld⟩, hhands⟩ := h
  have hfront := hhands.trans (hands_getElem hcall)
  refine ⟨?_, ?_⟩
  · rcases Call.step_pool answer hfront with hsame | ⟨event, hnext⟩
    · exact ⟨contents, hsame.symm ▸ hheld⟩
    · obtain ⟨contents', hheld', -⟩ := next_holdsAll hheld hnext
      exact ⟨contents', hheld'⟩
  · refine (Call.step_inHand hfront).trans ?_
    simp only [List.flatMap_append, List.append_assoc]
    exact List.perm_append_comm_assoc _ _ _

/-- Every step keeps everything held. -/
theorem Users.next_held (h : users.Held) (hstep : users.next act = some following) :
    following.Held := by
  cases act with
  | shipPop =>
      obtain ⟨pool, hnext, rfl⟩ := Option.map_eq_some_iff.mp hstep
      refine h.of_next hnext ?_
      obtain ⟨-, rfl⟩ : users.pool.producer = none ∧ shipPop users.pool = pool := by
        simpa [LocalRx.next] using hnext
      unfold LocalRx.shipPop
      split <;> rfl
  | shipQueue slot discont =>
      obtain ⟨pool, hnext, rfl⟩ := Option.map_eq_some_iff.mp hstep
      refine h.of_next hnext ?_
      obtain ⟨ele, -, rfl⟩ := Option.map_eq_some_iff.mp hnext
      rfl
  | resetMove =>
      obtain ⟨pool, hnext, rfl⟩ := Option.map_eq_some_iff.mp hstep
      refine h.of_next hnext ?_
      obtain ⟨-, rfl⟩ : users.pool.producer = none ∧ resetMove users.pool = pool := by
        simpa [LocalRx.next] using hnext
      unfold LocalRx.resetMove
      split <;> rfl
  | enter entry =>
      obtain rfl := Option.some.inj hstep
      refine ⟨h.1, ?_⟩
      -- a call begins with empty hands
      have hempty : (entry.call : Call size).hand = [] := by cases entry <;> rfl
      simpa [hempty] using h.2
  | step index answer =>
      obtain ⟨call, hcall, rfl⟩ := Option.map_eq_some_iff.mp hstep
      exact h.of_step hcall

/-- A call that returns has put what it held on the free list. -/
theorem Users.Held.returnsHeld (h : users.Held) (hstep : users.next act = some following) :
    ReturnsHeld users act following := by
  cases act with
  | step index answer =>
      intro call hcall hreturn ele hele
      obtain ⟨⟨contents, hheld⟩, hhands⟩ := h
      obtain ⟨other, hother, rfl⟩ := Option.map_eq_some_iff.mp hstep
      obtain rfl : call = other := Option.some.inj (hcall.symm.trans hother)
      exact Call.step_returns hheld (hhands.trans (hands_getElem hcall)) hreturn hele
  | _ => trivial

/-- In every interleaving of ships, resets and the steps of any number of GETs (also with faulting
`put_user`), PUTs of any argument, file releases, Ethernet batches and copies, every element is in
every state exactly once on the free list, on the queue, in the ownership table, in the hand of a
call under way or in the producer's, and the lists are well linked and disjoint; and a call that
returns has put what it held on the free list. -/
theorem local_rx_pool_conserved (size : Nat) (acts : List (Act size)) :
    Always Users.next Users.Conserved (Users.init size) acts ∧
      EveryStep Users.next ReturnsHeld (Users.init size) acts := by
  obtain ⟨contents, hinit, -⟩ := init_holdsAll size
  have hstart : (Users.init size).Held := ⟨⟨contents, hinit⟩, .nil⟩
  have hkeep : ∀ (users : Users size) act following, users.Held →
      users.next act = some following → following.Held := fun _ _ _ => Users.next_held
  refine ⟨(always_of_inductive hkeep hstart).mono fun _ => Users.Held.conserved, ?_⟩
  exact everyStep_of_inductive hkeep (fun _ _ _ => Users.Held.returnsHeld) hstart

/-- Two packets are shipped into a pool of two; a GET takes the first and its `put_user` faults,
a batch of the Ethernet worker takes the other and ends. Both elements are free again and nothing
is in a hand. -/
example : ((run Users.next (Users.init 2) ([.shipPop, .shipQueue 0 false, .shipPop,
      .shipQueue 1 false, .enter .get, .enter .ethBatch] ++
        List.replicate 6 (.step 0 ⟨0, true, true⟩) ++
        List.replicate 4 (.step 0 ⟨0, true, true⟩))).map
      fun users => (users.pool.contents localBufferIn, users.calls)) = some ([0, 1], []) := by
  decide

end RfnmDriver.LocalRx
