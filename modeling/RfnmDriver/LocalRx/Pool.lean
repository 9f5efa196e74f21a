import RfnmDriver.Library.HandleTable
import RfnmDriver.Library.PoolAccount
import RfnmDriver.Library.StepSystem

/-!
# The local RX packet pool

The elements of `rfnm_local_buffer_in` (free) and `rfnm_local_buffer_in_user` (queued for
delivery), the zero-copy ownership table `rfnm_local_zc_rx_owned`, and the elements a context
holds between two critical sections. Unlike TX elements they are not pinned to a slot: the
producer gives an element the slot it just filled when it queues it. An event is one critical
section or one `xchg`. Read `next` first.
-/

namespace RfnmDriver.LocalRx

open KernelList HandleTable

/-- The two list heads of the pool. -/
inductive Head
  | localBufferIn
  | localBufferInUser
  deriving DecidableEq, Repr

open Head

instance : Fintype Head where
  elems := {localBufferIn, localBufferInUser}
  complete := by rintro (_ | _) <;> simp

/-- A list node: a head, or a pool element. -/
abbrev Node (size : Nat) := Head ⊕ Fin size

/-- The pool with its `size` elements and payload slots. -/
structure Pool (size : Nat) where
  links : Links (Node size)
  /-- The payload slot each element was queued with. -/
  addr : Fin size → Fin size
  /-- `RFNM_RX_FLAG_DISCONT` in the header of each payload slot. -/
  discont : Fin size → Bool
  /-- `rfnm_local_zc_rx_owned`, by payload slot. -/
  zcRxOwned : Fin size → Option (Fin size)
  /-- `rfnm_local_rx_queue_depth`. -/
  queueDepth : Int
  /-- `rfnm_local_rx_culled`. -/
  culled : Nat
  /-- `rfnm67_last_addr`; none is `0xFFFFFFFF`. -/
  lastAddr : Option (Fin size)
  /-- `rfnm67_canary`. -/
  canary : Nat
  /-- `local_rx_error[1]`: handles retired because their slot came around again. -/
  staleRetired : Nat
  /-- The element the producer popped for the packet it is shipping. -/
  producer : Option (Fin size)
  /-- The elements in the hands of the calls under way; `Users` says which call holds which. -/
  inHand : List (Fin size)

/-- One critical section or one `xchg`. -/
inductive Event (size : Nat)
  /-- `rfnm_handler_in` pops the free list for a full packet. -/
  | shipPop
  /-- `rfnm_handler_in` queues its element with the slot it filled. -/
  | shipQueue (slot : Fin size) (discont : Bool)
  /-- `rfnm_local_rx_cull_stale` under the given `rfnm_local_rx_queue_bound`. -/
  | cull (bound : Int)
  /-- `RFNM_LOCAL_RX_GET`: `rfnm_dequeue_local_buffer_rx_ref` and the theft canary. -/
  | getDequeue
  /-- `RFNM_LOCAL_RX_GET`: `xchg(&rfnm_local_zc_rx_owned[ele->addr], ele)`. -/
  | getOwn (ele : Fin size)
  /-- `RFNM_LOCAL_RX_GET` whose `put_user` faults: `xchg(&rfnm_local_zc_rx_owned[idx], NULL)`. -/
  | getFault (idx : Fin size)
  /-- `RFNM_LOCAL_RX_PUT` of any argument. -/
  | put (arg : Nat)
  /-- The last `rfnm_dev_release` reclaims a slot still checked out. -/
  | fileRelease (idx : Fin size)
  /-- An Ethernet worker calls `rfnm_dequeue_local_buffer_rx_ref`. -/
  | dequeueRef
  /-- `rfnm_dequeue_local_buffer_rx` takes a packet to copy it. -/
  | copyDequeue
  /-- `rfnm_release_local_buffer_rx_ref`, also the end of `rfnm_dequeue_local_buffer_rx`. -/
  | release (ele : Fin size)
  /-- One turn of the `rfnm_local_buffer_in_user` loop of `rfnm_reset_stream_io_state`. -/
  | resetMove
  deriving DecidableEq

/-- The module init: every element on the free list. -/
def Pool.init (size : Nat) : Pool size where
  links := (List.finRange size).foldl (fun links ele => links.addTail (.inr ele)
    (.inl localBufferIn)) (((⟨id, id⟩ : Links (Node size)).initHead
      (.inl localBufferIn)).initHead (.inl localBufferInUser))
  addr := fun ele => ⟨0, by have := ele.isLt; omega⟩
  discont := fun _ => false
  zcRxOwned := fun _ => none
  queueDepth := 0
  culled := 0
  lastAddr := none
  canary := 0
  staleRetired := 0
  producer := none
  inHand := []

variable {size : Nat}

/-- The elements of one list, read off the pointers. -/
def Pool.contents (pool : Pool size) (head : Head) : List (Fin size) :=
  pool.links.read size head

/-- The first element of a list. -/
def first (links : Links (Node size)) (head : Head) : Option (Fin size) :=
  (links.firstEntryOrNull (.inl head)).bind Sum.getRight?

/-- The pop of `rfnm_handler_in`: nothing happens when no element is free. -/
def shipPop (pool : Pool size) : Pool size :=
  match first pool.links localBufferIn with
  | some ele => { pool with links := pool.links.del (.inr ele), producer := some ele }
  | none => pool

/-- `rfnm_handler_in` queues a packet: the element gets the slot, the depth goes up. -/
def shipQueue (pool : Pool size) (ele slot : Fin size) (discont : Bool) : Pool size :=
  { pool with
    links := pool.links.addTail (.inr ele) (.inl localBufferInUser)
    addr := Function.update pool.addr ele slot
    discont := Function.update pool.discont slot discont
    queueDepth := pool.queueDepth + 1
    producer := none }

/-- `list_del` and `list_add_tail`: the element goes back to the free list. -/
def recycle (links : Links (Node size)) (ele : Fin size) : Links (Node size) :=
  (links.del (.inr ele)).addTail (.inr ele) (.inl localBufferIn)

/-- The loop of `rfnm_local_rx_cull_stale`; the result counts what it culled. Each turn takes an
element off the queue, so `size` turns are enough. -/
def cullLoop (bound : Int) : Nat → Pool size → Pool size × Nat
  | 0, pool => (pool, 0)
  | turns + 1, pool =>
      if pool.queueDepth > bound then
        match first pool.links localBufferInUser with
        | some ele =>
            let (rest, culled) := cullLoop bound turns
              { pool with
                links := recycle pool.links ele
                queueDepth := pool.queueDepth - 1 }
            (rest, culled + 1)
        | none => (pool, 0)
      else (pool, 0)

/-- The end of `rfnm_local_rx_cull_stale`: when something was culled, the oldest packet left is
marked as the seam and the canary forgets its last slot. -/
def markSeam (pool : Pool size) (culled : Nat) : Pool size :=
  if culled = 0 then pool
  else
    { pool with
      discont :=
        match first pool.links localBufferInUser with
        | some ele => Function.update pool.discont (pool.addr ele) true
        | none => pool.discont
      culled := pool.culled + culled
      lastAddr := none }

/-- `rfnm_local_rx_cull_stale`: trim the queue to the bound, unless it is off. -/
def cullStale (pool : Pool size) (bound : Int) : Pool size :=
  if bound ≤ 0 then pool
  else
    let (rest, culled) := cullLoop bound size pool
    markSeam rest culled

/-- `rfnm_dequeue_local_buffer_rx_ref`: the first queued element goes to the caller's hand and the
depth goes down; nothing happens when the queue is empty. -/
def dequeueRef (pool : Pool size) : Pool size :=
  match first pool.links localBufferInUser with
  | some ele =>
      { pool with
        links := pool.links.del (.inr ele)
        queueDepth := pool.queueDepth - 1
        inHand := ele :: pool.inHand }
  | none => pool

/-- The step from one slot handed out to the next, as the theft canary counts it. -/
def canaryStep (lastAddr : Option (Fin size)) (idx : Fin size) : Nat :=
  match lastAddr with
  | none => 0
  | some last =>
      let step := (idx + size - last) % size
      if step = 1 then 0 else if step = 0 then size - 1 else step - 1

/-- `RFNM_LOCAL_RX_GET` up to its `xchg`: the dequeue, and the canary over the slot it got. -/
def getDequeue (pool : Pool size) : Pool size :=
  match first pool.links localBufferInUser with
  | some ele =>
      { dequeueRef pool with
        canary := pool.canary + canaryStep pool.lastAddr (pool.addr ele)
        lastAddr := some (pool.addr ele) }
  | none => pool

/-- `xchg(&rfnm_local_zc_rx_owned[ele->addr], ele)`: a stale handle ends in the caller's hand. -/
def getOwn (pool : Pool size) (ele : Fin size) : Pool size :=
  { pool with
    zcRxOwned := Function.update pool.zcRxOwned (pool.addr ele) (some ele)
    staleRetired := pool.staleRetired + (pool.zcRxOwned (pool.addr ele)).toList.length
    inHand := (pool.zcRxOwned (pool.addr ele)).toList ++ pool.inHand.erase ele }

/-- `xchg(&rfnm_local_zc_rx_owned[idx], NULL)`: the handle, if any, ends in the caller's hand. -/
def disown (pool : Pool size) (idx : Fin size) : Pool size :=
  { pool with
    zcRxOwned := Function.update pool.zcRxOwned idx none
    inHand := (pool.zcRxOwned idx).toList ++ pool.inHand }

/-- `RFNM_LOCAL_RX_PUT`: an argument that is no slot is refused. -/
def put (pool : Pool size) (arg : Nat) : Pool size :=
  if h : arg < size then disown pool ⟨arg, h⟩ else pool

/-- The first half of `rfnm_dequeue_local_buffer_rx`: the first queued element goes to the
caller's hand. The depth is left as it is. -/
def copyDequeue (pool : Pool size) : Pool size :=
  match first pool.links localBufferInUser with
  | some ele =>
      { pool with links := pool.links.del (.inr ele), inHand := ele :: pool.inHand }
  | none => pool

/-- `rfnm_release_local_buffer_rx_ref`: back to the end of the free list. -/
def release (pool : Pool size) (ele : Fin size) : Pool size :=
  { pool with
    links := pool.links.addTail (.inr ele) (.inl localBufferIn)
    inHand := pool.inHand.erase ele }

/-- The reset recycles the first queued element. The depth is left as it is. -/
def resetMove (pool : Pool size) : Pool size :=
  match first pool.links localBufferInUser with
  | some ele => { pool with links := recycle pool.links ele }
  | none => pool

/-- One critical section; `none` when the context does not hold the element it names. -/
def next (pool : Pool size) : Event size → Option (Pool size)
  | .shipPop => if pool.producer = none then some (shipPop pool) else none
  | .shipQueue slot discont => pool.producer.map fun ele => shipQueue pool ele slot discont
  | .cull bound => some (cullStale pool bound)
  | .getDequeue => some (getDequeue pool)
  | .getOwn ele => if ele ∈ pool.inHand then some (getOwn pool ele) else none
  | .getFault idx => some (disown pool idx)
  | .put arg => some (put pool arg)
  | .fileRelease idx => some (disown pool idx)
  | .dequeueRef => some (dequeueRef pool)
  | .copyDequeue => some (copyDequeue pool)
  | .release ele => if ele ∈ pool.inHand then some (release pool ele) else none
  | .resetMove => if pool.producer = none then some (resetMove pool) else none

/-! ## Where the elements are -/

/-- The two lists are well linked and disjoint, and with the ownership table, the hands and the
producer they hold every element of the pool exactly once. -/
def Pool.HoldsAll (pool : Pool size) (contents : Head → List (Fin size)) : Prop :=
  pool.links.Represents contents ∧
    (contents localBufferIn ++ contents localBufferInUser ++ handles pool.zcRxOwned ++
      pool.inHand ++ pool.producer.toList).Perm (List.finRange size)

end RfnmDriver.LocalRx
