import RfnmDriver.Library.HandleTable
import RfnmDriver.Library.PoolAccount
import RfnmDriver.Library.StepSystem

/-!
# The local TX packet pool

The elements of `rfnm_local_buffer_out` (pending, sorted by cc) and `rfnm_local_buffer_out_user`
(free), the zero-copy ownership table `rfnm_local_zc_tx_owned`, and the elements in the hand of an
ingest worker or of a running ioctl. An event is one critical section, one `xchg`, or one of the
unlocked steps of the consumer `rfnm_handler_out`; everything it decides between its peek at the
pending list and `tx_consume_done` is left to the event. Read `next` first.
-/

namespace RfnmDriver.Tx

open KernelList HandleTable

/-- The two list heads of the pool. -/
inductive Head
  | localBufferOut
  | localBufferOutUser
  deriving DecidableEq, Repr

open Head

instance : Fintype Head where
  elems := {localBufferOut, localBufferOutUser}
  complete := by rintro (_ | _) <;> simp

/-- A list node: a head, or the pool element of an address. TX elements are pinned to their
address at module init. -/
abbrev Node (size : Nat) := Head ⊕ Fin size

/-- Where `rfnm_handler_out` is between two looks at the pending list. -/
inductive Consumer (size : Nat)
  /-- Before the peek. -/
  | idle
  /-- Processing the element it saw at the head, outside the lock. -/
  | peeked (ele : Fin size)
  /-- Past `tx_consume_done`: `rfnm_local_queue_ele_tmp` holds a copy of the two pointers. -/
  | copied (ele : Fin size) (before after : Node size)
  deriving DecidableEq

/-- The pool with its `size` elements. -/
structure Pool (size : Nat) where
  /-- The `head` of every element and of both lists. -/
  links : Links (Node size)
  /-- `local_cc` of every element. -/
  localCc : Fin size → Nat
  /-- `rfnm_local_zc_tx_owned`. -/
  zcTxOwned : Fin size → Option (Fin size)
  /-- Elements taken off the free list and not yet handed on. -/
  inHand : List (Fin size)
  consumer : Consumer size

/-- One step of one context. -/
inductive Event (size : Nat)
  /-- `rfnm_claim_local_buffer_tx`, also the first half of `rfnm_queue_local_buffer_tx`. -/
  | claim
  /-- `rfnm_commit_local_buffer_tx`, also the second half of `rfnm_queue_local_buffer_tx`: the
  header in the buffer carries `usbCc`. -/
  | commit (ele : Fin size) (usbCc : Nat)
  /-- `rfnm_abort_local_buffer_tx`. -/
  | abort (ele : Fin size)
  /-- `xchg(&rfnm_local_zc_tx_owned[ele->addr], ele)` of `RFNM_LOCAL_TX_ACQ`. -/
  | own (ele : Fin size)
  /-- `xchg(&rfnm_local_zc_tx_owned[idx], NULL)` of `RFNM_LOCAL_TX_SUB`, of an `RFNM_LOCAL_TX_ACQ`
  whose `put_user` faults, and of the last `rfnm_dev_release`. -/
  | disown (idx : Fin size)
  /-- `rfnm_handler_out` looks at the head of the pending list. -/
  | peek
  /-- `rfnm_handler_out` leaves the packet queued and goes around its loop. -/
  | retry
  /-- `tx_consume_done`: `memcpy` of the element, outside the locks. -/
  | copy
  /-- `tx_consume_done`: the move to the free list, under both locks. -/
  | finish
  /-- `rfnm_tx_flush_staging`. -/
  | flushStaging
  /-- One turn of the "Flush the Local OUT queue" loop of `rfnm_reset_stream_io_state`, which runs
  with the workers stopped. Between two turns the free list is unlocked. -/
  | resetMove
  deriving DecidableEq

/-- The module init: every element on the free list. -/
def Pool.init (size : Nat) : Pool size where
  links := (List.finRange size).foldl (fun links ele => links.addTail (.inr ele)
    (.inl localBufferOutUser)) (((⟨id, id⟩ : Links (Node size)).initHead
      (.inl localBufferOut)).initHead (.inl localBufferOutUser))
  localCc := fun _ => 0
  zcTxOwned := fun _ => none
  inHand := []
  consumer := .idle

variable {size : Nat}

/-- `rfnm_claim_local_buffer_tx`: pop the free list; nothing happens when it is empty. -/
def claim (pool : Pool size) : Pool size :=
  match pool.links.firstEntryOrNull (.inl localBufferOutUser) with
  | some (.inr ele) =>
      { pool with links := pool.links.del (.inr ele), inHand := ele :: pool.inHand }
  | _ => pool

/-- The backward search of `rfnm_local_tx_insert_sorted`: the node to insert behind. The fuel
bounds the turns of the loop, which has no bound of its own. -/
def insertPosition (links : Links (Node size)) (localCc : Fin size → Nat) (cc : Nat) :
    Nat → Node size → Option (Node size)
  | _, .inl localBufferOut => some (.inl localBufferOut)
  | _, .inl localBufferOutUser => none
  | 0, .inr _ => none
  | fuel + 1, .inr cur =>
      if localCc cur ≤ cc then some (.inr cur)
      else insertPosition links localCc cc fuel (links.prev (.inr cur))

/-- `rfnm_commit_local_buffer_tx`: stamp the element with the cc of its header and insert it
sorted into the pending list. -/
def commit (pool : Pool size) (ele : Fin size) (usbCc : Nat) : Option (Pool size) :=
  let localCc := Function.update pool.localCc ele usbCc
  (insertPosition pool.links localCc usbCc size (pool.links.prev (.inl localBufferOut))).map
    fun position =>
      { pool with
        links := pool.links.add (.inr ele) position
        localCc := localCc
        inHand := pool.inHand.erase ele }

/-- `rfnm_abort_local_buffer_tx`: back to the tail of the free list. -/
def abort (pool : Pool size) (ele : Fin size) : Pool size :=
  { pool with
    links := pool.links.addTail (.inr ele) (.inl localBufferOutUser)
    inHand := pool.inHand.erase ele }

/-- `xchg(&rfnm_local_zc_tx_owned[ele->addr], ele)`: a stale handle ends in the caller's hand. -/
def own (pool : Pool size) (ele : Fin size) : Pool size :=
  { pool with
    zcTxOwned := Function.update pool.zcTxOwned ele (some ele)
    inHand := (pool.zcTxOwned ele).toList ++ pool.inHand.erase ele }

/-- `xchg(&rfnm_local_zc_tx_owned[idx], NULL)`: the handle, if any, ends in the caller's hand. -/
def disown (pool : Pool size) (idx : Fin size) : Pool size :=
  { pool with
    zcTxOwned := Function.update pool.zcTxOwned idx none
    inHand := (pool.zcTxOwned idx).toList ++ pool.inHand }

/-- The consumer's peek: the element stays linked. -/
def peek (pool : Pool size) : Pool size :=
  match pool.links.firstEntryOrNull (.inl localBufferOut) with
  | some (.inr ele) => { pool with consumer := .peeked ele }
  | _ => pool

/-- `list_del` and `list_add_tail` of one pending element, as the flush and the reset do it. -/
def moveToFree (links : Links (Node size)) (ele : Fin size) : Links (Node size) :=
  (links.del (.inr ele)).addTail (.inr ele) (.inl localBufferOutUser)

/-- The loop of `rfnm_tx_flush_staging` over the pending list. -/
def flushPending : Nat → Links (Node size) → Links (Node size)
  | 0, links => links
  | fuel + 1, links =>
      match links.firstEntryOrNull (.inl localBufferOut) with
      | some (.inr ele) => flushPending fuel (moveToFree links ele)
      | _ => links

/-- The first pending element moves to the free list; nothing happens when none is pending. -/
def resetMove (pool : Pool size) : Pool size :=
  match pool.links.firstEntryOrNull (.inl localBufferOut) with
  | some (.inr ele) => { pool with links := moveToFree pool.links ele }
  | _ => pool

/-- One step of one context; `none` when the context is not at that point. -/
def next (pool : Pool size) : Event size → Option (Pool size)
  | .claim => some (claim pool)
  | .commit ele usbCc => if ele ∈ pool.inHand then commit pool ele usbCc else none
  | .abort ele => if ele ∈ pool.inHand then some (abort pool ele) else none
  | .own ele => if ele ∈ pool.inHand then some (own pool ele) else none
  | .disown idx => some (disown pool idx)
  | .peek => if pool.consumer = .idle then some (peek pool) else none
  | .retry =>
      match pool.consumer with
      | .peeked _ => some { pool with consumer := .idle }
      | _ => none
  | .copy =>
      match pool.consumer with
      | .peeked ele =>
          some { pool with
            consumer := .copied ele (pool.links.prev (.inr ele)) (pool.links.next (.inr ele)) }
      | _ => none
  | .finish =>
      match pool.consumer with
      | .copied ele before after =>
          some { pool with
            links := pool.links.moveSnapshot (.inr ele) (.inl localBufferOutUser) before after
            consumer := .idle }
      | _ => none
  | .flushStaging => some { pool with links := flushPending size pool.links }
  | .resetMove => if pool.consumer = .idle then some (resetMove pool) else none

/-! ## Where the elements are -/

/-- The elements of one list, read off the pointers. -/
def Pool.contents (pool : Pool size) (head : Head) : List (Fin size) :=
  pool.links.read size head

/-- The two lists are well linked and disjoint, and with the ownership table and the hands they
hold every element of the pool exactly once. -/
def Pool.HoldsAll (pool : Pool size) (contents : Head → List (Fin size)) : Prop :=
  pool.links.Represents contents ∧
    (contents localBufferOutUser ++ contents localBufferOut ++ handles pool.zcTxOwned ++
      pool.inHand).Perm (List.finRange size)

/-- Every element is on exactly one of the free list, the pending list, the ownership table and
the hands. -/
def Pool.Conserved (pool : Pool size) : Prop :=
  pool.HoldsAll pool.contents

instance (pool : Pool size) (contents : Head → List (Fin size)) :
    Decidable (pool.HoldsAll contents) :=
  inferInstanceAs (Decidable (_ ∧ _))

instance (pool : Pool size) : Decidable pool.Conserved :=
  inferInstanceAs (Decidable (pool.HoldsAll _))

/-- A consumed packet leaves the pending list alone: the others stay, in order, and it goes to
the end of the free list. -/
def ConsumesOne (pool : Pool size) (event : Event size) (following : Pool size) : Prop :=
  match event, pool.consumer with
  | .finish, .copied ele _ _ =>
      following.contents localBufferOut = (pool.contents localBufferOut).erase ele ∧
        following.contents localBufferOutUser = pool.contents localBufferOutUser ++ [ele]
  | _, _ => True

/-- The consumed element is still pending, between the neighbours it was copied with. -/
def CopyCurrent (pool : Pool size) (event : Event size) : Prop :=
  match event, pool.consumer with
  | .finish, .copied ele before after =>
      ele ∈ pool.contents localBufferOut ∧ pool.links.prev (.inr ele) = before ∧
        pool.links.next (.inr ele) = after
  | _, _ => True

instance (pool : Pool size) (event : Event size) (following : Pool size) :
    Decidable (ConsumesOne pool event following) := by
  unfold ConsumesOne
  split <;> infer_instance

instance (pool : Pool size) (event : Event size) : Decidable (CopyCurrent pool event) := by
  unfold CopyCurrent
  split <;> infer_instance

end RfnmDriver.Tx
