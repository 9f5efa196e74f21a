import RfnmDriver.LocalRx.Pool

/-!
# Conservation of the local RX packet pool

Every critical section moves one element from one holder to another, and between two of them the
element is in a call's hand, so a step loses no element and holds none twice. Each step lemma also
says what the step does to the queue, which `QueueDepth` counts. Read `next_holdsAll` first.
-/

namespace RfnmDriver.LocalRx

open KernelList KernelList.Links HandleTable Head

variable {size : Nat} {pool following : Pool size} {contents : Head → List (Fin size)}
  {ele : Fin size} {head : Head}

/-! ## Reading the holders -/

/-- The holders as one account: the two lists, and everything off the lists. -/
theorem Pool.holdsAll_iff : pool.HoldsAll contents ↔ Accounts pool.links contents
    (handles pool.zcRxOwned ++ pool.inHand ++ pool.producer.toList) (List.finRange size) := by
  have htotal : ∀ ele, total contents ele =
      (contents localBufferIn).count ele + (contents localBufferInUser).count ele := fun _ => rfl
  refine Accounts.iff_perm fun ele => ?_
  rw [htotal]
  simp only [List.count_append]
  omega

alias ⟨Pool.HoldsAll.account, holdsAll_of_account⟩ := Pool.holdsAll_iff

/-- The lists read off the pointers are the represented ones. -/
theorem Pool.HoldsAll.contents_eq (h : pool.HoldsAll contents) : pool.contents = contents :=
  h.account.read_eq (by simp)

/-- `list_first_entry_or_null` sees the first element. -/
theorem Pool.HoldsAll.first_eq (h : pool.HoldsAll contents) (head : Head) :
    first pool.links head = (contents head).head? :=
  h.account.first_eq head

/-- The queue is empty, or it has an oldest element. -/
theorem Pool.HoldsAll.oldest (h : pool.HoldsAll contents) :
    (first pool.links localBufferInUser = none ∧ contents localBufferInUser = []) ∨
      ∃ ele, first pool.links localBufferInUser = some ele ∧
        (contents localBufferInUser).head? = some ele := by
  rw [h.first_eq]
  cases hfirst : (contents localBufferInUser).head? with
  | none => exact .inl ⟨rfl, List.head?_eq_none_iff.mp hfirst⟩
  | some ele => exact .inr ⟨ele, rfl, rfl⟩

/-! ## The steps -/

/-- Module init puts every element on the free list. -/
theorem init_holdsAll (size : Nat) :
    ∃ contents, (Pool.init size).HoldsAll contents ∧ contents localBufferInUser = [] := by
  have hempty : (((⟨id, id⟩ : Links (Node size)).initHead (.inl localBufferIn)).initHead
      (.inl localBufferInUser)).Represents fun _ => [] :=
    represents_empty fun head => by cases head <;> simp [initHead]
  have hrow := represents_foldl_addTail localBufferIn hempty (List.nodup_finRange size) (by simp)
  exact ⟨_, ⟨hrow, by simp [Pool.init]⟩, by simp⟩

/-- The producer's pop leaves the queue alone. -/
theorem shipPop_holdsAll (h : pool.HoldsAll contents) (hproducer : pool.producer = none) :
    ∃ contents', (shipPop pool).HoldsAll contents' ∧
      contents' localBufferInUser = contents localBufferInUser := by
  unfold shipPop
  rw [h.first_eq]
  cases hfree : (contents localBufferIn).head? with
  | none => exact ⟨contents, h, rfl⟩
  | some ele =>
      refine ⟨_, holdsAll_of_account (h.account.take (List.mem_of_head? hfree) fun other => ?_),
        by simp⟩
      simp [hproducer, List.count_singleton, Nat.add_assoc]

/-- A ship puts its element at the end of the queue. -/
theorem shipQueue_holdsAll (h : pool.HoldsAll contents) (hproducer : pool.producer = some ele)
    (slot : Fin size) (discont : Bool) :
    ∃ contents', (shipQueue pool ele slot discont).HoldsAll contents' ∧
      contents' localBufferInUser = contents localBufferInUser ++ [ele] := by
  refine ⟨_, holdsAll_of_account
    (h.account.give (List.nodup_finRange size) localBufferInUser fun other => ?_), by simp⟩
  simp [shipQueue, hproducer, List.count_singleton, Nat.add_assoc]

/-- A dequeue into a hand takes the oldest queued element. -/
theorem dequeue_holdsAll (h : pool.HoldsAll contents)
    (hfirst : (contents localBufferInUser).head? = some ele)
    (hlinks : following.links = pool.links.del (.inr ele))
    (howned : following.zcRxOwned = pool.zcRxOwned)
    (hhand : following.inHand = ele :: pool.inHand)
    (hproducer : following.producer = pool.producer) :
    following.HoldsAll
      (Function.update contents localBufferInUser (contents localBufferInUser).tail) := by
  refine holdsAll_of_account ?_
  rw [hlinks, howned, hhand, hproducer, ← erase_of_head? hfirst]
  refine h.account.take (List.mem_of_head? hfirst) fun other => ?_
  simp only [List.count_append, List.count_cons]
  omega

/-- Recycling the oldest queued element keeps every element held. -/
theorem recycle_holdsAll (h : pool.HoldsAll contents)
    (hfirst : (contents localBufferInUser).head? = some ele)
    (hlinks : following.links = recycle pool.links ele)
    (howned : following.zcRxOwned = pool.zcRxOwned) (hhand : following.inHand = pool.inHand)
    (hproducer : following.producer = pool.producer) :
    following.HoldsAll (Function.update
      (Function.update contents localBufferInUser (contents localBufferInUser).tail)
      localBufferIn (contents localBufferIn ++ [ele])) := by
  refine holdsAll_of_account ?_
  rw [hlinks, howned, hhand, hproducer, ← erase_of_head? hfirst]
  exact h.account.move (by simp) (List.mem_of_head? hfirst)

/-- A GET's `xchg` moves the element into the table and a stale handle out of it. -/
theorem getOwn_holdsAll (h : pool.HoldsAll contents) (hmem : ele ∈ pool.inHand) :
    (getOwn pool ele).HoldsAll contents := by
  refine holdsAll_of_account (h.account.trade fun other => ?_)
  have hhand := count_erase_add hmem other
  have htable := (handles_update_perm pool.zcRxOwned (pool.addr ele) (some ele)).count_eq other
  simp only [getOwn, List.count_append, Option.toList_some, List.count_singleton] at htable ⊢
  omega

/-- A disowning `xchg` moves the handle, if any, from the table into the hand. -/
theorem disown_holdsAll (h : pool.HoldsAll contents) (idx : Fin size) :
    (disown pool idx).HoldsAll contents := by
  refine holdsAll_of_account (h.account.trade fun other => ?_)
  have htable := (handles_update_perm pool.zcRxOwned idx none).count_eq other
  simp only [disown, List.count_append, Option.toList_none, List.count_nil] at htable ⊢
  omega

/-- A PUT of any argument keeps every element held. -/
theorem put_holdsAll (h : pool.HoldsAll contents) (arg : Nat) :
    (put pool arg).HoldsAll contents := by
  unfold put
  split
  · exact disown_holdsAll h _
  · exact h

/-- A release puts its element at the end of the free list. -/
theorem release_holdsAll (h : pool.HoldsAll contents) (hmem : ele ∈ pool.inHand) :
    (release pool ele).HoldsAll
      (Function.update contents localBufferIn (contents localBufferIn ++ [ele])) := by
  refine holdsAll_of_account
    (h.account.give (List.nodup_finRange size) localBufferIn fun other => ?_)
  have hhand := count_erase_add hmem other
  simp only [release, List.count_append]
  omega

/-- A by-reference dequeue takes the oldest packet into the hand and counts it off the depth. -/
theorem dequeueRef_holdsAll (h : pool.HoldsAll contents) :
    ∃ contents', (dequeueRef pool).HoldsAll contents' ∧
      contents' localBufferInUser = (contents localBufferInUser).tail ∧
      (dequeueRef pool).queueDepth =
        pool.queueDepth - ((contents localBufferInUser).head?.toList.length : Int) := by
  unfold dequeueRef
  rcases h.oldest with ⟨hfirst, hempty⟩ | ⟨ele, hfirst, hhead⟩
  · rw [hfirst, hempty]
    exact ⟨contents, h, hempty, (Int.sub_zero _).symm⟩
  · rw [hfirst, hhead]
    exact ⟨_, dequeue_holdsAll h hhead rfl rfl rfl rfl, Function.update_self .., rfl⟩

/-- A GET's dequeue does the same: the canary is not a holder. -/
theorem getDequeue_holdsAll (h : pool.HoldsAll contents) :
    ∃ contents', (getDequeue pool).HoldsAll contents' ∧
      contents' localBufferInUser = (contents localBufferInUser).tail ∧
      (getDequeue pool).queueDepth =
        pool.queueDepth - ((contents localBufferInUser).head?.toList.length : Int) := by
  obtain ⟨contents', hheld, hqueue, hdepth⟩ := dequeueRef_holdsAll h
  unfold getDequeue
  rcases h.oldest with ⟨hfirst, hempty⟩ | ⟨ele, hfirst, -⟩
  · rw [hfirst, hempty]
    exact ⟨contents, h, hempty, (Int.sub_zero _).symm⟩
  · rw [hfirst]
    exact ⟨contents', hheld, hqueue, hdepth⟩

/-- A copy dequeue takes the oldest packet into the hand, and does not count it. -/
theorem copyDequeue_holdsAll (h : pool.HoldsAll contents) :
    ∃ contents', (copyDequeue pool).HoldsAll contents' ∧
      contents' localBufferInUser = (contents localBufferInUser).tail ∧
      (copyDequeue pool).queueDepth = pool.queueDepth := by
  unfold copyDequeue
  rcases h.oldest with ⟨hfirst, hempty⟩ | ⟨ele, hfirst, hhead⟩
  · rw [hfirst, hempty]
    exact ⟨contents, h, hempty, rfl⟩
  · rw [hfirst]
    exact ⟨_, dequeue_holdsAll h hhead rfl rfl rfl rfl, Function.update_self .., rfl⟩

/-- A turn of the reset's loop recycles the oldest packet, and does not count it. -/
theorem resetMove_holdsAll (h : pool.HoldsAll contents) :
    ∃ contents', (resetMove pool).HoldsAll contents' ∧
      contents' localBufferInUser = (contents localBufferInUser).tail ∧
      (resetMove pool).queueDepth = pool.queueDepth := by
  unfold resetMove
  rcases h.oldest with ⟨hfirst, hempty⟩ | ⟨ele, hfirst, hhead⟩
  · rw [hfirst, hempty]
    exact ⟨contents, h, hempty, rfl⟩
  · rw [hfirst]
    exact ⟨_, recycle_holdsAll h hhead rfl rfl rfl rfl, by simp, rfl⟩

/-- How many packets a cull takes off a queue, given its depth counter. -/
def cullCount (bound : Int) (queue : List (Fin size)) (depth : Int) : Nat :=
  if bound ≤ 0 then 0 else min queue.length (depth - bound).toNat

/-- The cull loop takes the oldest packets off the queue, as many as the depth is above the bound
or as there are, and counts each of them off the depth. -/
theorem cullLoop_spec (bound : Int) (turns : Nat) (h : pool.HoldsAll contents)
    (hturns : (contents localBufferInUser).length ≤ turns) :
    (cullLoop bound turns pool).2 =
        min (contents localBufferInUser).length (pool.queueDepth - bound).toNat ∧
      (cullLoop bound turns pool).1.queueDepth =
        pool.queueDepth - (cullLoop bound turns pool).2 ∧
      ∃ contents', (cullLoop bound turns pool).1.HoldsAll contents' ∧
        contents' localBufferInUser =
          (contents localBufferInUser).drop (cullLoop bound turns pool).2 := by
  induction turns generalizing pool contents with
  | zero =>
      have hempty : contents localBufferInUser = [] := by simpa using hturns
      simp only [cullLoop, hempty]
      exact ⟨by simp, by simp, contents, h, by simp [hempty]⟩
  | succ turns ih =>
      unfold cullLoop
      split
      · rename_i hdepth
        -- the loop also ends where the list does, whatever the counter says
        rcases h.oldest with ⟨hfirst, hempty⟩ | ⟨ele, hfirst, hhead⟩
        · rw [hfirst]
          exact ⟨by simp [hempty], by simp, contents, h, by simp⟩
        · rw [hfirst]
          have hheld : ({ pool with
              links := recycle pool.links ele
              queueDepth := pool.queueDepth - 1 } : Pool size).HoldsAll _ :=
            recycle_holdsAll h hhead rfl rfl rfl rfl
          have htail : Function.update
              (Function.update contents localBufferInUser (contents localBufferInUser).tail)
              localBufferIn (contents localBufferIn ++ [ele]) localBufferInUser =
                (contents localBufferInUser).tail := by simp
          have hpos : (contents localBufferInUser).length ≠ 0 := by
            rw [Ne, List.length_eq_zero_iff]
            intro hempty
            simp [hempty] at hhead
          -- the rest of the loop sees a shorter list, and a depth smaller by one
          obtain ⟨hculled, hrest, contents', hheld', hdrop⟩ := ih hheld (by
            rw [htail, List.length_tail]
            omega)
          rw [htail, List.length_tail] at hculled
          refine ⟨?_, ?_, contents', hheld', ?_⟩
          · simp only [hculled]
            omega
          · simp only [hrest]
            push_cast
            omega
          · rw [hdrop, htail, List.drop_tail]
      · exact ⟨by simp; omega, by simp, contents, h, by simp⟩

/-- Marking the seam moves no element. -/
theorem markSeam_holdsAll (h : pool.HoldsAll contents) (culled : Nat) :
    (markSeam pool culled).HoldsAll contents := by
  unfold markSeam
  split
  · exact h
  · exact h

/-- Marking the seam leaves the depth alone. -/
@[simp] theorem markSeam_queueDepth (pool : Pool size) (culled : Nat) :
    (markSeam pool culled).queueDepth = pool.queueDepth := by
  unfold markSeam
  split <;> rfl

/-- The cull, as one step of the queue. -/
theorem cullStale_holdsAll (h : pool.HoldsAll contents) (bound : Int) :
    ∃ contents', (cullStale pool bound).HoldsAll contents' ∧
      contents' localBufferInUser =
        (contents localBufferInUser).drop
          (cullCount bound (contents localBufferInUser) pool.queueDepth) ∧
      (cullStale pool bound).queueDepth =
        pool.queueDepth - cullCount bound (contents localBufferInUser) pool.queueDepth := by
  have hlength : (contents localBufferInUser).length ≤ size := by
    simpa using h.account.length_le localBufferInUser
  unfold cullStale cullCount
  split
  · exact ⟨contents, h, by simp, by simp⟩
  · obtain ⟨hculled, hdepth, contents', hheld, hdrop⟩ := cullLoop_spec bound size h hlength
    rw [hculled] at hdepth hdrop
    exact ⟨contents', markSeam_holdsAll hheld _, hdrop, by simpa using hdepth⟩

/-! ## Every step -/

/-- What a step does to the queue and to its depth counter. -/
def QueueStep (event : Event size) (queue : List (Fin size)) (depth : Int)
    (queue' : List (Fin size)) (depth' : Int) : Prop :=
  match event with
  | .shipQueue _ _ => ∃ ele, queue' = queue ++ [ele] ∧ depth' = depth + 1
  | .cull bound =>
      queue' = queue.drop (cullCount bound queue depth) ∧
        depth' = depth - cullCount bound queue depth
  | .getDequeue | .dequeueRef =>
      queue' = queue.tail ∧ depth' = depth - (queue.head?.toList.length : Int)
  | .copyDequeue | .resetMove => queue' = queue.tail ∧ depth' = depth
  | _ => queue' = queue ∧ depth' = depth

/-- Every step keeps every element held, and does to the queue what `QueueStep` says. -/
theorem next_holdsAll {event : Event size} (h : pool.HoldsAll contents)
    (hstep : next pool event = some following) :
    ∃ contents', following.HoldsAll contents' ∧
      QueueStep event (contents localBufferInUser) pool.queueDepth
        (contents' localBufferInUser) following.queueDepth := by
  -- the handles move between pool and user only; what a step does to the queue is `QueueStep`
  cases event with
  | shipPop =>
      obtain ⟨hproducer, rfl⟩ : pool.producer = none ∧ shipPop pool = following := by
        simpa [next] using hstep
      obtain ⟨contents', hheld, hqueue⟩ := shipPop_holdsAll h hproducer
      refine ⟨contents', hheld, hqueue, ?_⟩
      unfold shipPop
      split <;> rfl
  | shipQueue slot discont =>
      obtain ⟨ele, hproducer, rfl⟩ : ∃ ele, pool.producer = some ele ∧
          shipQueue pool ele slot discont = following := by
        simpa [next] using hstep
      obtain ⟨contents', hheld, hqueue⟩ := shipQueue_holdsAll h hproducer slot discont
      exact ⟨contents', hheld, ele, hqueue, rfl⟩
  | cull bound =>
      obtain rfl := Option.some.inj hstep
      exact cullStale_holdsAll h bound
  | getDequeue =>
      obtain rfl := Option.some.inj hstep
      exact getDequeue_holdsAll h
  | getOwn ele =>
      obtain ⟨hmem, rfl⟩ : ele ∈ pool.inHand ∧ getOwn pool ele = following := by
        simpa [next] using hstep
      exact ⟨contents, getOwn_holdsAll h hmem, rfl, rfl⟩
  | getFault idx =>
      obtain rfl := Option.some.inj hstep
      exact ⟨contents, disown_holdsAll h idx, rfl, rfl⟩
  | put arg =>
      obtain rfl := Option.some.inj hstep
      refine ⟨contents, put_holdsAll h arg, rfl, ?_⟩
      unfold put
      split <;> rfl
  | fileRelease idx =>
      obtain rfl := Option.some.inj hstep
      exact ⟨contents, disown_holdsAll h idx, rfl, rfl⟩
  | dequeueRef =>
      obtain rfl := Option.some.inj hstep
      exact dequeueRef_holdsAll h
  | copyDequeue =>
      obtain rfl := Option.some.inj hstep
      exact copyDequeue_holdsAll h
  | release ele =>
      obtain ⟨hmem, rfl⟩ : ele ∈ pool.inHand ∧ release pool ele = following := by
        simpa [next] using hstep
      exact ⟨_, release_holdsAll h hmem, by simp, rfl⟩
  | resetMove =>
      obtain ⟨-, rfl⟩ : pool.producer = none ∧ resetMove pool = following := by
        simpa [next] using hstep
      exact resetMove_holdsAll h

end RfnmDriver.LocalRx
