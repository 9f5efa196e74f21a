import RfnmDriver.LocalRx.PoolConservation

/-!
# The depth counter of the local RX queue

`rfnm_local_rx_queue_depth` is maintained by hand next to the queue. Ships, by-reference dequeues
and culls count; the copy dequeue and the reset's recycling do not, and nothing ever brings the
counter back. So it equals the length of the queue exactly as long as these two find the queue
empty, and then a cull leaves the newest packets: `depth_exact_iff_counted`.
-/

namespace RfnmDriver.LocalRx

open StepSystem Head

variable {size : Nat} {pool following : Pool size} {contents : Head → List (Fin size)}
  {event : Event size}

/-- The packets queued for delivery, oldest first. -/
def Pool.queue (pool : Pool size) : List (Fin size) :=
  pool.contents localBufferInUser

/-- The counter is the length of the queue. -/
def DepthExact (pool : Pool size) : Prop :=
  pool.queueDepth = pool.queue.length

/-- The newest packets of a queue, at most `bound` of them, in order. -/
def newest (bound : Int) (queue : List (Fin size)) : List (Fin size) :=
  queue.drop (queue.length - bound.toNat)

/-- A cull under a bound leaves exactly the newest packets. -/
def CullKeepsNewest (pool : Pool size) (event : Event size) (following : Pool size) : Prop :=
  match event with
  | .cull bound => 0 < bound → following.queue = newest bound pool.queue
  | _ => True

/-- A copy dequeue and a reset find the queue empty. -/
def Counted (pool : Pool size) (event : Event size) : Prop :=
  match event with
  | .copyDequeue | .resetMove => pool.queue = []
  | _ => True

instance (pool : Pool size) : Decidable (DepthExact pool) :=
  inferInstanceAs (Decidable (_ = _))

instance (pool : Pool size) (event : Event size) (following : Pool size) :
    Decidable (CullKeepsNewest pool event following) := by
  unfold CullKeepsNewest
  split <;> infer_instance

instance (pool : Pool size) (event : Event size) : Decidable (Counted pool event) := by
  unfold Counted
  split <;> infer_instance

/-- With an exact depth the cull takes all but the newest packets. -/
theorem drop_cullCount {bound : Int} {queue : List (Fin size)} {depth : Int} (hbound : 0 < bound)
    (hdepth : depth = queue.length) :
    queue.drop (cullCount bound queue depth) = newest bound queue := by
  have hcount : cullCount bound queue depth = queue.length - bound.toNat := by
    unfold cullCount
    split <;> omega
  rw [hcount, newest]

/-! ## One step of the queue and its counter -/

/-- A step that counts keeps the counter exact. -/
theorem QueueStep.exact {queue queue' : List (Fin size)} {depth depth' : Int}
    (h : QueueStep event queue depth queue' depth') (hdepth : depth = queue.length)
    (hcounted : event = .copyDequeue ∨ event = .resetMove → queue = []) :
    depth' = queue'.length := by
  cases event with
  | shipQueue slot discont =>
      obtain ⟨ele, rfl, rfl⟩ := h
      simp [hdepth]
  | cull bound =>
      obtain ⟨rfl, rfl⟩ := h
      have hle : cullCount bound queue depth ≤ queue.length := by
        unfold cullCount
        split <;> omega
      rw [List.length_drop]
      omega
  | getDequeue | dequeueRef =>
      obtain ⟨rfl, rfl⟩ := h
      cases queue <;> simp_all
  | copyDequeue | resetMove =>
      obtain ⟨rfl, rfl⟩ := h
      obtain rfl := hcounted (by simp)
      simpa using hdepth
  | shipPop | getOwn | getFault | put | fileRelease | release =>
      obtain ⟨rfl, rfl⟩ := h
      exact hdepth

/-- A copy dequeue or a reset that keeps an exact counter exact found the queue empty. -/
theorem QueueStep.counted {queue queue' : List (Fin size)} {depth depth' : Int}
    (h : QueueStep event queue depth queue' depth') (hdepth : depth = queue.length)
    (hdepth' : depth' = queue'.length) (hevent : event = .copyDequeue ∨ event = .resetMove) :
    queue = [] := by
  rcases hevent with rfl | rfl <;> obtain ⟨rfl, rfl⟩ := h
  all_goals
    rw [hdepth, List.length_tail] at hdepth'
    exact List.eq_nil_of_length_eq_zero (by omega)

/-! ## Runs -/

/-- Every element is held and the counter is exact. -/
def Pool.Exact (pool : Pool size) : Prop :=
  ∃ contents, pool.HoldsAll contents ∧ pool.queueDepth = (contents localBufferInUser).length

/-- The queue read off the pointers is the one of the account. -/
theorem Pool.HoldsAll.queue_eq (h : pool.HoldsAll contents) :
    pool.queue = contents localBufferInUser := by
  rw [Pool.queue, h.contents_eq]

/-- The invariant gives the property. -/
theorem Pool.Exact.depthExact (h : pool.Exact) : DepthExact pool := by
  obtain ⟨contents, h, hdepth⟩ := h
  rw [DepthExact, h.queue_eq]
  exact hdepth

/-- A counted step keeps the invariant. -/
theorem next_exact (h : pool.Exact) (hcounted : Counted pool event)
    (hstep : next pool event = some following) : following.Exact := by
  obtain ⟨contents, h, hdepth⟩ := h
  obtain ⟨contents', h', hqueue⟩ := next_holdsAll h hstep
  refine ⟨contents', h', hqueue.exact hdepth ?_⟩
  rintro (rfl | rfl) <;> simpa [Counted, h.queue_eq] using hcounted

/-- A step that keeps the counter exact is counted. -/
theorem counted_of_exact (h : pool.Exact) (hstep : next pool event = some following)
    (hexact : DepthExact following) : Counted pool event := by
  obtain ⟨contents, h, hdepth⟩ := h
  obtain ⟨contents', h', hqueue⟩ := next_holdsAll h hstep
  have hdepth' : following.queueDepth = (contents' localBufferInUser).length := by
    rwa [DepthExact, h'.queue_eq] at hexact
  unfold Counted
  split
  · rw [h.queue_eq]
    exact hqueue.counted hdepth hdepth' (.inl rfl)
  · rw [h.queue_eq]
    exact hqueue.counted hdepth hdepth' (.inr rfl)
  · trivial

/-- With an exact counter a cull leaves the newest packets. -/
theorem cullKeepsNewest_of_exact (h : pool.Exact) (hstep : next pool event = some following) :
    CullKeepsNewest pool event following := by
  obtain ⟨contents, h, hdepth⟩ := h
  obtain ⟨contents', h', hqueue⟩ := next_holdsAll h hstep
  unfold CullKeepsNewest
  split
  · intro hbound
    obtain ⟨hdrop, -⟩ := hqueue
    rw [h'.queue_eq, h.queue_eq, hdrop, drop_cullCount hbound hdepth]
  · trivial

/-- The counter equals the length of the queue in every state of a run, and every cull leaves the
newest packets, exactly when every copy dequeue and every reset of the run finds the queue
empty. -/
theorem depth_exact_iff_counted (size : Nat) (events : List (Event size)) :
    (Always next DepthExact (Pool.init size) events ∧
      EveryStep next CullKeepsNewest (Pool.init size) events) ↔
        Guarded next Counted (Pool.init size) events := by
  obtain ⟨contents, hinit, hempty⟩ := init_holdsAll size
  have hstart : (Pool.init size).Exact := ⟨contents, hinit, by simp [hempty, Pool.init]⟩
  have hkeep : ∀ (pool : Pool size) event following, pool.Exact → Counted pool event →
      next pool event = some following → following.Exact := fun _ _ _ => next_exact
  have hiff : Always next DepthExact (Pool.init size) events ↔
      Guarded next Counted (Pool.init size) events :=
    always_iff_everyStep hkeep (fun _ => Pool.Exact.depthExact)
      (fun _ _ _ => counted_of_exact) hstart
  constructor
  · exact fun h => hiff.mp h.1
  · intro hguard
    refine ⟨hiff.mpr hguard, everyStep_of_guarded hkeep ?_ hstart hguard⟩
    exact fun _ _ _ h _ hstep => cullKeepsNewest_of_exact h hstep

/-- A reset with one packet queued leaves the counter one too high, and the next cull to one
packet throws away the only fresh one. -/
theorem reset_drifts_depth :
    ¬ ∀ events : List (Event 2), Always next DepthExact (Pool.init 2) events ∧
      EveryStep next CullKeepsNewest (Pool.init 2) events := by
  intro h
  have := (h [.shipPop, .shipQueue 0 false, .resetMove, .shipPop, .shipQueue 1 false, .cull 1]).2
  revert this
  decide

end RfnmDriver.LocalRx
