import RfnmDriver.Usb.RequestConservation

/-!
# The population of the USB IN request pool

How many IN requests are alive, over stream restarts and alt-settings. A restart tops the pool up to
the cap and then drains: the top-up counts the requests in flight and the free ones, and knows
neither the staged ones, which the drain makes free, nor those queued without an element. Read
`restart_atTarget` first.
-/

namespace RfnmDriver.Usb

open StepSystem Head

/-- Where `__rfnm_restart_sm` is. -/
inductive Restart
  | none
  /-- `rfnm_usb_in_pool_topup` has read `rfnm_usb_inflight_cnt`. -/
  | counting (alive : Nat)
  /-- It mints what is missing. -/
  | minting
  /-- `rfnm_reset_stream_io_state`. -/
  | resetting
  deriving DecidableEq, Repr

/-- The pool, the requests that have no element yet, and the restart. -/
structure Population where
  pool : Pool
  /-- Requests at the controller that complete without an element as context. -/
  untracked : Nat
  /-- `rfnm_usb_in_ep_cnt` is not zero. -/
  epKnown : Bool
  restart : Restart

namespace Population

/-- One step of one context. -/
inductive Event
  /-- A step of the pool. -/
  | pool (event : Usb.Event)
  /-- `sourcesink_set_alt`: the endpoints are disabled and enabled, and so many requests queued. -/
  | setAlt (prequeued : Nat)
  /-- `rfnm_usb_in_pool_topup` reads the in-flight count. -/
  | topupRead
  /-- It walks the free list. -/
  | topupScan
  /-- An allocation fails. -/
  | topupFail
  /-- `rfnm_reset_sm` begins. -/
  | reset
  /-- The restart is complete. -/
  | finish
  deriving DecidableEq

/-- The module init. -/
def init : Population where
  pool := Pool.init
  untracked := 0
  epKnown := false
  restart := .none

/-- Where a step of the pool can be taken: a request without an element is there to complete, the
top-up has counted, the reset has begun. -/
def Allowed (population : Population) : Usb.Event → Prop
  | .adopt => 0 < population.untracked
  | .topupCount => False
  | .topupAdd => population.restart = .minting
  | .resetPop | .resetPush => population.restart = .resetting
  | _ => True

instance (population : Population) (event : Usb.Event) :
    Decidable (population.Allowed event) := by
  unfold Allowed
  split <;> infer_instance

/-- The requests without an element: a completion gives one its element, flush mode takes it. -/
def untrackedAfter (population : Population) : Usb.Event → Nat
  | .adopt => population.untracked - 1
  | .flushTake => population.untracked + 1
  | _ => population.untracked

/-- A completion that goes back to the pool makes its endpoint known. -/
def epKnownAfter (population : Population) : Usb.Event → Bool
  | .readd _ => true
  | _ => population.epKnown

/-- One step of one context; `none` when the context is not at that point. -/
def next (population : Population) : Event → Option Population
  | .pool event =>
      if population.Allowed event then
        (Usb.next population.pool event).map fun pool =>
          { population with
            pool := pool
            untracked := population.untrackedAfter event
            epKnown := population.epKnownAfter event }
      else none
  | .setAlt prequeued =>
      -- disabling an endpoint has given back all that was queued on it
      if population.untracked = 0 ∧ population.pool.atUdc = [] ∧
          population.pool.completing = [] then
        some { population with untracked := prequeued }
      else none
  | .topupRead =>
      if population.restart = .none then
        if population.epKnown then
          some { population with restart := .counting population.pool.inflightCnt }
        else
          some { population with
            pool := { population.pool with deficit := 0 }
            restart := .minting }
      else none
  | .topupScan =>
      match population.restart with
      | .counting alive =>
          some { population with
            pool := { population.pool with
              deficit :=
                usbInflightCap - (alive + (population.pool.contents reqBufferIn).length) }
            restart := .minting }
      | _ => none
  | .topupFail =>
      if population.restart = .minting then
        some { population with pool := { population.pool with deficit := 0 } }
      else none
  | .reset =>
      if population.restart = .minting ∧ population.pool.deficit = 0 then
        some { population with restart := .resetting }
      else none
  | .finish =>
      if population.restart = .resetting ∧ first population.pool reqBufferInUsb = none ∧
          population.pool.resetting = none then
        some { population with restart := .none }
      else none

/-! ## Who is alive -/

/-- The live requests: on the lists, in a hand, or queued without an element. -/
def live (population : Population) : Nat :=
  (population.pool.contents reqBufferIn).length +
    (population.pool.contents reqBufferInUsb).length +
      (population.pool.contents reqInflightIn).length + population.pool.inHand.length +
        population.untracked

/-- When a restart is complete, as many requests are alive as the top-up is to leave. -/
def AtTarget (_population : Population) (event : Event) (following : Population) : Prop :=
  event = .finish → following.live = usbInflightCap

instance (population : Population) (event : Event) (following : Population) :
    Decidable (population.AtTarget event following) :=
  inferInstanceAs (Decidable (_ → _))

/-- The step frees a request. -/
def Destroys : Usb.Event → Prop
  | .completeDestroy _ | .workerDestroy => True
  | _ => False

/-- The top-up has counted, and the restart is not complete. -/
def Counted (population : Population) : Prop :=
  population.restart = .minting ∨ population.restart = .resetting

/-- The top-up sees every live request, once: nothing is staged, in a hand or queued without an
element, nothing has completed since it read the in-flight count, and no more are alive than the
cap. From then on no request dies and no endpoint is enabled until the restart is complete, and
allocation succeeds. The pool is undisturbed. -/
def Steady (population : Population) (event : Event) : Prop :=
  match event, population.restart with
  | .pool event, _ => Undisturbed population.pool event ∧ (population.Counted → ¬ Destroys event)
  | .setAlt _, _ => ¬ population.Counted
  | .topupRead, _ => population.epKnown = true
  | .topupScan, .counting alive =>
      alive = population.pool.inflightCnt ∧ population.pool.contents reqBufferInUsb = [] ∧
        population.pool.inHand = [] ∧ population.untracked = 0 ∧
          alive + (population.pool.contents reqBufferIn).length ≤ usbInflightCap
  | .topupFail, _ => False
  | _, _ => True

instance (event : Usb.Event) : Decidable (Destroys event) := by
  unfold Destroys
  split <;> infer_instance

instance (population : Population) : Decidable population.Counted :=
  inferInstanceAs (Decidable (_ ∨ _))

instance (population : Population) (event : Event) : Decidable (population.Steady event) := by
  unfold Steady
  split <;> infer_instance

/-! ## What a step of the pool does to the counters -/

variable {pool following : Pool} {contents : Head → List Nat}

/-- A step that neither makes nor frees a request, nor is one of the top-up's, leaves the counters
alone. -/
theorem next_counters {event : Usb.Event} (hdestroys : ¬ Destroys event) (hadopt : event ≠ .adopt)
    (hcount : event ≠ .topupCount) (hadd : event ≠ .topupAdd)
    (hstep : Usb.next pool event = some following) :
    following.created = pool.created ∧ following.freed = pool.freed ∧
      following.deficit = pool.deficit := by
  cases event with
  | adopt => exact absurd rfl hadopt
  | topupCount => exact absurd rfl hcount
  | topupAdd => exact absurd rfl hadd
  | completeDestroy ele => exact absurd trivial hdestroys
  | workerDestroy => exact absurd trivial hdestroys
  | complete ele | readd ele =>
      obtain ⟨-, rfl⟩ := of_guard hstep
      exact ⟨rfl, rfl, rfl⟩
  | shipPeek | shipCopy | shipMove | partialPop | partialStage | workerPeek | workerTake
  | workerTrack | workerQueued | workerFail | workerRecycle | flushPeek head | flushTake | resetPop
  | resetPush =>
      simp only [Usb.next] at hstep
      split at hstep <;> cases hstep <;> exact ⟨rfl, rfl, rfl⟩

/-! ## The invariant -/

/-- The pool is sound, the in-flight count is that of the list, and from the count of the top-up on
the live requests and the missing ones make up the cap. -/
structure Good (population : Population) (contents : Head → List Nat) : Prop where
  inv : Inv population.pool contents
  inflight : population.pool.inflightCnt = (contents reqInflightIn).length
  target : population.Counted → population.live + population.pool.deficit = usbInflightCap
  drained : population.restart = .resetting → population.pool.deficit = 0

variable {population reached : Population} {event : Event}

/-- The live requests are those made and not freed, and those without an element. -/
theorem live_eq (h : Inv population.pool contents) :
    population.live + population.pool.freed.length =
      population.pool.created + population.untracked := by
  have hlength := h.holds.2.length_eq
  simp only [List.length_append, List.length_range] at hlength
  unfold live
  rw [h.holds.contents_eq]
  omega

/-- The top-up that sees every live request once finds out how many are missing. -/
theorem live_of_scan (h : population.Good contents) {alive : Nat}
    (halive : alive = population.pool.inflightCnt)
    (hstaged : population.pool.contents reqBufferInUsb = [])
    (hhand : population.pool.inHand = []) (huntracked : population.untracked = 0) :
    population.live = alive + (population.pool.contents reqBufferIn).length := by
  have hinflight := h.inflight
  rw [← h.inv.holds.contents_eq] at hinflight
  rw [live, hstaged, hhand, huntracked, halive, hinflight, List.length_nil]
  omega

/-- A step of the pool that frees no request makes one only where one is missing. -/
theorem pool_live {event : Usb.Event} {contents' : Head → List Nat}
    (h : Inv population.pool contents) (h' : Inv following contents')
    (hallowed : population.Allowed event) (hdestroys : ¬ Destroys event)
    (hstep : Usb.next population.pool event = some following) :
    live { population with
      pool := following
      untracked := population.untrackedAfter event
      epKnown := population.epKnownAfter event } + following.deficit =
        population.live + population.pool.deficit ∧
      (event = .topupAdd ∨ following.deficit = population.pool.deficit) := by
  have hbefore := live_eq h
  have hafter : live { population with
      pool := following
      untracked := population.untrackedAfter event
      epKnown := population.epKnownAfter event } + following.freed.length =
        following.created + population.untrackedAfter event := live_eq h'
  -- only adoption and the top-up change how many requests there are
  by_cases hadopt : event = .adopt
  · subst hadopt
    have hpos : 0 < population.untracked := hallowed
    obtain rfl := Option.some.inj hstep
    refine ⟨?_, .inr rfl⟩
    simp only [adopt, untrackedAfter] at hafter ⊢
    omega
  by_cases hadd : event = .topupAdd
  · subst hadd
    obtain ⟨hdeficit, rfl⟩ : ¬ population.pool.deficit = 0 ∧
        topupAdd population.pool = following := by
      simpa [Usb.next] using hstep
    refine ⟨?_, .inl rfl⟩
    simp only [topupAdd, append, untrackedAfter] at hafter ⊢
    omega
  have hcount : event ≠ .topupCount := by
    rintro rfl
    exact hallowed
  obtain ⟨hcreated, hfreed, hdeficit⟩ := next_counters hdestroys hadopt hcount hadd hstep
  have huntracked : population.untrackedAfter event = population.untracked := by
    unfold untrackedAfter
    split
    · exact absurd rfl hadopt
    · -- flush mode has no request in its hand
      simp only [Usb.next] at hstep
      split at hstep
      next ele hworker => exact absurd hworker (h.not_flushing ele)
      next => cases hstep
    · rfl
  refine ⟨?_, .inr hdeficit⟩
  rw [huntracked] at hafter ⊢
  rw [hcreated, hfreed] at hafter
  omega

/-- A steady step keeps the invariant. -/
theorem next_good (h : population.Good contents) (hsteady : population.Steady event)
    (hstep : population.next event = some reached) : ∃ contents', reached.Good contents' := by
  -- the population is tied to its target only from a count to the end of its restart
  cases event with
  | pool event =>
      obtain ⟨hallowed, hmap⟩ := Option.ite_none_right_eq_some.mp hstep
      obtain ⟨following, hpool, rfl⟩ := Option.map_eq_some_iff.mp hmap
      obtain ⟨hundisturbed, hdestroys⟩ := hsteady
      obtain ⟨contents', hinv, hinflight⟩ := next_inv h.inv hundisturbed hpool
      refine ⟨contents', hinv, hinflight h.inflight, fun hcounted => ?_, fun hresetting => ?_⟩
      · obtain ⟨hlive, -⟩ := pool_live h.inv hinv hallowed (hdestroys hcounted) hpool
        exact hlive.trans (h.target hcounted)
      · obtain ⟨-, rfl | hdeficit⟩ :=
          pool_live h.inv hinv hallowed (hdestroys (.inr hresetting)) hpool
        · have hminting : population.restart = .minting := hallowed
          exact absurd (hminting.symm.trans hresetting) (by simp)
        · exact hdeficit.trans (h.drained hresetting)
  | setAlt prequeued =>
      obtain ⟨-, rfl⟩ := of_guard hstep
      have hnot : ¬ population.Counted := hsteady
      exact ⟨contents, h.inv, h.inflight, fun hcounted => absurd hcounted hnot,
        fun hresetting => absurd (.inr hresetting) hnot⟩
  | topupRead =>
      obtain ⟨-, hread⟩ := Option.ite_none_right_eq_some.mp hstep
      have hknown : population.epKnown = true := hsteady
      rw [if_pos hknown] at hread
      obtain rfl := Option.some.inj hread
      exact ⟨contents, h.inv, h.inflight, by simp [Counted], by simp⟩
  | topupScan =>
      cases hrestart : population.restart with
      | counting alive =>
          simp only [Steady, hrestart] at hsteady
          simp only [next, hrestart] at hstep
          obtain rfl := Option.some.inj hstep
          obtain ⟨halive, hstaged, hhand, huntracked, hcap⟩ := hsteady
          have hlive := live_of_scan h halive hstaged hhand huntracked
          refine ⟨contents, h.inv.same (same_holdsAll h.inv.holds rfl rfl rfl rfl) (.inl rfl) rfl,
            h.inflight, fun _ => ?_, by simp⟩
          show population.live + (usbInflightCap - _) = _
          omega
      | none | minting | resetting => simp [next, hrestart] at hstep
  | topupFail => exact hsteady.elim
  | reset =>
      obtain ⟨⟨hminting, hdeficit⟩, rfl⟩ := of_guard hstep
      exact ⟨contents, h.inv, h.inflight, fun _ => h.target (.inl hminting), fun _ => hdeficit⟩
  | finish =>
      obtain ⟨-, rfl⟩ := of_guard hstep
      exact ⟨contents, h.inv, h.inflight, by simp [Counted], by simp⟩

/-- A restart that is complete leaves as many live requests as the cap. -/
theorem next_atTarget (h : population.Good contents)
    (hstep : population.next event = some reached) : population.AtTarget event reached := by
  rintro rfl
  obtain ⟨⟨hresetting, -, -⟩, rfl⟩ := of_guard hstep
  have htarget := h.target (.inr hresetting)
  rw [h.drained hresetting] at htarget
  exact htarget

/-! ## Runs -/

/-- The pool is sound and its in-flight count is that of the list, whatever requests are where; no
restart is under way. -/
def Settled (population : Population) : Prop :=
  (∃ contents, Inv population.pool contents ∧
    population.pool.inflightCnt = (contents reqInflightIn).length) ∧ population.restart = .none

/-- Before the first request. -/
theorem init_settled : init.Settled := by
  obtain ⟨contents, h⟩ := init_sound
  refine ⟨⟨contents, h, ?_⟩, rfl⟩
  rw [← h.holds.contents_eq]
  decide

/-- From any distribution of the requests, and over any number of alt-settings and restarts whose
top-ups see every live request once, every restart leaves as many live requests as the cap. -/
theorem restart_atTarget (start : Population) (hstart : start.Settled) (events : List Event)
    (hsteady : Guarded next Steady start events) : EveryStep next AtTarget start events := by
  obtain ⟨⟨contents, hinv, hinflight⟩, hnone⟩ := hstart
  have hgood : start.Good contents :=
    ⟨hinv, hinflight, fun hcounted => by simp [Counted, hnone] at hcounted,
      fun hresetting => by simp [hnone] at hresetting⟩
  have hkeep : ∀ (population : Population) event reached,
      (∃ contents, population.Good contents) → population.Steady event →
        population.next event = some reached → ∃ contents, reached.Good contents :=
    fun _ _ _ ⟨_, h⟩ hsteady hstep => next_good h hsteady hstep
  exact everyStep_of_guarded hkeep (fun _ _ _ ⟨_, h⟩ _ hstep => next_atTarget h hstep)
    ⟨contents, hgood⟩ hsteady

/-- The first completion makes the endpoint known, and the top-up adds the other sixty-three. -/
theorem restart_atTarget_run : EveryStep next AtTarget init
    ([.setAlt 1, .pool .adopt, .pool (.readd 0), .topupRead, .topupScan] ++
      List.replicate 63 (.pool .topupAdd) ++ [.reset, .pool .resetPop, .finish]) :=
  restart_atTarget init init_settled _ (by decide +kernel)

/-- One request is staged when the pool is topped up: it is not counted, the pool is filled up
around it, and the reset makes it free again. -/
theorem staged_request_exceeds_target : ¬ ∀ (start : Population) (events : List Event),
    start.Settled → EveryStep next AtTarget start events := by
  intro h
  have := h init ([.setAlt 1, .pool .adopt, .pool (.readd 0), .pool .shipPeek, .pool .shipCopy,
    .pool .shipMove, .topupRead, .topupScan] ++ List.replicate 64 (.pool .topupAdd) ++
      [.reset, .pool .resetPop, .pool .resetPush, .finish]) init_settled
  revert this
  decide +kernel

end Population

end RfnmDriver.Usb
