import Mathlib.Data.Fintype.Card
import RfnmDriver.Tx.PoolConservation

/-!
# The order of the pending TX packets

`rfnm_local_tx_insert_sorted` keeps the pending list in the order of the cc, packets of one cc in
the order in which they arrived, and `rfnm_handler_out` takes the first packet of the list for the
next one. The order holds whatever is inserted while the consumer is outside the lock, also where
its unlink through an old copy takes other packets off the list. Read `pending_sorted` first.
-/

namespace RfnmDriver.Tx

open KernelList KernelList.Links HandleTable StepSystem Head

variable {size : Nat}

/-- The pool, with the number under which each packet arrived. -/
structure Staging (size : Nat) where
  pool : Pool size
  arrived : Fin size → Nat
  arrivals : Nat

namespace Staging

/-- The module init. -/
def init (size : Nat) : Staging size where
  pool := Pool.init size
  arrived := fun _ => 0
  arrivals := 0

/-- One step of the pool; a packet that is committed gets the next number. -/
def next (staging : Staging size) (event : Event size) : Option (Staging size) :=
  (Tx.next staging.pool event).map fun pool =>
    match event with
    | .commit ele _ =>
        { pool := pool
          arrived := Function.update staging.arrived ele staging.arrivals
          arrivals := staging.arrivals + 1 }
    | _ => { staging with pool := pool }

/-- The first packet goes before the second: a smaller cc, or the same one and an earlier
arrival. -/
def Before (staging : Staging size) (first second : Fin size) : Prop :=
  staging.pool.localCc first < staging.pool.localCc second ∨
    staging.pool.localCc first = staging.pool.localCc second ∧
      staging.arrived first < staging.arrived second

/-- The pending packets, in the order of the list. -/
def pending (staging : Staging size) : List (Fin size) :=
  staging.pool.contents localBufferOut

/-- Every packet of the pending list goes before those behind it. -/
def Sorted (staging : Staging size) : Prop :=
  staging.pending.Pairwise staging.Before

/-- The packet that the consumer looks at is pending and goes before all others. -/
def PicksFirst (staging : Staging size) (event : Event size) (following : Staging size) : Prop :=
  match event, following.pool.consumer with
  | .peek, .peeked ele =>
      ele ∈ staging.pending ∧ ∀ other ∈ staging.pending, other = ele ∨ staging.Before ele other
  | _, _ => True

/-- A flush does not fall into a pass of the consumer. -/
def FlushBetweenPasses (staging : Staging size) (event : Event size) : Prop :=
  event = .flushStaging → staging.pool.consumer = .idle

instance (staging : Staging size) (event : Event size) :
    Decidable (staging.FlushBetweenPasses event) :=
  inferInstanceAs (Decidable (_ → _))

/-! ## What holds between two steps -/

/-- What the consumer remembers of the pending list: its packet, or a stretch of the list with its
packet and the two nodes around it. -/
def Remembers (consumer : Consumer size) (pending : List (Fin size)) : Prop :=
  match consumer with
  | .idle => True
  | .peeked ele => ele ∈ pending
  | .copied ele before after =>
      ∃ front middle back, pending = front ++ (middle ++ back) ∧ ele ∈ middle ∧
        before = lastNode localBufferOut front ∧ after = firstNode localBufferOut back

/-- The lists are well linked and no packet is held twice, the pending one is in order, and the
consumer's memory of it is good. -/
structure Ordered (staging : Staging size) (contents : Head → List (Fin size))
    (held : List (Fin size)) : Prop where
  nodup : held.Nodup
  account : Accounts staging.pool.links contents
    (handles staging.pool.zcTxOwned ++ staging.pool.inHand) held
  sorted : (contents localBufferOut).Pairwise staging.Before
  arrived : ∀ ele ∈ contents localBufferOut, staging.arrived ele < staging.arrivals
  remembers : Remembers staging.pool.consumer (contents localBufferOut)

variable {staging following : Staging size} {contents contents' : Head → List (Fin size)}
  {held held' : List (Fin size)} {ele : Fin size} {pool : Pool size}

/-- No more packets are held than there are. -/
theorem Ordered.length_le (h : staging.Ordered contents held) : held.length ≤ size := by
  have hcard := h.nodup.length_le_card
  rwa [Fintype.card_fin] at hcard

/-- The lists read off the pointers. -/
theorem Ordered.pending_eq (h : staging.Ordered contents held) :
    staging.pending = contents localBufferOut :=
  congrFun (h.account.read_eq h.length_le) localBufferOut

/-- A step that leaves the pending list and what the consumer knows alone. -/
theorem Ordered.keep (h : staging.Ordered contents held)
    (haccount : Accounts pool.links contents' (handles pool.zcTxOwned ++ pool.inHand) held)
    (hpending : contents' localBufferOut = contents localBufferOut)
    (hcc : pool.localCc = staging.pool.localCc)
    (hconsumer : pool.consumer = staging.pool.consumer) :
    { staging with pool := pool }.Ordered contents' held where
  nodup := h.nodup
  account := haccount
  sorted := by
    rw [hpending]
    refine h.sorted.imp fun hbefore => ?_
    unfold Before at hbefore ⊢
    rw [hcc]
    exact hbefore
  arrived := by
    rw [hpending]
    exact h.arrived
  remembers := by
    rw [hpending, hconsumer]
    exact h.remembers

/-- A step in which packets may leave the pending list, and the consumer starts anew. -/
theorem Ordered.drop (h : staging.Ordered contents held) (hnodup : held'.Nodup)
    (haccount : Accounts pool.links contents' (handles pool.zcTxOwned ++ pool.inHand) held')
    (hpending : (contents' localBufferOut).Sublist (contents localBufferOut))
    (hcc : pool.localCc = staging.pool.localCc) (hconsumer : pool.consumer = .idle) :
    { staging with pool := pool }.Ordered contents' held' where
  nodup := hnodup
  account := haccount
  sorted := by
    refine (h.sorted.sublist hpending).imp fun hbefore => ?_
    unfold Before at hbefore ⊢
    rw [hcc]
    exact hbefore
  arrived := fun ele hele => h.arrived ele (hpending.subset hele)
  remembers := by
    rw [hconsumer]
    trivial

/-! ## Insertion -/

/-- A packet inserted behind the last one whose cc is not above its own, with the latest number,
keeps the order. -/
theorem pairwise_insert {front back : List (Fin size)} {usbCc : Nat}
    (hsorted : (front ++ back).Pairwise staging.Before)
    (harrived : ∀ other ∈ front ++ back, staging.arrived other < staging.arrivals)
    (hnew : ele ∉ front ++ back)
    (hlast : ∀ last ∈ front.getLast?, staging.pool.localCc last ≤ usbCc)
    (hback : ∀ later ∈ back, usbCc < staging.pool.localCc later)
    (hpool : pool.localCc = Function.update staging.pool.localCc ele usbCc) :
    (front ++ ele :: back).Pairwise
      (Before { pool := pool
                arrived := Function.update staging.arrived ele staging.arrivals
                arrivals := staging.arrivals + 1 }) := by
  have hne : ∀ other ∈ front ++ back, other ≠ ele := fun other hother heq => hnew (heq ▸ hother)
  obtain ⟨hfront, hafter, hacross⟩ := List.pairwise_append.mp hsorted
  have hle : ∀ other ∈ front, staging.pool.localCc other ≤ usbCc := by
    obtain rfl | ⟨rest, last, rfl⟩ := List.eq_nil_or_concat' front
    · simp
    · have hcc : staging.pool.localCc last ≤ usbCc := hlast last (by simp)
      intro other hother
      obtain hrest | hother := List.mem_append.mp hother
      · obtain hlt | ⟨heq, -⟩ :=
          (List.pairwise_append.mp hfront).2.2 other hrest last List.mem_cons_self
        · exact hlt.le.trans hcc
        · exact heq.le.trans hcc
      · obtain rfl := List.mem_singleton.mp hother
        exact hcc
  -- the new numbers are those of before, but for the new packet
  have hkeep : ∀ first ∈ front ++ back, ∀ second ∈ front ++ back, staging.Before first second →
      Before { pool := pool
               arrived := Function.update staging.arrived ele staging.arrivals
               arrivals := staging.arrivals + 1 } first second := by
    intro first hfirst second hsecond hbefore
    simp only [Before, hpool, Function.update_of_ne (hne first hfirst),
      Function.update_of_ne (hne second hsecond)]
    exact hbefore
  refine List.pairwise_append.mpr ⟨hfront.imp_of_mem fun hfirst hsecond =>
    hkeep _ (List.mem_append_left _ hfirst) _ (List.mem_append_left _ hsecond),
    List.pairwise_cons.mpr ⟨fun later hlater => ?_, hafter.imp_of_mem fun hfirst hsecond =>
      hkeep _ (List.mem_append_right _ hfirst) _ (List.mem_append_right _ hsecond)⟩, ?_⟩
  · refine .inl ?_
    simp only [hpool, Function.update_self,
      Function.update_of_ne (hne later (List.mem_append_right _ hlater))]
    exact hback later hlater
  · intro first hfirst second hsecond
    have hmem := List.mem_append_left back hfirst
    obtain rfl | hsecond := List.mem_cons.mp hsecond
    · simp only [Before, hpool, Function.update_self, Function.update_of_ne (hne first hmem)]
      obtain hlt | heq := (hle first hfirst).lt_or_eq
      · exact .inl hlt
      · exact .inr ⟨heq, harrived first hmem⟩
    · exact hkeep _ hmem _ (List.mem_append_right _ hsecond) (hacross first hfirst second hsecond)

/-- The consumer's memory is as good after an insertion: the new packet goes in front of the
stretch, into it or behind it. -/
theorem remembers_insert {front back : List (Fin size)} {consumer : Consumer size}
    (h : Remembers consumer (front ++ back)) : Remembers consumer (front ++ ele :: back) := by
  cases consumer with
  | idle => trivial
  | peeked seen =>
      have hmem : seen ∈ front ++ back := h
      show seen ∈ front ++ ele :: back
      grind
  | copied seen before after =>
      obtain ⟨first, middle, last, hsplit, hmem, hbefore, hafter⟩ := h
      -- where the new element goes: ahead of what was copied, between its neighbours, or behind
      obtain ⟨rest, hfirst, hback⟩ | ⟨rest, hfront, hrest⟩ := List.append_eq_append_iff.mp hsplit
      · cases rest with
        | nil =>
            refine ⟨first, ele :: middle, last, ?_, List.mem_cons_of_mem _ hmem, hbefore, hafter⟩
            rw [hfirst, hback]
            simp
        | cons next rest =>
            refine ⟨front ++ ele :: next :: rest, middle, last, ?_, hmem, ?_, hafter⟩
            · rw [hback]
              simp
            · rw [hbefore, hfirst]
              simp [lastNode, List.getLast?_append, List.getLast?_cons]
      · obtain ⟨behind, hrest', hlast⟩ | ⟨behind, hmiddle, hback⟩ :=
          List.append_eq_append_iff.mp hrest
        · cases behind with
          | nil =>
              refine ⟨first, middle ++ [ele], last, ?_, List.mem_append_left _ hmem, hbefore,
                hafter⟩
              rw [hfront, hrest', hlast]
              simp
          | cons next behind =>
              refine ⟨first, middle, next :: (behind ++ ele :: back), ?_, hmem, hbefore, ?_⟩
              · rw [hfront, hrest']
                simp
              · rw [hafter, hlast]
                rfl
        · refine ⟨first, rest ++ ele :: behind, last, ?_, ?_, hbefore, hafter⟩
          · rw [hfront, hback]
            simp
          · rw [hmiddle] at hmem
            grind

/-- `rfnm_commit_local_buffer_tx` keeps the order. -/
theorem commit_ordered (h : staging.Ordered contents held) (hmem : ele ∈ staging.pool.inHand)
    {usbCc : Nat} (hcommit : commit staging.pool ele usbCc = some pool) :
    ∃ contents', Ordered { pool := pool
                           arrived := Function.update staging.arrived ele staging.arrivals
                           arrivals := staging.arrivals + 1 } contents' held := by
  have hlength := (h.account.length_le localBufferOut).trans h.length_le
  obtain ⟨following, front, back, hfollowing, hcontents, hlast, hlater, hholds, hcc, hconsumer⟩ :=
    commit_holds h.account h.nodup hlength hmem usbCc
  obtain rfl := Option.some.inj (hfollowing.symm.trans hcommit)
  -- a packet in a hand is not pending
  have hnew : ele ∉ front ++ back := by
    rw [← hcontents]
    exact h.account.not_mem_of_hand h.nodup (List.mem_append_right _ hmem) localBufferOut
  have hne : ∀ other ∈ front ++ back, other ≠ ele := fun other hother heq => hnew (heq ▸ hother)
  have hsorted := h.sorted
  have harrived := h.arrived
  have hremembers := h.remembers
  rw [hcontents] at hsorted harrived hremembers
  refine ⟨_, h.nodup, hholds, ?_, ?_, ?_⟩
  · rw [Function.update_self]
    refine pairwise_insert hsorted harrived hnew (fun last hmem' => ?_) (fun later hmem' => ?_) hcc
    · have hle := hlast last hmem'
      have hfront := List.mem_append_left back (List.mem_of_mem_getLast? hmem')
      rwa [Function.update_of_ne (hne last hfront)] at hle
    · have hlt := hlater later hmem'
      rwa [Function.update_of_ne (hne later (List.mem_append_right _ hmem'))] at hlt
  · intro other hother
    rw [Function.update_self] at hother
    show Function.update staging.arrived ele staging.arrivals other < staging.arrivals + 1
    obtain rfl | hne' := eq_or_ne other ele
    · rw [Function.update_self]
      exact Nat.lt_succ_self _
    · rw [Function.update_of_ne hne']
      exact (harrived other (by grind)).trans (Nat.lt_succ_self _)
  · rw [Function.update_self, hconsumer]
    exact remembers_insert hremembers

/-! ## The consumer -/

/-- The packet at the head of the list goes before all others. -/
theorem Ordered.picksFirst (h : staging.Ordered contents held)
    (hfirst : (contents localBufferOut).head? = some ele) :
    ele ∈ contents localBufferOut ∧
      ∀ other ∈ contents localBufferOut, other = ele ∨ staging.Before ele other := by
  refine ⟨List.mem_of_head? hfirst, fun other hother => ?_⟩
  have hsorted := h.sorted
  cases hcontents : contents localBufferOut with
  | nil => simp [hcontents] at hfirst
  | cons first rest =>
      rw [hcontents] at hfirst hother hsorted
      obtain rfl := Option.some.inj hfirst
      obtain rfl | hrest := List.mem_cons.mp hother
      · exact .inl rfl
      · exact .inr (List.rel_of_pairwise_cons hsorted hrest)

/-- The peek sees the first pending packet, or nothing when none is pending. -/
theorem peek_cases (h : staging.Ordered contents held) :
    peek staging.pool = staging.pool ∨ ∃ ele, (contents localBufferOut).head? = some ele ∧
      peek staging.pool = { staging.pool with consumer := .peeked ele } := by
  have hfirst := h.account.represents.firstEntryOrNull localBufferOut
  cases hpending : (contents localBufferOut).head? with
  | none =>
      rw [hpending] at hfirst
      exact .inl (by simp [peek, hfirst])
  | some ele =>
      rw [hpending] at hfirst
      exact .inr ⟨ele, rfl, by simp [peek, hfirst]⟩

/-- `tx_consume_done` takes a stretch of the pending list off it, the consumed packet with what was
inserted around it since the copy, and frees the consumed packet. -/
theorem finish_ordered (h : staging.Ordered contents held) {before after : Node size}
    (hconsumer : staging.pool.consumer = .copied ele before after) :
    ∃ contents' held', Ordered { staging with
      pool := { staging.pool with
        links := staging.pool.links.moveSnapshot (.inr ele) (.inl localBufferOutUser) before after
        consumer := .idle } } contents' held' := by
  have hremembers := h.remembers
  rw [hconsumer] at hremembers
  obtain ⟨front, middle, back, hcontents, hmem, rfl, rfl⟩ := hremembers
  have hne : localBufferOut ≠ localBufferOutUser := by simp
  refine ⟨_, _, h.drop h.nodup.diff (h.account.moveStretch hne hcontents hmem) ?_ rfl rfl⟩
  rw [Function.update_of_ne hne, Function.update_self, hcontents]
  exact (List.sublist_append_right middle back).append_left front

/-! ## Runs -/

/-- Between two steps the pending list is in order. -/
def Good (staging : Staging size) : Prop :=
  ∃ contents held, staging.Ordered contents held

/-- The module init. -/
theorem init_good (size : Nat) : (init size).Good := by
  obtain ⟨contents, hholds, hempty⟩ := init_holdsAll size
  refine ⟨contents, List.finRange size, List.nodup_finRange size, hholds.account, ?_, ?_, trivial⟩
  · rw [hempty]
    exact List.Pairwise.nil
  · rw [hempty]
    simp

/-- Every step keeps the order. -/
theorem next_good {event : Event size} (h : staging.Good)
    (hflush : staging.FlushBetweenPasses event)
    (hstep : staging.next event = some following) : following.Good := by
  obtain ⟨contents, held, h⟩ := h
  obtain ⟨pool, hnext, rfl⟩ := Option.map_eq_some_iff.mp hstep
  cases event with
  | claim =>
      obtain rfl := Option.some.inj hnext
      obtain ⟨contents', hholds, hpending, hcc, hconsumer⟩ := claim_holds h.account
      exact ⟨contents', held, h.keep hholds hpending hcc hconsumer⟩
  | commit ele usbCc =>
      obtain ⟨hmem, hcommit⟩ : ele ∈ staging.pool.inHand ∧
          commit staging.pool ele usbCc = some pool := by
        simpa [Tx.next] using hnext
      obtain ⟨contents', hordered⟩ := commit_ordered h hmem hcommit
      exact ⟨contents', held, hordered⟩
  | abort ele =>
      obtain ⟨hmem, rfl⟩ : ele ∈ staging.pool.inHand ∧ abort staging.pool ele = pool := by
        simpa [Tx.next] using hnext
      obtain ⟨contents', hholds, hpending⟩ := abort_holds h.account h.nodup hmem
      exact ⟨contents', held, h.keep hholds hpending rfl rfl⟩
  | own ele =>
      obtain ⟨hmem, rfl⟩ : ele ∈ staging.pool.inHand ∧ own staging.pool ele = pool := by
        simpa [Tx.next] using hnext
      exact ⟨contents, held, h.keep (own_holds h.account hmem) rfl rfl rfl⟩
  | disown idx =>
      obtain rfl := Option.some.inj hnext
      exact ⟨contents, held, h.keep (disown_holds h.account idx) rfl rfl rfl⟩
  | peek =>
      obtain ⟨-, rfl⟩ : staging.pool.consumer = .idle ∧ peek staging.pool = pool := by
        simpa [Tx.next] using hnext
      obtain hpeek | ⟨ele, hfirst, hpeek⟩ := peek_cases h
      · exact ⟨contents, held, by rwa [hpeek]⟩
      · rw [hpeek]
        exact ⟨contents, held, h.nodup, h.account, h.sorted, h.arrived, (h.picksFirst hfirst).1⟩
  | retry =>
      cases hconsumer : staging.pool.consumer <;>
        simp only [Tx.next, hconsumer, reduceCtorEq] at hnext
      obtain rfl := Option.some.inj hnext
      exact ⟨contents, held, h.nodup, h.account, h.sorted, h.arrived, trivial⟩
  | copy =>
      cases hconsumer : staging.pool.consumer <;>
        simp only [Tx.next, hconsumer, reduceCtorEq] at hnext
      next ele =>
        obtain rfl := Option.some.inj hnext
        have hmem : ele ∈ contents localBufferOut := by
          have hremembers := h.remembers
          rwa [hconsumer] at hremembers
        -- at the copy the stretch is the packet alone
        obtain ⟨front, back, hcontents⟩ := List.append_of_mem hmem
        refine ⟨contents, held, h.nodup, h.account, h.sorted, h.arrived, front, [ele], back,
          hcontents, List.mem_singleton_self ele, ?_, ?_⟩
        · exact h.account.represents.prev_eq hcontents
        · exact h.account.represents.next_eq hcontents
  | finish =>
      cases hconsumer : staging.pool.consumer <;>
        simp only [Tx.next, hconsumer, reduceCtorEq] at hnext
      obtain rfl := Option.some.inj hnext
      exact finish_ordered h hconsumer
  | flushStaging =>
      obtain rfl := Option.some.inj hnext
      have hlength := (h.account.length_le localBufferOut).trans h.length_le
      obtain ⟨contents', haccount, hempty⟩ := flushPending_accounts size h.account hlength
      refine ⟨contents', held, h.drop h.nodup haccount ?_ rfl (hflush rfl)⟩
      rw [hempty]
      exact List.nil_sublist _
  | resetMove =>
      obtain ⟨hidle, rfl⟩ : staging.pool.consumer = .idle ∧ resetMove staging.pool = pool := by
        simpa [Tx.next] using hnext
      obtain ⟨contents', hholds, hpending, hcc, hconsumer⟩ := resetMove_holds h.account
      refine ⟨contents', held, h.drop h.nodup hholds ?_ hcc (hconsumer.trans hidle)⟩
      rw [hpending]
      exact List.tail_sublist _

/-- The consumer looks at the packet that goes before all others. -/
theorem next_picksFirst {event : Event size} (h : staging.Good)
    (hstep : staging.next event = some following) : staging.PicksFirst event following := by
  obtain ⟨contents, held, h⟩ := h
  unfold PicksFirst
  split
  · rename_i ele hconsumer
    obtain ⟨pool, hnext, rfl⟩ := Option.map_eq_some_iff.mp hstep
    obtain ⟨hidle, rfl⟩ : staging.pool.consumer = .idle ∧ peek staging.pool = pool := by
      simpa [Tx.next] using hnext
    rw [h.pending_eq]
    have hpeeked : (peek staging.pool).consumer = .peeked ele := hconsumer
    obtain hpeek | ⟨first, hfirst, hpeek⟩ := peek_cases h
    · rw [hpeek, hidle] at hpeeked
      cases hpeeked
    · rw [hpeek] at hpeeked
      obtain rfl := Consumer.peeked.inj hpeeked
      exact h.picksFirst hfirst
  · trivial

/-- In every interleaving of insertions and consumption the pending list is in the order of the cc
and, for one cc, of arrival, and the packet the consumer looks at goes before all others. -/
theorem pending_sorted (size : Nat) (events : List (Event size))
    (hflush : Guarded next FlushBetweenPasses (init size) events) :
    Always next Sorted (init size) events ∧ EveryStep next PicksFirst (init size) events := by
  have hkeep : ∀ (staging : Staging size) event following, staging.Good →
      staging.FlushBetweenPasses event → staging.next event = some following → following.Good :=
    fun _ _ _ => next_good
  constructor
  · refine (always_of_guarded hkeep (init_good size) hflush).mono ?_
    intro staging ⟨contents, held, h⟩
    rw [Sorted, h.pending_eq]
    exact h.sorted
  · exact everyStep_of_guarded hkeep (fun _ _ _ hgood _ => next_picksFirst hgood) (init_good size)
      hflush

/-- A run in which a packet is inserted between the copy and the unlink of another, and one with the
cc of a pending packet. -/
theorem pending_sorted_run :
    Always next Sorted (init 4)
        [.claim, .claim, .claim, .claim, .commit 0 5, .peek, .copy, .commit 1 7, .commit 2 4,
          .commit 3 7, .finish, .peek] ∧
      EveryStep next PicksFirst (init 4)
        [.claim, .claim, .claim, .claim, .commit 0 5, .peek, .copy, .commit 1 7, .commit 2 4,
          .commit 3 7, .finish, .peek] :=
  pending_sorted 4 _ (by decide)

end Staging

end RfnmDriver.Tx
