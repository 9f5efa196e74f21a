import RfnmDriver.Tx.Pool

/-!
# Conservation of the local TX packet pool

Every step but one moves an element from one holder to another whatever the other contexts do.
The exception is the locked half of `tx_consume_done`, which unlinks the consumed element through
pointers it copied before taking the locks: it moves the element when the copy is current
(`finish_holdsAll`), and breaks the lists when another packet was inserted next to the element, or
the element was flushed, after the copy (`insert_after_copy_loses_packet`). Read
`conserved_of_copyCurrent` first.
-/

namespace RfnmDriver.Tx

open KernelList KernelList.Links HandleTable StepSystem Head

variable {size : Nat} {pool following : Pool size} {contents : Head → List (Fin size)}
  {held : List (Fin size)} {ele : Fin size}

/-! ## Reading the holders -/

/-- The holders as one account: the two lists, and everything off the lists. -/
theorem Pool.holdsAll_iff : pool.HoldsAll contents ↔ Accounts pool.links contents
    (handles pool.zcTxOwned ++ pool.inHand) (List.finRange size) := by
  have htotal : ∀ ele, total contents ele =
      (contents localBufferOutUser).count ele + (contents localBufferOut).count ele := by
    intro ele
    rw [total, Nat.add_comm]
    rfl
  refine Accounts.iff_perm fun ele => ?_
  rw [htotal]
  simp only [List.count_append]
  omega

alias ⟨Pool.HoldsAll.account, holdsAll_of_account⟩ := Pool.holdsAll_iff

/-- The lists read off the pointers are the represented ones. -/
theorem Pool.HoldsAll.contents_eq (h : pool.HoldsAll contents) : pool.contents = contents :=
  h.account.read_eq (by simp)

/-- No more packets are pending than there are elements. -/
theorem Pool.HoldsAll.pending_length (h : pool.HoldsAll contents) :
    (contents localBufferOut).length ≤ size := by
  simpa using h.account.length_le localBufferOut

/-- A pool whose holders hold everything is conserved. -/
theorem Pool.HoldsAll.conserved (h : pool.HoldsAll contents) : pool.Conserved := by
  rw [Pool.Conserved, h.contents_eq]
  exact h

/-! ## The steps of the ingest contexts -/

/-- The lists are well linked, and with the ownership table and the hands they hold each of the
given elements once. -/
abbrev Pool.Holds (pool : Pool size) (contents : Head → List (Fin size)) (held : List (Fin size)) :
    Prop :=
  Accounts pool.links contents (handles pool.zcTxOwned ++ pool.inHand) held

/-- Module init puts every element on the free list. -/
theorem init_holdsAll (size : Nat) :
    ∃ contents, (Pool.init size).HoldsAll contents ∧ contents localBufferOut = [] := by
  have hempty : (((⟨id, id⟩ : Links (Node size)).initHead (.inl localBufferOut)).initHead
      (.inl localBufferOutUser)).Represents fun _ => [] :=
    represents_empty fun head => by cases head <;> simp [initHead]
  have hrow := represents_foldl_addTail localBufferOutUser hempty (List.nodup_finRange size)
    (by simp)
  exact ⟨_, ⟨hrow, by simp [Pool.init]⟩, rfl⟩

/-- `rfnm_claim_local_buffer_tx` moves the first free element into the caller's hand. -/
theorem claim_holds (h : pool.Holds contents held) :
    ∃ contents', (claim pool).Holds contents' held ∧
      contents' localBufferOut = contents localBufferOut ∧
      (claim pool).localCc = pool.localCc ∧ (claim pool).consumer = pool.consumer := by
  have hfirst := h.represents.firstEntryOrNull localBufferOutUser
  cases hfree : (contents localBufferOutUser).head? with
  | none =>
      refine ⟨contents, ?_⟩
      simpa [claim, hfirst, hfree] using h
  | some ele =>
      simp only [claim, hfirst, hfree, Option.map_some]
      refine ⟨_, h.take (List.mem_of_head? hfree) fun other => ?_, ?_⟩
      · simp only [List.count_append, List.count_cons]
        omega
      · simp

/-- `rfnm_abort_local_buffer_tx` moves an element from the hand to the end of the free list. -/
theorem abort_holds (h : pool.Holds contents held) (hnodup : held.Nodup)
    (hmem : ele ∈ pool.inHand) :
    ∃ contents', (abort pool ele).Holds contents' held ∧
      contents' localBufferOut = contents localBufferOut := by
  refine ⟨_, h.give hnodup localBufferOutUser fun other => ?_, by simp⟩
  have hhand := count_erase_add hmem other
  simp only [abort, List.count_append]
  omega

/-- An acquire's `xchg` moves the element from the hand into the table, and a stale handle from
the table into the hand. -/
theorem own_holds (h : pool.Holds contents held) (hmem : ele ∈ pool.inHand) :
    (own pool ele).Holds contents held := by
  refine h.trade fun other => ?_
  have hhand := count_erase_add hmem other
  have htable := (handles_update_perm pool.zcTxOwned ele (some ele)).count_eq other
  simp only [own, List.count_append, Option.toList_some, List.count_singleton] at htable ⊢
  omega

/-- A disowning `xchg` moves the handle, if any, from the table into the hand. -/
theorem disown_holds (h : pool.Holds contents held) (idx : Fin size) :
    (disown pool idx).Holds contents held := by
  refine h.trade fun other => ?_
  have htable := (handles_update_perm pool.zcTxOwned idx none).count_eq other
  simp only [disown, List.count_append, Option.toList_none, List.count_nil] at htable ⊢
  omega

/-! ## Sorted insertion -/

/-- The backward search stops behind the last pending packet whose cc is not above the new one,
within as many turns as packets are pending. -/
theorem insertPosition_spec {links : Links (Node size)} (localCc : Fin size → Nat) (cc : Nat)
    (h : links.Represents contents) :
    ∀ {front back : List (Fin size)} {fuel : Nat}, contents localBufferOut = front ++ back →
      front.length ≤ fuel → (∀ later ∈ back, cc < localCc later) →
      ∃ before after, contents localBufferOut = before ++ after ∧
        (∀ last ∈ before.getLast?, localCc last ≤ cc) ∧ (∀ later ∈ after, cc < localCc later) ∧
        insertPosition links localCc cc fuel (lastNode localBufferOut front) =
          some (lastNode localBufferOut before) := by
  intro front
  -- the search walks `prev`, so the part not yet passed loses its last element in each turn
  induction front using List.reverseRecOn with
  | nil =>
      intro back fuel hcontents _ hback
      refine ⟨[], back, hcontents, by simp, hback, ?_⟩
      cases fuel <;> rfl
  | append_singleton front cur ih =>
      intro back fuel hcontents hfuel hback
      cases fuel with
      | zero => simp at hfuel
      | succ fuel =>
          have hnode : lastNode localBufferOut (front ++ [cur]) = .inr cur := by
            simp [lastNode]
          rw [hnode]
          by_cases hcc : localCc cur ≤ cc
          · exact ⟨front ++ [cur], back, hcontents, by simpa using hcc, hback,
              by simp [insertPosition, hcc, hnode]⟩
          · -- a later packet is passed, and joins those behind the place
            have hsplit : contents localBufferOut = front ++ cur :: back := by
              simpa using hcontents
            have hlater : ∀ later ∈ cur :: back, cc < localCc later := by
              rintro later (_ | ⟨_, hmem⟩)
              · exact Nat.lt_of_not_le hcc
              · exact hback later hmem
            obtain ⟨before, after, hresult⟩ :=
              ih hsplit (by simpa using hfuel) hlater
            refine ⟨before, after, ?_⟩
            simpa [insertPosition, hcc, h.prev_eq hsplit] using hresult

/-- `rfnm_commit_local_buffer_tx` finds a place, and moves the element from the hand there: behind
the last pending packet whose cc is not above its own. -/
theorem commit_holds (h : pool.Holds contents held) (hnodup : held.Nodup)
    (hlength : (contents localBufferOut).length ≤ size) (hmem : ele ∈ pool.inHand) (usbCc : Nat) :
    ∃ following front back, commit pool ele usbCc = some following ∧
      contents localBufferOut = front ++ back ∧
      (∀ last ∈ front.getLast?, Function.update pool.localCc ele usbCc last ≤ usbCc) ∧
      (∀ later ∈ back, usbCc < Function.update pool.localCc ele usbCc later) ∧
      following.Holds (Function.update contents localBufferOut (front ++ ele :: back)) held ∧
      following.localCc = Function.update pool.localCc ele usbCc ∧
      following.consumer = pool.consumer := by
  obtain ⟨before, after, hcontents, hlast, hlater, hposition⟩ :=
    insertPosition_spec (Function.update pool.localCc ele usbCc) usbCc h.represents
      (List.append_nil (contents localBufferOut)).symm hlength (by simp)
  rw [← h.represents.prev_head] at hposition
  have hcommit : commit pool ele usbCc = some
      { pool with
        links := pool.links.add (.inr ele) (lastNode localBufferOut before)
        localCc := Function.update pool.localCc ele usbCc
        inHand := pool.inHand.erase ele } := by
    simp only [commit, hposition, Option.map_some]
  refine ⟨_, before, after, hcommit, hcontents, hlast, hlater,
    h.insert hnodup hcontents fun other => ?_, rfl, rfl⟩
  have hhand := count_erase_add hmem other
  simp only [List.count_append]
  omega

/-! ## Flush and reset -/

/-- The flush loop empties the pending list into the free list. -/
theorem flushPending_accounts {links : Links (Node size)} {hands : List (Fin size)} (fuel : Nat)
    (h : Accounts links contents hands held) (hfuel : (contents localBufferOut).length ≤ fuel) :
    ∃ contents', Accounts (flushPending fuel links) contents' hands held ∧
      contents' localBufferOut = [] := by
  induction fuel generalizing links contents with
  | zero => exact ⟨contents, h, by simpa using hfuel⟩
  | succ fuel ih =>
      have hfirst := h.represents.firstEntryOrNull localBufferOut
      cases hpending : (contents localBufferOut).head? with
      | none =>
          refine ⟨contents, ?_, by simpa using hpending⟩
          simpa [flushPending, hfirst, hpending] using h
      | some ele =>
          have hmem := List.mem_of_head? hpending
          have hne : localBufferOut ≠ localBufferOutUser := by simp
          have hlength : ((contents localBufferOut).erase ele).length ≤ fuel := by
            rw [List.length_erase_of_mem hmem]
            omega
          obtain ⟨contents', hrest, hempty⟩ := ih (h.move hne hmem) (by simpa using hlength)
          refine ⟨contents', ?_, hempty⟩
          simpa [flushPending, hfirst, hpending, moveToFree] using hrest

/-- One turn of the reset's loop takes the first pending element, if any, to the free list. -/
theorem resetMove_holds (h : pool.Holds contents held) :
    ∃ contents', (resetMove pool).Holds contents' held ∧
      contents' localBufferOut = (contents localBufferOut).tail ∧
      (resetMove pool).localCc = pool.localCc ∧ (resetMove pool).consumer = pool.consumer := by
  have hfirst := h.represents.firstEntryOrNull localBufferOut
  cases hpending : (contents localBufferOut).head? with
  | none =>
      have hempty : contents localBufferOut = [] := by simpa using hpending
      refine ⟨contents, ?_⟩
      simpa [resetMove, hfirst, hpending, hempty] using h
  | some ele =>
      simp only [resetMove, hfirst, hpending, Option.map_some]
      refine ⟨_, h.move (by simp) (List.mem_of_head? hpending), ?_⟩
      simp [erase_of_head? hpending]

/-! ## The consumer -/

/-- With a current copy `tx_consume_done` moves the consumed element from its place on the
pending list to the end of the free list. -/
theorem finish_holdsAll (h : pool.HoldsAll contents) {before after : Node size}
    (hmem : ele ∈ contents localBufferOut) (hbefore : pool.links.prev (.inr ele) = before)
    (hafter : pool.links.next (.inr ele) = after) :
    { pool with
      links := pool.links.moveSnapshot (.inr ele) (.inl localBufferOutUser) before after
      consumer := .idle }.HoldsAll
        (Function.update (Function.update contents localBufferOut
          ((contents localBufferOut).erase ele)) localBufferOutUser
            (contents localBufferOutUser ++ [ele])) :=
  holdsAll_of_account (h.account.moveSnapshot (by simp) hmem hbefore hafter)

/-- The consumer's unlocked steps touch no holder. -/
theorem Pool.HoldsAll.consumer (h : pool.HoldsAll contents) (consumer : Consumer size) :
    { pool with consumer := consumer }.HoldsAll contents :=
  h

/-! ## Runs -/

/-- Every element is held, by some lists. -/
def Pool.Held (pool : Pool size) : Prop :=
  ∃ contents, pool.HoldsAll contents

/-- Every step with a current copy keeps every element held. -/
theorem next_held {event : Event size} (h : pool.Held) (hcurrent : CopyCurrent pool event)
    (hstep : next pool event = some following) : following.Held := by
  obtain ⟨contents, h⟩ := h
  -- the consumer, which holds an element over several steps, is the case that needs `hcurrent`
  cases event with
  | claim =>
      obtain rfl := Option.some.inj hstep
      obtain ⟨contents', hclaim, -⟩ := claim_holds h.account
      exact ⟨contents', holdsAll_of_account hclaim⟩
  | commit ele usbCc =>
      obtain ⟨hmem, hcommit⟩ : ele ∈ pool.inHand ∧ commit pool ele usbCc = some following := by
        simpa [next] using hstep
      obtain ⟨other, front, back, hother, -, -, -, hheld, -⟩ :=
        commit_holds h.account (List.nodup_finRange size) h.pending_length hmem usbCc
      obtain rfl := Option.some.inj (hother.symm.trans hcommit)
      exact ⟨_, holdsAll_of_account hheld⟩
  | abort ele =>
      obtain ⟨hmem, rfl⟩ : ele ∈ pool.inHand ∧ abort pool ele = following := by
        simpa [next] using hstep
      obtain ⟨contents', habort, -⟩ := abort_holds h.account (List.nodup_finRange size) hmem
      exact ⟨contents', holdsAll_of_account habort⟩
  | own ele =>
      obtain ⟨hmem, rfl⟩ : ele ∈ pool.inHand ∧ own pool ele = following := by
        simpa [next] using hstep
      exact ⟨contents, holdsAll_of_account (own_holds h.account hmem)⟩
  | disown idx =>
      obtain rfl := Option.some.inj hstep
      exact ⟨contents, holdsAll_of_account (disown_holds h.account idx)⟩
  | peek =>
      obtain ⟨-, rfl⟩ : pool.consumer = .idle ∧ peek pool = following := by
        simpa [next] using hstep
      unfold peek
      split
      · exact ⟨contents, h.consumer _⟩
      · exact ⟨contents, h⟩
  | retry =>
      cases hconsumer : pool.consumer <;> simp only [next, hconsumer, reduceCtorEq] at hstep
      obtain rfl := Option.some.inj hstep
      exact ⟨contents, h.consumer _⟩
  | copy =>
      cases hconsumer : pool.consumer <;> simp only [next, hconsumer, reduceCtorEq] at hstep
      obtain rfl := Option.some.inj hstep
      exact ⟨contents, h.consumer _⟩
  | finish =>
      cases hconsumer : pool.consumer <;> simp only [next, hconsumer, reduceCtorEq] at hstep
      obtain rfl := Option.some.inj hstep
      simp only [CopyCurrent, hconsumer] at hcurrent
      rw [h.contents_eq] at hcurrent
      exact ⟨_, finish_holdsAll h hcurrent.1 hcurrent.2.1 hcurrent.2.2⟩
  | flushStaging =>
      obtain rfl := Option.some.inj hstep
      obtain ⟨contents', hflushed, -⟩ := flushPending_accounts size h.account h.pending_length
      exact ⟨contents', holdsAll_of_account hflushed⟩
  | resetMove =>
      obtain ⟨-, rfl⟩ : pool.consumer = .idle ∧ resetMove pool = following := by
        simpa [next] using hstep
      obtain ⟨contents', hmove, -⟩ := resetMove_holds h.account
      exact ⟨contents', holdsAll_of_account hmove⟩

/-- A `tx_consume_done` with a current copy takes the consumed packet off the pending list and
leaves every other pending packet there. -/
theorem next_consumesOne {event : Event size} (h : pool.Held) (hcurrent : CopyCurrent pool event)
    (hstep : next pool event = some following) : ConsumesOne pool event following := by
  obtain ⟨contents, h⟩ := h
  unfold ConsumesOne
  split
  · rename_i ele before after hconsumer
    simp only [next, hconsumer] at hstep
    obtain rfl := Option.some.inj hstep
    simp only [CopyCurrent, hconsumer] at hcurrent
    rw [h.contents_eq] at hcurrent ⊢
    have hfinish := finish_holdsAll h hcurrent.1 hcurrent.2.1 hcurrent.2.2
    rw [hfinish.contents_eq]
    simp
  · trivial

end RfnmDriver.Tx
