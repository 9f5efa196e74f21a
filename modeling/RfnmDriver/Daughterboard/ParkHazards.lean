import RfnmDriver.Daughterboard.ParkSafety

/-!
# What the TX idle park does where it is not careful

Two of the conditions of `park_sound_of_careful` are about what other contexts do long before the
work runs. Each is needed: from any state in which one has been broken, a run of the work alone
leads to what it is to prevent. Read `hidden_missed` and `armed_early_switched_off`.
-/

namespace RfnmDriver.IdlePark

open StepSystem

variable {params : Params} {watch : Watch}

/-- The chip answers as it may. -/
def anyAnswers : Answers := ⟨.locked, []⟩

theorem run_cons {event : Event} {rest : List Event} {middle reached : Watch}
    (hstep : watch.next params event = some middle)
    (hrest : run (Watch.next params) middle rest = some reached) :
    run (Watch.next params) watch (event :: rest) = some reached := by
  rw [run, hstep]
  exact hrest

theorem next_park {system : System} {answers : Answers}
    (hstep : watch.system.parkStep params answers = some system) :
    watch.next params (.park answers) =
      some ⟨system, watch.history.note params watch.system (.park answers)⟩ := by
  rw [Watch.next, System.next, hstep]
  rfl

/-- The park work comes to the test of a channel, finds it on, and is about to call it. -/
theorem park_clears {i : Nat} (hi : i < params.count) (hphase : watch.system.park = .check i)
    (hon : (watch.system.ports i).txCh.enable ≠ .rfOff) :
    ∃ reached, run (Watch.next params) watch [.park anyAnswers, .park anyAnswers] = some reached ∧
      reached.system.park = .call i ∧ reached.history = watch.history ∧
      (reached.system.ports i).txCh.enable = .rfOff ∧
      (∀ j, (reached.system.ports j).board = (watch.system.ports j).board) ∧
      ∀ j ≠ i, reached.system.ports j = watch.system.ports j := by
  have hcount : ¬ params.count ≤ i := Nat.not_le_of_lt hi
  have hcheck : watch.system.parkStep params anyAnswers =
      some { watch.system with park := .clear i } := by
    simp [System.parkStep, hphase, hcount, hon]
  have hclear : ({ watch.system with park := .clear i } : System).parkStep params anyAnswers =
      some { watch.system.putCh i { (watch.system.ports i).txCh with enable := .rfOff } with
        park := .call i } := rfl
  refine ⟨_, run_cons (next_park hcheck) (run_cons (next_park hclear) rfl), ?_⟩
  · refine ⟨rfl, ?_, ?_, fun j => ?_, fun j hj => ?_⟩
    · simp [History.note, hphase, hcount]
    · simp [System.putCh, System.putPort]
    · obtain rfl | hj := eq_or_ne j i
      · simp [System.putCh, System.putPort]
      · simp [System.putCh, System.putPort, hj]
    · simp [System.putCh, System.putPort, hj]

/-- The park work passes one channel. -/
theorem park_passes {i : Nat} (hi : i < params.count) (hphase : watch.system.park = .check i) :
    ∃ events reached, run (Watch.next params) watch events = some reached ∧
      reached.system.park = .check (i + 1) ∧ reached.history = watch.history ∧
      ∀ j ≠ i, reached.system.ports j = watch.system.ports j := by
  by_cases hoff : (watch.system.ports i).txCh.enable = .rfOff
  · have hcount : ¬ params.count ≤ i := Nat.not_le_of_lt hi
    refine ⟨[.park anyAnswers], ⟨{ watch.system with park := .check (i + 1) }, _⟩,
      run_cons (next_park ?_) rfl, rfl, ?_, fun _ _ => rfl⟩
    · simp [System.parkStep, hphase, hcount, hoff]
    · simp [History.note, hphase, hcount]
  · obtain ⟨middle, hrun, hcall, hhistory, -, -, hports⟩ := park_clears hi hphase hoff
    refine ⟨[.park anyAnswers, .park anyAnswers] ++ [.park anyAnswers],
      ⟨{ middle.system.dgbTxSet params i anyAnswers with park := .check (i + 1) },
        middle.history⟩, ?_, rfl, hhistory, fun j hj => ?_⟩
    · rw [run_append, hrun]
      refine run_cons ?_ rfl
      rw [next_park (by rw [System.parkStep, hcall])]
      simp [History.note, hcall]
    · rw [← hports j hj]
      simp [System.dgbTxSet, System.putPort, hj]

/-- The park work comes from one channel to another, and leaves the channels outside alone. -/
theorem park_walks {first last : Nat} (hle : first ≤ last) (hlast : last ≤ params.count)
    (hphase : watch.system.park = .check first) :
    ∃ events reached, run (Watch.next params) watch events = some reached ∧
      reached.system.park = .check last ∧ reached.history = watch.history ∧
      ∀ i, i < first ∨ last ≤ i → reached.system.ports i = watch.system.ports i := by
  obtain ⟨length, rfl⟩ := Nat.exists_eq_add_of_le hle
  induction length with
  | zero => exact ⟨[], watch, rfl, hphase, rfl, fun _ _ => rfl⟩
  | succ length ih =>
      obtain ⟨events, middle, hrun, hmiddle, hhistory, hports⟩ :=
        ih (Nat.le_add_right first length) (Nat.le_of_succ_le hlast)
      have hlt : first + length < params.count := hlast
      obtain ⟨rest, reached, hrest, hreached, hkept, hothers⟩ := park_passes hlt hmiddle
      refine ⟨events ++ rest, reached, ?_, hreached, hkept.trans hhistory, fun i hi => ?_⟩
      · rw [run_append, hrun]
        exact hrest
      · rw [hothers i (by omega), hports i (by omega)]

/-- The park work has started after an edge, and nothing else has happened since. -/
def Watch.started (watch : Watch) : Watch :=
  ⟨{ watch.system with standdownActive := true, parkPending := false, park := .check 0 },
    ⟨true, false, false, fun _ => false⟩⟩

theorem standDown_starts (hpark : params.txIdlePark = true) (hidle : watch.system.park = .idle) :
    ∃ events, run (Watch.next params) watch events = some watch.started := by
  cases hactive : watch.system.standdownActive with
  | false =>
      refine ⟨[.standDown, .parkStart], ?_⟩
      simp [run, Watch.next, Watch.started, System.next, History.note, hpark, hidle, hactive]
  | true =>
      refine ⟨[.resume, .standDown, .parkStart], ?_⟩
      simp [run, Watch.next, Watch.started, System.next, History.note, hpark, hidle, hactive]

/-- A channel that is on under a wanted copy that says RF_OFF stays on when the client goes away:
the next stand-down leads to a finished park that has left it. -/
theorem hidden_missed {i : Nat} (hi : i < params.count) (hpark : params.txIdlePark = true)
    (hidle : watch.system.park = .idle) (hoff : (watch.system.ports i).txCh.enable = .rfOff)
    (hon : ¬ (watch.system.ports i).board.Off) :
    ∃ events reached, run (Watch.next params) watch events = some reached ∧
      ¬ NothingOnAir params reached := by
  obtain ⟨edge, hedge⟩ := standDown_starts hpark hidle
  -- up to the channel, over it, and from there to the end
  have hfirst : watch.started.system.park = .check 0 := rfl
  obtain ⟨before, reached, hbefore, hreached, hkept, hsame⟩ :=
    park_walks (Nat.zero_le i) (Nat.le_of_lt hi) hfirst
  have hport : reached.system.ports i = watch.system.ports i := hsame i (Or.inr (Nat.le_refl i))
  have hcount : ¬ params.count ≤ i := Nat.not_le_of_lt hi
  have hstep : reached.system.parkStep params anyAnswers =
      some { reached.system with park := .check (i + 1) } := by
    simp [System.parkStep, hreached, hcount, hport, hoff]
  have hover : reached.next params (.park anyAnswers) =
      some ⟨{ reached.system with park := .check (i + 1) }, reached.history⟩ := by
    rw [next_park hstep]
    simp [History.note, hreached, hcount]
  have hnext : (⟨{ reached.system with park := .check (i + 1) }, reached.history⟩ :
      Watch).system.park = .check (i + 1) := rfl
  obtain ⟨after, ended, hafter, hended, hkept', hsame'⟩ :=
    park_walks (Nat.succ_le_of_lt hi) (Nat.le_refl params.count) hnext
  have hlast : ended.system.parkStep params anyAnswers =
      some { ended.system with park := .idle } := by
    simp [System.parkStep, hended]
  refine ⟨edge ++ (before ++ (.park anyAnswers :: (after ++ [.park anyAnswers]))),
    ⟨{ ended.system with park := .idle }, { ended.history with
      parked := ended.history.parked || ended.history.fresh }⟩, ?_, fun hnothing => hon ?_⟩
  · rw [run_append, hedge]
    show run (Watch.next params) watch.started (before ++ _) = _
    rw [run_append, hbefore]
    refine run_cons hover ?_
    rw [run_append, hafter]
    refine run_cons ?_ rfl
    rw [next_park hlast]
    simp [History.note, hended]
  · have hhistory : ended.history = watch.started.history := hkept'.trans hkept
    have hboard := hnothing (by simp [hhistory, Watch.started]) (by simp [hhistory, Watch.started])
      i hi
    rw [show ({ ended.system with park := .idle } : System).ports i = watch.system.ports i from
      (hsame' i (Or.inl (Nat.lt_succ_self i))).trans hport] at hboard
    exact hboard

/-- A client that has armed a channel of a Lime board while the park work was queued is switched
off by it, unless something comes between. -/
theorem armed_early_switched_off {i : Nat} {driver : Lime.Driver} (hi : i < params.count)
    (hidle : watch.system.park = .idle) (hpending : watch.system.parkPending = true)
    (harmed : watch.history.armed i = true)
    (hwanted : (watch.system.ports i).txCh.enable ≠ .rfOff)
    (hlime : (watch.system.ports i).board = .lime driver)
    (hon : (watch.system.ports i).board.applied ≠ .rfOff) :
    ∃ events, ¬ EveryStep (Watch.next params) SparesArmed watch events := by
  have hstart : watch.next params .parkStart = some ⟨{ watch.system with
      parkPending := false, park := .check 0 }, { watch.history with fresh := true }⟩ := by
    simp [Watch.next, System.next, History.note, hidle, hpending]
  have hfirst : (⟨{ watch.system with parkPending := false, park := .check 0 },
      { watch.history with fresh := true }⟩ : Watch).system.park = .check 0 := rfl
  obtain ⟨before, reached, hbefore, hreached, hkept, hsame⟩ :=
    park_walks (Nat.zero_le i) (Nat.le_of_lt hi) hfirst
  have hport : reached.system.ports i = watch.system.ports i := hsame i (Or.inr (Nat.le_refl i))
  obtain ⟨calling, hclear, hcall, hhistory, hoff, hboards, -⟩ :=
    park_clears hi hreached (hport.symm ▸ hwanted)
  refine ⟨(.parkStart :: (before ++ [.park anyAnswers, .park anyAnswers])) ++ [.park anyAnswers],
    fun hspares => ?_⟩
  have hrun : run (Watch.next params) watch
      (.parkStart :: (before ++ [.park anyAnswers, .park anyAnswers])) = some calling := by
    refine run_cons hstart ?_
    rw [run_append, hbefore]
    exact hclear
  have hstep : calling.next params (.park anyAnswers) =
      some ⟨{ calling.system.dgbTxSet params i anyAnswers with park := .check (i + 1) },
        calling.history⟩ := by
    rw [next_park (by rw [System.parkStep, hcall])]
    simp [History.note, hcall]
  have hboard : (calling.system.ports i).board = .lime driver := by
    rw [hboards, hport, hlime]
  refine hspares.after hrun hstep anyAnswers rfl i ?_ (Or.inl ⟨?_, ?_⟩)
  · rw [hhistory, hkept]
    exact harmed
  · rw [hboards, hport]
    exact hon
  · -- a Lime takes every RF_OFF
    show ((calling.system.dgbTxSet params i anyAnswers).ports i).board.applied = .rfOff
    rw [dgbTxSet_board, if_pos rfl]
    refine (txSet_applied ?_).trans hoff
    rw [hboard]
    simp [TxBoard.txSet, Lime.Driver.txSet, TxCh.lime, hoff]

end RfnmDriver.IdlePark
