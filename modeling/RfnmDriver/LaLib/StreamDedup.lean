import RfnmDriver.LaLib.StreamWord

/-!
# When the stream-word cache may be trusted

`sendWord_eq` and `genTxInitCycle_eq` say what a send and the micro-cycle do in terms of the verdict
on their attempts. From them each operation keeps the cache in step with the M4 exactly when it is
`Faithful`, and `dedup_sound_iff_faithful` lifts this to runs.
-/

namespace RfnmDriver.LaLib

open StepSystem

variable {session following : Session} {word request : Word} {force armed waits : Bool}
  {script : Script} {tries : Tries}

/-! ## Words -/

/-- The two ways the driver looks at the RX bits agree. -/
theorem Word.rxOn_eq_false_iff : word.rxOn = false ↔ word &&& 0x1E#32 = 0#32 := by
  simp only [Word.rxOn, ne_eq, decide_not, Bool.not_eq_eq_eq_not, Bool.not_false,
    decide_eq_true_eq]
  constructor
  · intro h
    have hmask : BitVec.allOnes 32 <<< 1 &&& 0xf#32 <<< 1 = 0x1E#32 := by decide
    calc word &&& 0x1E#32 = (word >>> 1 &&& 0xf#32) <<< 1 := by
          rw [BitVec.shiftLeft_and_distrib, BitVec.shiftLeft_ushiftRight, BitVec.and_assoc, hmask]
      _ = 0#32 := by
          rw [h]
          rfl
  · intro h
    calc word >>> 1 &&& 0xf#32 = (word &&& 0x1E#32) >>> 1 := by
          rw [BitVec.ushiftRight_and_distrib]
          rfl
      _ = 0#32 := by
          rw [h]
          rfl

/-- The windowed-session bit is no RX bit. -/
theorem injectWindowed_rxOn : Word.rxOn (injectWindowed armed word) = word.rxOn := by
  unfold injectWindowed
  split
  · have hbit : 0x10000#32 >>> 1 &&& 0xf#32 = 0#32 := by decide
    simp only [Word.rxOn, BitVec.ushiftRight_or_distrib, BitVec.and_or_distrib_right, hbit,
      BitVec.or_zero]
  · rfl

/-- The micro-cycle's word has RX on. -/
theorem initWord_rxOn : Word.rxOn (initWord word) = true := by
  simp [Word.rxOn, initWord, BitVec.ushiftRight_or_distrib, BitVec.and_or_distrib_right,
    BitVec.ushiftRight_and_distrib, BitVec.and_assoc]

/-- The micro-cycle's word has TX off. -/
theorem initWord_txOn : Word.txOn (initWord word) = false := by
  simp [Word.txOn, initWord, BitVec.and_or_distrib_right, BitVec.and_assoc]

/-- A word with RX on is not the all-off word. -/
theorem Word.ne_zero_of_rxOn (h : word.rxOn) : word ≠ 0 := by
  rintro rfl
  revert h
  decide

/-- The micro-cycle runs for a word with TX, over a cached word without RX. -/
theorem needsInit_iff : needsInit session word ↔
    word.txOn ∧ session.streamedGen ≠ some session.phyGen ∧ session.streamWord.rxOn = false := by
  simp [needsInit, Word.rxOn_eq_false_iff, and_assoc]

/-! ## One send -/

/-- The M4 takes the word. -/
def Session.take (session : Session) (word : Word) : Session :=
  { session with m4Word := word }

/-- The attempts do what their verdict says. -/
theorem attempts_eq : attempts session word waits tries =
    match tries.verdict waits with
    | .sent => (true, session.take word)
    | .refused => (false, session)
    | .diverged => (false, session.take word) := by
  obtain ⟨first, second⟩ := tries
  cases first with
  | busy | lost | nak => rfl
  | late => rfl
  | accepted published =>
      cases published with
      | true => rfl
      | false => cases waits <;> cases second <;> rfl

/-- Whether a send waits for an epoch. -/
def sendWaits (session : Session) (word : Word) (force : Bool) : Bool :=
  word.rxOn || (word.txOn && !(force && word == session.streamWord))

/-- What a send does to cache and M4. -/
theorem sendWord_eq : sendWord session word force tries =
    match tries.verdict (sendWaits session word force) with
    | .sent => (true, applied (session.take word) word)
    | .refused => (false, session)
    | .diverged => (false, session.take word) := by
  simp only [sendWord, attempts_eq, sendWaits]
  cases tries.verdict (word.rxOn || word.txOn && !(force && word == session.streamWord)) <;> rfl

/-- What the micro-cycle does to cache and M4. Neither of its sends is answered from the cache. -/
theorem genTxInitCycle_eq (hrx : session.streamWord.rxOn = false) :
    genTxInitCycle session word script =
      match script.initRx.verdict true with
      | .sent =>
          match script.initClose.verdict false with
          | .sent =>
              applied ((applied (session.take (initWord word)) (initWord word)).take 0) 0
          | .refused => applied (session.take (initWord word)) (initWord word)
          | .diverged => (applied (session.take (initWord word)) (initWord word)).take 0
      | .refused => session
      | .diverged => session.take (initWord word) := by
  have hfresh : initWord word ≠ session.streamWord := by
    intro h
    rw [← h, initWord_rxOn] at hrx
    simp at hrx
  have hopen : (0 : Word) ≠ initWord word := (Word.ne_zero_of_rxOn initWord_rxOn).symm
  have hwaits : sendWaits session (initWord word) false = true := by
    simp [sendWaits, initWord_rxOn]
  simp only [genTxInitCycle, initSend, if_neg hfresh, sendWord_eq, hwaits]
  cases script.initRx.verdict true with
  | refused | diverged => rfl
  | sent =>
      have hcached : (applied (session.take (initWord word)) (initWord word)).streamWord =
          initWord word := rfl
      have hclose : sendWaits (applied (session.take (initWord word)) (initWord word)) 0 false =
          false := rfl
      simp only [hcached, if_neg hopen, hclose, if_true]
      cases script.initClose.verdict false <;> rfl

/-! ## Cache and M4 in step -/

/-- Cached and accepted word agree, and they agreed at every answer from the cache. -/
theorem dedupSound_iff : session.DedupSound ↔
    (∀ entry ∈ session.deduped, entry.m4Word = entry.requested) ∧
      session.streamWord = session.m4Word := by
  refine and_congr_right fun _ => ⟨fun h => (h _ rfl).symm, ?_⟩
  rintro h request rfl
  exact h.symm

/-- Over a sound cache the words agree. -/
theorem Session.DedupSound.inStep (h : session.DedupSound) : session.streamWord = session.m4Word :=
  (dedupSound_iff.mp h).2

/-- A request answered from a cache in step was answered rightly. -/
theorem dedup_sound (h : session.DedupSound) (hword : word = session.streamWord) :
    (dedup session word).DedupSound := by
  refine ⟨fun entry hentry => ?_, h.2⟩
  cases hentry with
  | head => exact h.2 word hword
  | tail _ hentry => exact h.1 entry hentry

/-- A session that differs from a sound one in nothing but the two words is sound when the words
agree. -/
theorem Session.DedupSound.of_inStep (h : session.DedupSound)
    (hlog : following.deduped = session.deduped)
    (hinStep : following.streamWord = following.m4Word) : following.DedupSound := by
  rw [dedupSound_iff, hlog]
  exact ⟨h.1, hinStep⟩

/-- So it is sound exactly when the words agree. -/
theorem dedupSound_iff_inStep (h : session.DedupSound)
    (hlog : following.deduped = session.deduped) :
    following.DedupSound ↔ following.streamWord = following.m4Word :=
  ⟨fun hsound => hsound.inStep, h.of_inStep hlog⟩

/-- The micro-cycle answers nothing from the cache, leaves a word without TX there or the one it
found, and is in step exactly when neither of its sends diverges. -/
theorem genTxInitCycle_spec (word : Word) (script : Script) (h : session.DedupSound)
    (hrx : session.streamWord.rxOn = false) :
    (genTxInitCycle session word script).deduped = session.deduped ∧
      ((genTxInitCycle session word script).streamWord = session.streamWord ∨
        Word.txOn (genTxInitCycle session word script).streamWord = false) ∧
      ((genTxInitCycle session word script).streamWord =
          (genTxInitCycle session word script).m4Word ↔ InitFaithful word script) := by
  have hstep := h.inStep
  have hopen : initWord word ≠ 0#32 := Word.ne_zero_of_rxOn initWord_rxOn
  have hfresh : session.streamWord ≠ initWord word := by
    intro hword
    rw [hword, initWord_rxOn] at hrx
    simp at hrx
  have hzero : Word.txOn 0#32 = false := by decide
  rw [genTxInitCycle_eq hrx, InitFaithful, initWord_rxOn]
  cases script.initRx.verdict true with
  | refused => simp [hstep]
  | diverged => simp [Session.take, hfresh]
  | sent =>
      cases script.initClose.verdict false with
      | sent => simp [applied, Session.take, hzero]
      | refused => simp [applied, Session.take, initWord_txOn]
      | diverged => simp [applied, Session.take, initWord_txOn, hopen]

/-- Forced sends are of words with RX, which always wait. -/
theorem sendWaits_eq (hforce : force = true → word.rxOn) :
    sendWaits session word force = (word.rxOn || word.txOn) := by
  cases force with
  | true => simp [sendWaits, hforce rfl]
  | false => simp [sendWaits]

/-- The word a send leaves in the cache, given the session it starts from. -/
theorem sendWord_inStep_iff {ready : Session} (hforce : force = true → word.rxOn) :
    (sendWord ready word force tries).2.streamWord = (sendWord ready word force tries).2.m4Word ↔
      match tries.verdict (word.rxOn || word.txOn) with
      | .sent => True
      | .refused => ready.streamWord = ready.m4Word
      | .diverged => ready.streamWord = word := by
  rw [sendWord_eq, sendWaits_eq hforce]
  cases tries.verdict (word.rxOn || word.txOn) <;> simp [applied, Session.take]

/-- A send answers nothing from the cache. -/
theorem sendWord_deduped {ready : Session} :
    (sendWord ready word force tries).2.deduped = ready.deduped := by
  rw [sendWord_eq]
  cases tries.verdict (sendWaits ready word force) <;> rfl

/-- A call that is not answered from the cache and needs no micro-cycle is one send. -/
theorem streamSend_plain (hword : injectWindowed armed request = word)
    (hsend : force = false → word ≠ session.streamWord) (hinit : needsInit session word = false) :
    streamSend session request force armed script = sendWord session word force script.main := by
  cases force with
  | true => simp [streamSend, hword, hinit]
  | false => simp [streamSend, hword, hinit, hsend]

/-- A call that sends leaves the cache in step exactly when its send is faithful. -/
theorem streamSend_sound_iff (h : session.DedupSound)
    (hword : injectWindowed armed request = word)
    (hsend : force = false → word ≠ session.streamWord) (hforce : force = true → word.rxOn) :
    (streamSend session request force armed script).2.DedupSound ↔
      SendFaithful session word script := by
  -- the dedup answers only calls that are not forced, and this one asks for a new word
  have hmiss : (!force && word == session.streamWord) = false := by
    cases force with
    | true => rfl
    | false => simpa using hsend rfl
  have hinStep := h.inStep
  simp only [streamSend, hword, hmiss, Bool.false_eq_true, if_false]
  cases hinit : needsInit session word with
  | false =>
      simp only [Bool.false_eq_true, if_false]
      rw [dedupSound_iff_inStep h sendWord_deduped, sendWord_inStep_iff hforce, SendFaithful, hinit]
      cases script.main.verdict (word.rxOn || word.txOn) with
      | sent => simp
      | refused => simp [hinStep]
      | diverged => exact eq_comm
  | true =>
      obtain ⟨htx, -, hrx⟩ := needsInit_iff.mp hinit
      obtain ⟨hlog, hcached, hfaithful⟩ := genTxInitCycle_spec word script h hrx
      have hfresh : word ≠ session.streamWord := by
        cases force with
        | false => exact hsend rfl
        | true =>
            intro hword
            rw [← hword, hforce rfl] at hrx
            simp at hrx
      -- what the init cycle leaves cached is the old word or one without TX, never this word
      have hother : (genTxInitCycle session word script).streamWord ≠ word := by
        intro hleft
        rcases hcached with hcached | hcached
        · exact hfresh (hleft.symm.trans hcached)
        · rw [hleft, htx] at hcached
          simp at hcached
      simp only [if_true]
      rw [dedupSound_iff_inStep h (sendWord_deduped.trans hlog), sendWord_inStep_iff hforce,
        SendFaithful, hinit]
      cases script.main.verdict (word.rxOn || word.txOn) with
      | sent => simp
      | refused => simp [hfaithful]
      | diverged => simp [hother, hfresh]

/-- A call that is not forced is answered from the cache, or sends. -/
theorem streamSend_unforced_sound_iff (h : session.DedupSound) :
    (streamSend session request false armed script).2.DedupSound ↔
      injectWindowed armed request = session.streamWord ∨
        SendFaithful session (injectWindowed armed request) script := by
  by_cases hhit : injectWindowed armed request = session.streamWord
  · have hanswer : (streamSend session request false armed script).2 =
        dedup session (injectWindowed armed request) := by
      simp [streamSend, hhit]
    rw [hanswer]
    exact iff_of_true (dedup_sound h hhit) (.inl hhit)
  · rw [streamSend_sound_iff h rfl (fun _ => hhit) (by simp)]
    exact (or_iff_right hhit).symm

/-! ## The operations -/

/-- `rfnm_la9310_stream`. -/
theorem stream_sound_iff (h : session.DedupSound) :
    (stream session request armed script).DedupSound ↔
      Faithful session (.stream request armed script) := by
  unfold stream Faithful
  split
  · rename_i hhit
    exact iff_of_true (dedup_sound h hhit) (.inl hhit)
  · rename_i hmiss
    rw [streamSend_unforced_sound_iff h]
    exact (or_iff_right hmiss).symm

/-- `rfnm_la9310_quiesce` clears the cache whatever became of its word. -/
theorem quiesce_sound_iff (h : session.DedupSound) :
    (quiesce session armed script).DedupSound ↔ Faithful session (.quiesce armed script) := by
  show _ ↔ session.streamWord = 0 ∨ script.main.verdict false ≠ .refused
  unfold quiesce
  split
  · rename_i hidle
    exact iff_of_true h (.inl hidle)
  · rename_i hlive
    have hinStep := h.inStep
    have hoff : injectWindowed armed 0 = 0 := by cases armed <;> rfl
    have hwaits : sendWaits session 0 false = false := rfl
    rw [streamSend_plain hoff (fun _ => Ne.symm hlive) rfl, sendWord_eq, hwaits,
      or_iff_right hlive]
    cases script.main.verdict false with
    | sent | diverged => exact iff_of_true (by exact h.of_inStep rfl rfl) (by simp)
    | refused =>
        refine iff_of_false (fun hsound => ?_) (by simp)
        have hzero : 0 = session.m4Word := hsound.inStep
        exact hlive (hinStep.trans hzero.symm)

/-- `rfnm_la9310_stream_reapply` clears the cache when its word fails, but the M4 keeps it. -/
theorem reapply_sound_iff (h : session.DedupSound) :
    (reapply session armed script).DedupSound ↔ Faithful session (.reapply armed script) := by
  show _ ↔ (session.streamWord.rxOn → script.main.verdict true = .sent)
  unfold reapply
  split
  · rename_i hidle
    refine iff_of_true h fun hrx => ?_
    rcases hidle with hoff | htx
    · exact absurd hoff (Word.ne_zero_of_rxOn hrx)
    · simp [hrx] at htx
  · rename_i hlive
    have hrx : session.streamWord.rxOn := by
      simp only [not_or] at hlive
      simpa using hlive.2
    have hinStep := h.inStep
    have hlane : Word.rxOn (injectWindowed armed session.streamWord) := by
      rw [injectWindowed_rxOn]
      exact hrx
    have hinit : needsInit session (injectWindowed armed session.streamWord) = false := by
      cases hinit : needsInit session (injectWindowed armed session.streamWord) with
      | false => rfl
      | true => exact absurd hrx (by simp [(needsInit_iff.mp hinit).2.2])
    -- the word has RX in it, so the send waits for an epoch
    have hwaits : sendWaits session (injectWindowed armed session.streamWord) true = true := by
      rw [sendWaits_eq fun _ => hlane, hlane, Bool.true_or]
    rw [streamSend_plain rfl (by simp) hinit, sendWord_eq, hwaits, forall_prop_of_true hrx]
    cases script.main.verdict true with
    | sent => exact iff_of_true (by exact h.of_inStep rfl rfl) rfl
    | refused =>
        refine iff_of_false (fun hsound => ?_) (by simp)
        have hzero : 0 = session.m4Word := hsound.inStep
        exact Word.ne_zero_of_rxOn hrx (hinStep.trans hzero.symm)
    | diverged =>
        refine iff_of_false (fun hsound => ?_) (by simp)
        have hzero : 0 = injectWindowed armed session.streamWord := hsound.inStep
        exact Word.ne_zero_of_rxOn hlane hzero.symm

/-- The restart notification clears the cache; the M4 must have lost its word. -/
theorem restartNotify_sound_iff (h : session.DedupSound) (rebooted : Bool) :
    (restartNotify session rebooted).DedupSound ↔ Faithful session (.restartNotify rebooted) := by
  have hinStep := h.inStep
  show _ ↔ session.streamWord = 0 ∨ rebooted
  by_cases hidle : session.streamWord = 0
  · refine iff_of_true ?_ (.inl hidle)
    simp only [restartNotify, if_pos hidle]
    cases rebooted with
    | true => exact h.of_inStep rfl hidle
    | false => exact h.of_inStep rfl hinStep
  · rw [or_iff_right hidle]
    simp only [restartNotify, if_neg hidle]
    cases rebooted with
    | true => exact iff_of_true (h.of_inStep rfl rfl) rfl
    | false =>
        refine iff_of_false (fun hsound => ?_) (by simp)
        have hzero : 0 = session.m4Word := hsound.inStep
        exact hidle (hinStep.trans hzero.symm)

/-- `rfnm_phy_restart_workfn` forces the stashed word past the cache. -/
theorem restartWorkfn_sound_iff (h : session.DedupSound) :
    (restartWorkfn session armed script).DedupSound ↔
      Faithful session (.restartWork armed script) := by
  show _ ↔ (session.restartStash.rxOn →
    SendFaithful session (injectWindowed armed session.restartStash) script)
  have htaken : ({ session with restartStash := 0, restartWork := false } : Session).DedupSound := h
  unfold restartWorkfn
  split
  · rename_i hstash
    obtain ⟨-, hrx⟩ := hstash
    rw [streamSend_sound_iff htaken rfl (by simp) fun _ => by rwa [injectWindowed_rxOn],
      forall_prop_of_true hrx]
    exact Iff.rfl
  · rename_i hstash
    refine iff_of_true htaken fun hrx => ?_
    exact absurd ⟨Word.ne_zero_of_rxOn hrx, hrx⟩ hstash

/-! ## Runs -/

/-- The module init: cache and M4 agree that all is off. -/
theorem init_dedupSound : Session.init.DedupSound := by
  rw [dedupSound_iff]
  exact ⟨by simp [Session.init], rfl⟩

/-- Over a sound cache an operation leaves a sound cache exactly when it is faithful. -/
theorem nextOperation_sound_iff {operation : Operation} (h : session.DedupSound)
    (hstep : nextOperation session operation = some following) :
    following.DedupSound ↔ Faithful session operation := by
  cases operation with
  | stream request armed script =>
      obtain rfl := Option.some.inj hstep
      exact stream_sound_iff h
  | send request armed script =>
      obtain rfl := Option.some.inj hstep
      exact streamSend_unforced_sound_iff h
  | quiesce armed script =>
      obtain rfl := Option.some.inj hstep
      exact quiesce_sound_iff h
  | reapply armed script =>
      obtain rfl := Option.some.inj hstep
      exact reapply_sound_iff h
  | restartNotify rebooted =>
      obtain rfl := Option.some.inj hstep
      exact restartNotify_sound_iff h rebooted
  | restartWork armed script =>
      obtain ⟨-, rfl⟩ : session.restartWork ∧ restartWorkfn session armed script = following := by
        simpa [nextOperation] using hstep
      exact restartWorkfn_sound_iff h
  | chipReset =>
      obtain rfl := Option.some.inj hstep
      exact iff_of_true (h.of_inStep rfl rfl) trivial
  | kernelSwap =>
      obtain rfl := Option.some.inj hstep
      -- the swap empties the cache, and the M4 keeps its word
      have hsound : (kernelSwap session).DedupSound ↔ 0 = session.m4Word :=
        dedupSound_iff_inStep h rfl
      rw [hsound, ← h.inStep]
      exact eq_comm

/-- In a run every answer from the cache is right, and would be at any time, exactly when every
operation of the run is faithful. -/
theorem dedup_sound_iff_faithful (operations : List Operation) :
    Always nextOperation Session.DedupSound Session.init operations ↔
      Guarded nextOperation Faithful Session.init operations := by
  have hkeep : ∀ session operation following, session.DedupSound → Faithful session operation →
      nextOperation session operation = some following → following.DedupSound :=
    fun _ _ _ h hfaithful hstep => (nextOperation_sound_iff h hstep).mpr hfaithful
  have hbreak : ∀ session operation following, session.DedupSound →
      nextOperation session operation = some following → following.DedupSound →
        Faithful session operation :=
    fun _ _ _ h hstep hsound => (nextOperation_sound_iff h hstep).mp hsound
  exact always_iff_everyStep hkeep (fun _ h => h) hbreak init_dedupSound

/-- The M4 accepts a second word after the time-out: the first word is still cached, and a request
for it is answered while the M4 has the other. -/
theorem late_accept_leaves_stale_cache :
    ¬ ∀ operations : List Operation,
      Always nextOperation Session.DedupSound Session.init operations := by
  intro h
  let served : Script := ⟨⟨.busy, .busy⟩, ⟨.busy, .busy⟩, ⟨.accepted true, .busy⟩⟩
  let late : Script := ⟨⟨.busy, .busy⟩, ⟨.busy, .busy⟩, ⟨.late, .busy⟩⟩
  have hrun := (h [.stream 0x2 false served, .stream 0x4 false late, .stream 0x2 false served])
  have hfinal := (hrun.final rfl).1 ⟨0x2, 0x4⟩ (by decide)
  revert hfinal
  decide

end RfnmDriver.LaLib
