import RfnmDriver.Library.CheckedInt
import RfnmDriver.Library.StepSystem
import RfnmDriver.Lime.AnchorTable

/-!
# The anchors in memory

`sx_anchors` and `sx_anchor_cnt` of `rfnm_lime_m.c`, with `rfnm_lime_sx_learn` and
`rfnm_lime_sx_predict` on them: the loops over an array, the two `memmove` at computed places, and
arithmetic that may overflow or divide by zero. A search that is learned does to the list of its
table what `sxLearn` does and nothing to the others (`anchors_learn`), and in the bands a prediction
is `sxPredict` (`predict_eq`). `tables_right` says what holds of every table after every history of
full searches.
-/

namespace RfnmDriver.Lime

open CheckedInt SlotArray StepSystem

/-- The slot at which `sx_anchors[is_tx][vco]` begins. -/
def sxTable (isTx : Bool) (vco : Vco) : Nat :=
  ((if isTx then 3 else 0) + vco.sel) * sxAnchorsMax

/-- `sx_anchors`, one array after the other, and `sx_anchor_cnt`. -/
structure AnchorMemory where
  slots : Nat → SxAnchor
  cnt : Bool → Vco → Nat

/-- The first loop of `rfnm_lime_sx_learn`: `best_d` and `victim`. -/
def sxScan (vcoKhz : Nat) (a : Nat → SxAnchor) (n : Nat) : Nat × Option Nat :=
  (List.range n).foldl
    (fun best i => if (a i).dist vcoKhz < best.1 then ((a i).dist vcoKhz, some i) else best)
    (2 ^ 32 - 1, none)

/-- `rfnm_lime_sx_xdom`, with the division of `div64_u64`. -/
def sxXdom64 (vcoKhz : Nat) : Checked Nat :=
  if vcoKhz * vcoKhz = 0 then .error .divByZero else .ok (sxXdom vcoKhz)

/-- `rfnm_lime_sx_predict` from the bracket on. -/
def sxInterpolate64 (vcoKhz : Nat) (low high : SxAnchor) : Checked Int := do
  let x ← sxXdom64 vcoKhz
  let x0 ← sxXdom64 low.vcoKhz
  let x1 ← sxXdom64 high.vcoKhz
  if x0 = x1 then
    return high.csw.toNat
  else
    let rise ← sub64 high.csw.toNat low.csw.toNat
    let run ← sub64 x x0
    let product ← mul64 rise run
    let whole ← sub64 x1 x0
    let quotient ← div64 product whole
    let csw ← add64 low.csw.toNat quotient
    return if csw < 0 then 0 else if 255 < csw then 255 else csw

namespace AnchorMemory

variable (memory : AnchorMemory) (isTx : Bool) (vco : Vco)

/-- `a`. -/
def table : Nat → SxAnchor := view memory.slots (sxTable isTx vco)

/-- The anchors of a table that are in use. -/
def anchors : List SxAnchor := entries (memory.table isTx vco) (memory.cnt isTx vco)

/-- `rfnm_lime_sx_predict`. -/
def predict (vcoKhz : Nat) : Checked Int :=
  let a := memory.table isTx vco
  let n := memory.cnt isTx vco
  if n = 0 then .ok (-1)
  else if n = 1 then .ok (if (a 0).dist vcoKhz ≤ sxLoneKhz then (a 0).csw.toNat else -1)
  -- both sums are `uint32_t`
  else if (vcoKhz + sxExtrapKhz) % 2 ^ 32 < (a 0).vcoKhz ∨
      ((a (n - 1)).vcoKhz + sxExtrapKhz) % 2 ^ 32 < vcoKhz then .ok (-1)
  else
    let i1 := seek (fun i => (a i).vcoKhz < vcoKhz) (n - 2) 1
    sxInterpolate64 vcoKhz (a (i1 - 1)) (a i1)

/-- The slots and `n` as `rfnm_lime_sx_learn` has them after its first `memmove`. -/
def evict (vcoKhz : Nat) : (Nat → SxAnchor) × Nat :=
  let base := sxTable isTx vco
  let n := memory.cnt isTx vco
  match sxScan vcoKhz (memory.table isTx vco) n with
  | (best, some victim) =>
      -- a refresh, or no room
      if best ≤ sxMergeKhz ∨ n = sxAnchorsMax then
        (move memory.slots (base + victim) (base + (victim + 1)) (n - victim - 1), n - 1)
      else (memory.slots, n)
  | (_, none) => (memory.slots, n)

/-- `rfnm_lime_sx_learn`. -/
def learn (vcoKhz : Nat) (csw : BitVec 8) : AnchorMemory :=
  let base := sxTable isTx vco
  let (slots, n) := memory.evict isTx vco vcoKhz
  let i := seek (fun i => (view slots base i).vcoKhz < vcoKhz) n 0
  let moved := move slots (base + (i + 1)) (base + i) (n - i)
  { slots := Function.update moved (base + i) ⟨vcoKhz, csw⟩
    cnt := Function.update memory.cnt isTx (Function.update (memory.cnt isTx) vco (n + 1)) }

end AnchorMemory

variable {memory : AnchorMemory} {isTx isTx' : Bool} {vco vco' : Vco} {vcoKhz : Nat}
  {csw : BitVec 8} {array : Nat → SxAnchor} {n : Nat} {low high : SxAnchor}

/-! ## Learning -/

/-- The loop by index finds what the loop over the list finds. -/
theorem sxScan_eq (vcoKhz : Nat) (array : Nat → SxAnchor) (n : Nat) :
    sxScan vcoKhz array n = sxVictim vcoKhz (entries array n) := by
  induction n with
  | zero => rfl
  | succ n ih =>
      rw [sxVictim_succ, ← ih, sxScan, List.range_succ, List.foldl_append]
      rfl

theorem sxScan_lt {best victim : Nat} (h : sxScan vcoKhz array n = (best, some victim)) :
    victim < n := by
  rw [sxScan_eq, sxVictim_eq_nearest] at h
  have hscan : sxNearest vcoKhz array n = some victim := congrArg Prod.snd h
  exact (FirstBest.scan_eq_some_iff.mp hscan).lt

namespace AnchorMemory

/-- What the first `memmove` does: an anchor goes out, or nothing. -/
theorem evict_cases (memory : AnchorMemory) (isTx : Bool) (vco : Vco) (vcoKhz : Nat) :
    (∃ victim < memory.cnt isTx vco,
        memory.evict isTx vco vcoKhz =
          (move memory.slots (sxTable isTx vco + victim) (sxTable isTx vco + (victim + 1))
            (memory.cnt isTx vco - victim - 1), memory.cnt isTx vco - 1) ∧
        sxKept vcoKhz (memory.anchors isTx vco) = (memory.anchors isTx vco).eraseIdx victim) ∨
      memory.evict isTx vco vcoKhz = (memory.slots, memory.cnt isTx vco) ∧
        sxKept vcoKhz (memory.anchors isTx vco) = memory.anchors isTx vco := by
  have hloop := sxScan_eq vcoKhz (memory.table isTx vco) (memory.cnt isTx vco)
  unfold evict sxKept
  simp only [anchors, length_entries, ← hloop]
  rcases hscan : sxScan vcoKhz (memory.table isTx vco) (memory.cnt isTx vco) with
    ⟨best, _ | victim⟩
  · exact .inr ⟨rfl, rfl⟩
  · by_cases hout : best ≤ sxMergeKhz ∨ memory.cnt isTx vco = sxAnchorsMax
    · exact .inl ⟨victim, sxScan_lt hscan, if_pos hout, if_pos hout⟩
    · exact .inr ⟨if_neg hout, if_neg hout⟩

/-- The anchors that stay are those the learned one joins. -/
theorem entries_evict (memory : AnchorMemory) (isTx : Bool) (vco : Vco) (vcoKhz : Nat) :
    entries (view (memory.evict isTx vco vcoKhz).1 (sxTable isTx vco))
        (memory.evict isTx vco vcoKhz).2 =
      sxKept vcoKhz (memory.anchors isTx vco) := by
  rcases memory.evict_cases isTx vco vcoKhz with ⟨victim, hlt, hevict, hkept⟩ | ⟨hevict, hkept⟩
  · rw [hevict, hkept]
    simp only
    rw [view_move]
    exact entries_move_down hlt
  · rw [hevict, hkept]
    rfl

/-- The table that learns. -/
theorem anchors_learn_self (memory : AnchorMemory) (isTx : Bool) (vco : Vco) (vcoKhz : Nat)
    (csw : BitVec 8) :
    (memory.learn isTx vco vcoKhz csw).anchors isTx vco =
      sxLearn vcoKhz csw (memory.anchors isTx vco) := by
  have hkept := entries_evict memory isTx vco vcoKhz
  rw [sxLearn_eq, ← insertIdx_takeWhile, ← hkept, ← seek_eq_length_takeWhile]
  unfold learn
  rcases memory.evict isTx vco vcoKhz with ⟨slots, n⟩
  simp only [anchors, table, Function.update_self]
  rw [view_update, view_move]
  exact entries_move_up ((seek_le n 0).trans (Nat.zero_add n).le)

/-- The slots a table learns in are its own. -/
theorem slots_learn_of_not_mem {slot : Nat}
    (hcnt : (memory.evict isTx vco vcoKhz).2 < sxAnchorsMax)
    (hmax : memory.cnt isTx vco ≤ sxAnchorsMax)
    (hslot : slot < sxTable isTx vco ∨ sxTable isTx vco + sxAnchorsMax ≤ slot) :
    (memory.learn isTx vco vcoKhz csw).slots slot = memory.slots slot := by
  have hevict : (memory.evict isTx vco vcoKhz).1 slot = memory.slots slot := by
    rcases memory.evict_cases isTx vco vcoKhz with ⟨victim, hlt, hevict, -⟩ | ⟨hevict, -⟩
    · rw [hevict]
      exact move_of_not_mem (by omega)
    · rw [hevict]
  rw [← hevict]
  unfold learn
  rcases hpair : memory.evict isTx vco vcoKhz with ⟨slots, n⟩
  rw [hpair] at hcnt
  simp only at hcnt ⊢
  have hseek : seek (fun i => (view slots (sxTable isTx vco) i).vcoKhz < vcoKhz) n 0 ≤ n :=
    (seek_le n 0).trans (Nat.zero_add n).le
  rw [Function.update_of_ne (by omega), move_of_not_mem (by omega)]

end AnchorMemory

/-- The tables do not overlap. -/
theorem sxTable_disjoint (hne : ¬(isTx' = isTx ∧ vco' = vco)) :
    sxTable isTx' vco' + sxAnchorsMax ≤ sxTable isTx vco ∨
      sxTable isTx vco + sxAnchorsMax ≤ sxTable isTx' vco' := by
  cases isTx <;> cases isTx' <;> cases vco <;> cases vco' <;> first | decide | simp at hne

namespace AnchorMemory

/-- A search that is learned changes one list of anchors. -/
theorem anchors_learn (hright : ∀ isTx vco, AnchorsRight (memory.anchors isTx vco))
    (hkhz : InBandKhz vcoKhz) :
    (memory.learn isTx vco vcoKhz csw).anchors =
      Function.update memory.anchors isTx (Function.update (memory.anchors isTx) vco
        (sxLearn vcoKhz csw (memory.anchors isTx vco))) := by
  have hcnt (isTx : Bool) (vco : Vco) : memory.cnt isTx vco ≤ sxAnchorsMax := by
    simpa [anchors] using (hright isTx vco).length_le
  have hroom : (memory.evict isTx vco vcoKhz).2 < sxAnchorsMax := by
    have hkept := ((hright isTx vco).kept hkhz).2.1
    rwa [← entries_evict, length_entries] at hkept
  funext isTx' vco'
  by_cases hsame : isTx' = isTx ∧ vco' = vco
  · obtain ⟨rfl, rfl⟩ := hsame
    rw [Function.update_self, Function.update_self]
    exact anchors_learn_self memory isTx' vco' vcoKhz csw
  · -- another table: none of its slots is written, as what is kept leaves room for one
    have hdisjoint := sxTable_disjoint hsame
    have hmax := hcnt isTx' vco'
    have hcount : (memory.learn isTx vco vcoKhz csw).cnt isTx' vco' = memory.cnt isTx' vco' :=
      update_table_of_ne memory.cnt _ hsame
    rw [update_table_of_ne _ _ hsame, anchors, hcount]
    exact entries_congr fun i hi =>
      slots_learn_of_not_mem hroom (hcnt isTx vco) (by omega)

end AnchorMemory

/-! ## Prediction -/

/-- In the bands `1/f^2` has 17 bits. -/
theorem sxXdom_le (hkhz : InBandKhz vcoKhz) : sxXdom vcoKhz ≤ 69252 := calc
  sxXdom vcoKhz ≤ sxXdom 3800000 := sxXdom_anti (by decide) hkhz.bounds.1
  _ = 69252 := by decide

theorem sxXdom64_eq (hkhz : InBandKhz vcoKhz) : sxXdom64 vcoKhz = .ok (sxXdom vcoKhz) := by
  have hpos : 0 < vcoKhz := Nat.zero_lt_of_lt hkhz.bounds.1
  exact if_neg (Nat.mul_pos hpos hpos).ne'

/-- Between two anchors nothing overflows, and nothing is divided by zero. -/
theorem sxInterpolate64_eq (hkhz : InBandKhz vcoKhz) (hlow : InBandKhz low.vcoKhz)
    (hhigh : InBandKhz high.vcoKhz) :
    sxInterpolate64 vcoKhz low high = .ok (sxInterpolate vcoKhz low high) := by
  have habs {khz : Nat} (h : InBandKhz khz) : |(sxXdom khz : Int)| ≤ 69252 := by
    rw [abs_of_nonneg (Int.natCast_nonneg _)]
    exact Int.ofNat_le.mpr (sxXdom_le h)
  have hcode (csw : BitVec 8) : |(csw.toNat : Int)| ≤ 255 := by
    rw [abs_of_nonneg (Int.natCast_nonneg _)]
    exact csw_le csw
  unfold sxInterpolate64 sxInterpolate
  rw [sxXdom64_eq hkhz, sxXdom64_eq hlow, sxXdom64_eq hhigh]
  simp only [ok_bind]
  by_cases hsame : sxXdom low.vcoKhz = sxXdom high.vcoKhz
  · rw [if_pos hsame, if_pos (congrArg _ hsame)]
    rfl
  · have hne : (sxXdom high.vcoKhz : Int) - sxXdom low.vcoKhz ≠ 0 := by omega
    -- the bounds go from a step of the formula to the next; the largest is that of the product
    have hrise := gives_sub64 (hcode high.csw) (hcode low.csw) (by decide)
    have hrun := gives_sub64 (habs hkhz) (habs hlow) (by decide)
    have hproduct := gives_mul64 hrise.abs_le hrun.abs_le (by decide)
    have hwhole := gives_sub64 (habs hhigh) (habs hlow) (by decide)
    have hquotient := gives_div64_of_ne hne hproduct.abs_le (by decide)
    have hsum := gives_add64 (hcode low.csw) hquotient.abs_le (by decide)
    rw [if_neg hsame, if_neg fun hcast => hsame (Int.ofNat_inj.mp hcast), hrise.bind, hrun.bind,
      hproduct.bind, hwhole.bind, hquotient.bind, hsum.bind]
    rfl

namespace AnchorMemory

/-- In the bands a prediction is what the list of the anchors gives. -/
theorem predict_eq (hright : AnchorsRight (memory.anchors isTx vco)) (hkhz : InBandKhz vcoKhz) :
    memory.predict isTx vco vcoKhz = .ok (sxPredict vcoKhz (memory.anchors isTx vco)) := by
  have hband : ∀ i < memory.cnt isTx vco, InBandKhz (memory.table isTx vco i).vcoKhz := fun i hi =>
    hright.band _ (mem_entries.mpr ⟨i, hi, rfl⟩)
  unfold predict
  rw [anchors]
  simp only
  generalize memory.table isTx vco = array at hband
  generalize memory.cnt isTx vco = n at hband
  rcases n with _ | _ | more
  · rfl
  · rfl
  · have hbounds := hkhz.bounds
    have hlast := (hband (more + 1) (Nat.lt_succ_self _)).bounds
    have hupper : sxUpper vcoKhz array more ≤ 1 + more := seek_le more 1
    have hpos : 1 ≤ sxUpper vcoKhz array more := le_seek more 1
    have hreach : (vcoKhz + sxExtrapKhz) % 2 ^ 32 = vcoKhz + sxExtrapKhz :=
      Nat.mod_eq_of_lt (by unfold sxExtrapKhz; omega)
    have hreachLast : ((array (more + 1)).vcoKhz + sxExtrapKhz) % 2 ^ 32 =
        (array (more + 1)).vcoKhz + sxExtrapKhz :=
      Nat.mod_eq_of_lt (by unfold sxExtrapKhz; omega)
    have hinterpolate := sxInterpolate64_eq hkhz (hband (sxUpper vcoKhz array more - 1) (by omega))
      (hband (sxUpper vcoKhz array more) (by omega))
    rw [if_neg (Nat.succ_ne_zero _), if_neg (by omega), sxPredict_entries,
      show more + 1 + 1 - 1 = more + 1 from rfl, hreach, hreachLast]
    split
    · rfl
    · exact hinterpolate

end AnchorMemory

/-! ## Histories of full searches -/

/-- A full search that succeeded: what it is learned with. -/
structure Search where
  isTx : Bool
  vco : Vco
  vcoKhz : Nat
  csw : BitVec 8
  deriving DecidableEq, Repr

/-- The tables, and as a history variable what each learned last. -/
structure Learned where
  memory : AnchorMemory
  last : Bool → Vco → Option SxAnchor

namespace Learned

/-- The tables of a module that has been loaded. -/
def start : Learned where
  memory := ⟨fun _ => ⟨0, 0⟩, fun _ _ => 0⟩
  last _ _ := none

/-- `rfnm_lime_sx_learn` with a VCO frequency in the bands of the chip. -/
def next (state : Learned) (search : Search) : Option Learned :=
  if InBandKhz search.vcoKhz then
    some
      { memory := state.memory.learn search.isTx search.vco search.vcoKhz search.csw
        last := Function.update state.last search.isTx
          (Function.update (state.last search.isTx) search.vco
            (some ⟨search.vcoKhz, search.csw⟩)) }
  else none

/-- What holds of every table: it is in order, has what it learned last, and predicts what it has
to for every frequency in the bands. -/
structure TablesRight (state : Learned) : Prop where
  cnt_le : ∀ isTx vco, state.memory.cnt isTx vco ≤ sxAnchorsMax
  ascending : ∀ isTx vco,
    (state.memory.anchors isTx vco).Pairwise fun low high => low.vcoKhz < high.vcoKhz
  learned : ∀ isTx vco, ∀ anchor ∈ state.last isTx vco, anchor ∈ state.memory.anchors isTx vco
  predicts : ∀ isTx vco vcoKhz, InBandKhz vcoKhz →
    ∃ code, state.memory.predict isTx vco vcoKhz = .ok code ∧
      Predicts (state.memory.anchors isTx vco) vcoKhz code

/-- The invariant of a history. -/
structure Kept (state : Learned) : Prop where
  tables : ∀ isTx vco, AnchorsRight (state.memory.anchors isTx vco)
  learned : ∀ isTx vco, ∀ anchor ∈ state.last isTx vco, anchor ∈ state.memory.anchors isTx vco

theorem kept_start : start.Kept where
  tables _ _ := anchorsRight_nil
  learned _ _ anchor hanchor := by cases hanchor

variable {state following : Learned} {search : Search}

/-- A search reaches the table of its oscillator, and no other. -/
theorem next_cases (h : state.Kept) (hstep : state.next search = some following) (isTx : Bool)
    (vco : Vco) :
    (following.memory.anchors isTx vco =
        sxLearn search.vcoKhz search.csw (state.memory.anchors isTx vco) ∧
      following.last isTx vco = some ⟨search.vcoKhz, search.csw⟩) ∨
    (following.memory.anchors isTx vco = state.memory.anchors isTx vco ∧
      following.last isTx vco = state.last isTx vco) := by
  obtain ⟨hband, rfl⟩ := of_guard hstep
  simp only
  rw [AnchorMemory.anchors_learn h.tables hband]
  by_cases hsame : isTx = search.isTx ∧ vco = search.vco
  · obtain ⟨rfl, rfl⟩ := hsame
    left
    constructor
    · rw [Function.update_self, Function.update_self]
    · rw [Function.update_self, Function.update_self]
  · right
    exact ⟨update_table_of_ne _ _ hsame, update_table_of_ne _ _ hsame⟩

/-- A search that is learned keeps the invariant. -/
theorem Kept.next (h : state.Kept) (hstep : state.next search = some following) :
    following.Kept := by
  obtain ⟨hband, -⟩ := of_guard hstep
  constructor
  · intro isTx vco
    rcases next_cases h hstep isTx vco with ⟨hanchors, -⟩ | ⟨hanchors, -⟩
    · rw [hanchors]
      exact ((h.tables isTx vco).learn hband search.csw).1
    · rw [hanchors]
      exact h.tables isTx vco
  · intro isTx vco anchor hanchor
    rcases next_cases h hstep isTx vco with ⟨hanchors, hlast⟩ | ⟨hanchors, hlast⟩
    · rw [hlast] at hanchor
      obtain rfl := Option.some.inj hanchor
      rw [hanchors]
      exact ((h.tables isTx vco).learn hband search.csw).2
    · rw [hlast] at hanchor
      rw [hanchors]
      exact h.learned isTx vco anchor hanchor

theorem Kept.tablesRight (h : state.Kept) : state.TablesRight where
  cnt_le isTx vco := by simpa [AnchorMemory.anchors] using (h.tables isTx vco).length_le
  ascending isTx vco := (h.tables isTx vco).ascending
  learned := h.learned
  predicts isTx vco vcoKhz hkhz :=
    ⟨_, AnchorMemory.predict_eq (h.tables isTx vco) hkhz, (h.tables isTx vco).predicts vcoKhz⟩

/-- In every history of full searches with VCO frequencies in the bands the tables are right. -/
theorem tables_right (searches : List Search) :
    Always next TablesRight start searches :=
  (always_of_inductive (fun _ _ _ h hstep => h.next hstep) kept_start).mono fun _ h =>
    h.tablesRight

/-- Searches that refresh an anchor of VCOH closer and closer to the next. -/
def approach : List Search :=
  [(7000100, 108), (7008101, 100), (7004100, 104), (7006100, 102), (7007100, 101), (7007600, 101),
    (7007850, 101), (7007975, 101)].map fun found => ⟨false, .vcoh, found.1, found.2⟩

/-- After them the lowest anchor does not get its own code. -/
theorem lowest_not_own :
    ((run next start approach).map fun state =>
        (state.memory.anchors false .vcoh, state.memory.predict false .vcoh 7007975)) =
      some ([⟨7007975, 101⟩, ⟨7008101, 100⟩], .ok 100) := by
  decide

end Learned

end RfnmDriver.Lime
