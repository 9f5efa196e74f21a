import RfnmDriver.Library.FirstBest
import RfnmDriver.Vspa.RunningImage

/-!
# Which image is selected

`rfnm_vspa_select_for` and `rfnm_vspa_probe_boot` scan the registry for the provider with the fewest
capabilities. `selectFor_iff`: the first takes, of those, the one of the lowest rank, and of those
the one registered first. The other does not look at the rank, and `probeBoot_agrees_iff` says for
which registries that makes no difference.
-/

namespace RfnmDriver.Vspa

open FirstBest

/-- What `rfnm_vspa_select_for` returns: 0 or -ENOENT. -/
def Core.selectForRet (core : Core) (caps : UInt32) : Int :=
  if core.runningHas caps then 0
  else if (core.table.bestUpTo caps true core.table.length).isNone then -2
  else 0

/-- The same registry, with nothing selected and nothing running. -/
def Core.idle (core : Core) : Core := { core with selected := none, running := none }

namespace RegTable

variable (table : RegTable) (caps : UInt32)

/-- Before an entry come those with fewer capabilities, of as many those of a lower rank, and of
the same rank those registered before. -/
def order (i : Nat) : (ℕ ×ₗ ℕ) ×ₗ ℕ := toLex (toLex (table.weight i, table.rank i), i)

/-- The entry provides the capabilities, and none that comes before it does. -/
structure Chosen (i : Nat) : Prop where
  provides : table.provides (some i) caps = true
  first : ∀ j, table.provides (some j) caps = true → table.order i ≤ table.order j

/-- The entry has the fewest capabilities of those that provide these. -/
structure Lightest (i : Nat) : Prop where
  provides : table.provides (some i) caps = true
  le : ∀ j, table.provides (some j) caps = true → table.weight i ≤ table.weight j

/-- Of those with the fewest capabilities, none has a lower rank than the one registered first. -/
def FirstRanksLowest : Prop :=
  ∀ i j, table.Lightest caps i → table.Lightest caps j →
    (∀ k < i, ¬ table.Lightest caps k) → table.rank i ≤ table.rank j

end RegTable

section Scans

variable {table : RegTable} {caps : UInt32} {n i : Nat}

/-- The scan of `rfnm_vspa_select_for`: by rank among those of one weight. -/
theorem bestUpTo_byRank (n : Nat) :
    table.bestUpTo caps true n =
      scan (fun i => toLex (table.weight i, table.rank i)) (fun i => table.provides (some i) caps)
        n := by
  induction n with
  | zero => rfl
  | succ n ih =>
      have hpreferred : table.preferred true n = fun best => decide
          (toLex (table.weight n, table.rank n) < toLex (table.weight best, table.rank best)) := by
        funext best
        unfold RegTable.preferred
        rw [Bool.true_and, ← Bool.decide_and, ← Bool.decide_or]
        exact decide_eq_decide.mpr (by rw [Prod.Lex.toLex_lt_toLex])
      rw [RegTable.bestUpTo, scan, ih, hpreferred]

/-- The scan of `rfnm_vspa_probe_boot`. -/
theorem bestUpTo_byWeight (n : Nat) :
    table.bestUpTo caps false n =
      scan table.weight (fun i => table.provides (some i) caps) n := by
  induction n with
  | zero => rfl
  | succ n ih =>
      have hpreferred : table.preferred false n =
          fun best => decide (table.weight n < table.weight best) := by
        funext best
        unfold RegTable.preferred
        rw [Bool.false_and, Bool.false_and, Bool.or_false]
      rw [RegTable.bestUpTo, scan, ih, hpreferred]

theorem provides_lt (h : table.provides (some i) caps = true) : i < table.length := by
  unfold RegTable.provides at h
  cases hentry : table[i]? with
  | none => simp [hentry] at h
  | some e => exact (List.getElem?_eq_some_iff.mp hentry).1

/-- What the scan over the whole registry finds is what is to be chosen. -/
theorem first_iff_chosen :
    First (fun i => toLex (table.weight i, table.rank i)) (fun i => table.provides (some i) caps)
      table.length i ↔ table.Chosen caps i := by
  constructor
  · exact fun h => ⟨h.mem, fun j hj => h.le j (provides_lt hj) hj⟩
  · exact fun h => ⟨provides_lt h.provides, h.provides, fun j _ hj => h.first j hj⟩

/-- And by weight alone the first of the lightest. -/
theorem first_iff_lightest :
    First table.weight (fun i => table.provides (some i) caps) table.length i ↔
      table.Lightest caps i ∧ ∀ k < i, ¬ table.Lightest caps k := by
  constructor
  · rintro ⟨-, hmem, hle⟩
    have hlightest : table.Lightest caps i := by
      refine ⟨hmem, fun j hj => ?_⟩
      exact (place_le_iff.mp (hle j (provides_lt hj) hj)).elim le_of_lt fun h => h.1.le
    refine ⟨hlightest, fun k hk hother => ?_⟩
    obtain hlt | ⟨-, hik⟩ := place_le_iff.mp (hle k (provides_lt hother.provides) hother.provides)
    · exact absurd (hother.le i hmem) (not_le.mpr hlt)
    · omega
  · rintro ⟨hlightest, hbefore⟩
    refine ⟨provides_lt hlightest.provides, hlightest.provides, fun j _ hj => place_le_iff.mpr ?_⟩
    refine (hlightest.le j hj).lt_or_eq.imp_right fun heq => ⟨heq, not_lt.mp fun hlt => ?_⟩
    exact hbefore j hlt ⟨hj, fun k hk => heq ▸ hlightest.le k hk⟩

end Scans

variable {core : Core} {caps : UInt32}

/-- A selection fails exactly if no entry provides the capabilities. -/
theorem selectForRet_iff :
    core.selectForRet caps ≠ 0 ↔ ∀ i, core.table.provides (some i) caps = false := by
  unfold Core.selectForRet
  cases hhas : core.runningHas caps with
  | true =>
      rw [if_pos rfl]
      refine iff_of_false (fun h => h rfl) fun hnone => ?_
      unfold Core.runningHas at hhas
      cases hrunning : core.running with
      | none =>
          rw [hrunning] at hhas
          cases hhas
      | some i =>
          rw [hrunning, hnone i] at hhas
          cases hhas
  | false =>
      rw [if_neg Bool.false_ne_true, bestUpTo_byRank]
      cases hscan : scan (fun i => toLex (core.table.weight i, core.table.rank i))
        (fun i => core.table.provides (some i) caps) core.table.length with
      | none =>
          refine iff_of_true (by decide) fun i => Bool.eq_false_iff.mpr fun hi => ?_
          have hnone := scan_eq_none_iff.mp hscan i (provides_lt hi)
          exact Bool.noConfusion (hnone.symm.trans hi)
      | some i =>
          have hfirst := scan_eq_some_iff.mp hscan
          exact iff_of_false (fun h => h rfl) fun hnone =>
            Bool.noConfusion ((hnone i).symm.trans hfirst.mem)

theorem probeBoot_selected (parked : Bool) :
    (core.probeBoot parked).selected = core.candidate := by
  unfold Core.probeBoot
  cases hcandidate : core.candidate with
  | none => rfl
  | some i => cases parked <;> rfl

theorem selectFor_iff {i : Nat} :
    (core.selectFor caps).selected = some i ↔
      if core.runningHas caps then core.running = some i else core.table.Chosen caps i := by
  unfold Core.selectFor
  split
  · exact Iff.rfl
  · show core.table.bestUpTo caps true core.table.length = some i ↔ _
    rw [bestUpTo_byRank, scan_eq_some_iff, first_iff_chosen]

/-- The two scans find the same. -/
theorem probeBoot_agrees_iff (parked : Bool) :
    (core.idle.probeBoot parked).selected = (core.idle.selectFor capStreamingBase).selected ↔
      core.table.FirstRanksLowest capStreamingBase := by
  have hprobe : core.idle.candidate = core.table.bestUpTo capStreamingBase false core.table.length :=
    rfl
  have hselect : (core.idle.selectFor capStreamingBase).selected =
      core.table.bestUpTo capStreamingBase true core.table.length := rfl
  rw [probeBoot_selected, hprobe, hselect, bestUpTo_byWeight, bestUpTo_byRank, scan_eq_scan_iff]
  constructor
  · intro h i j hi hj hbefore
    refine h i (first_iff_lightest.mpr ⟨hi, hbefore⟩) j (provides_lt hj.provides) hj.provides ?_
    exact le_antisymm (hj.le i hi.provides) (hi.le j hj.provides)
  · intro h i hfirst j _ hj hweight
    obtain ⟨hi, hbefore⟩ := first_iff_lightest.mp hfirst
    exact h i j hi ⟨hj, fun k hk => hweight ▸ hi.le k hk⟩ hbefore

/-- For every registry: the running image is selected where it suffices, and else what is to be
chosen; the selection fails exactly if no entry will do; and a fresh endpoint, with nothing selected
or running, gets the same entry exactly if, of the providers with the fewest capabilities, the one
registered first has the lowest rank. -/
theorem selection_iff (core : Core) (caps : UInt32) (parked : Bool) :
    (∀ i, (core.selectFor caps).selected = some i ↔
      if core.runningHas caps then core.running = some i else core.table.Chosen caps i) ∧
    (core.selectForRet caps ≠ 0 ↔ ∀ i, core.table.provides (some i) caps = false) ∧
    ((core.idle.probeBoot parked).selected = (core.idle.selectFor capStreamingBase).selected ↔
      core.table.FirstRanksLowest capStreamingBase) :=
  ⟨fun _ => selectFor_iff, selectForRet_iff, probeBoot_agrees_iff parked⟩

/-- Two entries of one weight, the first of a higher rank. -/
def rankedTable : RegTable :=
  [⟨[0x61], ⟨identMagic, abiCurrent, 1, 5, [], [], [], 0, 0⟩, none, 0⟩,
    ⟨[0x62], ⟨identMagic, abiCurrent, 1, 2, [], [], [], 0, 0⟩, none, 0⟩]

theorem probe_ignores_rank :
    (Core.idle ⟨rankedTable, none, none, none, none⟩ |>.probeBoot true).selected ≠
      (Core.idle ⟨rankedTable, none, none, none, none⟩ |>.selectFor capStreamingBase).selected := by
  decide +kernel

end RfnmDriver.Vspa
