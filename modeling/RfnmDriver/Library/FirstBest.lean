import Mathlib.Data.Prod.Lex

/-!
# Scans that keep the first of the best

A scan over numbered candidates remembers one, and takes another in its place when that one has a
smaller key. It ends with the candidate that comes first by key and then by number. A coarser key
keeps the same one exactly if the first of the coarsely best is also one of the best.
-/

namespace FirstBest

variable {Key : Type*} [LinearOrder Key]

/-- The scan over the first numbers. -/
def scan (key : Nat → Key) (candidate : Nat → Bool) : Nat → Option Nat
  | 0 => none
  | i + 1 =>
      let best := scan key candidate i
      if candidate i && best.elim true fun b => key i < key b then some i else best

/-- The order of the candidates: by key, then by number. -/
def place (key : Nat → Key) (i : Nat) : Key ×ₗ Nat := toLex (key i, i)

/-- The candidate comes first. -/
structure First (key : Nat → Key) (candidate : Nat → Bool) (n i : Nat) : Prop where
  lt : i < n
  mem : candidate i = true
  le : ∀ j < n, candidate j = true → place key i ≤ place key j

variable {key : Nat → Key} {candidate : Nat → Bool} {n i j : Nat}

theorem place_le_iff : place key i ≤ place key j ↔ key i < key j ∨ key i = key j ∧ i ≤ j :=
  Prod.Lex.toLex_le_toLex

theorem First.unique (h : First key candidate n i) (hother : First key candidate n j) : i = j := by
  have hsame := le_antisymm (h.le j hother.lt hother.mem) (hother.le i h.lt h.mem)
  exact congrArg (fun place => (ofLex place).2) hsame

theorem scan_succ (n : Nat) :
    scan key candidate (n + 1) =
      if candidate n = true ∧ ∀ best ∈ scan key candidate n, key n < key best then some n
      else scan key candidate n := by
  rw [scan]
  refine if_congr ?_ rfl rfl
  cases scan key candidate n <;> simp

/-- What the scan has found after some numbers. -/
theorem scan_spec (n : Nat) :
    (∀ i, scan key candidate n = some i → First key candidate n i) ∧
      (scan key candidate n = none → ∀ j < n, candidate j = false) := by
  induction n with
  | zero => exact ⟨nofun, fun _ j hj => absurd hj (Nat.not_lt_zero j)⟩
  | succ n ih =>
      obtain ⟨hbest, hnone⟩ := ih
      rw [scan_succ]
      by_cases hbetter : candidate n = true ∧ ∀ best ∈ scan key candidate n, key n < key best
      · -- The new number comes after all others, and has a smaller key.
        rw [if_pos hbetter]
        refine ⟨fun i h => ?_, fun h => absurd h (Option.some_ne_none n)⟩
        obtain rfl := Option.some.inj h
        refine ⟨Nat.lt_succ_self n, hbetter.1, fun j hj hmem => ?_⟩
        obtain hj | rfl := Nat.lt_succ_iff_lt_or_eq.mp hj
        · obtain ⟨best, hscan⟩ : ∃ best, scan key candidate n = some best := by
            refine Option.ne_none_iff_exists'.mp fun hempty => ?_
            exact Bool.noConfusion ((hnone hempty j hj).symm.trans hmem)
          have hle := place_le_iff.mp ((hbest best hscan).le j hj hmem)
          exact place_le_iff.mpr
            (.inl (lt_of_lt_of_le (hbetter.2 best hscan) (hle.elim le_of_lt fun h => h.1.le)))
        · exact le_rfl
      · rw [if_neg hbetter]
        constructor
        · intro i hscan
          obtain ⟨hlt, hmem, hle⟩ := hbest i hscan
          refine ⟨Nat.lt_succ_of_lt hlt, hmem, fun j hj hother => ?_⟩
          obtain hj | rfl := Nat.lt_succ_iff_lt_or_eq.mp hj
          · exact hle j hj hother
          · have hkey : key i ≤ key j := not_lt.mp fun hless => by
              refine hbetter ⟨hother, fun best hbest => ?_⟩
              obtain rfl := Option.some.inj (hscan.symm.trans hbest)
              exact hless
            exact place_le_iff.mpr (hkey.lt_or_eq.imp_right fun h => ⟨h, hlt.le⟩)
        · intro hempty j hj
          obtain hj | rfl := Nat.lt_succ_iff_lt_or_eq.mp hj
          · exact hnone hempty j hj
          · refine Bool.eq_false_iff.mpr fun hmem => hbetter ⟨hmem, fun best hbest => ?_⟩
            rw [hempty] at hbest
            cases hbest

/-- The scan ends with the first. -/
theorem scan_eq_some_iff : scan key candidate n = some i ↔ First key candidate n i := by
  constructor
  · exact (scan_spec n).1 i
  · intro h
    cases hscan : scan key candidate n with
    | none =>
        have hnone := (scan_spec n).2 hscan i h.lt
        exact Bool.noConfusion (hnone.symm.trans h.mem)
    | some best => rw [((scan_spec n).1 best hscan).unique h]

/-- It ends without one exactly if there is none. -/
theorem scan_eq_none_iff : scan key candidate n = none ↔ ∀ j < n, candidate j = false := by
  refine ⟨(scan_spec n).2, fun h => ?_⟩
  cases hscan : scan key candidate n with
  | none => rfl
  | some best =>
      have hbest := (scan_spec n).1 best hscan
      exact Bool.noConfusion ((h best hbest.lt).symm.trans hbest.mem)

/-- A scan by a coarse key keeps what a scan by a finer one keeps exactly if, of the coarsely best,
the first is one of the best. -/
theorem scan_eq_scan_iff {Fine : Type*} [LinearOrder Fine] {fine : Nat → Fine} :
    scan key candidate n = scan (fun i => toLex (key i, fine i)) candidate n ↔
      ∀ i, First key candidate n i → ∀ j < n, candidate j = true → key j = key i →
        fine i ≤ fine j := by
  constructor
  · intro h i hfirst j hj hmem hkey
    rw [scan_eq_some_iff.mpr hfirst] at h
    obtain hlt | ⟨heq, -⟩ := place_le_iff.mp ((scan_eq_some_iff.mp h.symm).le j hj hmem)
    · obtain hless | ⟨-, hfine⟩ := Prod.Lex.toLex_lt_toLex.mp hlt
      · exact absurd hkey hless.ne'
      · exact hfine.le
    · exact (Prod.mk.inj (toLex_inj.mp heq)).2.le
  · intro h
    cases hscan : scan key candidate n with
    | none => exact (scan_eq_none_iff.mpr (scan_eq_none_iff.mp hscan)).symm
    | some i =>
        have hfirst := scan_eq_some_iff.mp hscan
        refine (scan_eq_some_iff.mpr ⟨hfirst.lt, hfirst.mem, fun j hj hmem => ?_⟩).symm
        refine place_le_iff.mpr ?_
        obtain hless | ⟨hkey, hle⟩ := place_le_iff.mp (hfirst.le j hj hmem)
        · exact .inl (Prod.Lex.toLex_lt_toLex.mpr (.inl hless))
        · obtain hfine | hfine := (h i hfirst j hj hmem hkey.symm).lt_or_eq
          · exact .inl (Prod.Lex.toLex_lt_toLex.mpr (.inr ⟨hkey, hfine⟩))
          · exact .inr ⟨congrArg toLex (Prod.ext hkey hfine), hle⟩

end FirstBest
