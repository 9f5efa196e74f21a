import Mathlib.Data.List.TakeWhile
import RfnmDriver.Library.FirstBest
import RfnmDriver.Library.SlotArray
import RfnmDriver.Library.TruncatedLine
import RfnmDriver.Lime.FastTune

/-!
# Tables of anchors

What `rfnm_lime_sx_learn` keeps of a table and what `rfnm_lime_sx_predict` makes of it, on the list
of its anchors. A frequency that is learned takes the place of the nearest anchor if that is close
or the table full, so no frequency is there twice. The other neighbour may be close as well:
anchors come as near to each other as 1 kHz, and then their `1/f^2`, a whole number, is the same.
A prediction between such two is the code of the upper one, also at the lowest anchor of all.
-/

namespace RfnmDriver.Lime

open SlotArray

/-- A VCO frequency in a band of the chip. -/
def InBandKhz (vcoKhz : Nat) : Prop :=
  ∃ vco ∈ Vco.preference, vco.InBand (vcoKhz * 1000)

instance (vcoKhz : Nat) : Decidable (InBandKhz vcoKhz) :=
  inferInstanceAs (Decidable (∃ vco ∈ Vco.preference, _))

variable {vcoKhz : Nat} {csw : BitVec 8} {anchors : List SxAnchor} {anchor low high : SxAnchor}
  {array : Nat → SxAnchor} {n : Nat}

/-- The bands overlap, from the lowest frequency to the highest. -/
theorem InBandKhz.bounds (h : InBandKhz vcoKhz) : 3800000 ≤ vcoKhz ∧ vcoKhz ≤ 7714000 := by
  obtain ⟨vco, -, hmin, hmax⟩ := h
  have hlowest : Vco.vcol.minHz ≤ vco.minHz := by cases vco <;> decide
  have hhighest : vco.maxHz ≤ Vco.vcoh.maxHz := by cases vco <;> decide
  have hfloor : 3800000 * 1000 ≤ vcoKhz * 1000 := hlowest.trans hmin
  have hceiling : vcoKhz * 1000 ≤ 7714000 * 1000 := hmax.trans hhighest
  omega

/-- A table of anchors as a history of full searches leaves it. -/
structure AnchorsRight (anchors : List SxAnchor) : Prop where
  length_le : anchors.length ≤ sxAnchorsMax
  ascending : anchors.Pairwise fun low high => low.vcoKhz < high.vcoKhz
  band : ∀ anchor ∈ anchors, InBandKhz anchor.vcoKhz

theorem anchorsRight_nil : AnchorsRight [] where
  length_le := Nat.zero_le _
  ascending := .nil
  band anchor hanchor := by cases hanchor

/-! ## Learning -/

theorem SxAnchor.dist_eq_zero_iff : anchor.dist vcoKhz = 0 ↔ anchor.vcoKhz = vcoKhz := by
  unfold SxAnchor.dist
  split <;> omega

/-- In the bands no distance reaches the initial `best_d`. -/
theorem SxAnchor.dist_lt (hanchor : InBandKhz anchor.vcoKhz) (hkhz : InBandKhz vcoKhz) :
    anchor.dist vcoKhz < 2 ^ 32 - 1 := by
  have hanchorBounds := hanchor.bounds
  have hbounds := hkhz.bounds
  unfold SxAnchor.dist
  split <;> omega

/-- The loop over one more anchor. -/
theorem sxVictim_succ (vcoKhz : Nat) (array : Nat → SxAnchor) (n : Nat) :
    sxVictim vcoKhz (entries array (n + 1)) =
      if (array n).dist vcoKhz < (sxVictim vcoKhz (entries array n)).1 then
        ((array n).dist vcoKhz, some n)
      else sxVictim vcoKhz (entries array n) := by
  unfold sxVictim
  rw [entries_succ, List.zipIdx_append, List.foldl_append, length_entries, Nat.zero_add]
  rfl

/-- The first of the nearest of the anchors that are nearer than the initial `best_d`. -/
def sxNearest (vcoKhz : Nat) (array : Nat → SxAnchor) (n : Nat) : Option Nat :=
  FirstBest.scan (fun i => (array i).dist vcoKhz) (fun i => (array i).dist vcoKhz < 2 ^ 32 - 1) n

theorem sxNearest_succ (vcoKhz : Nat) (array : Nat → SxAnchor) (n : Nat) :
    sxNearest vcoKhz array (n + 1) =
      if (array n).dist vcoKhz <
          (sxNearest vcoKhz array n).elim (2 ^ 32 - 1) fun i => (array i).dist vcoKhz then some n
      else sxNearest vcoKhz array n := by
  unfold sxNearest
  rw [FirstBest.scan_succ]
  refine if_congr ?_ rfl rfl
  cases hscan : FirstBest.scan (fun i => (array i).dist vcoKhz)
      (fun i => (array i).dist vcoKhz < 2 ^ 32 - 1) n with
  | none => simp
  | some best =>
      have hbest := of_decide_eq_true (FirstBest.scan_eq_some_iff.mp hscan).mem
      constructor
      · exact fun hboth => hboth.2 best rfl
      · intro hnearer
        refine ⟨decide_eq_true (Nat.lt_trans hnearer hbest), fun other hother => ?_⟩
        obtain rfl := Option.some.inj hother
        exact hnearer

/-- It is the one the loop finds. -/
theorem sxVictim_eq_nearest (vcoKhz : Nat) (array : Nat → SxAnchor) (n : Nat) :
    sxVictim vcoKhz (entries array n) =
      ((sxNearest vcoKhz array n).elim (2 ^ 32 - 1) fun i => (array i).dist vcoKhz,
        sxNearest vcoKhz array n) := by
  induction n with
  | zero => rfl
  | succ n ih =>
      rw [sxVictim_succ, ih, sxNearest_succ]
      split
      · rfl
      · rfl

/-- In a table that is not empty an anchor is found, and none is nearer. -/
theorem sxVictim_spec (hnear : ∀ anchor ∈ anchors, anchor.dist vcoKhz < 2 ^ 32 - 1) :
    (anchors = [] ∧ (sxVictim vcoKhz anchors).2 = none) ∨
      ∃ victim, ∃ h : victim < anchors.length,
        sxVictim vcoKhz anchors = (anchors[victim].dist vcoKhz, some victim) ∧
          ∀ anchor ∈ anchors, anchors[victim].dist vcoKhz ≤ anchor.dist vcoKhz := by
  obtain ⟨array, n, rfl⟩ : ∃ array n, entries array n = anchors :=
    ⟨_, _, entries_getD anchors ⟨0, 0⟩⟩
  rw [sxVictim_eq_nearest]
  cases hscan : sxNearest vcoKhz array n with
  | none =>
      left
      have hempty : n = 0 := by
        by_contra hpos
        have hfar := FirstBest.scan_eq_none_iff.mp hscan 0 (Nat.pos_of_ne_zero hpos)
        have hclose := hnear (array 0) (mem_entries.mpr ⟨0, Nat.pos_of_ne_zero hpos, rfl⟩)
        exact of_decide_eq_false hfar hclose
      rw [hempty]
      exact ⟨rfl, rfl⟩
  | some victim =>
      right
      have hfirst := FirstBest.scan_eq_some_iff.mp hscan
      refine ⟨victim, by simpa using hfirst.lt, ?_, fun anchor hanchor => ?_⟩
      · rw [getElem_entries]
        rfl
      · obtain ⟨i, hi, rfl⟩ := mem_entries.mp hanchor
        have hmem := hnear (array i) (mem_entries.mpr ⟨i, hi, rfl⟩)
        rw [getElem_entries]
        rcases FirstBest.place_le_iff.mp (hfirst.le i hi (decide_eq_true hmem)) with
          hless | ⟨hsame, -⟩
        · exact hless.le
        · exact hsame.le

/-- The anchors that a learned one joins. -/
def sxKept (vcoKhz : Nat) (anchors : List SxAnchor) : List SxAnchor :=
  match sxVictim vcoKhz anchors with
  | (dist, some victim) =>
      if dist ≤ sxMergeKhz ∨ anchors.length = sxAnchorsMax then anchors.eraseIdx victim
      else anchors
  | (_, none) => anchors

theorem sxLearn_eq (vcoKhz : Nat) (csw : BitVec 8) (anchors : List SxAnchor) :
    sxLearn vcoKhz csw anchors =
      (sxKept vcoKhz anchors).takeWhile (·.vcoKhz < vcoKhz) ++
        ⟨vcoKhz, csw⟩ :: (sxKept vcoKhz anchors).dropWhile (·.vcoKhz < vcoKhz) :=
  rfl

/-- What is kept is part of the table, leaves room for another anchor, and does not have the
frequency that is learned. -/
theorem AnchorsRight.kept (h : AnchorsRight anchors) (hkhz : InBandKhz vcoKhz) :
    (sxKept vcoKhz anchors).Sublist anchors ∧ (sxKept vcoKhz anchors).length < sxAnchorsMax ∧
      ∀ anchor ∈ sxKept vcoKhz anchors, anchor.vcoKhz ≠ vcoKhz := by
  have hnear : ∀ anchor ∈ anchors, anchor.dist vcoKhz < 2 ^ 32 - 1 := fun anchor hanchor =>
    SxAnchor.dist_lt (h.band anchor hanchor) hkhz
  rcases sxVictim_spec hnear with ⟨rfl, hnone⟩ | ⟨victim, hlt, hvictim, hle⟩
  · exact ⟨List.Sublist.refl _, Nat.zero_lt_succ _, fun anchor hanchor => by cases hanchor⟩
  unfold sxKept
  rw [hvictim]
  simp only
  split
  case isTrue =>
    refine ⟨List.eraseIdx_sublist _ _, ?_, fun anchor hanchor hsame => ?_⟩
    · rw [List.length_eraseIdx_of_lt hlt]
      have hmax := h.length_le
      omega
    · -- the nearest anchor has the frequency as well, and there is only one
      obtain ⟨i, hi, hne, rfl⟩ := List.mem_eraseIdx_iff_getElem.mp hanchor
      have hzero := hle _ (List.getElem_mem hi)
      rw [SxAnchor.dist_eq_zero_iff.mpr hsame, Nat.le_zero, SxAnchor.dist_eq_zero_iff] at hzero
      rcases Nat.lt_or_gt_of_ne hne with hbefore | hbehind
      · have hless := List.pairwise_iff_getElem.mp h.ascending _ _ hi hlt hbefore
        omega
      · have hless := List.pairwise_iff_getElem.mp h.ascending _ _ hlt hi hbehind
        omega
  case isFalse hstays =>
    rw [not_or] at hstays
    refine ⟨List.Sublist.refl _, lt_of_le_of_ne h.length_le hstays.2, ?_⟩
    intro anchor hanchor hsame
    -- an anchor at the frequency itself would have been merged
    have hzero := hle anchor hanchor
    rw [SxAnchor.dist_eq_zero_iff.mpr hsame] at hzero
    exact hstays.1 (hzero.trans (Nat.zero_le _))

/-- Behind the first anchor that is not below a frequency all are not. -/
theorem le_of_mem_dropWhile (hascending : anchors.Pairwise fun low high => low.vcoKhz < high.vcoKhz)
    (hanchor : anchor ∈ anchors.dropWhile (·.vcoKhz < vcoKhz)) : vcoKhz ≤ anchor.vcoKhz := by
  induction anchors with
  | nil => cases hanchor
  | cons first rest ih =>
      obtain ⟨hfirst, hrest⟩ := List.pairwise_cons.mp hascending
      by_cases hbelow : first.vcoKhz < vcoKhz
      · rw [List.dropWhile_cons, if_pos (decide_eq_true hbelow)] at hanchor
        exact ih hrest hanchor
      · rw [List.dropWhile_cons, if_neg (by simpa using hbelow)] at hanchor
        rcases List.mem_cons.mp hanchor with rfl | hlater
        · exact Nat.le_of_not_lt hbelow
        · exact (Nat.le_of_not_lt hbelow).trans (hfirst anchor hlater).le

/-- Learning keeps a table right, and the table has what is learned. -/
theorem AnchorsRight.learn (h : AnchorsRight anchors) (hkhz : InBandKhz vcoKhz)
    (csw : BitVec 8) :
    AnchorsRight (sxLearn vcoKhz csw anchors) ∧ ⟨vcoKhz, csw⟩ ∈ sxLearn vcoKhz csw anchors := by
  obtain ⟨hsub, hroom, hfresh⟩ := h.kept hkhz
  have hkept := h.ascending.sublist hsub
  have htake := hkept.sublist (List.takeWhile_sublist fun anchor => anchor.vcoKhz < vcoKhz)
  have hdrop := hkept.sublist (List.dropWhile_sublist fun anchor => anchor.vcoKhz < vcoKhz)
  have hbelow : ∀ anchor ∈ (sxKept vcoKhz anchors).takeWhile (·.vcoKhz < vcoKhz),
      anchor.vcoKhz < vcoKhz := by
    intro anchor hanchor
    have hpasses := List.mem_takeWhile_imp hanchor
    exact of_decide_eq_true hpasses
  have habove : ∀ anchor ∈ (sxKept vcoKhz anchors).dropWhile (·.vcoKhz < vcoKhz),
      vcoKhz < anchor.vcoKhz := fun anchor hanchor =>
    lt_of_le_of_ne (le_of_mem_dropWhile hkept hanchor)
      (hfresh anchor ((List.dropWhile_sublist _).subset hanchor)).symm
  rw [sxLearn_eq]
  refine ⟨⟨?_, ?_, fun anchor hanchor => ?_⟩, by simp⟩
  · rw [← insertIdx_takeWhile,
      List.length_insertIdx_of_le_length (List.takeWhile_sublist _).length_le]
    exact hroom
  · refine List.pairwise_append.mpr ⟨htake, List.pairwise_cons.mpr ⟨habove, hdrop⟩, ?_⟩
    intro anchor hanchor other hother
    rcases List.mem_cons.mp hother with rfl | hother
    · exact hbelow anchor hanchor
    · exact (hbelow anchor hanchor).trans (habove other hother)
  · rcases List.mem_append.mp hanchor with hanchor | hanchor
    · exact h.band anchor (hsub.subset ((List.takeWhile_sublist _).subset hanchor))
    rcases List.mem_cons.mp hanchor with rfl | hanchor
    · exact hkhz
    · exact h.band anchor (hsub.subset ((List.dropWhile_sublist _).subset hanchor))

/-! ## Prediction -/

/-- The code between two anchors that the interpolation gives. -/
def sxInterpolate (vcoKhz : Nat) (low high : SxAnchor) : Int :=
  if (sxXdom low.vcoKhz : Int) = sxXdom high.vcoKhz then high.csw.toNat
  else
    let csw := TruncatedLine.line low.csw.toNat high.csw.toNat
      (sxXdom low.vcoKhz) (sxXdom high.vcoKhz) (sxXdom vcoKhz)
    if csw < 0 then 0 else if 255 < csw then 255 else csw

/-- The index `i1` the loop of a prediction stops at, in a table of two anchors and some more. -/
def sxUpper (vcoKhz : Nat) (array : Nat → SxAnchor) (more : Nat) : Nat :=
  seek (fun i => (array i).vcoKhz < vcoKhz) more 1

/-- The bracket from an index on. -/
theorem sxBracket_entries (vcoKhz : Nat) (array : Nat → SxAnchor) (left i : Nat) :
    let upper := seek (fun j => (array j).vcoKhz < vcoKhz) left (i + 1)
    sxBracket vcoKhz (array i) (array (i + 1)) (entries (fun j => array (j + (i + 2))) left) =
      (array (upper - 1), array upper) := by
  induction left generalizing i with
  | zero => rfl
  | succ left ih =>
      have hrest : entries (fun j => array (j + 1 + (i + 2))) left =
          entries (fun j => array (j + (i + 1 + 2))) left :=
        entries_congr fun j _ => congrArg array (by omega)
      rw [entries_succ_eq_cons, sxBracket, seek, hrest, Nat.zero_add]
      by_cases hbelow : (array (i + 1)).vcoKhz < vcoKhz
      · rw [if_pos hbelow, if_pos (decide_eq_true hbelow)]
        exact ih (i + 1)
      · rw [if_neg hbelow, if_neg (by simpa using hbelow)]
        rfl

theorem sxPredict_entries (vcoKhz : Nat) (array : Nat → SxAnchor) (more : Nat) :
    sxPredict vcoKhz (entries array (more + 2)) =
      if vcoKhz + sxExtrapKhz < (array 0).vcoKhz ∨
          (array (more + 1)).vcoKhz + sxExtrapKhz < vcoKhz then -1
      else sxInterpolate vcoKhz (array (sxUpper vcoKhz array more - 1))
        (array (sxUpper vcoKhz array more)) := by
  have hlast : (entries (fun i => array (i + 1)) (more + 1)).getLastD (array 1) =
      array (more + 1) := by
    rw [entries_succ, List.getLastD_concat]
  have hbracket := sxBracket_entries vcoKhz array more 0
  rw [entries_succ_eq_cons] at hlast
  rw [entries_succ_eq_cons, entries_succ_eq_cons, sxPredict, hlast]
  simp only [Nat.zero_add] at hbracket ⊢
  rw [hbracket]
  rfl

section Upper

variable {more upper : Nat}

/-- An anchor that bounds a frequency from above, next to one below, is where the loop stops; the
lowest anchor counts as one below. -/
theorem sxUpper_eq (hascending : ∀ j < more + 2, ∀ i < j, (array i).vcoKhz < (array j).vcoKhz)
    (hpos : 0 < upper) (hle : upper ≤ more + 1)
    (hbelow : upper = 1 ∨ (array (upper - 1)).vcoKhz < vcoKhz)
    (habove : vcoKhz ≤ (array upper).vcoKhz) : sxUpper vcoKhz array more = upper := by
  have hfirst : 1 ≤ sxUpper vcoKhz array more := le_seek more 1
  rcases Nat.lt_trichotomy (sxUpper vcoKhz array more) upper with hearly | hsame | hlate
  · -- the loop stops at an anchor below the frequency
    exfalso
    have hlow : (array (sxUpper vcoKhz array more)).vcoKhz < vcoKhz := by
      have hprevious := hbelow.resolve_left (by omega)
      rcases Nat.lt_or_ge (sxUpper vcoKhz array more) (upper - 1) with hfar | hnext
      · exact (hascending (upper - 1) (by omega) _ hfar).trans hprevious
      · rwa [show sxUpper vcoKhz array more = upper - 1 by omega]
    have hstops : sxUpper vcoKhz array more = 1 + more ∨
        decide ((array (sxUpper vcoKhz array more)).vcoKhz < vcoKhz) = false := seek_stops more 1
    rcases hstops with hover | hstop
    · omega
    · exact of_decide_eq_false hstop hlow
  · exact hsame
  · -- the loop passes an anchor that is not below the frequency
    have hpassed : decide ((array upper).vcoKhz < vcoKhz) = true := of_lt_seek hpos hlate
    exact absurd habove (Nat.not_le.mpr (of_decide_eq_true hpassed))

/-- Inside the table a prediction interpolates between the anchors on either side. -/
theorem sxPredict_inside
    (hascending : ∀ j < more + 2, ∀ i < j, (array i).vcoKhz < (array j).vcoKhz)
    (hpos : 0 < upper) (hle : upper ≤ more + 1)
    (hbelow : upper = 1 ∨ (array (upper - 1)).vcoKhz < vcoKhz)
    (hlow : (array (upper - 1)).vcoKhz ≤ vcoKhz) (hhigh : vcoKhz ≤ (array upper).vcoKhz) :
    sxPredict vcoKhz (entries array (more + 2)) =
      sxInterpolate vcoKhz (array (upper - 1)) (array upper) := by
  have hfirst : (array 0).vcoKhz ≤ (array (upper - 1)).vcoKhz := by
    rcases Nat.eq_zero_or_pos (upper - 1) with hzero | hpast
    · rw [hzero]
    · exact (hascending (upper - 1) (by omega) 0 hpast).le
  have hlast : (array upper).vcoKhz ≤ (array (more + 1)).vcoKhz := by
    rcases Nat.eq_or_lt_of_le hle with rfl | hless
    · exact Nat.le_refl _
    · exact (hascending (more + 1) (by omega) upper hless).le
  have hinside : ¬(vcoKhz + sxExtrapKhz < (array 0).vcoKhz ∨
      (array (more + 1)).vcoKhz + sxExtrapKhz < vcoKhz) := by omega
  rw [sxPredict_entries, if_neg hinside, sxUpper_eq hascending hpos hle hbelow hhigh]

end Upper

theorem csw_le (csw : BitVec 8) : (csw.toNat : Int) ≤ 255 := by
  have hlt := csw.isLt
  omega

/-- The limits leave a code as it is. -/
theorem clamp_eq {code : Int} (h : 0 ≤ code ∧ code ≤ 255) :
    (if code < 0 then 0 else if 255 < code then 255 else code) = code := by
  rw [if_neg (by omega), if_neg (by omega)]

theorem sxInterpolate_mem (vcoKhz : Nat) (low high : SxAnchor) :
    0 ≤ sxInterpolate vcoKhz low high ∧ sxInterpolate vcoKhz low high ≤ 255 := by
  have hcsw := csw_le high.csw
  unfold sxInterpolate
  split
  · omega
  · simp only
    split
    · omega
    split
    · omega
    · omega

/-- At the upper anchor its own code. -/
theorem sxInterpolate_high (low high : SxAnchor) :
    sxInterpolate high.vcoKhz low high = high.csw.toNat := by
  unfold sxInterpolate
  split
  case isTrue => rfl
  case isFalse hne =>
    rw [TruncatedLine.line_right hne]
    exact clamp_eq ⟨Int.natCast_nonneg _, csw_le _⟩

/-- At the lower anchor its own code, unless the two cannot be told apart by their `1/f^2`. -/
theorem sxInterpolate_low (low high : SxAnchor) :
    sxInterpolate low.vcoKhz low high =
      if sxXdom low.vcoKhz = sxXdom high.vcoKhz then high.csw.toNat else low.csw.toNat := by
  unfold sxInterpolate
  by_cases hsame : sxXdom low.vcoKhz = sxXdom high.vcoKhz
  · rw [if_pos (congrArg _ hsame), if_pos hsame]
  · rw [if_neg fun hcast => hsame (Int.ofNat_inj.mp hcast), if_neg hsame,
      TruncatedLine.line_left]
    exact clamp_eq ⟨Int.natCast_nonneg _, csw_le _⟩

/-- A higher frequency has no larger `1/f^2`. -/
theorem sxXdom_anti {first second : Nat} (hpos : 0 < first) (hle : first ≤ second) :
    sxXdom second ≤ sxXdom first :=
  Nat.div_le_div_left (Nat.mul_le_mul hle hle) (Nat.mul_pos hpos hpos)

/-- Between two anchors a code between theirs. -/
theorem sxInterpolate_between (hpos : 0 < low.vcoKhz) (hlow : low.vcoKhz ≤ vcoKhz)
    (hhigh : vcoKhz ≤ high.vcoKhz) :
    sxInterpolate vcoKhz low high ∈ Set.uIcc (low.csw.toNat : Int) high.csw.toNat := by
  unfold sxInterpolate
  split
  case isTrue => exact Set.right_mem_uIcc
  case isFalse hne =>
    have hx : (sxXdom vcoKhz : Int) ∈ Set.uIcc (sxXdom low.vcoKhz : Int) (sxXdom high.vcoKhz) :=
      Set.mem_uIcc.mpr (.inr ⟨Int.ofNat_le.mpr (sxXdom_anti (hpos.trans_le hlow) hhigh),
        Int.ofNat_le.mpr (sxXdom_anti hpos hlow)⟩)
    have hline : TruncatedLine.line low.csw.toNat high.csw.toNat (sxXdom low.vcoKhz)
        (sxXdom high.vcoKhz) (sxXdom vcoKhz) ∈ Set.uIcc (low.csw.toNat : Int) high.csw.toNat :=
      TruncatedLine.line_mem_uIcc hne hx
    have hlowle := csw_le low.csw
    have hhighle := csw_le high.csw
    simp only
    rw [clamp_eq]
    · exact hline
    · rcases Set.mem_uIcc.mp hline with hbetween | hbetween
      · omega
      · omega

/-- The frequency is that of the lowest anchor, whose `1/f^2` is that of the next as well. -/
def Masked (anchors : List SxAnchor) (vcoKhz : Nat) : Prop :=
  match anchors with
  | lowest :: next :: _ => vcoKhz = lowest.vcoKhz ∧ sxXdom lowest.vcoKhz = sxXdom next.vcoKhz
  | _ => False

instance (vcoKhz : Nat) : ∀ anchors, Decidable (Masked anchors vcoKhz)
  | [] => .isFalse id
  | [_] => .isFalse id
  | lowest :: next :: _ =>
      inferInstanceAs (Decidable (vcoKhz = lowest.vcoKhz ∧
        sxXdom lowest.vcoKhz = sxXdom next.vcoKhz))

/-- What a table predicts for a frequency: at an anchor its own code, at a masked one that of the
next, and between two neighbours a code between theirs. -/
structure Predicts (anchors : List SxAnchor) (vcoKhz : Nat) (code : Int) : Prop where
  range : code = -1 ∨ 0 ≤ code ∧ code ≤ 255
  own : ¬Masked anchors vcoKhz →
    ∀ anchor ∈ anchors, anchor.vcoKhz = vcoKhz → code = anchor.csw.toNat
  masked : Masked anchors vcoKhz → ∀ next ∈ anchors[1]?, code = next.csw.toNat
  between : ∀ i, ∀ h : i + 1 < anchors.length,
    anchors[i].vcoKhz < vcoKhz → vcoKhz < anchors[i + 1].vcoKhz →
      min (anchors[i].csw.toNat : Int) anchors[i + 1].csw.toNat ≤ code ∧
        code ≤ max (anchors[i].csw.toNat : Int) anchors[i + 1].csw.toNat

theorem csw_range (csw : BitVec 8) : 0 ≤ (csw.toNat : Int) ∧ (csw.toNat : Int) ≤ 255 :=
  ⟨Int.natCast_nonneg _, csw_le csw⟩

theorem predicts_nil (vcoKhz : Nat) : Predicts [] vcoKhz (sxPredict vcoKhz []) where
  range := .inl rfl
  own _ anchor hanchor := by cases hanchor
  masked hmasked := hmasked.elim
  between i h := absurd h (Nat.not_lt_zero _)

theorem predicts_lone (only : SxAnchor) (vcoKhz : Nat) :
    Predicts [only] vcoKhz (sxPredict vcoKhz [only]) where
  range := by
    rw [sxPredict]
    split
    · exact .inr (csw_range _)
    · exact .inl rfl
  own _ anchor hanchor hkhz := by
    obtain rfl := List.mem_singleton.mp hanchor
    rw [sxPredict, SxAnchor.dist_eq_zero_iff.mpr hkhz, if_pos (Nat.zero_le _)]
  masked hmasked := hmasked.elim
  between i h := by
    rw [List.length_singleton] at h
    omega

section More

variable {more : Nat}

/-- At the lowest anchor of two or more. -/
theorem sxPredict_lowest
    (hascending : ∀ j < more + 2, ∀ i < j, (array i).vcoKhz < (array j).vcoKhz) :
    sxPredict (array 0).vcoKhz (entries array (more + 2)) =
      if sxXdom (array 0).vcoKhz = sxXdom (array 1).vcoKhz then (array 1).csw.toNat
      else (array 0).csw.toNat := by
  rw [sxPredict_inside hascending Nat.one_pos (Nat.le_add_left 1 more) (.inl rfl) (Nat.le_refl _)
    (hascending 1 (by omega) 0 Nat.one_pos).le]
  exact sxInterpolate_low (array 0) (array 1)

/-- At another one. -/
theorem sxPredict_other
    (hascending : ∀ j < more + 2, ∀ i < j, (array i).vcoKhz < (array j).vcoKhz) {i : Nat}
    (hpos : 0 < i) (hle : i ≤ more + 1) :
    sxPredict (array i).vcoKhz (entries array (more + 2)) = (array i).csw.toNat := by
  have hprevious := hascending i (by omega) (i - 1) (by omega)
  rw [sxPredict_inside hascending hpos hle (.inr hprevious) hprevious.le (Nat.le_refl _)]
  exact sxInterpolate_high (array (i - 1)) (array i)

theorem masked_entries_iff :
    Masked (entries array (more + 2)) vcoKhz ↔
      vcoKhz = (array 0).vcoKhz ∧ sxXdom (array 0).vcoKhz = sxXdom (array 1).vcoKhz := by
  rw [entries_succ_eq_cons, entries_succ_eq_cons]
  exact Iff.rfl

theorem predicts_more (vcoKhz : Nat)
    (hascending : ∀ j < more + 2, ∀ i < j, (array i).vcoKhz < (array j).vcoKhz)
    (hfirst : 0 < (array 0).vcoKhz) :
    Predicts (entries array (more + 2)) vcoKhz
      (sxPredict vcoKhz (entries array (more + 2))) where
  range := by
    rw [sxPredict_entries]
    split
    · exact .inl rfl
    · exact .inr (sxInterpolate_mem _ _ _)
  own hnot anchor hanchor hkhz := by
    obtain ⟨i, hi, rfl⟩ := mem_entries.mp hanchor
    rw [← hkhz] at hnot ⊢
    -- the loop over `i1` starts at 1, so the lowest anchor is the one that is not `a[i1]`
    rcases Nat.eq_zero_or_pos i with rfl | hpos
    · have hdiffer : sxXdom (array 0).vcoKhz ≠ sxXdom (array 1).vcoKhz := fun hsame =>
        hnot (masked_entries_iff.mpr ⟨rfl, hsame⟩)
      rw [sxPredict_lowest hascending, if_neg hdiffer]
    · exact sxPredict_other hascending hpos (Nat.le_of_lt_succ hi)
  masked hmasked next hnext := by
    obtain ⟨hkhz, hsame⟩ := masked_entries_iff.mp hmasked
    rw [getElem?_entries (by omega)] at hnext
    obtain rfl := Option.some.inj hnext
    rw [hkhz, sxPredict_lowest hascending, if_pos hsame]
  between i h hlow hhigh := by
    rw [length_entries] at h
    rw [getElem_entries] at hlow hhigh
    rw [getElem_entries, getElem_entries,
      sxPredict_inside hascending (Nat.succ_pos i) (by omega) (.inr hlow) hlow.le hhigh.le]
    have hpos : 0 < (array i).vcoKhz := by
      rcases Nat.eq_zero_or_pos i with rfl | hpast
      · exact hfirst
      · exact hfirst.trans (hascending i (by omega) 0 hpast)
    exact sxInterpolate_between hpos hlow.le hhigh.le

end More

/-- Every table that is right predicts as it has to. -/
theorem AnchorsRight.predicts (h : AnchorsRight anchors) (vcoKhz : Nat) :
    Predicts anchors vcoKhz (sxPredict vcoKhz anchors) := by
  obtain ⟨array, n, rfl⟩ : ∃ array n, entries array n = anchors :=
    ⟨_, _, entries_getD anchors ⟨0, 0⟩⟩
  have hascending := pairwise_entries.mp h.ascending
  rcases n with _ | _ | more
  · exact predicts_nil vcoKhz
  · exact predicts_lone (array 0) vcoKhz
  · have hband := h.band (array 0) (mem_entries.mpr ⟨0, Nat.succ_pos _, rfl⟩)
    have hbounds := hband.bounds
    exact predicts_more vcoKhz hascending (by omega)

/-! ## Tunes -/

/-- A candidate is in the bands in kHz as well: the lower ends are whole kHz. -/
theorem inBandKhz_of_candidate {loHz : Nat} {vco : Vco} {cand : SxCand}
    (h : sxCandidates loHz vco = some cand) : InBandKhz cand.vcoKhz := by
  have hband := (largest_of_candidate h).inBand
  have hbounds := hband.bounds
  have hkhz : cand.vcoKhz = cand.vcoHz / 1000 := Nat.mod_eq_of_lt (by omega)
  obtain ⟨hmin, hmax⟩ := hband
  refine ⟨vco, by cases vco <;> decide, ?_, ?_⟩
  · rw [hkhz]
    cases vco <;> simp only [Vco.minHz] at hmin ⊢ <;> omega
  · exact (hkhz ▸ Nat.div_mul_le_self cand.vcoHz 1000).trans hmax

/-- What belongs to one oscillator of one synthesizer is replaced, and the rest is as before. -/
theorem update_table_of_ne {α : Type} {isTx isTx' : Bool} {vco vco' : Vco}
    (tables : Bool → Vco → α) (value : α) (hne : ¬(isTx' = isTx ∧ vco' = vco)) :
    Function.update tables isTx (Function.update (tables isTx) vco value) isTx' vco' =
      tables isTx' vco' := by
  by_cases hside : isTx' = isTx
  · rw [hside, Function.update_self, Function.update_of_ne fun hvco => hne ⟨hside, hvco⟩]
  · rw [Function.update_of_ne hside]

namespace SxTuner

variable {tuner : SxTuner} {chip : SxChip} {isTx : Bool} {freqHz : Nat}

/-- Every table of anchors is right. -/
def TablesRight (tuner : SxTuner) : Prop :=
  ∀ isTx vco, AnchorsRight (tuner.anchors isTx vco)

theorem TablesRight.learn (h : tuner.TablesRight) : (tuner.learn isTx freqHz).TablesRight := by
  intro isTx' vco'
  unfold SxTuner.learn
  simp only
  split
  · next vco _ =>
      split
      · next cand hcand =>
          by_cases hsame : isTx' = isTx ∧ vco' = vco
          · obtain ⟨rfl, rfl⟩ := hsame
            simp only [Function.update_self]
            exact ((h isTx' vco').learn (inBandKhz_of_candidate hcand) _).1
          · simp only [update_table_of_ne tuner.anchors _ hsame]
            exact h isTx' vco'
      · exact h isTx' vco'
  · exact h isTx' vco'

/-- A tune learns after a full search, and only then. -/
theorem TablesRight.tuneSx (h : tuner.TablesRight) :
    (tuner.tuneSx chip isTx freqHz).1.TablesRight := by
  obtain ⟨vco, cand, csw, steps, -, -, htune⟩ | ⟨regs, mode, htune⟩ :=
    tuneSx_cases tuner chip isTx freqHz
  · rw [htune]
    exact h
  · rw [htune, fullTune]
    simp only
    split
    · have hsearched : TablesRight (SxTuner.remember { tuner with
          regs := Function.update (Function.update tuner.regs isTx regs) isTx
            (chip.fullSearch isTx freqHz (Function.update tuner.regs isTx regs isTx)).1, mode }
          isTx freqHz) := h
      exact hsearched.learn
    · exact h

/-- Over any tunes the tables stay right. -/
theorem TablesRight.tuneAll (h : tuner.TablesRight) (calls : List Call) :
    (tuner.tuneAll calls).TablesRight := by
  induction calls generalizing tuner with
  | nil => exact h
  | cons call rest ih => exact ih h.tuneSx

end SxTuner

end RfnmDriver.Lime
