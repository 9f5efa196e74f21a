import Mathlib.Data.List.MinMax

/-!
# Choosing the nearest option with a slack

A scan goes through a list of options and holds one of them. It changes to an option that is nearer
by more than a slack, and to a cheaper one that is farther by the slack at most. That preference is
not transitive, so what the scan ends with depends on the order of the options. Read
`choose_near_iff` first: for costs up to 2 it says for which options the scan ends within the slack
of the nearest in every order, and `far_of_climbs` which order it is that leads it away from there.
-/

namespace TolerantChoice

/-- What an option is judged by. -/
structure Preference (α : Type*) where
  dist : α → Int
  cost : α → Nat
  slack : Int
  slack_nonneg : 0 ≤ slack

namespace Preference

variable {α : Type*} (pref : Preference α)

/-- The scan changes from the option it holds to a new one. -/
def Beats (new held : α) : Prop :=
  pref.dist new + pref.slack < pref.dist held ∨
    pref.dist new ≤ pref.dist held + pref.slack ∧ pref.cost new < pref.cost held

instance (new held : α) : Decidable (pref.Beats new held) :=
  inferInstanceAs (Decidable (_ ∨ _))

/-- One round of the scan. -/
def keep (held new : α) : α :=
  if pref.Beats new held then new else held

/-- The scan; it starts with the first option. -/
def choose : List α → Option α
  | [] => none
  | first :: rest => some (rest.foldl pref.keep first)

/-- No option is nearer by more than the slack. -/
def Near (options : List α) (a : α) : Prop :=
  ∀ other ∈ options, pref.dist a ≤ pref.dist other + pref.slack

instance (options : List α) (a : α) : Decidable (pref.Near options a) :=
  inferInstanceAs (Decidable (∀ _ ∈ _, _))

/-- The scan may go from `held`, which is near, to `new`, which is not. -/
structure Crossing (options : List α) (held new : α) : Prop where
  held_mem : held ∈ options
  new_mem : new ∈ options
  near : pref.Near options held
  far : ¬ pref.Near options new
  cheaper : pref.cost new < pref.cost held
  slack : pref.dist new ≤ pref.dist held + pref.slack

/-- No option that is nearer than `new` by more than the slack is cheaper than `held`. -/
def Unblocked (options : List α) (held new : α) : Prop :=
  ∀ other ∈ options, pref.dist other + pref.slack < pref.dist new →
    pref.cost held ≤ pref.cost other

/-- A near option that costs nothing can be passed over: a far one that costs nothing either is
farther than each of these by the slack at most. -/
def Evades (options : List α) : Prop :=
  (∃ free ∈ options, pref.cost free = 0 ∧ pref.Near options free) →
    ∃ far ∈ options, pref.cost far = 0 ∧ ¬ pref.Near options far ∧
      ∀ free ∈ options, pref.cost free = 0 → pref.dist far ≤ pref.dist free + pref.slack

/-- In some order the scan ends with an option that is not near. -/
def Climbs (options : List α) : Prop :=
  (∃ held new, pref.Crossing options held new ∧ pref.Unblocked options held new) ∧
    pref.Evades options

variable {pref} {options rest : List α} {held new chosen : α}

/-! ## Rounds -/

theorem keep_of_beats (h : pref.Beats new held) : pref.keep held new = new :=
  if_pos h

theorem keep_of_not_beats (h : ¬ pref.Beats new held) : pref.keep held new = held :=
  if_neg h

theorem foldl_kept (h : ∀ new ∈ rest, ¬ pref.Beats new held) :
    rest.foldl pref.keep held = held := by
  induction rest with
  | nil => rfl
  | cons new rest ih =>
      rw [List.foldl_cons, keep_of_not_beats (h new (List.mem_cons_self ..))]
      exact ih fun later hlater => h later (List.mem_cons_of_mem _ hlater)

theorem foldl_mem (hheld : held ∈ options) (hrest : ∀ new ∈ rest, new ∈ options) :
    rest.foldl pref.keep held ∈ options := by
  induction rest generalizing held with
  | nil => exact hheld
  | cons new rest ih =>
      refine ih ?_ fun later hlater => hrest later (List.mem_cons_of_mem _ hlater)
      unfold keep
      split
      · exact hrest new (List.mem_cons_self ..)
      · exact hheld

/-- What the scan ends with is one of the options. -/
theorem choose_mem (h : chosen ∈ pref.choose options) : chosen ∈ options := by
  cases options with
  | nil => cases h
  | cons first rest =>
      obtain rfl := Option.some.inj h
      exact foldl_mem (List.mem_cons_self ..) fun new => List.mem_cons_of_mem _

/-- No option beats itself. -/
theorem not_beats_self (a : α) : ¬ pref.Beats a a := by
  have hslack := pref.slack_nonneg
  rintro (hnearer | ⟨-, hcheaper⟩)
  · omega
  · exact Nat.lt_irrefl _ hcheaper

/-- Copies of an option that beats the one held. -/
theorem foldl_copies (hbeats : pref.Beats new held) (hne : rest ≠ [])
    (hcopies : ∀ a ∈ rest, a = new) : rest.foldl pref.keep held = new := by
  cases rest with
  | nil => exact absurd rfl hne
  | cons first rest =>
      obtain rfl := hcopies first (List.mem_cons_self ..)
      rw [List.foldl_cons, keep_of_beats hbeats]
      refine foldl_kept fun a ha => ?_
      rw [hcopies a (List.mem_cons_of_mem _ ha)]
      exact not_beats_self _

/-- An option that is near is left only for a cheaper one. -/
theorem cheaper_of_beats_near (hnear : pref.Near options held) (hnew : new ∈ options)
    (hbeats : pref.Beats new held) :
    pref.dist new ≤ pref.dist held + pref.slack ∧ pref.cost new < pref.cost held := by
  have hdist := hnear new hnew
  obtain hnearer | hcheaper := hbeats
  · omega
  · exact hcheaper

/-- From a near option the scan ends near, or it crosses from an option that costs no more. -/
theorem foldl_near_or_crossing (hheld : held ∈ options) (hnear : pref.Near options held)
    (hrest : ∀ new ∈ rest, new ∈ options) :
    pref.Near options (rest.foldl pref.keep held) ∨
      ∃ left new, pref.Crossing options left new ∧ pref.cost left ≤ pref.cost held := by
  induction rest generalizing held with
  | nil => exact .inl hnear
  | cons new rest ih =>
      have hnew := hrest new (List.mem_cons_self ..)
      have htail : ∀ later ∈ rest, later ∈ options :=
        fun later hlater => hrest later (List.mem_cons_of_mem _ hlater)
      rw [List.foldl_cons]
      by_cases hbeats : pref.Beats new held
      · obtain ⟨hslack, hcheaper⟩ := cheaper_of_beats_near hnear hnew hbeats
        rw [keep_of_beats hbeats]
        by_cases hnewNear : pref.Near options new
        · obtain hend | ⟨left, far, hcrossing, hcost⟩ := ih hnew hnewNear htail
          · exact .inl hend
          · exact .inr ⟨left, far, hcrossing, hcost.trans hcheaper.le⟩
        · exact .inr ⟨held, new, ⟨hheld, hnew, hnear, hnewNear, hcheaper, hslack⟩, le_rfl⟩
      · rw [keep_of_not_beats hbeats]
        exact ih hheld hnear htail

/-- Once an option has been looked at, the one held is farther by the slack at most, and costs no
more if the option is near. -/
theorem choose_after (hchosen : pref.choose options = some chosen) {a : α} (ha : a ∈ options) :
    ∃ held ∈ options, pref.dist held ≤ pref.dist a + pref.slack ∧
      (pref.Near options a → pref.cost held ≤ pref.cost a) ∧
      ∃ rest : List α, (∀ new ∈ rest, new ∈ options) ∧ rest.foldl pref.keep held = chosen := by
  have hslack := pref.slack_nonneg
  cases options with
  | nil => cases hchosen
  | cons first tail =>
      obtain rfl := Option.some.inj hchosen
      obtain rfl | htail := List.mem_cons.mp ha
      · exact ⟨a, ha, by omega, fun _ => le_rfl, tail, fun _ => List.mem_cons_of_mem _, rfl⟩
      obtain ⟨before, after, rfl⟩ := List.append_of_mem htail
      have hbefore : before.foldl pref.keep first ∈ first :: (before ++ a :: after) :=
        foldl_mem (List.mem_cons_self ..) fun new hnew => by simp [hnew]
      generalize hprior : before.foldl pref.keep first = prior at hbefore
      refine ⟨pref.keep prior a, ?_, ?_, fun hnear => ?_, after, fun new hnew => by simp [hnew], ?_⟩
      · unfold keep
        split
        · exact ha
        · exact hbefore
      · unfold keep
        split
        · omega
        case isFalse hkept => exact not_lt.mp fun hlt => hkept (.inl hlt)
      · unfold keep
        split
        · exact le_rfl
        case isFalse hkept => exact not_lt.mp fun hlt => hkept (.inr ⟨hnear prior hbefore, hlt⟩)
      · rw [List.foldl_append, hprior, List.foldl_cons]

/-! ## From a far choice to a climb -/

variable (pref options) in
/-- The nearest of the options that satisfy a condition. -/
theorem exists_nearest (condition : α → Prop) [DecidablePred condition]
    (h : ∃ a ∈ options, condition a) :
    ∃ a ∈ options, condition a ∧
      ∀ other ∈ options, condition other → pref.dist a ≤ pref.dist other := by
  obtain ⟨a, ha, hcondition⟩ := h
  have hne : options.filter condition ≠ [] :=
    List.ne_nil_of_mem (List.mem_filter.mpr ⟨ha, decide_eq_true hcondition⟩)
  obtain ⟨nearest, hnearest⟩ := Option.isSome_iff_exists.mp
    (Option.isSome_iff_ne_none.mpr (mt List.argmin_eq_none.mp hne : List.argmin pref.dist _ ≠ none))
  have hmem := List.mem_filter.mp (List.argmin_mem hnearest)
  refine ⟨nearest, hmem.1, of_decide_eq_true hmem.2, fun other hother hothers => ?_⟩
  exact List.le_of_mem_argmin (List.mem_filter.mpr ⟨hother, decide_eq_true hothers⟩) hnearest

/-- The induction is on the cost of the option that is left: what blocks a crossing costs less. -/
theorem unblocked_of_crossing (hchosen : pref.choose options = some chosen)
    (hfar : ¬ pref.Near options chosen) (bound : Nat) {held new : α}
    (hcrossing : pref.Crossing options held new) (hbound : pref.cost held ≤ bound) :
    ∃ held new, pref.Crossing options held new ∧ pref.Unblocked options held new := by
  induction bound generalizing held new with
  | zero =>
      have hcheaper := hcrossing.cheaper
      omega
  | succ bound ih =>
      have hslack := hcrossing.slack
      obtain ⟨a, ha, hcheaper, hnearest⟩ := exists_nearest pref options
        (fun other => pref.cost other < pref.cost held)
        ⟨new, hcrossing.new_mem, hcrossing.cheaper⟩
      have hunblocked : ∀ {far : α}, pref.dist far ≤ pref.dist a + pref.slack →
          pref.Unblocked options held far := by
        intro far hdist other hother hnearer
        by_contra hcost
        have hle := hnearest other hother (not_le.mp hcost)
        omega
      by_cases hdist : pref.dist new ≤ pref.dist a + pref.slack
      · exact ⟨held, new, hcrossing, hunblocked hdist⟩
      -- the option that blocks is near, and after it the scan holds one that costs no more
      have hnear : pref.Near options a := fun other hother => by
        have hheld := hcrossing.near other hother
        omega
      obtain ⟨next, hnext, hnextDist, hnextCost, rest, hrest, rfl⟩ := choose_after hchosen ha
      have hcost := hnextCost hnear
      by_cases hnextNear : pref.Near options next
      · obtain hend | ⟨left, far, hother, hleft⟩ :=
          foldl_near_or_crossing hnext hnextNear hrest
        · exact absurd hend hfar
        · exact ih hother (by omega)
      · have hreached : pref.dist next ≤ pref.dist held + pref.slack := by omega
        exact ⟨held, next, ⟨hcrossing.held_mem, hnext, hcrossing.near, hnextNear,
          hcost.trans_lt hcheaper, hreached⟩, hunblocked hnextDist⟩

/-- A near option that costs nothing is not left. -/
theorem evades_of_far (hchosen : pref.choose options = some chosen)
    (hfar : ¬ pref.Near options chosen) : pref.Evades options := by
  rintro ⟨free, hfree, hcost, hnear⟩
  obtain ⟨a, ha, hacost, hnearest⟩ := exists_nearest pref options
    (fun other => pref.cost other = 0) ⟨free, hfree, hcost⟩
  have hanear : pref.Near options a := fun other hother =>
    (hnearest free hfree hcost).trans (hnear other hother)
  obtain ⟨next, hnext, hnextDist, hnextCost, rest, hrest, rfl⟩ := choose_after hchosen ha
  have hzero : pref.cost next = 0 := Nat.le_zero.mp (hacost ▸ hnextCost hanear)
  refine ⟨next, hnext, hzero, fun hnextNear => ?_, fun other hother hothers => ?_⟩
  · obtain hend | ⟨left, far, hother, hleft⟩ := foldl_near_or_crossing hnext hnextNear hrest
    · exact hfar hend
    · have hcheaper := hother.cheaper
      omega
  · have hle := hnearest other hother hothers
    omega

/-- A scan that ends far has climbed there. -/
theorem climbs_of_far (hchosen : pref.choose options = some chosen)
    (hfar : ¬ pref.Near options chosen) : pref.Climbs options := by
  have hsome : ∃ a ∈ options, True := by
    cases options with
    | nil => cases hchosen
    | cons first _ => exact ⟨first, List.mem_cons_self .., trivial⟩
  obtain ⟨a, ha, -, hnearest⟩ :=
    exists_nearest pref options (fun _ => True) hsome
  obtain ⟨next, hnext, hdist, -, rest, hrest, hend⟩ := choose_after hchosen ha
  have hnear : pref.Near options next := fun other hother => by
    have hle := hnearest other hother trivial
    omega
  obtain hchosenNear | ⟨held, new, hcrossing, -⟩ := foldl_near_or_crossing hnext hnear hrest
  · exact absurd (hend ▸ hchosenNear) hfar
  · exact ⟨unblocked_of_crossing hchosen hfar _ hcrossing le_rfl, evades_of_far hchosen hfar⟩

/-! ## From a climb to a far choice -/

/-- The options that satisfy the first test, then those that satisfy the second, and so on. Within
each group the order stays. -/
def arrange : List (α → Bool) → List α → List α
  | [], options => options
  | test :: tests, options => options.filter test ++ arrange tests (options.filter (!test ·))

theorem arrange_perm (tests : List (α → Bool)) (options : List α) :
    (arrange tests options).Perm options := by
  induction tests generalizing options with
  | nil => exact .refl _
  | cons test tests ih =>
      exact ((ih _).append_left _).trans (List.filter_append_perm test options)

/-- The options that satisfy a condition keep their order if the tests do not tell them apart. -/
theorem filter_arrange {tests : List (α → Bool)} {condition : α → Bool}
    (h : ∀ test ∈ tests, ∀ a b, condition a → condition b → test a = test b) (options : List α) :
    (arrange tests options).filter condition = options.filter condition := by
  induction tests generalizing options with
  | nil => rfl
  | cons test tests ih =>
      rw [arrange, List.filter_append,
        ih fun later hlater => h later (List.mem_cons_of_mem _ hlater)]
      induction options with
      | nil => rfl
      | cons a options ihoptions =>
          have hsame := h test (List.mem_cons_self ..) a
          cases hcondition : condition a <;> cases htest : test a
          · simpa [htest, hcondition] using ihoptions
          · simpa [htest, hcondition] using ihoptions
          · -- no option that satisfies the condition passes the test
            have hnone : ∀ b ∈ options, ¬ (condition b = true ∧ test b = true) :=
              fun b _ hb => by simp [← hsame b hcondition hb.1, htest] at hb
            have hempty : (options.filter test).filter condition = [] := by
              rw [List.filter_filter]
              exact List.filter_eq_nil_iff.mpr fun b hb => by simpa using hnone b hb
            rw [hempty, List.nil_append] at ihoptions
            simp [htest, hcondition, hempty, ihoptions]
          · simpa [htest, hcondition] using ihoptions

/-- Records may be arranged by a key, or their keys. -/
theorem filterMap_arrange {β : Type*} {key : β → α} {view : β → Option α}
    (hview : ∀ record a, view record = some a → key record = a) (tests : List (α → Bool))
    (records : List β) :
    (arrange (tests.map fun test record => test (key record)) records).filterMap view =
      arrange tests (records.filterMap view) := by
  have hfilter : ∀ (test : α → Bool) (records : List β),
      (records.filter fun record => test (key record)).filterMap view =
        (records.filterMap view).filter test := by
    intro test records
    induction records with
    | nil => rfl
    | cons record records ih =>
        cases hrecord : view record with
        | none => cases htest : test (key record) <;> simp [htest, hrecord, ih]
        | some a =>
            obtain rfl := hview record a hrecord
            cases htest : test (key record) <;> simp [htest, hrecord, ih]
  induction tests generalizing records with
  | nil => rfl
  | cons test tests ih =>
      rw [List.map_cons, arrange, arrange, List.filterMap_append, ih, hfilter test,
        hfilter fun a => !test a]

/-- A scan that starts with copies of one option. -/
theorem choose_copies {copies : List α} (hne : copies ≠ []) (hcopies : ∀ a ∈ copies, a = held) :
    pref.choose (copies ++ rest) = some (rest.foldl pref.keep held) := by
  cases copies with
  | nil => exact absurd rfl hne
  | cons first copies =>
      obtain rfl := hcopies first (List.mem_cons_self ..)
      have hkept : copies.foldl pref.keep first = first := foldl_kept fun a ha => by
        rw [hcopies a (List.mem_cons_of_mem _ ha)]
        exact not_beats_self _
      show some ((copies ++ rest).foldl pref.keep first) = _
      rw [List.foldl_append, hkept]

variable {last : α} {paid atLast free : List α}

variable (last) in
/-- Whatever the scan does after the crossing, it ends with an option that is not near. -/
theorem far_after_crossing (hcrossing : pref.Crossing options held new)
    (hcost : pref.cost held ≤ 2)
    (hlast : (∃ a ∈ options, pref.cost a = 0 ∧ pref.Near options a) →
      0 < pref.cost new → last ∈ atLast ∧ ¬ pref.Near options last ∧
        ∀ a ∈ options, pref.cost a = 0 → pref.dist last ≤ pref.dist a + pref.slack)
    (hpaid : ∀ a ∈ paid, ¬ pref.dist a + pref.slack < pref.dist new ∧ 0 < pref.cost a)
    (hatLast : ∀ a ∈ atLast, a = last)
    (hfree : ∀ a ∈ atLast ++ free, a ∈ options ∧
      ¬ pref.dist a + pref.slack < pref.dist new ∧ pref.cost a = 0) :
    ¬ pref.Near options ((paid ++ (atLast ++ free)).foldl pref.keep new) := by
  have hcheaper := hcrossing.cheaper
  have hpaidKept : paid.foldl pref.keep new = new := foldl_kept fun a ha => by
    obtain ⟨hdist, hpositive⟩ := hpaid a ha
    rintro (hnearer | ⟨-, hless⟩) <;> omega
  rw [List.foldl_append, hpaidKept]
  obtain hnone | hsome := Nat.eq_zero_or_pos (pref.cost new)
  · -- nothing is cheaper than a far option that is free
    have hkept : (atLast ++ free).foldl pref.keep new = new := foldl_kept fun a ha => by
      obtain ⟨-, hdist, -⟩ := hfree a ha
      rintro (hnearer | ⟨-, hless⟩) <;> omega
    rw [hkept]
    exact hcrossing.far
  -- `new` costs something, so a free option may yet replace it
  by_cases hnearFree : ∃ a ∈ options, pref.cost a = 0 ∧ pref.Near options a
  · obtain ⟨hmem, hfar, hevades⟩ := hlast hnearFree hsome
    obtain ⟨-, -, hzero⟩ := hfree last (List.mem_append_left _ hmem)
    obtain ⟨a, ha, hacost, hanear⟩ := hnearFree
    obtain ⟨other, hother, hdist⟩ : ∃ other ∈ options,
        pref.dist other + pref.slack < pref.dist new := by
      have hnewFar := hcrossing.far
      unfold Near at hnewFar
      push Not at hnewFar
      exact hnewFar
    have hbeats : pref.Beats last new := by
      have hlastDist := hevades a ha hacost
      have haDist := hanear other hother
      exact .inr ⟨by omega, by omega⟩
    have hkept : free.foldl pref.keep last = last := foldl_kept fun a ha => by
      obtain ⟨haMem, -, haCost⟩ := hfree a (List.mem_append_right _ ha)
      have haDist := hevades a haMem haCost
      rintro (hnearer | ⟨-, hless⟩) <;> omega
    rw [List.foldl_append, foldl_copies hbeats (List.ne_nil_of_mem hmem) hatLast, hkept]
    exact hfar
  · -- every option that is left is far
    have hend : (atLast ++ free).foldl pref.keep new ∈ new :: (atLast ++ free) :=
      foldl_mem (List.mem_cons_self ..) fun a => List.mem_cons_of_mem _
    obtain hnew | hmem := List.mem_cons.mp hend
    · rw [hnew]
      exact hcrossing.far
    · obtain ⟨haMem, -, haCost⟩ := hfree _ hmem
      exact fun hnear => hnearFree ⟨_, haMem, haCost, hnear⟩

section Ascent

variable [DecidableEq α]

variable (pref) in
/-- The order that leads a scan away: the option it leaves; those that would draw it back; the far
option it goes to; what else is not free; a far option that is free; and the others. -/
def ascent (held new last : α) : List (α → Bool) :=
  [fun a => a = held, fun a => pref.dist a + pref.slack < pref.dist new, fun a => a = new,
    fun a => 0 < pref.cost a, fun a => a = last]

variable (pref) in
/-- The groups of that order. -/
theorem arrange_ascent (held new last : α) (options : List α) :
    ∃ atHeld drawing atNew paid atLast free : List α,
      arrange (pref.ascent held new last) options =
        atHeld ++ (drawing ++ (atNew ++ (paid ++ (atLast ++ free)))) ∧
      (∀ a, a ∈ atHeld ↔ a ∈ options ∧ a = held) ∧
      (∀ a ∈ drawing, a ∈ options ∧ pref.dist a + pref.slack < pref.dist new) ∧
      (∀ a, a ∈ atNew ↔ a ∈ options ∧ a ≠ held ∧ ¬ pref.dist a + pref.slack < pref.dist new ∧
        a = new) ∧
      (∀ a ∈ paid, a ∈ options ∧ ¬ pref.dist a + pref.slack < pref.dist new ∧ 0 < pref.cost a) ∧
      (∀ a, a ∈ atLast ↔ a ∈ options ∧ a ≠ held ∧ ¬ pref.dist a + pref.slack < pref.dist new ∧
        a ≠ new ∧ pref.cost a = 0 ∧ a = last) ∧
      ∀ a ∈ free, a ∈ options ∧ ¬ pref.dist a + pref.slack < pref.dist new ∧ pref.cost a = 0 := by
  refine ⟨_, _, _, _, _, _, rfl, fun a => ?_, fun a => ?_, fun a => ?_, fun a => ?_, fun a => ?_,
    fun a => ?_⟩
  all_goals
    simp only [arrange, List.mem_filter, decide_eq_true_eq, Bool.not_eq_true',
      decide_eq_false_iff_not]
  · exact fun h => ⟨h.1.1, h.2⟩
  · tauto
  · exact fun h => ⟨h.1.1.1.1, h.1.1.2, h.2⟩
  · rw [Nat.not_lt, Nat.le_zero]
    tauto
  · rw [Nat.not_lt, Nat.le_zero]
    exact fun h => ⟨h.1.1.1.1.1, h.1.1.1.2, h.1.2⟩

/-- Options that climb can be put in an order in which the scan ends far. -/
theorem far_of_climbs (hcost : ∀ a ∈ options, pref.cost a ≤ 2) (h : pref.Climbs options) :
    ∃ held new last, ∃ chosen ∈ pref.choose (arrange (pref.ascent held new last) options),
      ¬ pref.Near options chosen := by
  obtain ⟨⟨held, new, hcrossing, hunblocked⟩, hevades⟩ := h
  have hslack := pref.slack_nonneg
  have hcheaper := hcrossing.cheaper
  obtain ⟨last, hlast⟩ : ∃ last : α, (∃ a ∈ options, pref.cost a = 0 ∧ pref.Near options a) →
      last ∈ options ∧ pref.cost last = 0 ∧ ¬ pref.Near options last ∧
        ∀ a ∈ options, pref.cost a = 0 → pref.dist last ≤ pref.dist a + pref.slack := by
    by_cases hfree : ∃ a ∈ options, pref.cost a = 0 ∧ pref.Near options a
    · obtain ⟨last, hlast⟩ := hevades hfree
      exact ⟨last, fun _ => hlast⟩
    · exact ⟨new, fun hother => absurd hother hfree⟩
  -- the scan goes from `held` to `new` past those that would draw it back, and then to `last`
  obtain ⟨atHeld, drawing, atNew, paid, atLast, free, hshape, hatHeld, hdrawing, hatNew, hpaid,
    hatLast, hfree⟩ := arrange_ascent pref held new last options
  have hheld : atHeld ≠ [] :=
    List.ne_nil_of_mem ((hatHeld held).mpr ⟨hcrossing.held_mem, rfl⟩)
  have hnewHeld : new ≠ held := fun hsame => by
    rw [hsame] at hcheaper
    exact Nat.lt_irrefl _ hcheaper
  have hnew : atNew ≠ [] := List.ne_nil_of_mem
    ((hatNew new).mpr ⟨hcrossing.new_mem, hnewHeld, by omega, rfl⟩)
  have hdrawingKept : drawing.foldl pref.keep held = held := foldl_kept fun a ha => by
    obtain ⟨haMem, haDist⟩ := hdrawing a ha
    have hblocked := hunblocked a haMem haDist
    have hnear := hcrossing.near a haMem
    rintro (hnearer | ⟨-, hless⟩) <;> omega
  have hreached : atNew.foldl pref.keep held = new :=
    foldl_copies (.inr ⟨hcrossing.slack, hcrossing.cheaper⟩) hnew
      fun a ha => ((hatNew a).mp ha).2.2.2
  refine ⟨held, new, last, (paid ++ (atLast ++ free)).foldl pref.keep new, ?_,
    far_after_crossing last hcrossing (hcost held hcrossing.held_mem) ?_ ?_ ?_ ?_⟩
  · rw [hshape, choose_copies hheld fun a ha => ((hatHeld a).mp ha).2, List.foldl_append,
      hdrawingKept, List.foldl_append, hreached]
    rfl
  · intro hnearFree hpositive
    obtain ⟨hmem, hzero, hfar, hdist⟩ := hlast hnearFree
    refine ⟨(hatLast last).mpr ⟨hmem, ?_, fun hnearer => ?_, ?_, hzero, rfl⟩, hfar, hdist⟩
    · rintro rfl
      omega
    · have hblocked := hunblocked last hmem hnearer
      omega
    · rintro rfl
      omega
  · exact fun a ha => (hpaid a ha).2
  · exact fun a ha => ((hatLast a).mp ha).2.2.2.2.2
  · intro a ha
    obtain hleft | hright := List.mem_append.mp ha
    · obtain ⟨hmem, -, hdist, -, hzero, -⟩ := (hatLast a).mp hleft
      exact ⟨hmem, hdist, hzero⟩
    · exact hfree a hright

end Ascent

/-! ## Any order -/

variable {other : List α}

theorem near_congr (h : ∀ a, a ∈ options ↔ a ∈ other) {a : α} :
    pref.Near options a ↔ pref.Near other a :=
  forall_congr' fun b => imp_congr_left (h b)

theorem Climbs.congr (hclimbs : pref.Climbs options) (h : ∀ a, a ∈ options ↔ a ∈ other) :
    pref.Climbs other := by
  obtain ⟨⟨held, new, hcrossing, hunblocked⟩, hevades⟩ := hclimbs
  refine ⟨⟨held, new, ⟨(h held).mp hcrossing.held_mem, (h new).mp hcrossing.new_mem,
    (near_congr h).mp hcrossing.near, fun hnear => hcrossing.far ((near_congr h).mpr hnear),
    hcrossing.cheaper, hcrossing.slack⟩, fun a ha => hunblocked a ((h a).mpr ha)⟩, ?_⟩
  rintro ⟨free, hfree, hcost, hnear⟩
  obtain ⟨far, hfar, hfarCost, hfarNear, hdist⟩ :=
    hevades ⟨free, (h free).mpr hfree, hcost, (near_congr h).mpr hnear⟩
  exact ⟨far, (h far).mp hfar, hfarCost, fun hother => hfarNear ((near_congr h).mpr hother),
    fun a ha => hdist a ((h a).mpr ha)⟩

/-- Options of cost 2 at most: in every order the scan ends near exactly if they do not climb. -/
theorem choose_near_iff [DecidableEq α] (hcost : ∀ a ∈ options, pref.cost a ≤ 2) :
    (∀ order : List α, order.Perm options → ∀ chosen ∈ pref.choose order,
      pref.Near options chosen) ↔ ¬ pref.Climbs options := by
  constructor
  · intro h hclimbs
    obtain ⟨held, new, last, chosen, hchosen, hfar⟩ := far_of_climbs hcost hclimbs
    exact hfar (h _ (arrange_perm _ _) chosen hchosen)
  · intro h order hperm chosen hchosen
    by_contra hfar
    refine h ((climbs_of_far hchosen fun hnear => hfar ?_).congr fun a => hperm.mem_iff)
    exact (near_congr fun a => hperm.mem_iff).mp hnear

end Preference

end TolerantChoice
