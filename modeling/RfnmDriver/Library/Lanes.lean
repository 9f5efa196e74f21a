import Mathlib.Algebra.BigOperators.Intervals
import Mathlib.Algebra.Order.BigOperators.Group.Finset
import Mathlib.Algebra.Order.Group.Abs
import Mathlib.Algebra.Order.Group.Int

/-!
# Vector registers, lane by lane

A register is its lanes by number, a memory its units by address; an instruction on so many lanes
reads and writes the lanes below that number. The structured loads and stores interleave registers
over consecutive units. A sum that a vector unit keeps in a lane is the residue of the sum over the
integers (`BitVec.ofInt`), and is that sum as long as it fits: `toInt_ofInt_of_bound`.
-/

namespace Lanes

variable {w n : Nat}

/-- A register: its lanes by number. -/
abbrev Reg (w : Nat) := Nat → BitVec w

/-- A memory: its units by address. -/
abbrev Mem (w : Nat) := Nat → BitVec w

/-! ## Structured loads and stores -/

/-- Register `reg` of an `ld1` … `ld4` of structures of `count` units from `base` on. -/
def ld (count : Nat) (mem : Mem w) (base reg : Nat) : Reg w := fun lane =>
  mem (base + count * lane + reg)

/-- `st1` … `st4` of the first `lanes` lanes: the registers interleaved from `base` on. -/
def st (lanes : Nat) (regs : List (Reg w)) (mem : Mem w) (base : Nat) : Mem w := fun addr =>
  if base ≤ addr ∧ addr < base + regs.length * lanes then
    regs.getD ((addr - base) % regs.length) (fun _ => 0) ((addr - base) / regs.length)
  else mem addr

/-- A store to a whole number of structures: an address names its register and its lane. -/
theorem st_mul {lanes first : Nat} {regs : List (Reg w)} (mem : Mem w) (hregs : regs ≠ [])
    (addr : Nat) :
    st lanes regs mem (regs.length * first) addr =
      if first ≤ addr / regs.length ∧ addr / regs.length < first + lanes then
        regs.getD (addr % regs.length) (fun _ => 0) (addr / regs.length - first)
      else mem addr := by
  have hpos : 0 < regs.length := List.length_pos_iff.mpr hregs
  have hlow : regs.length * first ≤ addr ↔ first ≤ addr / regs.length := by
    rw [Nat.le_div_iff_mul_le hpos, Nat.mul_comm]
  have hhigh : addr < regs.length * first + regs.length * lanes ↔
      addr / regs.length < first + lanes := by
    rw [Nat.div_lt_iff_lt_mul hpos, ← Nat.mul_add, Nat.mul_comm]
  by_cases hin : first ≤ addr / regs.length ∧ addr / regs.length < first + lanes
  · obtain ⟨behind, hbehind⟩ := Nat.exists_eq_add_of_le (hlow.mpr hin.1)
    have hmod : addr % regs.length = behind % regs.length := by
      rw [hbehind, Nat.mul_add_mod]
    have hdiv : addr / regs.length = first + behind / regs.length := by
      rw [hbehind, Nat.mul_add_div hpos]
    unfold st
    rw [if_pos ⟨hlow.mpr hin.1, hhigh.mpr hin.2⟩, if_pos hin, hmod, hdiv, hbehind,
      Nat.add_sub_cancel_left, Nat.add_sub_cancel_left]
  · unfold st
    rw [if_neg hin, if_neg fun h => hin ⟨hlow.mp h.1, hhigh.mp h.2⟩]

/-- A store of registers whose lanes are units of structures by number. -/
theorem st_structures {lanes first : Nat} {regs : List (Reg w)} (mem : Mem w) (hregs : regs ≠ [])
    {unit : Nat → Nat → BitVec w}
    (h : ∀ lane < lanes, ∀ reg, regs.getD reg (fun _ => 0) lane = unit (first + lane) reg)
    (addr : Nat) :
    st lanes regs mem (regs.length * first) addr =
      if first ≤ addr / regs.length ∧ addr / regs.length < first + lanes then
        unit (addr / regs.length) (addr % regs.length)
      else mem addr := by
  rw [st_mul mem hregs]
  refine if_ctx_congr Iff.rfl (fun hin => ?_) fun _ => rfl
  rw [h _ (by omega), Nat.add_sub_cancel' hin.1]

/-! ## Shifts and inserts -/

/-- `shl`. -/
def shl (v : Reg w) (n : Nat) : Reg w := fun lane => v lane <<< n

/-- `ushr`. -/
def ushr (v : Reg w) (n : Nat) : Reg w := fun lane => v lane >>> n

/-- `sli`: shift left, and keep the lower bits of the destination. -/
def sli (dest v : Reg w) (n : Nat) : Reg w := fun lane =>
  dest lane &&& BitVec.allOnes w >>> (w - n) ||| v lane <<< n

/-- `sri`: shift right, and keep the upper bits of the destination. -/
def sri (dest v : Reg w) (n : Nat) : Reg w := fun lane =>
  dest lane &&& BitVec.allOnes w <<< (w - n) ||| v lane >>> n

/-- `orr`. -/
def orr (v v' : Reg w) : Reg w := fun lane => v lane ||| v' lane

/-- `movi`. -/
def movi (imm : BitVec w) : Reg w := fun _ => imm

/-- `bsl`: the bits of the first where the mask is set, of the second elsewhere. -/
def bsl (mask v v' : Reg w) : Reg w := fun lane =>
  mask lane &&& v lane ||| ~~~mask lane &&& v' lane

/-! ## Loops -/

/-- A loop whose test is at its end; the fuel bounds its rounds. -/
def doWhile {State : Type*} (body : State → State) (again : State → Bool) :
    Nat → State → Option State
  | 0, _ => none
  | fuel + 1, state =>
      if again (body state) then doWhile body again fuel (body state) else some (body state)

/-- A loop whose test fails after round `rounds + 1` for the first time ends there. -/
theorem doWhile_eq {State : Type*} {body : State → State} {again : State → Bool} {rounds : Nat}
    {state : State} (hagain : ∀ round < rounds, again (body^[round + 1] state) = true)
    (hend : again (body^[rounds + 1] state) = false) {fuel : Nat} (hfuel : rounds < fuel) :
    doWhile body again fuel state = some (body^[rounds + 1] state) := by
  induction rounds generalizing state fuel with
  | zero =>
      obtain ⟨fuel, rfl⟩ := Nat.exists_eq_add_of_lt hfuel
      have hstop : again (body state) = false := hend
      rw [Nat.zero_add]
      simp [doWhile, hstop]
  | succ rounds ih =>
      obtain ⟨fuel, rfl⟩ : ∃ rest, fuel = rest + 1 := ⟨fuel - 1, by omega⟩
      have hfirst : again (body state) = true := hagain 0 (Nat.succ_pos _)
      show (if again (body state) then doWhile body again fuel (body state)
        else some (body state)) = _
      rw [if_pos hfirst]
      exact ih (fun round hround => hagain (round + 1) (by omega)) hend (by omega)

/-- A loop whose test has not failed yet is still on its way. -/
theorem doWhile_eq_none {State : Type*} {body : State → State} {again : State → Bool}
    {state : State} {fuel : Nat}
    (hagain : ∀ round < fuel, again (body^[round + 1] state) = true) :
    doWhile body again fuel state = none := by
  induction fuel generalizing state with
  | zero => rfl
  | succ fuel ih =>
    have hfirst : again (body state) = true := hagain 0 (Nat.succ_pos _)
    unfold doWhile
    rw [if_pos hfirst]
    exact ih fun round hround => hagain (round + 1) (by omega)

/-- It comes back within the rounds that include the first at which the test fails. -/
theorem doWhile_isSome_iff {State : Type*} {body : State → State} {again : State → Bool}
    {rounds : Nat} {state : State}
    (hagain : ∀ round < rounds, again (body^[round + 1] state) = true)
    (hend : again (body^[rounds + 1] state) = false) (fuel : Nat) :
    (doWhile body again fuel state).isSome ↔ rounds < fuel := by
  constructor
  · intro hsome
    by_contra hfew
    rw [doWhile_eq_none fun round hround => hagain round (by omega)] at hsome
    cases hsome
  · intro hfuel
    rw [doWhile_eq hagain hend hfuel]
    rfl

/-- A register that goes down by a step each round has done so in every round. -/
theorem iterate_count {State : Type*} {body : State → State} (count : State → BitVec w)
    {step : BitVec w} (hbody : ∀ state, count (body state) = count state - step) (state : State)
    (rounds : Nat) :
    count (body^[rounds] state) = count state - BitVec.ofNat w rounds * step := by
  induction rounds with
  | zero => rw [Function.iterate_zero_apply, BitVec.zero_mul, BitVec.sub_zero]
  | succ rounds ih =>
      rw [Function.iterate_succ_apply', hbody, ih, BitVec.sub_sub, BitVec.ofNat_add, BitVec.add_mul,
        BitVec.one_mul]

/-- A loop that counts a register down to zero, from a positive multiple of its step, ends after as
many rounds. -/
theorem doWhile_count {State : Type*} {body : State → State} (count : State → BitVec w)
    {step : Nat} (hbody : ∀ state, count (body state) = count state - BitVec.ofNat w step)
    {state : State} {rounds : Nat} (hstart : (count state).toNat = step * rounds)
    (hstep : 0 < step) (hrounds : 0 < rounds) {fuel : Nat} (hfuel : rounds ≤ fuel) :
    doWhile body (fun state => count state != 0) fuel state = some (body^[rounds] state) := by
  obtain ⟨others, rfl⟩ : ∃ others, rounds = others + 1 := ⟨rounds - 1, by omega⟩
  have hlt := (count state).isLt
  have hcount : ∀ done ≤ others + 1,
      (count (body^[done] state)).toNat = step * (others + 1 - done) := by
    intro done hdone
    obtain ⟨left, hleft⟩ := Nat.exists_eq_add_of_le hdone
    have hrest : done * step ≤ (count state).toNat := by
      rw [hstart, hleft, Nat.mul_add, Nat.mul_comm]
      exact Nat.le_add_right _ _
    have hoff : BitVec.ofNat w done * BitVec.ofNat w step = BitVec.ofNat w (done * step) := by
      rw [BitVec.ofNat_mul]
    rw [iterate_count count hbody, hoff, BitVec.toNat_sub_of_le, BitVec.toNat_ofNat,
      Nat.mod_eq_of_lt (by omega), hstart, hleft, Nat.add_sub_cancel_left, Nat.mul_add,
      Nat.mul_comm step done, Nat.add_sub_cancel_left]
    rw [BitVec.le_def, BitVec.toNat_ofNat, Nat.mod_eq_of_lt (by omega)]
    exact hrest
  refine doWhile_eq (fun round hround => ?_) ?_ hfuel
  · have hmore := hcount (round + 1) (by omega)
    rw [bne_iff_ne]
    intro hzero
    rw [hzero] at hmore
    have hpos := Nat.mul_pos hstep (show 0 < others + 1 - (round + 1) by omega)
    simp at hmore
    omega
  · have hdone := hcount (others + 1) le_rfl
    rw [Nat.sub_self, Nat.mul_zero] at hdone
    rw [bne_eq_false_iff_eq]
    exact BitVec.eq_of_toNat_eq (by simpa using hdone)

/-- A loop that ends has made some number of rounds, one at least. -/
theorem exists_rounds_of_doWhile {State : Type*} {body : State → State} {again : State → Bool}
    {fuel : Nat} {state final : State} (h : doWhile body again fuel state = some final) :
    ∃ rounds, final = body^[rounds + 1] state := by
  induction fuel generalizing state with
  | zero => cases h
  | succ fuel ih =>
      have hstep : (if again (body state) then doWhile body again fuel (body state)
        else some (body state)) = some final := h
      split at hstep
      · obtain ⟨rounds, hfinal⟩ := ih hstep
        exact ⟨rounds + 1, hfinal⟩
      · exact ⟨0, (Option.some.inj hstep).symm⟩

/-! ## Lane sums -/

/-- A lane that is wide enough for a value holds it. -/
theorem toInt_ofInt_of_bound {value : Int} {bound : Nat} (hw : 0 < w) (hvalue : |value| ≤ bound)
    (hbound : bound < 2 ^ (w - 1)) : (BitVec.ofInt w value).toInt = value := by
  obtain ⟨hlow, hhigh⟩ := abs_le.mp hvalue
  have hfit : (bound : Int) < 2 ^ (w - 1) := by exact_mod_cast hbound
  exact BitVec.toInt_ofInt_eq_self hw (by omega) (by omega)

/-- A widened lane is the residue of the value it had. -/
theorem signExtend_eq_ofInt {v : Nat} (x : BitVec w) (h : w ≤ v) :
    x.signExtend v = BitVec.ofInt v x.toInt := by
  rw [← BitVec.toInt_signExtend_of_le h, BitVec.ofInt_toInt]

/-- A sum of so many bounded terms is bounded. -/
theorem abs_sum_range_le {term : Nat → Int} {bound : Nat} (h : ∀ k < n, |term k| ≤ bound) :
    |∑ k ∈ Finset.range n, term k| ≤ (n * bound : Nat) := by
  calc |∑ k ∈ Finset.range n, term k|
      ≤ ∑ k ∈ Finset.range n, |term k| := Finset.abs_sum_le_sum_abs _ _
    _ ≤ ∑ _k ∈ Finset.range n, (bound : Int) :=
        Finset.sum_le_sum fun k hk => h k (Finset.mem_range.mp hk)
    _ = (n * bound : Nat) := by simp

end Lanes
