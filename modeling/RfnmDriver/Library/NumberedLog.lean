import Mathlib.Data.List.Chain
import Mathlib.Logic.Function.Basic

/-!
# Logs whose entries are numbered

A log grows at its end, and each new entry stands in a relation to the one before it, or to the
start of the log (`Linked`). Where that relation numbers the entries one after the other, the
numbers alone tell which entries are neighbours: two entries picked from the log in any order, with
gaps, are related as soon as their numbers follow each other (`Linked.of_succ`).
-/

namespace NumberedLog

variable {Entry : Type*} {number : Entry → Nat} {link : Option Entry → Entry → Prop}
  {before : Option Entry} {log : List Entry} {first second entry : Entry}

/-- The number of the last entry; a log without entries is at 0. -/
def lastNumber (number : Entry → Nat) (last : Option Entry) : Nat :=
  last.elim 0 number

@[simp]
theorem lastNumber_none : lastNumber number none = 0 := rfl

@[simp]
theorem lastNumber_some : lastNumber number (some entry) = number entry := rfl

/-- Every entry is linked to the one before it, and the first one to `before`. -/
def Linked (link : Option Entry → Entry → Prop) : Option Entry → List Entry → Prop
  | _, [] => True
  | before, entry :: rest => link before entry ∧ Linked link (some entry) rest

/-- The link relation numbers the entries one after the other. -/
def Numbers (number : Entry → Nat) (link : Option Entry → Entry → Prop) : Prop :=
  ∀ before entry, link before entry → number entry = lastNumber number before + 1

/-- A log grows by an entry that is linked to its last one. -/
theorem Linked.concat (h : Linked link before log)
    (hentry : link (log.getLast?.or before) entry) : Linked link before (log ++ [entry]) := by
  induction log generalizing before with
  | nil => exact ⟨hentry, trivial⟩
  | cons head rest ih =>
      refine ⟨h.1, ih h.2 ?_⟩
      cases rest with
      | nil => exact hentry
      | cons next tail =>
          rw [List.getLast?_cons_cons] at hentry
          rw [List.getLast?_cons] at hentry ⊢
          exact hentry

/-- The entries of a log in order are linked each to the next. -/
theorem Linked.isChain (h : Linked link before log) :
    log.IsChain fun first second => link (some first) second := by
  induction log generalizing before with
  | nil => exact List.isChain_nil
  | cons head rest ih =>
      refine List.isChain_cons.mpr ⟨fun next hnext => ?_, ih h.2⟩
      cases rest with
      | nil => cases hnext
      | cons second tail =>
          obtain rfl := Option.some.inj hnext
          exact h.2.1

/-- Numbers only go up from the start of the log. -/
theorem Linked.lt_number (hnumbers : Numbers number link) (h : Linked link before log)
    (hentry : entry ∈ log) : lastNumber number before < number entry := by
  induction log generalizing before with
  | nil => cases hentry
  | cons head rest ih =>
      have hhead := hnumbers before head h.1
      rcases List.mem_cons.mp hentry with rfl | hrest
      · omega
      · have hlater := ih h.2 hrest
        rw [lastNumber_some] at hlater
        omega

/-- The entry with the first number is linked to the start of the log. -/
theorem Linked.of_next (hnumbers : Numbers number link) (h : Linked link before log)
    (hentry : entry ∈ log) (hnext : number entry = lastNumber number before + 1) :
    link before entry := by
  cases log with
  | nil => cases hentry
  | cons head rest =>
      rcases List.mem_cons.mp hentry with rfl | hrest
      · exact h.1
      · -- an entry behind the head has a higher number
        have hhead := hnumbers before head h.1
        have hlater := h.2.lt_number hnumbers hrest
        rw [lastNumber_some] at hlater
        omega

/-- Entries whose numbers follow each other are linked. -/
theorem Linked.of_succ (hnumbers : Numbers number link) (h : Linked link before log)
    (hfirst : first ∈ log) (hsecond : second ∈ log) (hsucc : number second = number first + 1) :
    link (some first) second := by
  induction log generalizing before with
  | nil => cases hfirst
  | cons head rest ih =>
      rcases List.mem_cons.mp hfirst with hhere | hbehind
      · rw [hhere]
        rcases List.mem_cons.mp hsecond with hsame | hsecond
        · rw [hhere, hsame] at hsucc
          omega
        · exact h.2.of_next hnumbers hsecond (hhere ▸ hsucc)
      · rcases List.mem_cons.mp hsecond with hsame | hsecond
        · have hhigher := h.2.lt_number hnumbers hbehind
          rw [hsame] at hsucc
          rw [lastNumber_some] at hhigher
          omega
        · exact ih h.2 hbehind hsecond

/-! ## One history in several logs -/

section Logs

variable {Key : Type*} [DecidableEq Key] {key : Key} {keys : List Key} {logs : Key → List Entry}
  {history : List Entry}

/-- The logs together grow by what one of them grows by. -/
theorem flatMap_update_perm (hkeys : keys.Nodup) (hkey : key ∈ keys) :
    (keys.flatMap (Function.update logs key (logs key ++ [entry]))).Perm
      (keys.flatMap logs ++ [entry]) := by
  induction keys with
  | nil => cases hkey
  | cons head rest ih =>
      obtain ⟨hhead, hrest⟩ := List.nodup_cons.mp hkeys
      rw [List.flatMap_cons, List.flatMap_cons]
      by_cases hsame : head = key
      · subst hsame
        have hothers : rest.flatMap (Function.update logs head (logs head ++ [entry])) =
            rest.flatMap logs := by
          refine List.flatMap_congr fun other hother => ?_
          exact Function.update_of_ne (ne_of_mem_of_not_mem hother hhead) ..
        rw [hothers, Function.update_self, List.append_assoc, List.append_assoc]
        exact List.perm_append_comm.append_left (logs head)
      · have hkey : key ∈ rest := (List.mem_cons.mp hkey).resolve_left (Ne.symm hsame)
        rw [Function.update_of_ne hsame, List.append_assoc]
        exact (ih hrest hkey).append_left (logs head)

/-- A history and the logs it is kept in grow by the same entry. -/
theorem perm_concat (hkeys : keys.Nodup) (hkey : key ∈ keys)
    (h : history.Perm (keys.flatMap logs)) :
    (history ++ [entry]).Perm
      (keys.flatMap (Function.update logs key (logs key ++ [entry]))) :=
  (h.append_right [entry]).trans (flatMap_update_perm hkeys hkey).symm

end Logs

end NumberedLog
