import Mathlib.Data.List.Perm.Subperm
import RfnmDriver.Library.ListFamily

/-!
# Accounting for the elements of a pool

A pool of elements on intrusive lists, where an element may also be off the lists, in the hands of
some context. `Accounts` says that the lists are well linked and that lists and hands together
hold a given universe of elements, each once. Every list operation keeps the account when the
hands change accordingly: `take` unlinks into a hand, `give` links from a hand, `move` and
`moveSnapshot` go from list to list, `trade` changes hands only.
-/

namespace KernelList

open Links

variable {Head Element : Type*} [Fintype Head] [DecidableEq Element]

/-- The lists are represented, and lists and hands hold each element of the universe as often as
it occurs there. -/
structure Accounts (links : Links (Head ⊕ Element)) (contents : Head → List Element)
    (hands everything : List Element) : Prop where
  represents : links.Represents contents
  count : ∀ element, total contents element + hands.count element = everything.count element

variable {links : Links (Head ⊕ Element)} {contents : Head → List Element}
  {hands hands' everything everything' : List Element} {head target : Head} {element : Element}

/-- What one hand holds more than another, it holds. -/
theorem mem_of_count_add (h : ∀ other, hands.count other =
    hands'.count other + if element == other then 1 else 0) : element ∈ hands := by
  have hself := h element
  rw [beq_self_eq_true, if_pos rfl] at hself
  exact List.count_pos_iff.mp (by omega)

namespace Accounts

/-- An account by holders: the lists and the hands together are a permutation of the universe. -/
theorem iff_perm {holders : List Element}
    (hholders : ∀ element, holders.count element = total contents element + hands.count element) :
    links.Represents contents ∧ holders.Perm everything ↔
      Accounts links contents hands everything := by
  constructor
  · intro ⟨hlinks, hperm⟩
    exact ⟨hlinks, fun element => by rw [← hholders, hperm.count_eq]⟩
  · intro ⟨hlinks, hcount⟩
    exact ⟨hlinks, List.perm_iff_count.mpr fun element => by rw [hholders, hcount]⟩

/-- An element in a hand is on no list. -/
theorem not_mem_of_hand (h : Accounts links contents hands everything) (hnodup : everything.Nodup)
    (hmem : element ∈ hands) (head : Head) : element ∉ contents head := by
  have hcount := h.count element
  have honce := List.nodup_iff_count_le_one.mp hnodup element
  have hle := count_le_total contents head element
  have hhand := List.count_pos_iff.mpr hmem
  rw [← List.count_eq_zero]
  omega

/-- An element outside the universe is on no list. -/
theorem not_mem_of_not_mem (h : Accounts links contents hands everything)
    (hmem : element ∉ everything) (head : Head) : element ∉ contents head := by
  have hcount := h.count element
  have hle := count_le_total contents head element
  have hnone := List.count_eq_zero.mpr hmem
  rw [← List.count_eq_zero]
  omega

/-- A list is no longer than the universe. -/
theorem length_le (h : Accounts links contents hands everything) (head : Head) :
    (contents head).length ≤ everything.length := by
  have hsubperm : (contents head).Subperm everything := by
    refine List.subperm_ext_iff.mpr fun element _ => ?_
    have hcount := h.count element
    have hle := count_le_total contents head element
    omega
  exact hsubperm.length_le

/-- The hands change, and nothing else. -/
theorem trade (h : Accounts links contents hands everything)
    (hhands : ∀ other, hands'.count other = hands.count other) :
    Accounts links contents hands' everything :=
  ⟨h.represents, fun other => by rw [hhands]; exact h.count other⟩

variable [DecidableEq Head]

/-- The pointers determine the lists. -/
theorem read_eq (h : Accounts links contents hands everything) {fuel : Nat}
    (hfuel : everything.length ≤ fuel) : links.read fuel = contents :=
  funext fun head => h.represents.read_eq ((h.length_le head).trans hfuel)

/-- The first element of a list is on it. -/
theorem first_eq (h : Accounts links contents hands everything) (head : Head) :
    (links.firstEntryOrNull (.inl head)).bind Sum.getRight? = (contents head).head? := by
  rw [h.represents.firstEntryOrNull head]
  cases (contents head).head? <;> rfl

/-- `list_del` takes an element off its list into a hand. -/
theorem take (h : Accounts links contents hands everything) (hmem : element ∈ contents head)
    (hhands : ∀ other, hands'.count other =
      hands.count other + if element == other then 1 else 0) :
    Accounts (links.del (.inr element))
      (Function.update contents head ((contents head).erase element)) hands' everything := by
  refine ⟨represents_del_of_mem h.represents hmem, fun other => ?_⟩
  have hcount := h.count other
  have htotal := total_erase hmem other
  rw [hhands]
  omega

/-- `list_add_tail` links an element from a hand to the end of a list. -/
theorem give (h : Accounts links contents hands everything) (hnodup : everything.Nodup)
    (head : Head) (hhands : ∀ other, hands.count other =
      hands'.count other + if element == other then 1 else 0) :
    Accounts (links.addTail (.inr element) (.inl head))
      (Function.update contents head (contents head ++ [element])) hands' everything := by
  have hmem := mem_of_count_add hhands
  refine ⟨represents_addTail h.represents head (h.not_mem_of_hand hnodup hmem), fun other => ?_⟩
  have hcount := h.count other
  have htotal := total_append contents head element other
  have hother := hhands other
  omega

/-- `list_add` links an element from a hand into the middle of a list. -/
theorem insert (h : Accounts links contents hands everything) (hnodup : everything.Nodup)
    {front back : List Element} (hcontents : contents head = front ++ back)
    (hhands : ∀ other, hands.count other =
      hands'.count other + if element == other then 1 else 0) :
    Accounts (links.add (.inr element) (lastNode head front))
      (Function.update contents head (front ++ element :: back)) hands' everything := by
  have hmem := mem_of_count_add hhands
  refine ⟨represents_add h.represents hcontents (h.not_mem_of_hand hnodup hmem), fun other => ?_⟩
  have hcount := h.count other
  have htotal := total_update contents head (front ++ element :: back) other
  have hother := hhands other
  rw [hcontents, List.count_append, List.count_append, List.count_cons] at htotal
  omega

/-- `list_add_tail` of a new element of the universe. -/
theorem mint (h : Accounts links contents hands everything) (hnew : element ∉ everything)
    (head : Head) (hhands : ∀ other, hands'.count other = hands.count other)
    (heverything : ∀ other, everything'.count other =
      everything.count other + if element == other then 1 else 0) :
    Accounts (links.addTail (.inr element) (.inl head))
      (Function.update contents head (contents head ++ [element])) hands' everything' := by
  refine ⟨represents_addTail h.represents head (h.not_mem_of_not_mem hnew), fun other => ?_⟩
  have hcount := h.count other
  have htotal := total_append contents head element other
  have hother := heverything other
  rw [hhands]
  omega

/-- `list_del` and `list_add_tail` move an element between two lists. -/
theorem move (h : Accounts links contents hands everything) (hne : head ≠ target)
    (hmem : element ∈ contents head) :
    Accounts ((links.del (.inr element)).addTail (.inr element) (.inl target))
      (Function.update (Function.update contents head ((contents head).erase element)) target
        (contents target ++ [element])) hands everything := by
  refine ⟨represents_move h.represents hne hmem, fun other => ?_⟩
  rw [total_move hne hmem]
  exact h.count other

/-- A move through an old copy loses what stands between the remembered neighbours, but for the
element. -/
theorem moveStretch (h : Accounts links contents hands everything) (hne : head ≠ target)
    {front middle back : List Element} (hcontents : contents head = front ++ (middle ++ back))
    (hmem : element ∈ middle) :
    Accounts (links.moveSnapshot (.inr element) (.inl target) (lastNode head front)
      (firstNode head back))
      (Function.update (Function.update contents head (front ++ back)) target
        (contents target ++ [element])) hands (everything.diff (middle.erase element)) := by
  refine ⟨represents_moveStretch h.represents hne hcontents hmem, fun other => ?_⟩
  have hcount := h.count other
  have hcut := total_update contents head (front ++ back) other
  have hadd := total_append (Function.update contents head (front ++ back)) target element other
  have hlost := count_erase_add hmem other
  rw [Function.update_of_ne hne.symm] at hadd
  rw [hcontents] at hcut
  simp only [List.count_append] at hcut
  rw [List.count_diff, hadd]
  omega

/-- A move through a copy whose pointers are still the element's own. -/
theorem moveSnapshot (h : Accounts links contents hands everything) (hne : head ≠ target)
    (hmem : element ∈ contents head) {before after : Head ⊕ Element}
    (hbefore : links.prev (.inr element) = before)
    (hafter : links.next (.inr element) = after) :
    Accounts (links.moveSnapshot (.inr element) (.inl target) before after)
      (Function.update (Function.update contents head ((contents head).erase element)) target
        (contents target ++ [element])) hands everything := by
  refine ⟨represents_moveSnapshot h.represents hne hmem hbefore hafter, fun other => ?_⟩
  rw [total_move hne hmem]
  exact h.count other

end Accounts

/-- Erasing the first element of a list leaves the rest. -/
theorem erase_of_head? {list : List Element} (hfirst : list.head? = some element) :
    list.erase element = list.tail := by
  cases list with
  | nil => simp at hfirst
  | cons other rest =>
      obtain rfl : other = element := by simpa using hfirst
      simp

end KernelList
