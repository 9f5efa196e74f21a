import Mathlib.Algebra.BigOperators.Group.Finset.Basic
import Mathlib.Algebra.Order.BigOperators.Group.Finset
import Mathlib.Data.Fintype.Basic
import RfnmDriver.Library.KernelList

/-!
# A family of intrusive lists over one set of elements

A pool of elements that travel between several list heads. The pointers of all heads and
elements are one `Links`; `Represents` relates them to the abstract state, the list of elements
behind each head, and makes the lists disjoint. Each list operation on pointers refines the
obvious one on lists: `represents_addTail`, `represents_del`, `represents_add` and
`represents_moveSnapshot`. `read` recovers the lists from the
pointers.
-/

namespace KernelList

variable {Head Element : Type*}

namespace Links

/-- Every head has its list of elements in front of it, and no element is on two lists. -/
structure Represents (links : Links (Head ⊕ Element)) (contents : Head → List Element) :
    Prop where
  isList : ∀ head, links.IsList (.inl head) ((contents head).map .inr)
  disjoint : ∀ head other, head ≠ other → (contents head).Disjoint (contents other)

variable {links : Links (Head ⊕ Element)} {contents : Head → List Element}
  {head target : Head} {element new : Element} {front back : List Element}
  {before after : Head ⊕ Element}

/-- An element on a list is on no other list, and is there once. -/
theorem Represents.nodup (h : links.Represents contents) (head : Head) : (contents head).Nodup :=
  List.Nodup.of_map _ (List.nodup_cons.mp (h.isList head).nodup).2

/-- Two circles of the family share no node. -/
theorem Represents.disjoint_nodes (h : links.Represents contents) (head target : Head)
    (hne : head ≠ target) :
    ((.inl head : Head ⊕ Element) :: (contents head).map .inr).Disjoint
      (.inl target :: (contents target).map .inr) := by
  rintro (other | element) hhead htarget
  · simp_all
  · exact h.disjoint head target hne (by simpa using hhead) (by simpa using htarget)

/-- The node at the end of a stretch that begins at the head. -/
def lastNode (head : Head) (front : List Element) : Head ⊕ Element :=
  (front.getLast?.map .inr).getD (.inl head)

/-- The stretch up to its last node. -/
theorem lastNode_eq (head : Head) (front : List Element) :
    ∃ left, (.inl head : Head ⊕ Element) :: front.map .inr = left ++ [lastNode head front] := by
  obtain rfl | ⟨init, last, rfl⟩ := List.eq_nil_or_concat' front
  · exact ⟨[], by simp [lastNode]⟩
  · exact ⟨.inl head :: init.map .inr, by simp [lastNode]⟩

/-- The last node is the head or an element. -/
theorem lastNode_cases (head : Head) (front : List Element) :
    lastNode head front = .inl head ∨ ∃ last ∈ front, lastNode head front = .inr last := by
  obtain rfl | ⟨init, last, rfl⟩ := List.eq_nil_or_concat' front
  · exact .inl rfl
  · exact .inr ⟨last, by simp, by simp [lastNode]⟩

/-- An element's `prev` is the node in front of it. -/
theorem Represents.prev_eq (h : links.Represents contents)
    (hcontents : contents head = front ++ element :: back) :
    links.prev (.inr element) = lastNode head front := by
  have hlist := h.isList head
  rw [hcontents, List.map_append, List.map_cons] at hlist
  obtain ⟨left, -, hleft, -⟩ := hlist.neighbours
  obtain ⟨left', hleft'⟩ := lastNode_eq head front
  have := congrArg List.getLast? (hleft.symm.trans hleft')
  simpa using this

/-- The head's `prev` is the last node of the list. -/
theorem Represents.prev_head (h : links.Represents contents) :
    links.prev (.inl head) = lastNode head (contents head) := by
  obtain ⟨left, hleft⟩ := (h.isList head).last
  obtain ⟨left', hleft'⟩ := lastNode_eq head (contents head)
  have := congrArg List.getLast? (hleft.symm.trans hleft')
  simpa using this

/-- The node at the start of a stretch that ends at the head. -/
def firstNode (head : Head) (back : List Element) : Head ⊕ Element :=
  (back.head?.map .inr).getD (.inl head)

/-- The stretch from its first node on. -/
theorem firstNode_eq (head : Head) (back : List Element) :
    ∃ right, back.map .inr ++ [(.inl head : Head ⊕ Element)] = firstNode head back :: right := by
  cases back with
  | nil => exact ⟨[], rfl⟩
  | cons first rest => exact ⟨rest.map .inr ++ [.inl head], rfl⟩

/-- The first node is the head or an element. -/
theorem firstNode_cases (head : Head) (back : List Element) :
    firstNode head back = .inl head ∨ ∃ first ∈ back, firstNode head back = .inr first := by
  cases back with
  | nil => exact .inl rfl
  | cons first rest => exact .inr ⟨first, List.mem_cons_self, rfl⟩

/-- An element's `next` is the node behind it. -/
theorem Represents.next_eq (h : links.Represents contents)
    (hcontents : contents head = front ++ element :: back) :
    links.next (.inr element) = firstNode head back := by
  have hlist := h.isList head
  rw [hcontents, List.map_append, List.map_cons] at hlist
  obtain ⟨-, right, -, hright⟩ := hlist.neighbours
  obtain ⟨right', hright'⟩ := firstNode_eq head back
  exact (List.cons.inj (hright.symm.trans hright')).1

/-- Heads that point to themselves have empty lists. -/
theorem represents_empty
    (hheads : ∀ head, links.next (.inl head) = .inl head ∧ links.prev (.inl head) = .inl head) :
    links.Represents fun _ => [] := by
  refine ⟨fun head => ⟨?_, by simp⟩, fun _ _ _ => List.disjoint_nil_left _⟩
  simpa [Adjacent] using hheads head

variable [DecidableEq Head] [DecidableEq Element]

/-- The elements behind a head, read off the pointers with `fuel` steps. -/
def read (links : Links (Head ⊕ Element)) (fuel : Nat) (head : Head) : List Element :=
  (links.entries (.inl head) fuel).filterMap Sum.getRight?

/-- For finitely many heads the relation can be checked. -/
instance [Fintype Head] (links : Links (Head ⊕ Element)) (contents : Head → List Element) :
    Decidable (links.Represents contents) :=
  decidable_of_iff ((∀ head, links.IsList (.inl head) ((contents head).map .inr)) ∧
      ∀ head other, head ≠ other → ∀ element ∈ contents head, element ∉ contents other)
    ⟨fun h => ⟨h.1, fun head other hne element hmem => h.2 head other hne element hmem⟩,
      fun h => ⟨h.isList, fun head other hne _ hmem hother =>
        h.disjoint head other hne hmem hother⟩⟩

/-- The pointers determine the lists. -/
theorem Represents.read_eq (h : links.Represents contents) {fuel : Nat}
    (hfuel : (contents head).length ≤ fuel) : links.read fuel head = contents head := by
  have hentries : links.entries (.inl head) fuel = (contents head).map .inr :=
    (h.isList head).entries_eq (by simpa using hfuel)
  simp [read, hentries, List.filterMap_map, Function.comp_def]

/-- `list_first_entry_or_null` sees the first element of the list. -/
theorem Represents.firstEntryOrNull (h : links.Represents contents) (head : Head) :
    links.firstEntryOrNull (.inl head) = (contents head).head?.map .inr := by
  rw [(h.isList head).firstEntryOrNull, List.head?_map]

/-- A family is represented when the changed list is, the others are kept, and what is new on
the changed list was on none. -/
theorem Represents.update {links' : Links (Head ⊕ Element)} {list : List Element}
    (h : links.Represents contents) (hlist : links'.IsList (.inl head) (list.map .inr))
    (hother : ∀ other, other ≠ head → links'.IsList (.inl other) ((contents other).map .inr))
    (hnew : ∀ element ∈ list, element ∉ contents head → ∀ other, element ∉ contents other) :
    links'.Represents (Function.update contents head list) := by
  have hfresh : ∀ other, other ≠ head → list.Disjoint (contents other) := by
    intro other hne element hmem hcontents
    by_cases hold : element ∈ contents head
    · exact h.disjoint head other hne.symm hold hcontents
    · exact hnew element hmem hold other hcontents
  constructor
  · intro other
    by_cases hne : other = head
    · subst hne
      simpa using hlist
    · simpa [hne] using hother other hne
  · intro first second hne
    by_cases hfirst : first = head
    · subst hfirst
      simpa [hne.symm] using hfresh second hne.symm
    · by_cases hsecond : second = head
      · subst hsecond
        simpa [hne] using (hfresh first hne).symm
      · simpa [hfirst, hsecond] using h.disjoint first second hne

/-- `list_add_tail` of an element that is on no list. -/
theorem represents_addTail (h : links.Represents contents) (head : Head)
    (hnew : ∀ other, new ∉ contents other) :
    (links.addTail (.inr new) (.inl head)).Represents
      (Function.update contents head (contents head ++ [new])) := by
  refine h.update ?_ ?_ ?_
  · simpa using isList_addTail (h.isList head) (by simpa using hnew head)
  · intro other hne
    exact (h.isList other).addTail_off (h.isList head) (h.disjoint_nodes _ _ hne.symm)
      (by simpa using hnew other)
  · intro element hmem hold other
    obtain rfl : element = new := by simpa [hold] using hmem
    exact hnew other

/-- `list_del` of an element. -/
theorem represents_del (h : links.Represents contents)
    (hcontents : contents head = front ++ element :: back) :
    (links.del (.inr element)).Represents (Function.update contents head (front ++ back)) := by
  have hlist := h.isList head
  have hnodes := h.disjoint_nodes head
  rw [hcontents, List.map_append, List.map_cons] at hlist hnodes
  refine h.update ?_ ?_ ?_
  · simpa using isList_del hlist
  · intro other hne
    exact (h.isList other).del_off hlist (hnodes _ hne.symm)
  · intro other hmem hold
    rw [hcontents] at hold
    simp_all

/-- `__list_del` of the nodes around a stretch takes the stretch off its list. -/
theorem represents_delStretch {middle : List Element} (h : links.Represents contents)
    (hcontents : contents head = front ++ (middle ++ back)) :
    (links.delBetween (lastNode head front) (firstNode head back)).Represents
      (Function.update contents head (front ++ back)) := by
  have hlist := h.isList head
  have hnodes := h.disjoint_nodes head
  obtain ⟨left, hleft⟩ := lastNode_eq head front
  obtain ⟨right, hright⟩ := firstNode_eq head back
  rw [hcontents, List.map_append, List.map_append] at hlist hnodes
  have hlast : lastNode head front ∈ .inl head ::
      (front.map .inr ++ (middle.map .inr ++ back.map .inr) : List (Head ⊕ Element)) := by
    rw [← List.cons_append, hleft]
    simp
  have hfirst : firstNode head back ∈ .inl head ::
      (front.map .inr ++ (middle.map .inr ++ back.map .inr) : List (Head ⊕ Element)) := by
    have hmem : firstNode head back ∈ back.map .inr ++ [(.inl head : Head ⊕ Element)] := by
      rw [hright]
      exact List.mem_cons_self
    grind
  refine h.update ?_ ?_ ?_
  · rw [List.map_append]
    exact isList_delStretch hlist hleft hright
  · intro other hne
    exact (h.isList other).delBetween_off (hnodes _ hne.symm hlast) (hnodes _ hne.symm hfirst)
  · intro other hmem hold
    rw [hcontents] at hold
    simp_all

/-- `list_add_tail` of a row of elements that are on no list. -/
theorem represents_foldl_addTail {row : List Element} (head : Head)
    (h : links.Represents contents)
    (hnodup : row.Nodup) (hnew : ∀ element ∈ row, ∀ other, element ∉ contents other) :
    (row.foldl (fun links element => links.addTail (.inr element) (.inl head)) links).Represents
      (Function.update contents head (contents head ++ row)) := by
  induction row generalizing links contents with
  | nil => simpa using h
  | cons first rest ih =>
      obtain ⟨hfirst, hrest⟩ := List.nodup_cons.mp hnodup
      have hstep := represents_addTail h head (hnew first (by simp))
      have := ih hstep hrest fun element hmem other => ?_
      · simpa using this
      · have hne : element ≠ first := ne_of_mem_of_not_mem hmem hfirst
        have hold := hnew element (List.mem_cons_of_mem _ hmem)
        by_cases hother : other = head
        · subst hother
          simpa [hne] using hold other
        · simpa [hother] using hold other

/-- `list_add` behind the last node of a stretch puts a new element there. -/
theorem represents_add (h : links.Represents contents) (hcontents : contents head = front ++ back)
    (hnew : ∀ other, new ∉ contents other) :
    (links.add (.inr new) (lastNode head front)).Represents
      (Function.update contents head (front ++ new :: back)) := by
  have hlist := h.isList head
  have hnodes := h.disjoint_nodes head
  have hnewhead : (.inr new : Head ⊕ Element) ∉ .inl head :: (contents head).map .inr := by
    simpa using hnew head
  have hlast : lastNode head front ∈ .inl head :: (contents head).map .inr := by
    obtain ⟨left, hleft⟩ := lastNode_eq head front
    rw [hcontents, List.map_append, ← List.cons_append, hleft]
    simp
  refine h.update ?_ ?_ ?_
  · rw [hcontents] at hlist hnewhead
    obtain rfl | ⟨init, last, rfl⟩ := List.eq_nil_or_concat' front
    · simpa [lastNode] using isList_add hlist hnewhead
    · have hsplit : (init ++ [last] ++ back).map (Sum.inr : Element → Head ⊕ Element) =
          init.map .inr ++ .inr last :: back.map .inr := by simp
      rw [hsplit] at hlist hnewhead
      simpa [lastNode] using isList_add_behind hlist hnewhead
  · intro other hne
    exact (h.isList other).add_off hlist hlast (hnodes _ hne.symm) (by simpa using hnew other)
  · intro element hmem hold
    rw [hcontents] at hold
    obtain rfl : element = new := by
      simp only [List.mem_append, List.mem_cons] at hmem hold
      tauto
    exact hnew

/-- `list_del` of an element of a list erases it there. -/
theorem represents_del_of_mem (h : links.Represents contents) (hmem : element ∈ contents head) :
    (links.del (.inr element)).Represents
      (Function.update contents head ((contents head).erase element)) := by
  obtain ⟨front, back, hcontents⟩ := List.append_of_mem hmem
  have hnodup := h.nodup head
  rw [hcontents] at hnodup
  have hfront : element ∉ front := fun hfront =>
    (List.nodup_append'.mp hnodup).2.2 hfront List.mem_cons_self
  have herase : (contents head).erase element = front ++ back := by
    rw [hcontents, List.erase_append_right _ hfront, List.erase_cons_head]
  rw [herase]
  exact represents_del h hcontents

/-- `list_del` and `list_add_tail`: the element goes from its place on one list to the end of
another. -/
theorem represents_move (h : links.Represents contents) (hne : head ≠ target)
    (hmem : element ∈ contents head) :
    ((links.del (.inr element)).addTail (.inr element) (.inl target)).Represents
      (Function.update (Function.update contents head ((contents head).erase element)) target
        (contents target ++ [element])) := by
  have hdel := represents_del_of_mem h hmem
  have hnew : ∀ other, element ∉
      Function.update contents head ((contents head).erase element) other := by
    intro other
    by_cases hother : other = head
    · subst hother
      simpa using (h.nodup other).not_mem_erase
    · simpa [hother] using h.disjoint head other (Ne.symm hother) hmem
  have hadd := represents_addTail hdel target hnew
  rwa [Function.update_of_ne hne.symm] at hadd

/-- A move through an old copy takes everything between the remembered neighbours off the list,
and links the element alone to the other one. -/
theorem represents_moveStretch {middle : List Element} (h : links.Represents contents)
    (hne : head ≠ target) (hcontents : contents head = front ++ (middle ++ back))
    (hmem : element ∈ middle) :
    (links.moveSnapshot (.inr element) (.inl target) (lastNode head front)
      (firstNode head back)).Represents
      (Function.update (Function.update contents head (front ++ back)) target
        (contents target ++ [element])) := by
  have hdel := represents_delStretch h hcontents
  have hnodup := h.nodup head
  rw [hcontents] at hnodup
  have hoff : element ∉ front ++ back := by grind
  have htarget : element ∉ contents target :=
    h.disjoint head target hne (by rw [hcontents]; simp [hmem])
  have hnew : ∀ other, element ∉ Function.update contents head (front ++ back) other := by
    intro other
    by_cases hother : other = head
    · subst hother
      simpa using hoff
    · rw [Function.update_of_ne hother]
      exact h.disjoint head other (Ne.symm hother) (by rw [hcontents]; simp [hmem])
  have hadd := represents_addTail hdel target hnew
  rw [Function.update_of_ne hne.symm] at hadd
  -- the remembered neighbours are on the first list, and are not the element
  have hprev := lastNode_cases target (contents target)
  rw [← h.prev_head] at hprev
  have hlist : ∀ other ∈ front ++ back, other ≠ element ∧ other ∉ contents target := by
    intro other hother
    refine ⟨fun heq => hoff (heq ▸ hother), h.disjoint head target hne ?_⟩
    rw [hcontents]
    simp only [List.mem_append] at hother ⊢
    tauto
  have hlast : lastNode head front ≠ .inr element ∧
      lastNode head front ≠ links.prev (.inl target) := by
    obtain heq | ⟨last, hfront, heq⟩ := lastNode_cases head front
    · rw [heq]
      refine ⟨by simp, ?_⟩
      obtain hprev | ⟨other, hother, hprev⟩ := hprev <;> rw [hprev] <;> simp [hne]
    · obtain ⟨hneq, hnot⟩ := hlist last (List.mem_append_left _ hfront)
      rw [heq]
      refine ⟨by simpa using hneq, ?_⟩
      obtain hprev | ⟨other, hother, hprev⟩ := hprev <;> rw [hprev]
      · simp
      · simp only [ne_eq, Sum.inr.injEq]
        rintro rfl
        exact hnot hother
  have hfirst : firstNode head back ≠ .inr element ∧ firstNode head back ≠ .inl target := by
    obtain heq | ⟨first, hback, heq⟩ := firstNode_cases head back
    · rw [heq]
      exact ⟨by simp, by simpa using hne⟩
    · obtain ⟨hneq, -⟩ := hlist first (List.mem_append_right _ hback)
      rw [heq]
      exact ⟨by simpa using hneq, by simp⟩
  rw [moveSnapshot_comm hlast.1 hfirst.1 hlast.2 hfirst.2]
  exact hadd

/-- A move through a copy whose pointers are still the element's own moves the element alone. -/
theorem represents_moveSnapshot (h : links.Represents contents) (hne : head ≠ target)
    (hmem : element ∈ contents head) (hbefore : links.prev (.inr element) = before)
    (hafter : links.next (.inr element) = after) :
    (links.moveSnapshot (.inr element) (.inl target) before after).Represents
      (Function.update (Function.update contents head ((contents head).erase element)) target
        (contents target ++ [element])) := by
  obtain ⟨front, back, hcontents⟩ := List.append_of_mem hmem
  have hfront : element ∉ front := by
    have hnodup := h.nodup head
    rw [hcontents] at hnodup
    grind
  have herase : (contents head).erase element = front ++ back := by
    rw [hcontents, List.erase_append_right _ hfront, List.erase_cons_head]
  rw [← hbefore, ← hafter, h.prev_eq hcontents, h.next_eq hcontents, herase]
  exact represents_moveStretch h hne hcontents (List.mem_singleton_self element)

end Links

/-! ## Membership over a changed family -/

section Membership

variable [DecidableEq Head] {contents : Head → List Element} {other : Head} {element : Element}

/-- Appending to one list takes nothing off any. -/
theorem mem_update_append (head : Head) (new : Element) (hmem : element ∈ contents other) :
    element ∈ Function.update contents head (contents head ++ [new]) other := by
  by_cases hother : other = head
  · subst hother
    simp [hmem]
  · simpa [hother] using hmem

/-- Erasing takes off nothing but the erased element of that list. -/
theorem mem_update_erase [DecidableEq Element] (head : Head) (gone : Element)
    (hmem : element ∈ contents other) (hne : other ≠ head ∨ element ≠ gone) :
    element ∈ Function.update contents head ((contents head).erase gone) other := by
  by_cases hother : other = head
  · subst hother
    have hgone : element ≠ gone := hne.resolve_left (by simp)
    simpa using (List.mem_erase_of_ne hgone).mpr hmem
  · simpa [hother] using hmem

end Membership

/-! ## Counting over the family -/

section Total

variable [Fintype Head] [DecidableEq Element]

/-- How often an element occurs on the lists of the family. -/
def total (contents : Head → List Element) (element : Element) : Nat :=
  ∑ head, (contents head).count element

/-- An element occurs on one list at most as often as on all. -/
theorem count_le_total (contents : Head → List Element) (head : Head) (element : Element) :
    (contents head).count element ≤ total contents element := by
  unfold total
  exact Finset.single_le_sum (fun other _ => Nat.zero_le ((contents other).count element))
    (Finset.mem_univ head)

/-- An element erased from a list it is on. -/
theorem count_erase_add {list : List Element} {gone : Element} (hmem : gone ∈ list)
    (element : Element) :
    (list.erase gone).count element + (if gone == element then 1 else 0) = list.count element := by
  rw [(List.perm_cons_erase hmem).count_eq element, List.count_cons]

variable [DecidableEq Head]

/-- Replacing one list changes the total by the difference of the two counts. -/
theorem total_update (contents : Head → List Element) (head : Head) (list : List Element)
    (element : Element) :
    total (Function.update contents head list) element + (contents head).count element =
      total contents element + list.count element := by
  have hrest : ∀ other ∈ Finset.univ.erase head,
      (Function.update contents head list other).count element =
        (contents other).count element := by
    intro other hother
    rw [Function.update_of_ne (Finset.ne_of_mem_erase hother)]
  have hmem := Finset.mem_univ head
  rw [total, total, ← Finset.sum_erase_add _ _ hmem, ← Finset.sum_erase_add _ _ hmem,
    Finset.sum_congr rfl hrest, Function.update_self]
  omega

/-- Appending an element to a list. -/
theorem total_append (contents : Head → List Element) (head : Head) (new element : Element) :
    total (Function.update contents head (contents head ++ [new])) element =
      total contents element + if new == element then 1 else 0 := by
  have h := total_update contents head (contents head ++ [new]) element
  rw [List.count_append, List.count_singleton] at h
  omega

/-- Erasing an element from its list. -/
theorem total_erase {head : Head} {gone : Element} (hmem : gone ∈ contents head)
    (element : Element) :
    total (Function.update contents head ((contents head).erase gone)) element +
      (if gone == element then 1 else 0) = total contents element := by
  have h := total_update contents head ((contents head).erase gone) element
  have hperm := (List.perm_cons_erase hmem).count_eq element
  rw [List.count_cons] at hperm
  omega

/-- Moving an element from one list to the end of another. -/
theorem total_move {head target : Head} {element : Element} (hne : head ≠ target)
    (hmem : element ∈ contents head) (other : Element) :
    total (Function.update (Function.update contents head ((contents head).erase element)) target
      (contents target ++ [element])) other = total contents other := by
  have herase := total_erase hmem other
  have happend := total_append
    (Function.update contents head ((contents head).erase element)) target element other
  rw [Function.update_of_ne hne.symm] at happend
  omega

end Total

end KernelList
