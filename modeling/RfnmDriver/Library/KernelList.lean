import Mathlib.Data.List.Chain
import Mathlib.Data.List.Nodup
import Mathlib.Logic.Function.Basic

/-!
# Intrusive circular lists

The kernel's `struct list_head`: every node, list head or element, has a `next` and a `prev`
pointer, and the list operations are writes to these. `Links` holds the pointers of all nodes at
once, so an operation may be handed stale pointers. `IsList` says that a head and its elements
form one closed circle. Read `isList_addBetween` and `isList_delBetween` first; the move through
a copy of an element is `moveSnapshot_comm`. The poison values `list_del` stores in the
removed element are not modelled: the element keeps its old pointers.
-/

namespace KernelList

variable {Node : Type*}

/-- The two pointers of every node. -/
structure Links (Node : Type*) where
  next : Node → Node
  prev : Node → Node

namespace Links

variable [DecidableEq Node]

/-- `INIT_LIST_HEAD`: the head points to itself both ways. -/
def initHead (links : Links Node) (head : Node) : Links Node where
  next := Function.update links.next head head
  prev := Function.update links.prev head head

/-- `__list_add`: write `new` between two nodes. -/
def addBetween (links : Links Node) (new before after : Node) : Links Node where
  next := Function.update (Function.update links.next new after) before new
  prev := Function.update (Function.update links.prev after new) new before

/-- `__list_del`: make two nodes neighbours. -/
def delBetween (links : Links Node) (before after : Node) : Links Node where
  next := Function.update links.next before after
  prev := Function.update links.prev after before

/-- `list_add`: insert after the given node. -/
def add (links : Links Node) (new head : Node) : Links Node :=
  links.addBetween new head (links.next head)

/-- `list_add_tail`: insert before the given node. -/
def addTail (links : Links Node) (new head : Node) : Links Node :=
  links.addBetween new (links.prev head) head

/-- `list_del`: unlink a node through its own pointers. -/
def del (links : Links Node) (entry : Node) : Links Node :=
  links.delBetween (links.prev entry) (links.next entry)

/-- `list_first_entry_or_null`. -/
def firstEntryOrNull (links : Links Node) (head : Node) : Option Node :=
  if links.next head = head then none else some (links.next head)

/-- The nodes met on the way from `node` to the head, at most `fuel` of them. -/
def walk (links : Links Node) (head : Node) : Nat → Node → List Node
  | 0, _ => []
  | fuel + 1, node => if node = head then [] else node :: walk links head fuel (links.next node)

/-- The first `fuel` elements of a list, in order. -/
def entries (links : Links Node) (head : Node) (fuel : Nat) : List Node :=
  links.walk head fuel (links.next head)

/-- The second node is behind the first, and each points to the other. -/
def Adjacent (links : Links Node) (before after : Node) : Prop :=
  links.next before = after ∧ links.prev after = before

instance (links : Links Node) (before after : Node) : Decidable (links.Adjacent before after) :=
  inferInstanceAs (Decidable (_ ∧ _))

/-- The head and the elements form one circle in which no node occurs twice. -/
structure IsList (links : Links Node) (head : Node) (elements : List Node) : Prop where
  circle : (head :: (elements ++ [head])).IsChain links.Adjacent
  nodup : (head :: elements).Nodup

/-- Whether given elements form the list of a head can be checked. -/
instance (links : Links Node) (head : Node) (elements : List Node) :
    Decidable (links.IsList head elements) :=
  decidable_of_iff
    ((head :: (elements ++ [head])).IsChain links.Adjacent ∧ (head :: elements).Nodup)
    ⟨fun h => ⟨h.1, h.2⟩, fun h => ⟨h.circle, h.nodup⟩⟩

end Links

namespace Links

variable {links other : Links Node} {head : Node}
  {elements front back left right : List Node} {node new before after : Node}

/-! ## Reading a circle -/

/-- A stretch of nodes stays a stretch when the pointers along it are kept. -/
theorem isChain_adjacent_congr (h : elements.IsChain links.Adjacent)
    (hnext : ∀ x ∈ elements.dropLast, other.next x = links.next x)
    (hprev : ∀ x ∈ elements.tail, other.prev x = links.prev x) :
    elements.IsChain other.Adjacent := by
  rw [List.isChain_iff_forall_rel_of_append_cons_cons] at h ⊢
  intro first second leading trailing hsplit
  obtain ⟨hforward, hbackward⟩ := h hsplit
  subst hsplit
  refine ⟨(hnext first ?_).trans hforward, (hprev second ?_).trans hbackward⟩
  · simp [List.dropLast_append_of_ne_nil]
  · cases leading <;> simp

/-- Lists are kept by any change that leaves the pointers of their nodes alone. -/
theorem IsList.congr (h : links.IsList head elements)
    (hnext : ∀ x ∈ head :: elements, other.next x = links.next x)
    (hprev : ∀ x ∈ head :: elements, other.prev x = links.prev x) :
    other.IsList head elements := by
  refine ⟨isChain_adjacent_congr h.circle ?_ ?_, h.nodup⟩
  · intro x hx
    rw [← List.cons_append, List.dropLast_concat] at hx
    exact hnext x hx
  · intro x hx
    refine hprev x ?_
    simpa [or_comm] using hx

/-- The node in front of an element and the one behind it, with the circle cut at both. -/
theorem IsList.neighbours (h : links.IsList head (front ++ node :: back)) :
    ∃ left right, head :: front = left ++ [links.prev node] ∧
      back ++ [head] = links.next node :: right := by
  obtain ⟨left, before, hleft⟩ := (List.eq_nil_or_concat' (head :: front)).resolve_left (by simp)
  obtain ⟨after, right, hright⟩ : ∃ after right, back ++ [head] = after :: right := by
    cases back <;> simp
  have hcircle : (left ++ before :: node :: after :: right).IsChain links.Adjacent := by
    have := h.circle
    rwa [List.append_assoc, List.cons_append, hright, ← List.cons_append, hleft,
      List.append_assoc] at this
  obtain ⟨-, hbefore, hrest⟩ := List.isChain_append_cons_cons.mp hcircle
  obtain ⟨hafter, -⟩ := List.isChain_cons_cons.mp hrest
  exact ⟨left, right, by rw [hleft, hbefore.2], by rw [hright, hafter.1]⟩

/-- The neighbours of an element are on its circle. -/
theorem IsList.neighbours_mem (h : links.IsList head (front ++ node :: back)) :
    links.prev node ∈ head :: (front ++ back) ∧ links.next node ∈ head :: (front ++ back) := by
  obtain ⟨left, right, hleft, hright⟩ := h.neighbours
  have hprev : links.prev node ∈ head :: front := by rw [hleft]; simp
  have hnext : links.next node ∈ back ++ [head] := by rw [hright]; simp
  constructor <;> grind

/-- The last node of a circle is the one the head's `prev` points to. -/
theorem IsList.last (h : links.IsList head elements) :
    ∃ left, head :: elements = left ++ [links.prev head] := by
  obtain ⟨left, before, hleft⟩ :=
    (List.eq_nil_or_concat' (head :: elements)).resolve_left (by simp)
  have hcircle : (left ++ before :: head :: []).IsChain links.Adjacent := by
    have := h.circle
    rwa [← List.cons_append, hleft, List.append_assoc] at this
  obtain ⟨-, hbefore, -⟩ := List.isChain_append_cons_cons.mp hcircle
  exact ⟨left, by rw [hleft, hbefore.2]⟩

/-- The head's `next` points to the first element, or back to the head. -/
theorem IsList.first (h : links.IsList head elements) :
    ∃ right, elements ++ [head] = links.next head :: right := by
  cases elements with
  | nil => exact ⟨[], by simp [(List.isChain_cons_cons.mp h.circle).1.1]⟩
  | cons first rest => exact ⟨rest ++ [head], by simp [(List.isChain_cons_cons.mp h.circle).1.1]⟩

variable [DecidableEq Node]

/-- `list_first_entry_or_null` is the first element. -/
theorem IsList.firstEntryOrNull (h : links.IsList head elements) :
    links.firstEntryOrNull head = elements.head? := by
  obtain ⟨right, hright⟩ := h.first
  have hnodup := h.nodup
  unfold Links.firstEntryOrNull
  cases elements with
  | nil =>
      obtain ⟨hnext, -⟩ : head = links.next head ∧ [] = right := by simpa using hright
      simp [← hnext]
  | cons first rest =>
      simp only [List.cons_append, List.cons.injEq] at hright
      have hne : first ≠ head := by
        rintro rfl
        simp at hnodup
      simp [← hright.1, hne]

/-- Walking a circle from one of its nodes meets the elements from there on. -/
theorem IsList.walk_eq : ∀ {front back : List Node} {fuel : Nat} {node : Node},
    links.IsList head (front ++ back) → back.length ≤ fuel →
      (back ++ [head]).head? = some node → links.walk head fuel node = back := by
  intro front back
  induction back generalizing front with
  | nil =>
      intro fuel node _ _ hnode
      obtain rfl : head = node := by simpa using hnode
      cases fuel <;> simp [walk]
  | cons first rest ih =>
      intro fuel node h hfuel hnode
      obtain rfl : first = node := by simpa using hnode
      cases fuel with
      | zero => simp at hfuel
      | succ fuel =>
          obtain ⟨-, right, -, hright⟩ := h.neighbours
          have hne : first ≠ head := by
            rintro rfl
            simpa using h.nodup
          have hsplit : links.IsList head ((front ++ [first]) ++ rest) := by simpa using h
          have hrest : links.walk head fuel (links.next first) = rest :=
            ih hsplit (by simpa using hfuel) (by simp [hright])
          simp [walk, hne, hrest]

/-- A walk with enough fuel reads the whole list. -/
theorem IsList.entries_eq {fuel : Nat} (h : links.IsList head elements)
    (hfuel : elements.length ≤ fuel) : links.entries head fuel = elements := by
  obtain ⟨right, hright⟩ := h.first
  have hstart : (elements ++ [head]).head? = some (links.next head) := by rw [hright]; rfl
  exact IsList.walk_eq (by simpa using h : links.IsList head ([] ++ elements)) hfuel hstart

/-! ## What the operations do to a circle -/

/-- The two stretches of a circle cut between two nodes only see their inner pointers: `next` of
the first node and `prev` of the second may change. -/
theorem isChain_of_cut (other : Links Node) (hnodup : (head :: (front ++ back)).Nodup)
    (hbefore : head :: front = left ++ [before]) (hafter : back ++ [head] = after :: right)
    (hfirst : (left ++ [before]).IsChain links.Adjacent)
    (hsecond : (after :: right).IsChain links.Adjacent)
    (hnext : ∀ x ∈ head :: (front ++ back), x ≠ before → other.next x = links.next x)
    (hprev : ∀ x ∈ head :: (front ++ back), x ≠ after → other.prev x = links.prev x) :
    (left ++ [before]).IsChain other.Adjacent ∧ (after :: right).IsChain other.Adjacent := by
  have hleft : (left ++ [before]).Nodup := by rw [← hbefore]; grind
  have hright : (after :: right).Nodup := by rw [← hafter]; grind
  have hfront : (left ++ [before]).tail = front := by rw [← hbefore]; rfl
  have hback : (after :: right).dropLast = back := by rw [← hafter]; simp
  have hbeforemem : before ∈ head :: front := by rw [hbefore]; simp
  have haftermem : after ∈ back ++ [head] := by rw [hafter]; simp
  have hleftmem : ∀ x ∈ left, x ∈ head :: front := by
    rw [hbefore]
    exact fun x hx => List.mem_append_left _ hx
  have hrightmem : ∀ x ∈ right, x ∈ back ++ [head] := by
    rw [hafter]
    exact fun x hx => List.mem_cons_of_mem _ hx
  constructor
  · refine isChain_adjacent_congr hfirst (fun x hx => ?_) (fun x hx => ?_)
    · rw [List.dropLast_concat] at hx
      exact hnext x (by grind) (by grind)
    · rw [hfront] at hx
      exact hprev x (by grind) (by grind)
  · refine isChain_adjacent_congr hsecond (fun x hx => ?_) (fun x hx => ?_)
    · rw [hback] at hx
      exact hnext x (by grind) (by grind)
    · rw [List.tail_cons] at hx
      exact hprev x (by grind) (by grind)

/-- `__list_add` between two neighbours of a circle puts a new node there. -/
theorem isList_addBetween (h : links.IsList head (front ++ back))
    (hnew : new ∉ head :: (front ++ back)) (hbefore : head :: front = left ++ [before])
    (hafter : back ++ [head] = after :: right) :
    (links.addBetween new before after).IsList head (front ++ new :: back) := by
  have hcircle : (left ++ before :: after :: right).IsChain links.Adjacent := by
    have := h.circle
    rwa [List.append_assoc, hafter, ← List.cons_append, hbefore, List.append_assoc] at this
  obtain ⟨hfirst, -, hsecond⟩ := List.isChain_append_cons_cons.mp hcircle
  have hoff : ∀ x ∈ head :: (front ++ back), x ≠ new := by
    rintro x hx rfl
    exact hnew hx
  obtain ⟨hfirst', hsecond'⟩ := isChain_of_cut (links.addBetween new before after)
    h.nodup hbefore hafter hfirst hsecond
    (fun x hx hne => by simp [addBetween, hne, hoff x hx])
    (fun x hx hne => by simp [addBetween, hne, hoff x hx])
  have hbeforemem : before ∈ head :: front := by rw [hbefore]; simp
  have haftermem : after ∈ back ++ [head] := by rw [hafter]; simp
  have hnewbefore : before ≠ new := hoff before (by grind)
  have hnewafter : after ≠ new := hoff after (by grind)
  refine ⟨?_, ?_⟩
  · rw [List.append_assoc, List.cons_append, hafter, ← List.cons_append, hbefore,
      List.append_assoc]
    refine List.isChain_append_cons_cons.mpr
      ⟨hfirst', ?_, List.isChain_cons_cons.mpr ⟨?_, hsecond'⟩⟩
    · simp [Adjacent, addBetween]
    · simp [Adjacent, addBetween, hnewbefore.symm, hnewafter]
  · have hperm : (head :: (front ++ new :: back)).Perm (new :: head :: (front ++ back)) :=
      (List.Perm.cons head List.perm_middle).trans (List.Perm.swap new head _)
    exact hperm.nodup_iff.mpr (List.nodup_cons.mpr ⟨hnew, h.nodup⟩)

/-- `__list_del` of the two nodes around a stretch of a circle takes the stretch out. -/
theorem isList_delStretch {middle : List Node} (h : links.IsList head (front ++ (middle ++ back)))
    (hbefore : head :: front = left ++ [before]) (hafter : back ++ [head] = after :: right) :
    (links.delBetween before after).IsList head (front ++ back) := by
  have hsublist : (head :: (front ++ back)).Sublist (head :: (front ++ (middle ++ back))) :=
    ((List.sublist_append_right middle back).append_left front).cons_cons head
  have hnodup : (head :: (front ++ back)).Nodup := h.nodup.sublist hsublist
  have hcircle : ((left ++ [before]) ++ (middle ++ (after :: right))).IsChain links.Adjacent := by
    have := h.circle
    rwa [List.append_assoc, List.append_assoc, hafter, ← List.cons_append, hbefore] at this
  obtain ⟨hfirst, hrest, -⟩ := List.isChain_append.mp hcircle
  obtain ⟨-, hsecond, -⟩ := List.isChain_append.mp hrest
  obtain ⟨hfirst', hsecond'⟩ := isChain_of_cut (links.delBetween before after)
    hnodup hbefore hafter hfirst hsecond
    (fun x _ hne => by simp [delBetween, hne]) (fun x _ hne => by simp [delBetween, hne])
  refine ⟨?_, hnodup⟩
  rw [List.append_assoc, hafter, ← List.cons_append, hbefore, List.append_assoc]
  refine List.isChain_append_cons_cons.mpr ⟨hfirst', ?_, hsecond'⟩
  simp [Adjacent, delBetween]

/-- `__list_del` of the two neighbours of an element takes the element out. -/
theorem isList_delBetween (h : links.IsList head (front ++ node :: back))
    (hbefore : links.prev node = before) (hafter : links.next node = after) :
    (links.delBetween before after).IsList head (front ++ back) := by
  obtain ⟨left, right, hleft, hright⟩ := h.neighbours
  rw [hbefore] at hleft
  rw [hafter] at hright
  have hstretch : links.IsList head (front ++ ([node] ++ back)) := h
  exact isList_delStretch hstretch hleft hright

/-- `list_add` puts the node first. -/
theorem isList_add (h : links.IsList head elements) (hnew : new ∉ head :: elements) :
    (links.add new head).IsList head (new :: elements) := by
  obtain ⟨right, hright⟩ := h.first
  have hempty : links.IsList head ([] ++ elements) := h
  exact isList_addBetween hempty hnew (List.nil_append [head]).symm hright

/-- `list_add_tail` puts the node last. -/
theorem isList_addTail (h : links.IsList head elements) (hnew : new ∉ head :: elements) :
    (links.addTail new head).IsList head (elements ++ [new]) := by
  obtain ⟨left, hleft⟩ := h.last
  have hempty : links.IsList head (elements ++ []) := by rwa [List.append_nil]
  exact isList_addBetween hempty (by rwa [List.append_nil]) hleft (List.nil_append [head])

/-- `list_add` at an element puts the new node behind that element. -/
theorem isList_add_behind (h : links.IsList head (front ++ node :: back))
    (hnew : new ∉ head :: (front ++ node :: back)) :
    (links.add new node).IsList head (front ++ node :: new :: back) := by
  obtain ⟨-, right, -, hright⟩ := h.neighbours
  have hsplit : front ++ node :: back = (front ++ [node]) ++ back := by simp
  rw [hsplit] at h hnew
  have := isList_addBetween h hnew (List.cons_append).symm hright
  simpa [add] using this

/-- `list_del` takes the element out. -/
theorem isList_del (h : links.IsList head (front ++ node :: back)) :
    (links.del node).IsList head (front ++ back) :=
  isList_delBetween h rfl rfl

/-! ## What the operations do to the other circles -/

/-- `__list_add` between two nodes off the circle leaves it alone. -/
theorem IsList.addBetween_off (h : links.IsList head elements) (hnew : new ∉ head :: elements)
    (hbefore : before ∉ head :: elements) (hafter : after ∉ head :: elements) :
    (links.addBetween new before after).IsList head elements := by
  refine h.congr (fun x hx => ?_) (fun x hx => ?_)
  · have hxbefore : x ≠ before := ne_of_mem_of_not_mem hx hbefore
    have hxnew : x ≠ new := ne_of_mem_of_not_mem hx hnew
    simp [addBetween, hxbefore, hxnew]
  · have hxafter : x ≠ after := ne_of_mem_of_not_mem hx hafter
    have hxnew : x ≠ new := ne_of_mem_of_not_mem hx hnew
    simp [addBetween, hxafter, hxnew]

/-- `__list_del` of two nodes off the circle leaves it alone. -/
theorem IsList.delBetween_off (h : links.IsList head elements)
    (hbefore : before ∉ head :: elements) (hafter : after ∉ head :: elements) :
    (links.delBetween before after).IsList head elements := by
  refine h.congr (fun x hx => ?_) (fun x hx => ?_)
  · have hxbefore : x ≠ before := ne_of_mem_of_not_mem hx hbefore
    simp [delBetween, hxbefore]
  · have hxafter : x ≠ after := ne_of_mem_of_not_mem hx hafter
    simp [delBetween, hxafter]

variable {otherHead : Node} {others : List Node}

/-- `list_del` of an element of one list leaves a disjoint one alone. -/
theorem IsList.del_off (h : links.IsList otherHead others)
    (hlist : links.IsList head (front ++ node :: back))
    (hdisjoint : (head :: (front ++ node :: back)).Disjoint (otherHead :: others)) :
    (links.del node).IsList otherHead others := by
  obtain ⟨hprev, hnext⟩ := hlist.neighbours_mem
  refine h.delBetween_off (hdisjoint ?_) (hdisjoint ?_) <;> grind

/-- `list_add_tail` to one list leaves a disjoint one alone. -/
theorem IsList.addTail_off (h : links.IsList otherHead others)
    (hlist : links.IsList head elements)
    (hdisjoint : (head :: elements).Disjoint (otherHead :: others))
    (hnew : new ∉ otherHead :: others) :
    (links.addTail new head).IsList otherHead others := by
  obtain ⟨left, hleft⟩ := hlist.last
  have hlast : links.prev head ∈ head :: elements := by rw [hleft]; simp
  exact h.addBetween_off hnew (hdisjoint hlast) (hdisjoint (by simp))

/-- `list_add` behind an element of one list leaves a disjoint one alone. -/
theorem IsList.add_off (h : links.IsList otherHead others)
    (hlist : links.IsList head elements) (hnode : node ∈ head :: elements)
    (hdisjoint : (head :: elements).Disjoint (otherHead :: others))
    (hnew : new ∉ otherHead :: others) :
    (links.add new node).IsList otherHead others := by
  have hnext : links.next node ∈ head :: elements := by
    rcases List.mem_cons.mp hnode with rfl | hmem
    · obtain ⟨right, hright⟩ := hlist.first
      have : links.next node ∈ elements ++ [node] := by rw [hright]; simp
      grind
    · obtain ⟨front, back, rfl⟩ := List.append_of_mem hmem
      have := hlist.neighbours_mem
      grind
  exact h.addBetween_off hnew (hdisjoint hnode) (hdisjoint hnext)

/-! ## Moving an element through a copy of its pointers

`list_add_tail(&element->head, target)` on an element that is still linked, and then `list_del`
of a copy of the element taken earlier: the copy's pointers are the only record of where the
element was. -/

/-- Link the element to the end of another list, then close the gap at the remembered
neighbours. -/
def moveSnapshot (links : Links Node) (node target before after : Node) : Links Node :=
  (links.addTail node target).delBetween before after

/-- When the remembered neighbours are neither the element nor the nodes it is linked to, closing
the gap first makes no difference. -/
theorem moveSnapshot_comm (hbeforenode : before ≠ node) (hafternode : after ≠ node)
    (hbeforelast : before ≠ links.prev head) (hafterhead : after ≠ head) :
    links.moveSnapshot node head before after =
      (links.delBetween before after).addTail node head := by
  simp only [moveSnapshot, addTail, delBetween, addBetween, Links.mk.injEq]
  rw [Function.update_of_ne hafterhead.symm]
  constructor
  · rw [Function.update_comm hbeforelast.symm, Function.update_comm hbeforenode.symm]
  · rw [Function.update_comm hafternode.symm, Function.update_comm hafterhead.symm]

end Links
end KernelList
