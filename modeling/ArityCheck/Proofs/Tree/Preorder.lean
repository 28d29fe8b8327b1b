import ArityCheck.Tree.Cursor

/-! Pre-order, by recursion on the tree and by the steps of a cursor.

`Tree.preorder` lists the nodes of a tree by recursion: a node, then what lies below each of its
children in turn. A cursor has no recursion to follow; it goes down where it can, else to the
right, else up until it can go to the right. `walk_eq_preorder` says that both give the same list,
and `after_eq_getElem?` that the steps stop right at its end.

A node is told by its address, the indices of the children on the way down. The addresses of the
walk ascend (`address_walk_sorted`) and are those of all nodes (`at?_eq_some_iff_mem_walk`), so
every node is passed once, and before all that lies below it. -/
namespace ArityCheck

namespace Tree

mutual

/-- The nodes of a tree in pre-order, each with the way down to it. -/
def preorder (start : Position) (path : List Crumb) : Tree → List Cursor
  | .leaf r k token => [⟨.leaf r k token, start, path⟩]
  | .node r k cs => ⟨.node r k cs, start, path⟩ :: preorderAmong r k start path start [] cs

/-- The nodes at and below the children of a node, from one child on. `before` are the children
to the left of it, the nearest first. -/
def preorderAmong (r : Option Role) (k : Kind) (top : Position) (up : List Crumb)
    (start : Position) (before : List Tree) : List Tree → List Cursor
  | [] => []
  | t :: ts =>
    t.preorder start (⟨r, k, top, before, ts⟩ :: up) ++
      preorderAmong r k top up (start.advance t.fullText) (t :: before) ts

end

mutual

/-- The nodes of a tree in pre-order, each with its address. -/
def located : Tree → List (List Nat × Tree)
  | .leaf r k token => [([], .leaf r k token)]
  | .node r k cs => ([], .node r k cs) :: locatedAmong 0 cs

def locatedAmong (i : Nat) : List Tree → List (List Nat × Tree)
  | [] => []
  | t :: ts => t.located.map (fun e => (i :: e.1, e.2)) ++ locatedAmong (i + 1) ts

end

/-- The node at an address. -/
def at? (t : Tree) : List Nat → Option Tree
  | [] => some t
  | i :: address => t.children[i]?.bind (·.at? address)

theorem length_preorderAmong {ts : List Tree} (r : Option Role) (k : Kind) (top : Position)
    (up : List Crumb) (start : Position) (before : List Tree)
    (ih : ∀ t ∈ ts, ∀ start path, (t.preorder start path).length = t.size) :
    (preorderAmong r k top up start before ts).length = sizes ts := by
  induction ts generalizing start before with
  | nil => rfl
  | cons t ts ihts =>
    rw [preorderAmong, List.length_append, ih t List.mem_cons_self,
      ihts _ _ fun t ht => ih t (List.mem_cons_of_mem _ ht), sizes]

theorem length_preorder (t : Tree) (start : Position) (path : List Crumb) :
    (t.preorder start path).length = t.size := by
  induction t using Tree.induction generalizing start path with
  | leaf r k token => rfl
  | node r k cs ih =>
    rw [preorder, List.length_cons, length_preorderAmong _ _ _ _ _ _ ih, size, Nat.add_comm]

/-! ### Addresses -/

theorem at?_of_mem_locatedAmong {i : Nat} {ts : List Tree} {e : List Nat × Tree}
    (ih : ∀ t ∈ ts, ∀ e ∈ t.located, t.at? e.1 = some e.2) (h : e ∈ locatedAmong i ts) :
    ∃ j a, e.1 = (i + j) :: a ∧ ts[j]?.bind (·.at? a) = some e.2 := by
  induction ts generalizing i with
  | nil => cases h
  | cons t ts ihts =>
    rw [locatedAmong] at h
    rcases List.mem_append.mp h with h | h
    · obtain ⟨e', he', rfl⟩ := List.mem_map.mp h
      exact ⟨0, e'.1, rfl, ih t List.mem_cons_self e' he'⟩
    · obtain ⟨j, a, ha, hat⟩ := ihts (fun t ht => ih t (List.mem_cons_of_mem _ ht)) h
      refine ⟨j + 1, a, ?_, hat⟩
      rw [ha]
      congr 1
      omega

theorem at?_of_mem_located (t : Tree) : ∀ e ∈ t.located, t.at? e.1 = some e.2 := by
  induction t using Tree.induction with
  | leaf r k token =>
    intro e he
    obtain rfl := List.mem_singleton.mp he
    rfl
  | node r k cs ih =>
    intro e he
    rw [located] at he
    rcases List.mem_cons.mp he with rfl | he
    · rfl
    · obtain ⟨j, a, ha, hat⟩ := at?_of_mem_locatedAmong ih he
      rw [ha, Nat.zero_add]
      exact hat

theorem mem_locatedAmong {ts : List Tree} {j : Nat} {t : Tree} {e : List Nat × Tree} (i : Nat)
    (ht : ts[j]? = some t) (he : e ∈ t.located) : ((i + j) :: e.1, e.2) ∈ locatedAmong i ts := by
  induction ts generalizing i j with
  | nil => cases ht
  | cons t' ts ih =>
    rw [locatedAmong]
    cases j with
    | zero =>
      obtain rfl := Option.some.inj ht
      exact List.mem_append_left _ (List.mem_map.mpr ⟨e, he, rfl⟩)
    | succ j =>
      apply List.mem_append_right
      have h := ih (i + 1) (j := j) (by simpa using ht)
      rwa [show i + 1 + j = i + (j + 1) by omega] at h

theorem mem_located {t n : Tree} {address : List Nat} (h : t.at? address = some n) :
    (address, n) ∈ t.located := by
  induction address generalizing t with
  | nil =>
    obtain rfl := Option.some.inj h
    cases t <;> exact List.mem_cons_self
  | cons i address ih =>
    obtain ⟨c, hc, hn⟩ := Option.bind_eq_some_iff.mp h
    cases t with
    | leaf r k token => cases hc
    | node r k cs =>
      rw [located]
      apply List.mem_cons_of_mem
      have := mem_locatedAmong 0 hc (ih hn)
      rwa [Nat.zero_add] at this

/-- The list by recursion holds exactly the nodes that have an address. -/
theorem mem_located_iff {t n : Tree} {address : List Nat} :
    (address, n) ∈ t.located ↔ t.at? address = some n :=
  ⟨at?_of_mem_located t _, mem_located⟩

/-- Addresses below the children from the `i`-th on begin with at least `i`. -/
theorem le_of_mem_locatedAmong {i : Nat} {ts : List Tree} {e : List Nat × Tree}
    (h : e ∈ locatedAmong i ts) : ∃ j a, i ≤ j ∧ e.1 = j :: a := by
  obtain ⟨j, a, ha, -⟩ := at?_of_mem_locatedAmong (fun t _ => at?_of_mem_located t) h
  exact ⟨i + j, a, Nat.le_add_right i j, ha⟩

theorem locatedAmong_sorted {ts : List Tree} (i : Nat)
    (ih : ∀ t ∈ ts, t.located.Pairwise fun d e => d.1 < e.1) :
    (locatedAmong i ts).Pairwise fun d e => d.1 < e.1 := by
  induction ts generalizing i with
  | nil => exact List.Pairwise.nil
  | cons t ts ihts =>
    rw [locatedAmong]
    have htail := ihts (i + 1) fun t ht => ih t (List.mem_cons_of_mem _ ht)
    refine List.pairwise_append.mpr ⟨?_, htail, ?_⟩
    · rw [List.pairwise_map]
      refine (ih t List.mem_cons_self).imp fun h => ?_
      exact List.cons_lt_cons_iff.mpr (.inr ⟨rfl, h⟩)
    · intro d hd e he
      obtain ⟨d', -, rfl⟩ := List.mem_map.mp hd
      obtain ⟨j, a, hj, ha⟩ := le_of_mem_locatedAmong he
      rw [ha]
      exact List.cons_lt_cons_iff.mpr (.inl (by omega))

/-- The addresses ascend: a node comes before what lies below it, and what lies below one child
before what lies below the next. -/
theorem located_sorted (t : Tree) : t.located.Pairwise fun d e => d.1 < e.1 := by
  induction t using Tree.induction with
  | leaf r k token => exact List.pairwise_singleton _ _
  | node r k cs ih =>
    rw [located]
    refine List.pairwise_cons.mpr ⟨fun e he => ?_, locatedAmong_sorted 0 ih⟩
    obtain ⟨j, a, -, ha⟩ := le_of_mem_locatedAmong he
    rw [ha]
    exact List.nil_lt_cons j a

end Tree

/-! ### The steps of a cursor -/

/-- The parent of a node, put together again. -/
def Crumb.parent (crumb : Crumb) (t : Tree) : Tree :=
  .node crumb.role crumb.kind (crumb.before.reverse ++ t :: crumb.after)

namespace Cursor

/-- The nodes after all that lies below a node, in pre-order: those below its siblings to the
right, then those after its parent. -/
def beyond (t : Tree) (start : Position) : List Crumb → List Cursor
  | [] => []
  | crumb :: up =>
    Tree.preorderAmong crumb.role crumb.kind crumb.start up (start.advance t.fullText)
        (t :: crumb.before) crumb.after ++
      beyond (crumb.parent t) crumb.start up

/-- The nodes from a cursor on, in pre-order. -/
def onward (c : Cursor) : List Cursor :=
  c.focus.preorder c.start c.path ++ beyond c.focus c.start c.path

theorem onward_firstChild? {c d : Cursor} (h : c.firstChild? = some d) :
    c.onward = c :: d.onward := by
  obtain ⟨t, start, path⟩ := c
  match t with
  | .leaf r k token => cases h
  | .node r k [] => cases h
  | .node r k (t :: ts) =>
    obtain rfl := Option.some.inj h
    simp only [onward, Tree.preorder, Tree.preorderAmong, beyond, Crumb.parent, List.reverse_nil,
      List.nil_append, List.cons_append, List.append_assoc]

/-- Without a first child there is nothing below the node. -/
theorem onward_of_firstChild?_eq_none {c : Cursor} (h : c.firstChild? = none) :
    c.onward = c :: beyond c.focus c.start c.path := by
  obtain ⟨t, start, path⟩ := c
  match t with
  | .leaf r k token => rfl
  | .node r k [] => rfl
  | .node r k (t :: ts) => cases h

theorem beyond_nextSibling? {c d : Cursor} (h : c.nextSibling? = some d) :
    beyond c.focus c.start c.path = d.onward := by
  obtain ⟨t, start, path⟩ := c
  match path with
  | [] => cases h
  | ⟨r, k, top, before, []⟩ :: up => cases h
  | ⟨r, k, top, before, t' :: ts⟩ :: up =>
    obtain rfl := Option.some.inj h
    simp only [onward, beyond, Tree.preorderAmong, Crumb.parent, List.reverse_cons,
      List.append_assoc, List.singleton_append]

theorem beyond_parent? {c p : Cursor} (hs : c.nextSibling? = none) (hp : c.parent? = some p) :
    beyond c.focus c.start c.path = beyond p.focus p.start p.path := by
  obtain ⟨t, start, path⟩ := c
  match path with
  | [] => cases hp
  | ⟨r, k, top, before, []⟩ :: up =>
    obtain rfl := Option.some.inj hp
    rfl
  | ⟨r, k, top, before, t' :: ts⟩ :: up => cases hs

/-- Climbing finds the first of the nodes beyond. -/
theorem beyond_eq_climb (c : Cursor) :
    beyond c.focus c.start c.path = (c.climb.map onward).getD [] := by
  fun_induction climb c with
  | case1 c d hs =>
    rw [beyond_nextSibling? hs]
    rfl
  | case2 c _ hp =>
    obtain ⟨t, start, path⟩ := c
    cases path with
    | nil => rfl
    | cons crumb up => cases hp
  | case3 c hs p hp ih => rw [beyond_parent? hs hp, ih]

/-- **One step goes to the next node of the list**, and there is none where the list ends. -/
theorem onward_eq_next (c : Cursor) : c.onward = c :: (c.next.map onward).getD [] := by
  unfold next
  split
  next d hd => exact onward_firstChild? hd
  next hd => rw [onward_of_firstChild?_eq_none hd, beyond_eq_climb]

theorem walkOn_eq_onward (c : Cursor) (done : List Cursor) :
    c.walkOn done = done.reverse ++ c.onward := by
  fun_induction walkOn c done with
  | case1 c done h =>
    rw [onward_eq_next, h]
    simp
  | case2 c done d h ih =>
    rw [ih, onward_eq_next c, h]
    simp

/-- The cursor after `n` steps, if the walk goes that far. -/
def after : Nat → Cursor → Option Cursor
  | 0, c => some c
  | n + 1, c => c.next.bind (after n)

theorem after_eq_getElem?_onward (n : Nat) (c : Cursor) : c.after n = c.onward[n]? := by
  induction n generalizing c with
  | zero =>
    rw [onward_eq_next]
    rfl
  | succ n ih =>
    rw [onward_eq_next, after, List.getElem?_cons_succ]
    cases c.next with
    | none => rfl
    | some d => exact ih d

theorem onward_ofTree (t : Tree) : (ofTree t).onward = t.preorder .origin [] := by
  rw [onward, ofTree, beyond, List.append_nil]

/-- **The walk is the recursive pre-order**, however deep the tree is. -/
theorem walk_eq_preorder (t : Tree) : (ofTree t).walk = t.preorder .origin [] := by
  rw [walk, walkOn_eq_onward, onward_ofTree]
  rfl

/-- After `n` steps the cursor is at the `n`-th node, and past the last one there is none. -/
theorem after_eq_getElem? (n : Nat) (t : Tree) :
    (ofTree t).after n = (t.preorder .origin [])[n]? := by
  rw [after_eq_getElem?_onward, onward_ofTree]

/-- The walk ends after as many steps as there are nodes. -/
theorem after_eq_none_iff (n : Nat) (t : Tree) : (ofTree t).after n = none ↔ t.size ≤ n := by
  rw [after_eq_getElem?, List.getElem?_eq_none_iff, Tree.length_preorder]

/-! ### Where the steps lead -/

/-- The indices of the children that a path leads through. -/
def addressOf (path : List Crumb) : List Nat := (path.map (·.before.length)).reverse

/-- The indices of the children on the way down to the node. -/
def address (c : Cursor) : List Nat := addressOf c.path

theorem addressOf_cons (crumb : Crumb) (up : List Crumb) :
    addressOf (crumb :: up) = addressOf up ++ [crumb.before.length] := by
  simp [addressOf]

end Cursor

namespace Tree

open Cursor (addressOf addressOf_cons)

theorem preorderAmong_located {ts : List Tree} (r : Option Role) (k : Kind) (top : Position)
    (up : List Crumb) (start : Position) (before : List Tree)
    (ih : ∀ t ∈ ts, ∀ start path, (t.preorder start path).map (fun c => (c.address, c.focus)) =
      t.located.map fun e => (addressOf path ++ e.1, e.2)) :
    (preorderAmong r k top up start before ts).map (fun c => (c.address, c.focus)) =
      (locatedAmong before.length ts).map fun e => (addressOf up ++ e.1, e.2) := by
  induction ts generalizing start before with
  | nil => rfl
  | cons t ts ihts =>
    rw [preorderAmong, locatedAmong, List.map_append, List.map_append, ih t List.mem_cons_self,
      ihts _ _ fun t ht => ih t (List.mem_cons_of_mem _ ht), List.map_map, List.length_cons]
    congr 1
    apply List.map_congr_left
    intro e _
    simp only [Function.comp_apply, addressOf_cons, List.append_assoc, List.singleton_append]

/-- The two lists by recursion pass the same nodes at the same addresses. -/
theorem preorder_located (t : Tree) (start : Position) (path : List Crumb) :
    (t.preorder start path).map (fun c => (c.address, c.focus)) =
      t.located.map fun e => (addressOf path ++ e.1, e.2) := by
  induction t using Tree.induction generalizing start path with
  | leaf r k token => simp [preorder, located, Cursor.address]
  | node r k cs ih =>
    rw [preorder, located, List.map_cons, List.map_cons, preorderAmong_located _ _ _ _ _ _ ih]
    simp [Cursor.address]

end Tree

namespace Cursor

theorem walk_located (t : Tree) :
    (ofTree t).walk.map (fun c => (c.address, c.focus)) = t.located := by
  rw [walk_eq_preorder, Tree.preorder_located]
  exact List.map_id' t.located

/-- Every node that has an address is passed, and no other. -/
theorem at?_eq_some_iff_mem_walk {t n : Tree} {a : List Nat} :
    t.at? a = some n ↔ ∃ c ∈ (ofTree t).walk, c.address = a ∧ c.focus = n := by
  rw [← Tree.mem_located_iff, ← walk_located, List.mem_map]
  simp only [Prod.mk.injEq]

/-- The addresses ascend along the walk, so no node is passed twice. -/
theorem address_walk_sorted (t : Tree) : ((ofTree t).walk.map address).Pairwise (· < ·) := by
  have h : (ofTree t).walk.map address = t.located.map Prod.fst := by
    rw [← walk_located, List.map_map]
    rfl
  rw [h, List.pairwise_map]
  exact t.located_sorted

/-- Of two nodes, the one with the lower address is passed first. A node lies below those whose
addresses begin its own, and comes after them. -/
theorem pair_sublist_walk {t : Tree} {c d : Cursor} (hc : c ∈ (ofTree t).walk)
    (hd : d ∈ (ofTree t).walk) (h : c.address < d.address) : [c, d].Sublist (ofTree t).walk := by
  obtain ⟨before, after, hwalk⟩ := List.append_of_mem hc
  have hsorted := List.pairwise_map.mp (address_walk_sorted t)
  rw [hwalk, List.pairwise_append, List.pairwise_cons] at hsorted
  rw [hwalk] at hd ⊢
  have hafter : d ∈ after := by
    rcases List.mem_append.mp hd with hd | hd
    · exact absurd h (List.lt_asymm (hsorted.2.2 d hd c List.mem_cons_self))
    · rcases List.mem_cons.mp hd with rfl | hd
      · exact absurd h (List.lt_irrefl _)
      · exact hd
  exact List.sublist_append_of_sublist_right (.cons_cons c (List.singleton_sublist.mpr hafter))

end Cursor

end ArityCheck
