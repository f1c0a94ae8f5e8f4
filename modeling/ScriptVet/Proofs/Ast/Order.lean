import Mathlib.Data.List.Basic
import ScriptVet.Proofs.Ast.Search

/-!
The order of a search. Two nodes of a tree may be the same as values, so a node is told from the others
by its address, the way down to it from the root. Listed level by level, the addresses ascend first by
length and then from left to right, which leaves no room for repetition. A visitor that stops cuts this
list behind the first node at which it stops.
-/

namespace ScriptVet.Ast.Node

/-- The node at an address, which has one place among the children for each step down. -/
def at? : Node → List Nat → Option Node
  | n, [] => some n
  | n, i :: path => n.children[i]?.bind fun c => c.at? path

theorem at?_append (n : Node) (p q : List Nat) : n.at? (p ++ q) = (n.at? p).bind (·.at? q) := by
  induction p generalizing n with
  | nil => rfl
  | cons i p ih =>
    rw [List.cons_append, at?, at?]
    cases n.children[i]? with
    | none => rfl
    | some c => exact ih c

theorem at?_concat (n : Node) (p : List Nat) (i : Nat) :
    n.at? (p ++ [i]) = (n.at? p).bind (·.children[i]?) := by
  have hstep (m : Node) : m.at? [i] = m.children[i]? := by
    rw [at?]
    cases m.children[i]? <;> rfl
  rw [at?_append]
  exact congrArg _ (funext hstep)

/-- The addresses of the children of the node at an address. -/
def childAddresses (root : Node) (p : List Nat) : List (List Nat) :=
  match root.at? p with
  | some n => (List.range n.children.length).map fun i => p ++ [i]
  | none => []

/-- The addresses of a level, from left to right. -/
def addresses (root : Node) : Nat → List (List Nat)
  | 0 => [[]]
  | depth + 1 => (addresses root depth).flatMap root.childAddresses

theorem mem_childAddresses {root : Node} {p q : List Nat} :
    q ∈ root.childAddresses p ↔ ∃ n i, root.at? p = some n ∧ i < n.children.length ∧ q = p ++ [i] := by
  rw [childAddresses]
  cases root.at? p <;> simp [eq_comm]

theorem mem_addresses {root : Node} {depth : Nat} {p : List Nat} :
    p ∈ root.addresses depth ↔ p.length = depth ∧ (root.at? p).isSome := by
  induction depth generalizing p with
  | zero =>
    rw [addresses, List.mem_singleton, List.length_eq_zero_iff]
    constructor
    · intro h
      obtain rfl := h
      exact ⟨rfl, rfl⟩
    · intro h
      exact h.1
  | succ depth ih =>
    rw [addresses, List.mem_flatMap]
    constructor
    · intro h
      obtain ⟨q, hq, hp⟩ := h
      obtain ⟨n, i, hn, hi, rfl⟩ := mem_childAddresses.mp hp
      rw [at?_concat, hn, List.length_append, (ih.mp hq).1]
      simp [hi]
    · intro h
      obtain ⟨hlen, hsome⟩ := h
      rcases List.eq_nil_or_concat p with rfl | ⟨q, i, rfl⟩
      · cases hlen
      · rw [List.concat_eq_append] at hlen hsome ⊢
        rw [at?_concat, Option.isSome_bind, Option.any_eq_true] at hsome
        obtain ⟨n, hn, hi⟩ := hsome
        have hq : q ∈ root.addresses depth := ih.mpr ⟨by simpa using hlen, by simp [hn]⟩
        exact ⟨q, hq, mem_childAddresses.mpr ⟨n, i, hn, by simpa using hi, rfl⟩⟩

theorem map_at?_childAddresses (root : Node) (p : List Nat) :
    (root.childAddresses p).map root.at? =
      (root.at? p).toList.flatMap fun n => n.children.map some := by
  rw [childAddresses]
  cases hp : root.at? p with
  | none => rfl
  | some n =>
    have hplace (i : Nat) : root.at? (p ++ [i]) = n.children[i]? := by
      rw [at?_concat, hp, Option.bind_some]
    have hrange : (List.range n.children.length).map (n.children[·]?) = n.children.map some := by
      refine List.ext_getElem (by simp) fun i hi _ => ?_
      simp at hi
      simp [hi]
    simp [List.map_map, Function.comp_def, hplace, hrange]

/-- The addresses of a level belong to its nodes, one to each. -/
theorem map_at?_addresses (root : Node) (depth : Nat) :
    (root.addresses depth).map root.at? = (root.level depth).map some := by
  induction depth with
  | zero => rfl
  | succ depth ih =>
    calc ((root.addresses depth).flatMap root.childAddresses).map root.at?
        = ((root.addresses depth).map root.at?).flatMap
            fun found => found.toList.flatMap fun n => n.children.map some := by
          rw [List.map_flatMap, List.flatMap_map]
          exact List.flatMap_congr fun p _ => map_at?_childAddresses root p
      _ = ((root.level depth).flatMap (·.children)).map some := by
          rw [ih, List.flatMap_map, List.map_flatMap]
          simp

theorem concat_lt_concat_of_lt {p q : List Nat} (hlen : p.length = q.length) (h : p < q) (i j : Nat) :
    p ++ [i] < q ++ [j] := by
  induction p generalizing q with
  | nil =>
    rw [List.length_eq_zero_iff.mp hlen.symm] at h
    exact absurd h (List.lt_irrefl [])
  | cons a p ih =>
    cases q with
    | nil => cases hlen
    | cons b q =>
      rw [List.cons_append, List.cons_append]
      rcases List.cons_lt_cons_iff.mp h with hlt | ⟨rfl, hlt⟩
      · exact List.cons_lt_cons_iff.mpr (.inl hlt)
      · exact List.cons_lt_cons_iff.mpr (.inr ⟨rfl, ih (Nat.succ.inj hlen) hlt⟩)

theorem pairwise_addresses (root : Node) (depth : Nat) :
    (root.addresses depth).Pairwise (· < ·) := by
  induction depth with
  | zero => exact List.pairwise_singleton _ _
  | succ depth ih =>
    rw [addresses, List.pairwise_flatMap]
    constructor
    · intro p _
      rw [childAddresses]
      split
      · rw [List.pairwise_map]
        refine List.pairwise_lt_range.imp fun {i j} hij => List.append_left_lt ?_
        exact List.cons_lt_cons_iff.mpr (.inl hij)
      · exact .nil
    · refine ih.imp_of_mem fun {p q} hp hq hlt a ha b hb => ?_
      obtain ⟨_, i, -, -, rfl⟩ := mem_childAddresses.mp ha
      obtain ⟨_, j, -, -, rfl⟩ := mem_childAddresses.mp hb
      have hlen : p.length = q.length := (mem_addresses.mp hp).1.trans (mem_addresses.mp hq).1.symm
      exact concat_lt_concat_of_lt hlen hlt i j

/-- A shorter address comes sooner, and of two that are as long, the one that turns left first. -/
def Sooner (p q : List Nat) : Prop := p.length < q.length ∨ p.length = q.length ∧ p < q

/-- All addresses of a tree, level by level. -/
def allAddresses (root : Node) : List (List Nat) := (List.range root.size).flatMap root.addresses

theorem map_at?_allAddresses (root : Node) :
    root.allAddresses.map root.at? = root.byLevel.map some := by
  rw [allAddresses, byLevel, List.map_flatMap, List.map_flatMap]
  exact List.flatMap_congr fun depth _ => map_at?_addresses root depth

theorem pairwise_allAddresses (root : Node) : root.allAddresses.Pairwise Sooner := by
  rw [allAddresses, List.pairwise_flatMap]
  constructor
  · intro depth _
    refine (pairwise_addresses root depth).imp_of_mem fun {p q} hp hq hlt => .inr ⟨?_, hlt⟩
    exact (mem_addresses.mp hp).1.trans (mem_addresses.mp hq).1.symm
  · refine List.pairwise_lt_range.imp fun {i j} hij p hp q hq => .inl ?_
    rw [(mem_addresses.mp hp).1, (mem_addresses.mp hq).1]
    exact hij

theorem mem_allAddresses {root : Node} {p : List Nat} :
    p ∈ root.allAddresses ↔ (root.at? p).isSome := by
  rw [allAddresses, List.mem_flatMap]
  constructor
  · intro h
    obtain ⟨depth, -, hp⟩ := h
    exact (mem_addresses.mp hp).2
  · intro hsome
    have hp : p ∈ root.addresses p.length := mem_addresses.mpr ⟨rfl, hsome⟩
    refine ⟨p.length, List.mem_range.mpr ?_, hp⟩
    by_contra hdeep
    have hempty : (root.addresses p.length).map root.at? = [] := by
      rw [map_at?_addresses, level_eq_nil (Nat.le_of_not_lt hdeep), List.map_nil]
    rw [List.map_eq_nil_iff.mp hempty] at hp
    exact List.not_mem_nil hp

/-- Every node is on one level. -/
theorem length_byLevel (root : Node) : root.byLevel.length = root.size := by
  have hcount (depth : Nat) :
      ((List.range depth).flatMap root.level).length + totalSize (root.level depth) = root.size := by
    induction depth with
    | zero => simp [level, totalSize]
    | succ depth ih =>
      have hsplit := totalSize_children (root.level depth)
      rw [List.range_succ, List.flatMap_append, List.flatMap_singleton, List.length_append, level]
      omega
  have hlast := hcount root.size
  rw [level_eq_nil (Nat.le_refl _)] at hlast
  exact hlast

section Visiting

variable {σ : Type} (visit : σ → Node → σ × Bool)

/-- The state after all of the nodes, whatever the visitor says. -/
def stateAfter (s : σ) (ns : List Node) : σ := ns.foldl (fun s n => (visit s n).1) s

/-- The visitor that also writes down the nodes that it visits. -/
def recorded (s : σ × List Node) (n : Node) : (σ × List Node) × Bool :=
  (((visit s.1 n).1, s.2 ++ [n]), (visit s.1 n).2)

/-- The nodes up to the first one at which the visitor stops. -/
def visited (s : σ) : List Node → List Node
  | [] => []
  | n :: ns => n :: if (visit s n).2 then visited (visit s n).1 ns else []

/-- The visitor stops at the last one of the nodes. -/
def StopsBehind (s : σ) (ns : List Node) : Prop :=
  ∃ front n, ns = front ++ [n] ∧ (visit (stateAfter visit s front) n).2 = false

theorem visitAll_eq_stateAfter (s : σ) (ns : List Node) :
    (visitAll visit s ns).1 = stateAfter visit s (visited visit s ns) := by
  induction ns generalizing s with
  | nil => rfl
  | cons n ns ih =>
    rw [visitAll, visited]
    split
    · exact ih _
    · rfl

theorem visitAll_recorded (s : σ) (seen ns : List Node) :
    (visitAll (recorded visit) (s, seen) ns).1 =
      ((visitAll visit s ns).1, seen ++ visited visit s ns) := by
  induction ns generalizing s seen with
  | nil => simp [visitAll, visited]
  | cons n ns ih =>
    have hstep : recorded visit (s, seen) n = (((visit s n).1, seen ++ [n]), (visit s n).2) := rfl
    rw [visitAll, visitAll, visited, hstep]
    cases (visit s n).2 with
    | false => rfl
    | true =>
      rw [if_pos rfl, if_pos rfl, if_pos rfl, ih, List.append_assoc]
      rfl

theorem not_stopsBehind_nil (s : σ) : ¬StopsBehind visit s [] := by
  intro h
  obtain ⟨front, n, hnil, -⟩ := h
  simp at hnil

theorem stopsBehind_cons {s : σ} {n : Node} {ns : List Node} :
    StopsBehind visit s (n :: ns) ↔
      ns = [] ∧ (visit s n).2 = false ∨ StopsBehind visit (visit s n).1 ns := by
  constructor
  · intro h
    obtain ⟨front, last, hsplit, hstop⟩ := h
    cases front with
    | nil =>
      obtain ⟨rfl, rfl⟩ := List.cons.inj hsplit
      exact .inl ⟨rfl, hstop⟩
    | cons m front =>
      obtain ⟨rfl, rfl⟩ := List.cons.inj hsplit
      exact .inr ⟨front, last, rfl, hstop⟩
  · intro h
    rcases h with ⟨rfl, hstop⟩ | ⟨front, last, rfl, hstop⟩
    · exact ⟨[], n, rfl, hstop⟩
    · exact ⟨n :: front, last, rfl, hstop⟩

/-- Of `ns`, the visitor visits the shortest beginning at whose last node it stops, or all of it where
there is no such beginning. -/
inductive Cuts (s : σ) (ns : List Node) : List Node → Prop where
  | stopped {front : List Node} : front <+: ns → StopsBehind visit s front →
      (∀ p, p <+: ns → StopsBehind visit s p → front.length ≤ p.length) → Cuts s ns front
  | exhausted : (∀ p, p <+: ns → ¬StopsBehind visit s p) → Cuts s ns ns

theorem cuts_visited (s : σ) (ns : List Node) : Cuts visit s ns (visited visit s ns) := by
  induction ns generalizing s with
  | nil =>
    refine .exhausted fun p hp => ?_
    rw [List.prefix_nil.mp hp]
    exact not_stopsBehind_nil visit s
  | cons n ns ih =>
    cases hgo : (visit s n).2 with
    | false =>
      have hvisited : visited visit s (n :: ns) = [n] := by simp [visited, hgo]
      rw [hvisited]
      refine .stopped (List.cons_prefix_cons.mpr ⟨rfl, List.nil_prefix⟩)
        ((stopsBehind_cons visit).mpr (.inl ⟨rfl, hgo⟩)) fun p _ hstop => ?_
      cases p with
      | nil => exact absurd hstop (not_stopsBehind_nil visit s)
      | cons m p => exact Nat.succ_le_succ (Nat.zero_le _)
    | true =>
      have hvisited : visited visit s (n :: ns) = n :: visited visit (visit s n).1 ns := by
        simp [visited, hgo]
      -- no beginning of one node stops the visitor, so the first node plays no part
      have hstep (p : List Node) (hp : p <+: n :: ns) (hstop : StopsBehind visit s p) :
          ∃ rest, p = n :: rest ∧ rest <+: ns ∧ StopsBehind visit (visit s n).1 rest := by
        rcases List.prefix_cons_iff.mp hp with rfl | ⟨rest, rfl, hrest⟩
        · exact absurd hstop (not_stopsBehind_nil visit s)
        · refine ⟨rest, rfl, hrest, ((stopsBehind_cons visit).mp hstop).resolve_left fun h => ?_⟩
          rw [hgo] at h
          exact Bool.false_ne_true h.2.symm
      have hrest : Cuts visit (visit s n).1 ns (visited visit (visit s n).1 ns) := ih _
      rw [hvisited]
      generalize visited visit (visit s n).1 ns = front at hrest
      cases hrest with
      | stopped hprefix hstop hleast =>
        refine .stopped (List.cons_prefix_cons.mpr ⟨rfl, hprefix⟩)
          ((stopsBehind_cons visit).mpr (.inr hstop)) fun p hp hp' => ?_
        obtain ⟨rest, rfl, hrest, hstop'⟩ := hstep p hp hp'
        exact Nat.succ_le_succ (hleast rest hrest hstop')
      | exhausted hnone =>
        refine .exhausted fun p hp hp' => ?_
        obtain ⟨rest, rfl, hrest, hstop⟩ := hstep p hp hp'
        exact hnone rest hrest hstop

theorem visited_of_goesOn (f : σ → Node → σ) (s : σ) (ns : List Node) :
    visited (fun s n => (f s n, true)) s ns = ns := by
  induction ns generalizing s with
  | nil => rfl
  | cons n ns ih => rw [visited, if_pos rfl, ih]

theorem walk_eq_stateAfter (root : Node) (s : σ) :
    root.walk visit s = stateAfter visit s (visited visit s root.byLevel) := by
  rw [walk_eq_visitAll, visitAll_eq_stateAfter]

/-- What the visitor has written down after a search. -/
theorem walk_recorded (root : Node) (s : σ) :
    root.walk (recorded visit) (s, []) =
      (root.walk visit s, visited visit s root.byLevel) := by
  rw [walk_eq_visitAll, visitAll_recorded, walk_eq_visitAll, List.nil_append]

end Visiting

/-- A search goes through the levels of a tree one after the other, each from left to right. The levels
hold each node of the tree once, told apart by addresses. A visitor that always goes on visits them
all, and any other one the shortest beginning at whose last node it stops; its state is made by the
nodes that it visits, in this order. Collecting the nodes of a kind picks them from this order, and
finding one gives the first of them. -/
theorem walk_level_order (root : Node) :
    (∀ depth, root.size ≤ depth → root.level depth = []) ∧
    root.byLevel.length = root.size ∧
    (∃ addresses : List (List Nat), addresses.map root.at? = root.byLevel.map some ∧
      addresses.Pairwise Sooner ∧ ∀ p, p ∈ addresses ↔ (root.at? p).isSome) ∧
    (∀ {σ : Type} (f : σ → Node → σ) (s : σ),
      root.walk (recorded fun s n => (f s n, true)) (s, []) =
        (root.byLevel.foldl f s, root.byLevel)) ∧
    (∀ {σ : Type} (visit : σ → Node → σ × Bool) (s : σ),
      ∃ nodes, Cuts visit s root.byLevel nodes ∧
        root.walk visit s = stateAfter visit s nodes ∧
        root.walk (recorded visit) (s, []) = (root.walk visit s, nodes)) ∧
    ∀ kind, root.findAll (·.kind = kind) = root.byLevel.filter (·.kind = kind) ∧
      root.find? (·.kind = kind) = (root.findAll (·.kind = kind)).head? := by
  refine ⟨fun _ => level_eq_nil, length_byLevel root, ?_, ?_, ?_, ?_⟩
  · exact ⟨root.allAddresses, map_at?_allAddresses root, pairwise_allAddresses root,
      fun _ => mem_allAddresses⟩
  · intro σ f s
    rw [walk_recorded, walk_eq_stateAfter, visited_of_goesOn]
    rfl
  · intro σ visit s
    exact ⟨visited visit s root.byLevel, cuts_visited visit s _, walk_eq_stateAfter visit root s,
      walk_recorded visit root s⟩
  · intro kind
    rw [findAll_eq, find?_eq, List.head?_filter]
    exact ⟨rfl, rfl⟩

end ScriptVet.Ast.Node
