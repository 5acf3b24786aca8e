import Mathlib.Tactic
import ProgramSlice.Proofs.Graph.Growth

/-!
# The order of registration

The nodes and the pairs of a graph are listed in the order in which they were first mentioned.
Growing a graph *registers* them: each is put at the end of its list, unless it is there already.
So what a sequence of changes does to the two lists is told by what the changes mention, and the
values in between need not be looked at.  New values are appended in the order of their first
mention (`foldl_register`), and a change of a graph registers what it mentions
(`nodes_alterDependency_eq`, `pairs_alterDependency_eq`).
-/

namespace ProgramSlice

section Register

variable {α ι σ : Type} [BEq α] [LawfulBEq α]

/-- Put a value at the end of a list, unless it is listed already. -/
def register (l : List α) (a : α) : List α := if a ∈ l then l else l ++ [a]

/-- **Registering one value after the other** appends those that are new, each once, in the order
of their first mention. -/
theorem foldl_register (l mentioned : List α) :
    mentioned.foldl register l = l ++ (mentioned.filter (· ∉ l)).eraseDups := by
  induction mentioned generalizing l with
  | nil => simp
  | cons a rest ih =>
      rw [List.foldl_cons, ih, register]
      by_cases ha : a ∈ l
      · rw [if_pos ha, List.filter_cons_of_neg (by simpa using ha)]
      · -- what is mentioned behind `a` is new if it is neither listed nor `a` itself
        have hrest :
            rest.filter (· ∉ l ++ [a]) = (rest.filter (· ∉ l)).filter (fun b => !b == a) := by
          rw [List.filter_filter]
          refine List.filter_congr fun b _ => ?_
          by_cases hb : b = a
          · simp [hb]
          · simp [hb]
        rw [if_neg ha, List.filter_cons_of_pos (by simpa using ha), List.eraseDups_cons, hrest,
          List.append_assoc, List.singleton_append]

/-- A list that each change grows by registering what the change mentions, is grown by a sequence
of changes by registering what all of them mention. -/
theorem foldl_register_mentioned (view : σ → List α) {change : σ → ι → σ} {mentioned : ι → List α}
    (h : ∀ s i, view (change s i) = (mentioned i).foldl register (view s)) (s : σ)
    (changes : List ι) :
    view (changes.foldl change s) = (changes.flatMap mentioned).foldl register (view s) := by
  rw [List.foldl_flatMap]
  exact (List.foldl_hom view fun s i => (h s i).symm).symm

/-- Leaving out repeats is registering. -/
theorem eraseDups_eq_foldl (l : List α) : l.eraseDups = l.foldl register [] := by
  simp [foldl_register]

theorem eraseDups_concat (l : List α) (a : α) : (l ++ [a]).eraseDups = register l.eraseDups a := by
  simp only [eraseDups_eq_foldl, List.foldl_append, List.foldl_cons, List.foldl_nil]

theorem eraseDups_map {β : Type} [BEq β] [LawfulBEq β] {f : α → β} (hf : Function.Injective f)
    (l : List α) : (l.map f).eraseDups = l.eraseDups.map f := by
  induction l using List.reverseRecOn with
  | nil => rfl
  | append_singleton l a ih =>
      rw [List.map_append, List.map_singleton, eraseDups_concat, eraseDups_concat, ih, register,
        register]
      by_cases ha : a ∈ l.eraseDups
      · rw [if_pos ha, if_pos ((List.mem_map_of_injective hf).mpr ha)]
      · rw [if_neg ha, if_neg (mt (List.mem_map_of_injective hf).mp ha), List.map_append,
          List.map_singleton]

/-- What no change touches, a sequence of changes does not touch. -/
theorem foldl_keeps {β : Type} (view : σ → β) {change : σ → ι → σ}
    (h : ∀ s i, view (change s i) = view s) (s : σ) (changes : List ι) :
    view (changes.foldl change s) = view s := by
  induction changes generalizing s with
  | nil => rfl
  | cons i rest ih => rw [List.foldl_cons, ih, h]

end Register

namespace DependencyGraph

variable {g : DependencyGraph} {a b o : OperationId} {first : Provenance}
  {change : Provenance → Provenance}

theorem nodes_addNode_eq : (g.addNode o).nodes = register g.nodes o := by
  rw [addNode, register]
  split <;> rfl

/-- An alteration registers both ends of its pair, the dependent first. -/
theorem nodes_alterDependency_eq :
    (g.alterDependency a b first change).nodes = [a, b].foldl register g.nodes := by
  rw [nodes_alterDependency, nodes_addNode_eq, nodes_addNode_eq]
  rfl

/-- An alteration registers its pair. -/
theorem pairs_alterDependency_eq :
    (g.alterDependency a b first change).edges.map Edge.pair
      = register (g.edges.map Edge.pair) (a, b) := by
  rw [edges_alterDependency, Edge.pairs_upsert, register]

end DependencyGraph

end ProgramSlice
