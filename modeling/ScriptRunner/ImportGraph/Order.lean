import ScriptRunner.ImportGraph

/-!
# The order of evaluation

The scripts that the root of a graph reaches, in an order in which imports come before the scripts
that import them. Where scripts import each other, the import that closes the cycle does not count.

## Main definitions

* `ImportGraph.Step`, `ImportGraph.walk` - a depth-first walk as a list of steps still to be taken.
* `ImportGraph.evaluationOrder` - the order of evaluation.

## Design notes

Entering a script puts the steps for its imports in front of the step that leaves it. The walk ends
because every script is entered at most once: `stepsLeft` counts the steps that the scripts not yet
visited can still bring in.
-/

namespace ScriptRunner

namespace ImportGraph

/-- What is left to do on a walk: enter the script at a path, or leave a script whose imports have
been entered. -/
inductive Step where
  | enter (path : Path)
  | leave (node : ScriptNode)

/-- The steps that a walk can still take for the scripts among the given paths that it has not
visited: each is entered and left, and each of its imports is looked at once. -/
def stepsLeft (g : ImportGraph) (visited : List Path) : List Path → Nat
  | [] => 0
  | path :: rest =>
    if path ∈ visited then g.stepsLeft visited rest
    else ((g.node? path).elim 0 (·.resolvedImports.length) + 2) + g.stepsLeft visited rest

/-- The more has been visited, the fewer steps are left. -/
theorem stepsLeft_le_of_subset (g : ImportGraph) {visited visited' : List Path}
    (h : ∀ p ∈ visited, p ∈ visited') (paths : List Path) :
    g.stepsLeft visited' paths ≤ g.stepsLeft visited paths := by
  induction paths with
  | nil => exact Nat.le_refl _
  | cons p rest ih =>
    by_cases hp : p ∈ visited
    · simpa [stepsLeft, hp, h p hp] using ih
    · by_cases hp' : p ∈ visited'
      · simp only [stepsLeft, hp, hp', if_false, if_true]
        omega
      · simp only [stepsLeft, hp, hp', if_false]
        omega

/-- Visiting a script takes at least its own steps away from those that are left. -/
theorem stepsLeft_cons_visited (g : ImportGraph) {visited paths : List Path} {path : Path}
    {n : ScriptNode} (hnode : g.node? path = some n) (hnew : path ∉ visited) (hmem : path ∈ paths) :
    g.stepsLeft (path :: visited) paths + (n.resolvedImports.length + 2) ≤
      g.stepsLeft visited paths := by
  induction paths with
  | nil => simp at hmem
  | cons p rest ih =>
    by_cases heq : p = path
    · subst heq
      have hsub : ∀ q ∈ visited, q ∈ p :: visited := fun q hq => List.mem_cons_of_mem p hq
      have := g.stepsLeft_le_of_subset hsub rest
      simp only [stepsLeft, hnew, hnode, if_false, List.mem_cons_self, if_true, Option.elim_some]
      omega
    · have ih := ih (by simpa [Ne.symm heq] using hmem)
      by_cases hp : p ∈ visited
      · simpa only [stepsLeft, hp, List.mem_cons, or_true, if_true] using ih
      · simp only [stepsLeft, hp, heq, List.mem_cons, or_self, if_false]
        omega

theorem mem_keys_of_node? {g : ImportGraph} {path : Path} {n : ScriptNode}
    (h : g.node? path = some n) : path ∈ g.nodes.keys :=
  (g.nodes.contains_iff_mem_keys path).1 (Option.isSome_of_eq_some h)

/-- The scripts that a walk leaves, in order, after those that it has left: each script is left
after the scripts it imports, unless one of these is still being visited. All imports of a script
are looked up when it is entered. -/
def walk (g : ImportGraph) (visited : List Path) (done : List ScriptNode) (steps : List Step) :
    Except GraphFault (List ScriptNode) :=
  match steps with
  | [] => .ok done
  | .leave n :: steps => g.walk visited (done ++ [n]) steps
  | .enter path :: steps =>
    if path ∈ visited then g.walk visited done steps
    else
      match _h : g.node? path with
      | none => .error (.absent path)
      | some n =>
        match g.importsOf n with
        | .error fault => .error fault
        | .ok _ => g.walk (path :: visited) done (n.resolvedImports.map .enter ++ .leave n :: steps)
termination_by g.stepsLeft visited g.nodes.keys + steps.length
decreasing_by
  · simp
  · simp
  · have := g.stepsLeft_cons_visited _h ‹_› (mem_keys_of_node? _h)
    simp only [List.length_append, List.length_map, List.length_cons]
    omega

/-- The scripts reachable from the root, imports before importers; an import that closes a cycle
does not count. -/
def evaluationOrder (g : ImportGraph) : Except GraphFault (List ScriptNode) :=
  g.walk [] [] [.enter g.root]

end ImportGraph

end ScriptRunner
