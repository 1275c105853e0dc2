/-
# Which node gets which id

`visits` is the walk of `plan_tree_walker.c` without its visitors' effects: it only lists the nodes
that are visited, each with the id of its parent.  A node's place in the list is its id.  The
programs that walk for real are compared with it: the topology visitor records exactly this list,
and the instrumentation visitor, on the same tree, measures along it.
-/
import WhatIsHappening.PlanTreeWalker

namespace WhatIsHappening

/-- The nodes visited so far. -/
abbrev Visited := List (PlanStatePtr × Int)

/-- The walk below a node: the calls one after the other. -/
def visitCalls (walk : Option PlanStatePtr → Visited → Option (Bool × Visited)) :
    List (Option PlanStatePtr) → Visited → Option (Bool × Visited)
  | [], acc => some (true, acc)
  | call :: rest, acc =>
    match walk call acc with
    | none => none
    | some (true, acc) => visitCalls walk rest acc
    | some (false, acc) => some (false, acc)

/-- The walk from a node; `none` when `check_stack_depth` raises an error. -/
def visits {D : Type} (srv : Server D) (maxNodes : Nat) :
    (stackFrames : Nat) → Option PlanStatePtr → Int → Visited → Option (Bool × Visited)
  | 0, _, _, _ => none
  | _ + 1, none, _, acc => some (true, acc)
  | stackFrames + 1, some ps, parentId, acc =>
    if (srv.planState ps).plan = none then some (true, acc)
    else if maxNodes ≤ acc.length then some (false, acc)
    else visitCalls (fun call => visits srv maxNodes stackFrames call acc.length)
      (childCalls (srv.planState ps)) (acc ++ [(ps, parentId)])

variable {D : Type} {srv : Server D} {maxNodes : Nat}

/-- A walk only appends, and never beyond `maxNodes` nodes. -/
def Extends (maxNodes : Nat) (acc acc' : Visited) : Prop :=
  acc <+: acc' ∧ (acc.length ≤ maxNodes → acc'.length ≤ maxNodes)

theorem Extends.refl (acc : Visited) : Extends maxNodes acc acc := ⟨List.prefix_rfl, id⟩

theorem Extends.trans {a b c : Visited} (h : Extends maxNodes a b) (h' : Extends maxNodes b c) :
    Extends maxNodes a c :=
  ⟨h.1.trans h'.1, fun ha => h'.2 (h.2 ha)⟩

theorem visitCalls_extends {walk : Option PlanStatePtr → Visited → Option (Bool × Visited)}
    (hw : ∀ call acc r, walk call acc = some r → Extends maxNodes acc r.2) :
    ∀ calls acc r, visitCalls walk calls acc = some r → Extends maxNodes acc r.2
  | [], acc, r, h => by
    cases h
    exact .refl acc
  | call :: rest, acc, r, h => by
    unfold visitCalls at h
    split at h
    · cases h
    · rename_i acc₁ hcall
      exact (hw call acc _ hcall).trans (visitCalls_extends hw rest acc₁ r h)
    · rename_i acc₁ hcall
      cases h
      exact hw call acc _ hcall

theorem visits_extends :
    ∀ stackFrames ptr parentId acc r,
      visits srv maxNodes stackFrames ptr parentId acc = some r → Extends maxNodes acc r.2
  | 0, _, _, _, _, h => by cases h
  | _ + 1, none, _, acc, _, h => by
    cases h
    exact .refl acc
  | stackFrames + 1, some ps, parentId, acc, r, h => by
    unfold visits at h
    split at h
    · cases h
      exact .refl acc
    split at h
    · cases h
      exact .refl acc
    · rename_i hlt
      have hnode : Extends maxNodes acc (acc ++ [(ps, parentId)]) :=
        ⟨List.prefix_append _ _, fun _ => by simp; omega⟩
      exact hnode.trans (visitCalls_extends
        (fun call acc' r' h' => visits_extends stackFrames call _ acc' r' h') _ _ r h)

/-- The list a walk of the whole tree leaves has at most `maxNodes` nodes. -/
theorem visits_length_le {stackFrames : Nat} {ptr : Option PlanStatePtr} {parentId : Int}
    {r : Bool × Visited} (h : visits srv maxNodes stackFrames ptr parentId [] = some r) :
    r.2.length ≤ maxNodes :=
  (visits_extends _ _ _ _ _ h).2 (Nat.zero_le _)

end WhatIsHappening
