/-
# The walk is bounded on any graph

The plan state graph may share subplans and, as far as the walk can tell, have cycles: nothing in
`walk_planstate_recursive` knows where it has been.  What ends it is the counter.  A visit that goes
on takes one of `max_nodes` ids, so no path of calls is longer than that, and the visit after the
last of them is refused.

`walkLogged` is the walk with a record of its calls; `walkPlanstateRecursive_logged` says that it is
the same walk.
-/
import WhatIsHappening.Backend.EndFailure

namespace WhatIsHappening

open Interleaving Prog

variable {D : Type}

/-! ## 1. The calls of a walk -/

/-- One call of `walk_planstate_recursive`: how deep it is nested, and what its visitor answered if
it was called. -/
structure WalkCall where
  depth : Nat
  answer : Option Int
  deriving DecidableEq, Repr

/-- The visitor gave the call a negative id. -/
def WalkCall.Refused (c : WalkCall) : Prop := ∃ id ∈ c.answer, id < 0

/-- How often the visitor was called. -/
def visitCount (log : List WalkCall) : Nat := log.countP (·.answer.isSome)

/-- The calls of a walk in order, with its result, `none` where `check_stack_depth` raised its
error. -/
abbrev WalkLog := List WalkCall × Option (Bool × Nat)

/-- `walkCalls` with a record of the calls. -/
def walkCallsLogged (walk : Option PlanStatePtr → Nat → PgProg D WalkLog) :
    List (Option PlanStatePtr) → Nat → PgProg D WalkLog
  | [], counter => return ([], some (true, counter))
  | call :: rest, counter => do
    let (log, r) ← walk call counter
    match r with
    | some (true, counter) =>
      let (log', r') ← walkCallsLogged walk rest counter
      return (log ++ log', r')
    | _ => return (log, r)

/-- `walk_planstate_recursive` with a record of its calls. -/
def walkLogged (srv : Server D) (visitFn : PwhNodeVisitorFn D) :
    (stackFrames depth : Nat) → Option PlanStatePtr → Int → Nat → PgProg D WalkLog
  | 0, depth, _, _, _ => return ([⟨depth, none⟩], none)
  | _ + 1, depth, none, _, counter => return ([⟨depth, none⟩], some (true, counter))
  | stackFrames + 1, depth, some planstate, parentId, counter =>
    if (srv.planState planstate).plan = none then return ([⟨depth, none⟩], some (true, counter))
    else do
      let (currentId, counter) ← visitFn planstate parentId counter
      if currentId < 0 then return ([⟨depth, some currentId⟩], some (false, counter))
      else
        let (log, r) ← walkCallsLogged
          (fun call => walkLogged srv visitFn stackFrames (depth + 1) call currentId)
          (childCalls (srv.planState planstate)) counter
        return (⟨depth, some currentId⟩ :: log, r)

/-- The end of a walk without the record. -/
def endWalk (x : WalkLog) : PgProg D (Bool × Nat) :=
  match x.2 with
  | some r => return r
  | none => ereportError

section Logged

variable {srv : Server D} {visitFn : PwhNodeVisitorFn D}

theorem walkCalls_logged {walk : Option PlanStatePtr → Nat → PgProg D (Bool × Nat)}
    {logged : Option PlanStatePtr → Nat → PgProg D WalkLog}
    (h : ∀ call counter, walk call counter = logged call counter >>= endWalk) :
    ∀ calls counter, walkCalls walk calls counter = walkCallsLogged logged calls counter >>= endWalk
  | [], _ => rfl
  | call :: rest, counter => by
    rw [walkCalls, walkCallsLogged, h, bind_assoc, bind_assoc]
    congr 1
    funext x
    obtain ⟨log, _ | ⟨_ | _, counter'⟩⟩ := x
    · rfl
    · rfl
    · show walkCalls walk rest counter' = _
      rw [walkCalls_logged h rest counter', bind_assoc]
      rfl

/-- **The record is of the walk itself.** -/
theorem walkPlanstateRecursive_logged : ∀ stackFrames depth ptr parentId counter,
    walkPlanstateRecursive srv visitFn stackFrames ptr parentId counter =
      walkLogged srv visitFn stackFrames depth ptr parentId counter >>= endWalk
  | 0, _, _, _, _ => rfl
  | _ + 1, _, none, _, _ => rfl
  | stackFrames + 1, depth, some planstate, parentId, counter => by
    rw [walkPlanstateRecursive, walkLogged]
    split
    · rfl
    · rw [bind_assoc]
      congr 1
      funext x
      obtain ⟨currentId, counter'⟩ := x
      dsimp only
      split
      · rfl
      · rw [walkCalls_logged fun call counter =>
          walkPlanstateRecursive_logged stackFrames (depth + 1) call currentId counter, bind_assoc]
        rfl

end Logged

/-! ## 2. What a visitor that counts bounds -/

/-- The visitor gives ids as long as the counter is below `maxNodes`, each of which it counts; or
it refuses. -/
def CountsTo (maxNodes : Nat) (visitFn : PwhNodeVisitorFn D) : Prop :=
  ∀ ps parentId counter r, (visitFn ps parentId counter).Returns r →
    r.1 < 0 ∨ counter < maxNodes ∧ r.2 = counter + 1

/-- What is so of a walk that begins with the counter at `counter`, on a stack of `stack` calls. -/
structure Bounded (maxNodes stack counter : Nat) (x : WalkLog) : Prop where
  nested : ∀ c ∈ x.1, c.depth ≤ maxNodes + 1
  visits : visitCount x.1 ≤ maxNodes + 1 - counter
  stops : ∀ c ∈ x.1.dropLast, ¬ c.Refused
  goesOn : ∀ counter', x.2 = some (true, counter') →
    counter' = counter + visitCount x.1 ∧ counter' ≤ maxNodes ∧ ∀ c ∈ x.1, ¬ c.Refused
  overflow : x.2 = none → stack ≤ maxNodes + 1

section Bounded

variable {srv : Server D} {visitFn : PwhNodeVisitorFn D} {maxNodes stack counter : Nat}

theorem not_refused_none (depth : Nat) : ¬ (⟨depth, none⟩ : WalkCall).Refused := by
  rintro ⟨_, hanswer, -⟩
  cases hanswer

/-- A call that does not come to its visitor. -/
theorem Bounded.skip {depth : Nat} {r : Option (Bool × Nat)} (hdepth : depth ≤ maxNodes + 1)
    (hle : counter ≤ maxNodes) (hr : r = some (true, counter) ∨ r = none ∧ stack ≤ maxNodes + 1) :
    Bounded maxNodes stack counter ([⟨depth, none⟩], r) where
  nested := by simpa using hdepth
  visits := by simp [visitCount]
  stops := by simp
  goesOn counter' h := by
    rcases hr with rfl | ⟨rfl, -⟩
    · cases h
      exact ⟨rfl, hle, by simpa using not_refused_none depth⟩
    · cases h
  overflow h := by
    rcases hr with rfl | ⟨-, hstack⟩
    · cases h
    · exact hstack

/-- The calls after one that went on. -/
theorem Bounded.append {log : List WalkCall} {counter' : Nat} {y : WalkLog}
    (hx : Bounded maxNodes stack counter (log, some (true, counter')))
    (hy : Bounded maxNodes stack counter' y) :
    Bounded maxNodes stack counter (log ++ y.1, y.2) := by
  obtain ⟨hcounter, hle, hnone⟩ := hx.goesOn counter' rfl
  dsimp only at hcounter hnone
  constructor
  · intro c hc
    rcases List.mem_append.mp hc with hc | hc
    · exact hx.nested c hc
    · exact hy.nested c hc
  · have hvisits := hy.visits
    simp only [visitCount, List.countP_append] at hcounter hvisits ⊢
    omega
  · intro c hc
    dsimp only at hc
    by_cases hempty : y.1 = []
    · rw [hempty, List.append_nil] at hc
      exact hx.stops c hc
    · rw [List.dropLast_append_of_ne_nil hempty] at hc
      rcases List.mem_append.mp hc with hc | hc
      · exact hnone c hc
      · exact hy.stops c hc
  · intro counter₂ hr
    obtain ⟨hcounter₂, hle₂, hnone₂⟩ := hy.goesOn counter₂ hr
    refine ⟨?_, hle₂, fun c hc => ?_⟩
    · simp only [visitCount, List.countP_append] at hcounter hcounter₂ ⊢
      omega
    · rcases List.mem_append.mp hc with hc | hc
      · exact hnone c hc
      · exact hnone₂ c hc
  · exact hy.overflow

/-- A call whose visitor refuses is the last. -/
theorem Bounded.refused {depth counter' : Nat} {id : Int} (hdepth : depth ≤ maxNodes + 1)
    (hle : counter ≤ maxNodes) :
    Bounded maxNodes stack counter ([⟨depth, some id⟩], some (false, counter')) where
  nested := by simpa using hdepth
  visits := by
    simp [visitCount]
    omega
  stops := by simp
  goesOn := nofun
  overflow := nofun

/-- A call whose visitor gives an id goes on below its node. -/
theorem Bounded.visited {depth : Nat} {id : Int} {y : WalkLog} (hdepth : depth ≤ maxNodes + 1)
    (hid : ¬ id < 0) (hlt : counter < maxNodes) (hy : Bounded maxNodes stack (counter + 1) y) :
    Bounded maxNodes stack counter (⟨depth, some id⟩ :: y.1, y.2) := by
  have hnot : ¬ (⟨depth, some id⟩ : WalkCall).Refused := by
    rintro ⟨_, ⟨⟩, hneg⟩
    exact hid hneg
  constructor
  · exact List.forall_mem_cons.mpr ⟨hdepth, hy.nested⟩
  · have hvisits := hy.visits
    simp only [visitCount, List.countP_cons, Option.isSome_some, if_true] at hvisits ⊢
    omega
  · intro c hc
    dsimp only at hc
    by_cases hempty : y.1 = []
    · rw [hempty] at hc
      cases hc
    · rw [List.dropLast_cons_of_ne_nil hempty] at hc
      rcases List.mem_cons.mp hc with rfl | hc
      · exact hnot
      · exact hy.stops c hc
  · intro counter' hr
    obtain ⟨hcounter, hle, hnone⟩ := hy.goesOn counter' hr
    refine ⟨?_, hle, List.forall_mem_cons.mpr ⟨hnot, hnone⟩⟩
    simp only [visitCount, List.countP_cons, Option.isSome_some, if_true] at hcounter ⊢
    omega
  · exact hy.overflow

theorem walkCallsLogged_bounded {logged : Option PlanStatePtr → Nat → PgProg D WalkLog} (low : Nat)
    (h : ∀ call counter x, low ≤ counter → counter ≤ maxNodes → (logged call counter).Returns x →
      Bounded maxNodes stack counter x) :
    ∀ calls counter x, low ≤ counter → counter ≤ maxNodes →
      (walkCallsLogged logged calls counter).Returns x → Bounded maxNodes stack counter x := by
  intro calls
  induction calls with
  | nil =>
    rintro counter x - hle ⟨⟩
    exact ⟨nofun, Nat.zero_le _, nofun, fun _ hr => by cases hr; exact ⟨rfl, hle, nofun⟩, nofun⟩
  | cons call rest ih =>
    intro counter x hlow hle hx
    obtain ⟨⟨log, r⟩, hcall, hrest⟩ := returns_bind.mp hx
    have hbounded := h call counter _ hlow hle hcall
    obtain _ | ⟨_ | _, counter'⟩ := r
    · cases hrest
      exact hbounded
    · cases hrest
      exact hbounded
    · obtain ⟨y, hy, hend⟩ := returns_bind.mp hrest
      cases hend
      obtain ⟨hcounter, hle', -⟩ := hbounded.goesOn counter' rfl
      exact hbounded.append (ih counter' y (by omega) hle' hy)

/-- **A visitor that counts bounds the walk**: the ancestors of a call have taken an id each. -/
theorem walkLogged_bounded (hv : CountsTo maxNodes visitFn) : ∀ stackFrames depth ptr parentId
    counter x, stackFrames + depth = stack → depth ≤ counter + 1 → counter ≤ maxNodes →
      (walkLogged srv visitFn stackFrames depth ptr parentId counter).Returns x →
      Bounded maxNodes stack counter x := by
  intro stackFrames
  induction stackFrames with
  | zero =>
    rintro depth ptr parentId counter x hstack hdepth hle ⟨⟩
    exact .skip (by omega) hle (.inr ⟨rfl, by omega⟩)
  | succ stackFrames ih =>
    intro depth ptr parentId counter x hstack hdepth hle hx
    cases ptr with
    | none =>
      cases hx
      exact .skip (by omega) hle (.inl rfl)
    | some planstate =>
    rw [walkLogged] at hx
    split at hx
    · cases hx
      exact .skip (by omega) hle (.inl rfl)
    obtain ⟨⟨currentId, counter'⟩, hvisit, hrest⟩ := returns_bind.mp hx
    dsimp only at hrest
    split at hrest
    · cases hrest
      exact .refused (by omega) hle
    · rename_i hid
      obtain ⟨hlt, rfl⟩ : counter < maxNodes ∧ counter' = counter + 1 :=
        (hv planstate parentId counter _ hvisit).resolve_left hid
      obtain ⟨y, hy, hend⟩ := returns_bind.mp hrest
      cases hend
      refine .visited (by omega) hid hlt (walkCallsLogged_bounded (counter + 1) ?_ _ _ y
        (Nat.le_refl _) hlt hy)
      intro call counter₂ z hlow hle₂ hz
      exact ih (depth + 1) call currentId counter₂ z (by omega) (by omega) hle₂ hz

end Bounded

/-! ## 3. The two visitors -/

section Visitors

variable [CDouble D]

theorem topologyVisitor_counts (srv : Server D) (be maxNodes : Nat) :
    CountsTo maxNodes (topologyVisitor srv be maxNodes) := by
  intro ps parentId counter r hr
  rw [topologyVisitor] at hr
  split at hr
  · cases hr
    exact .inl (Int.negSucc_lt_zero 0)
  · rename_i hlt
    obtain ⟨_, -, hr⟩ := returns_bind.mp hr
    obtain ⟨_, -, hend⟩ := returns_bind.mp hr
    cases hend
    exact .inr ⟨Nat.lt_of_not_le hlt, rfl⟩

theorem instrumentationVisitor_counts (be maxNodes : Nat) :
    CountsTo maxNodes (instrumentationVisitor be maxNodes : PwhNodeVisitorFn D) := by
  intro ps parentId counter r hr
  rw [instrumentationVisitor] at hr
  split at hr
  · cases hr
    exact .inl (Int.negSucc_lt_zero 0)
  · rename_i hlt
    obtain ⟨valid, -, hr⟩ := returns_bind.mp hr
    cases valid with
    | false =>
      cases hr
      exact .inl (Int.negSucc_lt_zero 0)
    | true =>
      obtain ⟨_, -, hr⟩ := returns_bind.mp hr
      obtain ⟨instr, -, hr⟩ := returns_bind.mp hr
      cases instr with
      | none =>
        cases hr
        exact .inr ⟨Nat.lt_of_not_le hlt, rfl⟩
      | some instr =>
        obtain ⟨_, -, hend⟩ := returns_bind.mp hr
        cases hend
        exact .inr ⟨Nat.lt_of_not_le hlt, rfl⟩

theorem topologyVisitor_noRaise (srv : Server D) (be maxNodes : Nat) (ps : PlanStatePtr)
    (parentId : Int) (counter : Nat) :
    (topologyVisitor srv be maxNodes ps parentId counter).NoRaise := by
  rw [topologyVisitor]
  split
  · trivial
  · exact act_noRaise fun _ => (writeNodeFields_noRaise _).bind fun _ => trivial

end Visitors

/-! ## 4. Walks are bounded -/

/-- The walk from a pointer, on whatever stack: its calls are as many and as deep as `maxNodes`
allows, none is made after its visitor refused, and it comes to an end, without an error if the
stack is deep enough for `maxNodes`. -/
structure WalkIsBounded (srv : Server D) (visitFn : PwhNodeVisitorFn D) (maxNodes : Nat)
    (ptr : Option PlanStatePtr) (parentId : Int) : Prop where
  logged : ∀ stackFrames, walkPlanstateRecursive srv visitFn stackFrames ptr parentId 0 =
    walkLogged srv visitFn stackFrames 1 ptr parentId 0 >>= endWalk
  visits : ∀ stackFrames x, (walkLogged srv visitFn stackFrames 1 ptr parentId 0).Returns x →
    visitCount x.1 ≤ maxNodes + 1
  nested : ∀ stackFrames x, (walkLogged srv visitFn stackFrames 1 ptr parentId 0).Returns x →
    ∀ c ∈ x.1, c.depth ≤ maxNodes + 1
  stops : ∀ stackFrames x, (walkLogged srv visitFn stackFrames 1 ptr parentId 0).Returns x →
    ∀ before c after, x.1 = before ++ c :: after → c.Refused → after = []
  ends : ∀ stackFrames (σ : Type) (run : (o : Op D) → σ → Option (Res o × σ)),
    (∀ o s, run o s ≠ none) → ∀ s, ∃ r t,
      (walkPlanstateRecursive srv visitFn stackFrames ptr parentId 0).outcome run s = some (r, t) ∧
        (maxNodes < stackFrames → r.isSome)

section Walks

variable {srv : Server D} {visitFn : PwhNodeVisitorFn D} {maxNodes : Nat}

theorem walkCallsLogged_noRaise {logged : Option PlanStatePtr → Nat → PgProg D WalkLog}
    (h : ∀ call counter, (logged call counter).NoRaise) :
    ∀ calls counter, (walkCallsLogged logged calls counter).NoRaise
  | [], _ => trivial
  | call :: rest, counter => by
    refine (h call counter).bind fun x => ?_
    obtain ⟨log, _ | ⟨_ | _, counter'⟩⟩ := x
    · trivial
    · trivial
    · exact (walkCallsLogged_noRaise h rest counter').bind fun _ => trivial

theorem walkLogged_noRaise (hv : ∀ ps parentId counter, (visitFn ps parentId counter).NoRaise) :
    ∀ stackFrames depth ptr parentId counter,
      (walkLogged srv visitFn stackFrames depth ptr parentId counter).NoRaise
  | 0, _, _, _, _ => trivial
  | _ + 1, _, none, _, _ => trivial
  | stackFrames + 1, depth, some planstate, parentId, counter => by
    rw [walkLogged]
    split
    · trivial
    refine (hv planstate parentId counter).bind fun x => ?_
    obtain ⟨currentId, counter'⟩ := x
    dsimp only
    split
    · trivial
    · exact (walkCallsLogged_noRaise (fun call counter =>
        walkLogged_noRaise hv stackFrames (depth + 1) call currentId counter) _ _).bind
          fun _ => trivial

theorem walkIsBounded_of_counts (hv : CountsTo maxNodes visitFn)
    (hn : ∀ ps parentId counter, (visitFn ps parentId counter).NoRaise)
    (ptr : Option PlanStatePtr) (parentId : Int) :
    WalkIsBounded srv visitFn maxNodes ptr parentId := by
  have hbounded : ∀ stackFrames x,
      (walkLogged srv visitFn stackFrames 1 ptr parentId 0).Returns x →
        Bounded maxNodes (stackFrames + 1) 0 x := fun stackFrames x =>
    walkLogged_bounded hv stackFrames 1 ptr parentId 0 x rfl (Nat.le_refl 1) (Nat.zero_le _)
  constructor
  · exact fun stackFrames => walkPlanstateRecursive_logged stackFrames 1 ptr parentId 0
  · exact fun stackFrames x hx => (hbounded stackFrames x hx).visits
  · exact fun stackFrames x hx => (hbounded stackFrames x hx).nested
  · intro stackFrames x hx before c after hlog hrefused
    by_contra hafter
    refine (hbounded stackFrames x hx).stops c ?_ hrefused
    rw [hlog, List.dropLast_append_of_ne_nil (List.cons_ne_nil _ _),
      List.dropLast_cons_of_ne_nil hafter]
    simp
  · intro stackFrames σ run hrun s
    obtain ⟨x, t, hlogged, hx⟩ :=
      (walkLogged_noRaise hn stackFrames 1 ptr parentId 0).outcome_returns hrun s
    rw [walkPlanstateRecursive_logged stackFrames 1, outcome_bind, hlogged]
    obtain ⟨log, _ | r⟩ := x
    · obtain ⟨u, hu⟩ := Option.ne_none_iff_exists'.mp (hrun .ereportError t)
      refine ⟨none, u.2, ?_, fun hlt => ?_⟩
      · show (run .ereportError t).bind _ = _
        rw [hu]
        rfl
      · have hstack := (hbounded stackFrames _ hx).overflow rfl
        omega
    · exact ⟨some r, t, rfl, fun _ => rfl⟩

end Walks

/-- **Both walks are bounded**, on every graph and for every `max_nodes`. -/
theorem walk_is_bounded [CDouble D] (srv : Server D) (be maxNodes : Nat)
    (ptr : Option PlanStatePtr) (parentId : Int) :
    WalkIsBounded srv (topologyVisitor srv be maxNodes) maxNodes ptr parentId ∧
      WalkIsBounded srv (instrumentationVisitor be maxNodes) maxNodes ptr parentId :=
  ⟨walkIsBounded_of_counts (topologyVisitor_counts srv be maxNodes)
      (topologyVisitor_noRaise srv be maxNodes) ptr parentId,
    walkIsBounded_of_counts (instrumentationVisitor_counts be maxNodes)
      (instrumentationVisitor_noRaise be maxNodes) ptr parentId⟩

end WhatIsHappening
