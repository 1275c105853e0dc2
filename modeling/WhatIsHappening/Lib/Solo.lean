/-
# Programs that run alone

What a program does to a state when nothing interferes: where it ends (`solo`, and `outcome` where
an error may leave it), which operations it performs there, and what its first steps are.  The
predicates say it from every state with some invariant, and each has a rule for sequencing.
-/
import WhatIsHappening.Lib.Program

namespace Interleaving

namespace Prog

variable {Op : Type} {Res : Op → Type} {α β γ : Type}

/-! ## To the end -/

section Solo

variable {σ : Type} (run : (o : Op) → σ → Option (Res o × σ))

/-- The run of a program that nothing interrupts; `none` when an error leaves it or an operation
has to wait. -/
def solo : Prog Res α → σ → Option (α × σ)
  | .ret a, s => some (a, s)
  | .raise, _ => none
  | .op o k, s => (run o s).bind fun r => (k r.1).solo r.2

/-- From every state with `I` the program runs to its end, returns `a` and leaves `I`. -/
def Yields (I : σ → Prop) (p : Prog Res α) (a : α) : Prop :=
  ∀ s, I s → ∃ t, p.solo run s = some (a, t) ∧ I t

variable {run} {I : σ → Prop}

theorem yields_ret (a : α) : Yields run I (.ret a : Prog Res α) a := fun s hs => ⟨s, rfl, hs⟩

theorem yields_op {o : Op} {r : Res o} {k : Res o → Prog Res α} {a : α}
    (ho : ∀ s, I s → ∃ t, run o s = some (r, t) ∧ I t) (hk : Yields run I (k r) a) :
    Yields run I (.op o k) a := by
  intro s hs
  obtain ⟨t, hrun, ht⟩ := ho s hs
  obtain ⟨u, hu, hi⟩ := hk t ht
  exact ⟨u, by rw [solo, hrun, Option.bind_some, hu], hi⟩

theorem solo_bind (p : Prog Res α) (f : α → Prog Res β) (s : σ) :
    (p >>= f).solo run s = (p.solo run s).bind fun r => (f r.1).solo run r.2 := by
  induction p generalizing s with
  | ret a => rfl
  | raise => rfl
  | op o k ih =>
    rw [op_bind, solo, solo, Option.bind_assoc]
    exact congrArg _ (funext fun r => ih r.1 r.2)

/-- What it returns alone it can return where its operations are answered as they are then. -/
theorem returnsBy_of_solo {P : Op → Prop} {ans : (o : Op) → Res o → Prop} {p : Prog Res α}
    (hans : ∀ o s r t, P o → I s → run o s = some (r, t) → ans o r ∧ I t) (hall : p.All P)
    {a : α} {s t : σ} (hs : I s) (h : p.solo run s = some (a, t)) : p.ReturnsBy ans a := by
  induction p generalizing s with
  | ret b =>
    cases h
    rfl
  | raise => cases h
  | op o k ih =>
    obtain ⟨⟨r, s'⟩, hr, hk⟩ := Option.bind_eq_some_iff.mp h
    obtain ⟨hansr, hs'⟩ := hans o s r s' hall.1 hs hr
    exact ⟨r, hansr, ih r (hall.2 r) hs' hk⟩

theorem Yields.bind {p : Prog Res α} {f : α → Prog Res β} {a : α} {b : β}
    (hp : Yields run I p a) (hf : Yields run I (f a) b) : Yields run I (p >>= f) b := by
  intro s hs
  obtain ⟨t, hrun, ht⟩ := hp s hs
  obtain ⟨u, hu, hi⟩ := hf t ht
  exact ⟨u, by rw [solo_bind, hrun, Option.bind_some, hu], hi⟩

/-- ...and leaves `J`, when it starts with `I`. -/
def Ends (run : (o : Op) → σ → Option (Res o × σ)) (I : σ → Prop) (p : Prog Res α) (a : α)
    (J : σ → Prop) : Prop :=
  ∀ s, I s → ∃ t, p.solo run s = some (a, t) ∧ J t

theorem ends_op {I' J : σ → Prop} {o : Op} {r : Res o} {k : Res o → Prog Res α} {a : α}
    (ho : ∀ s, I s → ∃ t, run o s = some (r, t) ∧ I' t) (hk : Ends run I' (k r) a J) :
    Ends run I (.op o k) a J := by
  intro s hs
  obtain ⟨t, hrun, ht⟩ := ho s hs
  obtain ⟨u, hu, hj⟩ := hk t ht
  exact ⟨u, by rw [solo, hrun, Option.bind_some, hu], hj⟩

theorem Yields.ends {J : σ → Prop} {p : Prog Res α} {f : α → Prog Res β} {a : α} {b : β}
    (hp : Yields run I p a) (hf : Ends run I (f a) b J) : Ends run I (p >>= f) b J := by
  intro s hs
  obtain ⟨t, hrun, ht⟩ := hp s hs
  obtain ⟨u, hu, hj⟩ := hf t ht
  exact ⟨u, by rw [solo_bind, hrun, Option.bind_some, hu], hj⟩

/-- From every state with `I` the program runs to its end and leaves `I`. -/
def Runs (run : (o : Op) → σ → Option (Res o × σ)) (I : σ → Prop) (p : Prog Res α) : Prop :=
  ∀ s, I s → ∃ a t, p.solo run s = some (a, t) ∧ I t

theorem runs_ret (a : α) : Runs run I (.ret a : Prog Res α) := fun s hs => ⟨a, s, rfl, hs⟩

theorem runs_op {o : Op} {k : Res o → Prog Res α}
    (ho : ∀ s, I s → ∃ r t, run o s = some (r, t) ∧ I t) (hk : ∀ r, Runs run I (k r)) :
    Runs run I (.op o k) := by
  intro s hs
  obtain ⟨r, t, hrun, ht⟩ := ho s hs
  obtain ⟨a, u, hu, hi⟩ := hk r t ht
  exact ⟨a, u, by rw [solo, hrun, Option.bind_some, hu], hi⟩

theorem Runs.ends {J : σ → Prop} {p : Prog Res α} {f : α → Prog Res β} {b : β}
    (hp : Runs run I p) (hf : ∀ a, Ends run I (f a) b J) : Ends run I (p >>= f) b J := by
  intro s hs
  obtain ⟨a, t, hrun, ht⟩ := hp s hs
  obtain ⟨u, hu, hj⟩ := hf a t ht
  exact ⟨u, by rw [solo_bind, hrun, Option.bind_some, hu], hj⟩

/-- From `s` the program runs to its end, with an answer and a state that `Q` admits. -/
def RunsTo (run : (o : Op) → σ → Option (Res o × σ)) (p : Prog Res α) (Q : α → σ → Prop)
    (s : σ) : Prop :=
  ∃ a t, p.solo run s = some (a, t) ∧ Q a t

theorem runsTo_ret {a : α} {Q : α → σ → Prop} {s : σ} (h : Q a s) :
    RunsTo run (.ret a : Prog Res α) Q s := ⟨a, s, rfl, h⟩

theorem runsTo_op {o : Op} {r : Res o} {k : Res o → Prog Res α} {Q : α → σ → Prop} {s t : σ}
    (ho : run o s = some (r, t)) (hk : RunsTo run (k r) Q t) : RunsTo run (.op o k) Q s := by
  obtain ⟨a, u, hu, hq⟩ := hk
  exact ⟨a, u, by rw [solo, ho, Option.bind_some, hu], hq⟩

theorem RunsTo.bind {p : Prog Res α} {f : α → Prog Res β} {Q : β → σ → Prop} {s : σ}
    (hp : RunsTo run p (fun a => RunsTo run (f a) Q) s) : RunsTo run (p >>= f) Q s := by
  obtain ⟨a, t, hrun, b, u, hu, hq⟩ := hp
  exact ⟨b, u, by rw [solo_bind, hrun, Option.bind_some, hu], hq⟩

theorem RunsTo.mono {p : Prog Res α} {Q Q' : α → σ → Prop} {s : σ} (h : RunsTo run p Q s)
    (hq : ∀ a t, Q a t → Q' a t) : RunsTo run p Q' s := by
  obtain ⟨a, t, hrun, hqt⟩ := h
  exact ⟨a, t, hrun, hq a t hqt⟩

/-- A program whose operations never wait and keep `I`. -/
theorem runsTo_of_all {P : Op → Prop} {p : Prog Res α} {s : σ} (hall : p.All P) (hn : p.NoRaise)
    (ho : ∀ o s, P o → I s → ∃ r t, run o s = some (r, t) ∧ I t) (hs : I s) :
    RunsTo run p (fun _ => I) s := by
  induction p generalizing s with
  | ret a => exact runsTo_ret hs
  | raise => exact hn.elim
  | op o k ih =>
    obtain ⟨r, t, hrun, ht⟩ := ho o s hall.1 hs
    exact runsTo_op hrun (ih r (hall.2 r) (hn r) ht)

/-! ## What is performed on the way -/

/-- How such a run ends: with an answer or by an error, and the state it leaves; `none` when an
operation has to wait. -/
def outcome (run : (o : Op) → σ → Option (Res o × σ)) : Prog Res α → σ → Option (Option α × σ)
  | .ret a, s => some (some a, s)
  | .raise, s => some (none, s)
  | .op o k, s => (run o s).bind fun r => (k r.1).outcome run r.2

/-- The operations it performs, each with the state it is performed in. -/
def performed (run : (o : Op) → σ → Option (Res o × σ)) : Prog Res α → σ → List (Op × σ)
  | .ret _, _ => []
  | .raise, _ => []
  | .op o k, s =>
    match run o s with
    | none => []
    | some r => (o, s) :: (k r.1).performed run r.2

/-- What comes after a part that returns is performed after it. -/
theorem performed_bind {run : (o : Op) → σ → Option (Res o × σ)} {p : Prog Res α}
    {f : α → Prog Res β} {a : α} {s t : σ} (h : p.solo run s = some (a, t)) :
    (p >>= f).performed run s = p.performed run s ++ (f a).performed run t := by
  induction p generalizing s with
  | ret b =>
    cases h
    rfl
  | raise => cases h
  | op o k ih =>
    rw [solo] at h
    obtain ⟨r, hr, hk⟩ := Option.bind_eq_some_iff.mp h
    rw [op_bind, performed, performed, hr]
    exact congrArg ((o, s) :: ·) (ih r.1 hk)

/-- From every state with `I` the program runs to its end, returns `a`, leaves `I`, and its
operations show `out`. -/
def Shows {ω : Type} (run : (o : Op) → σ → Option (Res o × σ)) (log : Op → List ω) (I : σ → Prop)
    (p : Prog Res α) (a : α) (out : List ω) : Prop :=
  ∀ s, I s → ∃ t, p.solo run s = some (a, t) ∧ I t ∧
    (p.performed run s).flatMap (fun x => log x.1) = out

section Shows

variable {ω : Type} {log : Op → List ω} {out out' : List ω}

theorem Shows.yields {p : Prog Res α} {a : α} (hp : Shows run log I p a out) :
    Yields run I p a := by
  intro s hs
  obtain ⟨t, hrun, ht, -⟩ := hp s hs
  exact ⟨t, hrun, ht⟩

theorem shows_op {o : Op} {r : Res o} {k : Res o → Prog Res α} {a : α}
    (ho : ∀ s, I s → ∃ t, run o s = some (r, t) ∧ I t) (hk : Shows run log I (k r) a out) :
    Shows run log I (.op o k) a (log o ++ out) := by
  intro s hs
  obtain ⟨t, hrun, ht⟩ := ho s hs
  obtain ⟨u, hu, hi, hout⟩ := hk t ht
  refine ⟨u, by rw [solo, hrun, Option.bind_some, hu], hi, ?_⟩
  rw [performed, hrun, List.flatMap_cons, hout]

/-- A program that shows nothing. -/
theorem Yields.shows {p : Prog Res α} {a : α} (hp : Yields run I p a)
    (hlog : p.All fun o => log o = []) : Shows run log I p a [] := by
  intro s hs
  obtain ⟨t, hrun, ht⟩ := hp s hs
  refine ⟨t, hrun, ht, ?_⟩
  clear hp ht hs
  induction p generalizing s with
  | ret b => rfl
  | raise => cases hrun
  | op o k ih =>
    rw [solo] at hrun
    obtain ⟨r, hr, hk⟩ := Option.bind_eq_some_iff.mp hrun
    rw [performed, hr, List.flatMap_cons, hlog.1]
    exact ih r.1 (hlog.2 r.1) r.2 hk

theorem Shows.bind {p : Prog Res α} {f : α → Prog Res β} {a : α} {b : β}
    (hp : Shows run log I p a out) (hf : Shows run log I (f a) b out') :
    Shows run log I (p >>= f) b (out ++ out') := by
  intro s hs
  obtain ⟨t, hrun, ht, hout⟩ := hp s hs
  obtain ⟨u, hu, hi, hout'⟩ := hf t ht
  refine ⟨u, by rw [solo_bind, hrun, Option.bind_some, hu], hi, ?_⟩
  rw [performed_bind hrun, List.flatMap_append, hout, hout']

end Shows

/-- Some operations of a program, one for each answer of the environment: the operations with the
states they are performed in, what the program has still to do, and the state it leaves. -/
def steps {Env : Type} (exec : (o : Op) → Env → σ → Option (Res o × σ)) :
    Prog Res α → List Env → σ → Option (List (Op × σ) × Prog Res α × σ)
  | p, [], s => some ([], p, s)
  | .op o k, e :: es, s => (exec o e s).bind fun r =>
      ((k r.1).steps exec es r.2).map fun x => ((o, s) :: x.1, x.2)
  | _, _ :: _, _ => none

section Steps

variable {Env : Type} {exec : (o : Op) → Env → σ → Option (Res o × σ)} {p p' : Prog Res α}
  {s t : σ} {l : List (Op × σ)}

theorem steps_nil (h : p.steps exec [] s = some (l, p', t)) : l = [] ∧ p' = p ∧ t = s := by
  cases p <;> cases h <;> exact ⟨rfl, rfl, rfl⟩

/-- The first of some operations, and the others. -/
theorem steps_cons {e : Env} {es : List Env} (h : p.steps exec (e :: es) s = some (l, p', t)) :
    ∃ (o : Op) (k : Res o → Prog Res α) (r : Res o) (s' : σ) (l' : List (Op × σ)),
      p = .op o k ∧ exec o e s = some (r, s') ∧ (k r).steps exec es s' = some (l', p', t) ∧
        l = (o, s) :: l' := by
  cases p with
  | ret a => cases h
  | raise => cases h
  | op o k =>
    obtain ⟨⟨r, s'⟩, hr, h⟩ := Option.bind_eq_some_iff.mp h
    obtain ⟨⟨l', x⟩, hx, heq⟩ := Option.map_eq_some_iff.mp h
    cases heq
    exact ⟨o, k, r, s', l', rfl, hr, hx, rfl⟩

end Steps

theorem outcome_bind {run : (o : Op) → σ → Option (Res o × σ)} (p : Prog Res α)
    (f : α → Prog Res β) (s : σ) : (p >>= f).outcome run s = (p.outcome run s).bind fun r =>
      match r.1 with
      | some a => (f a).outcome run r.2
      | none => some (none, r.2) := by
  induction p generalizing s with
  | ret a => rfl
  | raise => rfl
  | op o k ih =>
    rw [op_bind, outcome, outcome, Option.bind_assoc]
    exact congrArg _ (funext fun r => ih r.1 r.2)

/-- A run whose operations never wait comes to an end. -/
theorem outcome_ne_none {run : (o : Op) → σ → Option (Res o × σ)} {p : Prog Res α}
    (hp : p.All fun o => ∀ s, run o s ≠ none) (s : σ) : p.outcome run s ≠ none := by
  induction p generalizing s with
  | ret a => exact Option.some_ne_none _
  | raise => exact Option.some_ne_none _
  | op o k ih =>
    obtain ⟨r, hr⟩ := Option.ne_none_iff_exists'.mp (hp.1 s)
    rw [outcome, hr]
    exact ih r.1 (hp.2 r.1) r.2

/-- ...with an answer the program can return, if it raises no error by itself. -/
theorem NoRaise.outcome_returns {run : (o : Op) → σ → Option (Res o × σ)} {p : Prog Res α}
    (hp : p.NoRaise) (hrun : ∀ o s, run o s ≠ none) (s : σ) :
    ∃ a t, p.outcome run s = some (some a, t) ∧ p.Returns a := by
  induction p generalizing s with
  | ret a => exact ⟨a, s, rfl, rfl⟩
  | raise => exact hp.elim
  | op o k ih =>
    obtain ⟨r, hr⟩ := Option.ne_none_iff_exists'.mp (hrun o s)
    obtain ⟨a, t, hout, hret⟩ := ih r.1 (hp r.1) r.2
    exact ⟨a, t, by rw [outcome, hr]; exact hout, r.1, hret⟩

end Solo

end Prog

end Interleaving
