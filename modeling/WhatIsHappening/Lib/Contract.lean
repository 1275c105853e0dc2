/-
# What is true of a program under interference

Between two operations of a program anything else may happen to the state.  `Contract` says what:
`rely` is what the others may do meanwhile, `guar` is what each operation of this program
promises to them, `inv` holds of the state at every point, and `assume` is what a run is allowed
to take for granted when an operation is performed.

`Contract.wp` is the weakest precondition under that interference.  It has two postconditions,
one for a program that returns and one for a program that is left by an error, and a flag that
says whether an error may be raised in front of EVERY operation (`faulty`) or only where the
program itself raises one.

The rules below are the whole interface: later files never unfold `wp`.
-/
import WhatIsHappening.Lib.Solo

namespace Interleaving

/-! ## The weakest precondition -/

/-- What one thread may rely on, and what it owes. -/
structure Contract {Op : Type} (Res : Op → Type) (σ : Type) where
  /-- The operations: `sem o s r s'` when `o` may answer `r` and leave `s'`. -/
  sem : (o : Op) → σ → Res o → σ → Prop
  /-- Holds of the state at every point of every run. -/
  inv : σ → Prop
  /-- What the others may do between two operations. -/
  rely : σ → σ → Prop
  /-- What a run grants when an operation is performed. -/
  assume : Op → σ → Prop
  /-- What every operation of this thread promises. -/
  guar : (o : Op) → σ → Res o → σ → Prop
  rely_refl : ∀ s, rely s s
  rely_trans : ∀ {s t u}, rely s t → rely t u → rely s u

namespace Contract

variable {Op : Type} {Res : Op → Type} {σ α β : Type} (L : Contract Res σ)

/-- The weakest precondition of a program under interference.  `Q` is for a return, `E` for an
error; with `m` set an error may be raised in front of every operation. -/
def wp (m : Bool) : Prog Res α → (α → σ → Prop) → (σ → Prop) → σ → Prop
  | .ret a, Q, _, s => ∀ s', L.rely s s' → L.inv s' → Q a s'
  | .raise, _, E, s => ∀ s', L.rely s s' → L.inv s' → E s'
  | .op o k, Q, E, s => ∀ s', L.rely s s' → L.inv s' → (m = true → E s') ∧
      (L.assume o s' → ∀ r s'', L.sem o s' r s'' →
        L.inv s'' ∧ L.guar o s' r s'' ∧ wp m (k r) Q E s'')

/-- A condition that the others cannot make false. -/
def Stable (A : σ → Prop) : Prop := ∀ s s', A s → L.rely s s' → L.inv s' → A s'

variable {L} {m : Bool} {p : Prog Res α} {Q Q' : α → σ → Prop} {E E' : σ → Prop} {s s' : σ}

theorem Stable.and {A B : σ → Prop} (hA : L.Stable A) (hB : L.Stable B) :
    L.Stable fun s => A s ∧ B s :=
  fun s s' h hr hi => ⟨hA s s' h.1 hr hi, hB s s' h.2 hr hi⟩

theorem stable_true : L.Stable fun _ => True := fun _ _ _ _ _ => trivial

/-- Interference is already accounted for. -/
theorem wp_rely (h : L.wp m p Q E s) (hr : L.rely s s') : L.wp m p Q E s' := by
  cases p with
  | ret a => exact fun t ht hi => h t (L.rely_trans hr ht) hi
  | raise => exact fun t ht hi => h t (L.rely_trans hr ht) hi
  | op o k => exact fun t ht hi => h t (L.rely_trans hr ht) hi

theorem wp_ret {a : α} (hs : L.Stable (Q a)) (h : Q a s) : L.wp m (.ret a) Q E s :=
  fun t ht hi => hs s t h ht hi

/-- The end of a program, from a stable condition. -/
theorem wp_ret_of {a : α} {A : σ → Prop} (hst : L.Stable A) (hA : A s)
    (h : ∀ t, L.inv t → A t → Q a t) : L.wp m (.ret a) Q E s :=
  fun t ht hi => h t hi (hst s t hA ht hi)

theorem wp_raise (hs : L.Stable E) (h : E s) : L.wp m (.raise : Prog Res α) Q E s :=
  fun t ht hi => hs s t h ht hi

/-- One operation, from a stable precondition. -/
theorem wp_op {o : Op} {k : Res o → Prog Res α} {A : σ → Prop} (hst : L.Stable A) (hA : A s)
    (hE : m = true → ∀ t, L.inv t → A t → E t)
    (h : ∀ t r t', L.inv t → A t → L.assume o t → L.sem o t r t' →
      L.inv t' ∧ L.guar o t r t' ∧ L.wp m (k r) Q E t') :
    L.wp m (.op o k) Q E s := by
  intro t ht hi
  have hAt : A t := hst s t hA ht hi
  exact ⟨fun hm => hE hm t hi hAt, fun ha r t' hsem => h t r t' hi hAt ha hsem⟩

/-- ...in both directions: it is enough to start from every state the others may leave. -/
theorem wp_of_rely (h : ∀ t, L.rely s t → L.inv t → L.wp m p Q E t) : L.wp m p Q E s := by
  cases p with
  | ret a => exact fun t ht hi => h t ht hi t (L.rely_refl t) hi
  | raise => exact fun t ht hi => h t ht hi t (L.rely_refl t) hi
  | op o k => exact fun t ht hi => h t ht hi t (L.rely_refl t) hi

theorem wp_bind {f : α → Prog Res β} {Q : β → σ → Prop}
    (h : L.wp m p (fun a => L.wp m (f a) Q E) E s) : L.wp m (p >>= f) Q E s := by
  induction p generalizing s with
  | ret a => exact wp_of_rely h
  | raise => exact h
  | op o k ih =>
    intro t ht hi
    refine ⟨(h t ht hi).1, fun ha r t' hsem => ?_⟩
    obtain ⟨hi', hg, hk⟩ := (h t ht hi).2 ha r t' hsem
    exact ⟨hi', hg, ih r hk⟩

theorem wp_mono (h : L.wp m p Q E s) (hQ : ∀ a t, L.inv t → Q a t → Q' a t)
    (hE : ∀ t, L.inv t → E t → E' t) : L.wp m p Q' E' s := by
  induction p generalizing s with
  | ret a => exact fun t ht hi => hQ a t hi (h t ht hi)
  | raise => exact fun t ht hi => hE t hi (h t ht hi)
  | op o k ih =>
    intro t ht hi
    refine ⟨fun hm => hE t hi ((h t ht hi).1 hm), fun ha r t' hsem => ?_⟩
    obtain ⟨hi', hg, hk⟩ := (h t ht hi).2 ha r t' hsem
    exact ⟨hi', hg, ih r hk⟩

/-- A program put in front of another one, when all it leaves behind looks like interference. -/
theorem wp_interrupt {h : Prog Res β} (hp : L.wp m p Q E s)
    (hh : L.wp m h (fun _ t => L.rely s t) (fun _ => False) s)
    (hm : m = false) : L.wp m (h >>= fun _ => p) Q E s := by
  subst hm
  refine wp_bind (wp_mono hh (fun _ t _ hr => wp_rely hp hr) fun _ _ => False.elim)

theorem wp_catching {h : Prog Res α} (hp : L.wp m p Q (fun t => L.wp m h Q E t) s)
    (hh : m = true → ∀ t, L.wp m h Q E t → E t) : L.wp m (p.catching h) Q E s := by
  induction p generalizing s with
  | ret a => exact hp
  | raise => exact wp_of_rely hp
  | op o k ih =>
    intro t ht hi
    refine ⟨fun hm => hh hm t ((hp t ht hi).1 hm), fun ha r t' hsem => ?_⟩
    obtain ⟨hi', hg, hk⟩ := (hp t ht hi).2 ha r t' hsem
    exact ⟨hi', hg, ih r hk⟩

/-- A program that is safe to leave at every point may have errors raised at every point. -/
theorem wp_faulty {f : Op} {failed : Res f → Bool} (hE : L.Stable E)
    (hf : ∀ t b t', L.inv t → E t → L.sem f t b t' → L.inv t' ∧ L.guar f t b t' ∧
      (failed b = false → t' = t) ∧ (failed b = true → E t'))
    (hp : L.wp true p Q E s) : L.wp false (p.faulty f failed) Q E s := by
  induction p generalizing s with
  | ret a => exact hp
  | raise => exact hp
  | op o k ih =>
    intro t ht hi
    refine ⟨nofun, fun _ b t' hsem => ?_⟩
    obtain ⟨hi', hg, hok, hbad⟩ := hf t b t' hi ((hp t ht hi).1 rfl) hsem
    refine ⟨hi', hg, ?_⟩
    by_cases hb : failed b = true
    · simp only [if_pos hb]
      exact wp_raise hE (hbad hb)
    · simp only [if_neg hb]
      have hts : t' = t := hok (by simpa using hb)
      subst hts
      intro u hu hiu
      refine ⟨nofun, fun ha r u' hs => ?_⟩
      obtain ⟨hi'', hg', hk⟩ := (hp u (L.rely_trans ht hu) hiu).2 ha r u' hs
      exact ⟨hi'', hg', ih r hk⟩

/-- ...and where no error is raised, the program is as it was without them. -/
theorem wp_faulty_never {f : Op} {failed : Res f → Bool}
    (hf : ∀ t b t', L.inv t → L.sem f t b t' → L.inv t' ∧ L.guar f t b t' ∧ t' = t ∧
      failed b = false)
    (hp : L.wp false p Q E s) : L.wp false (p.faulty f failed) Q E s := by
  induction p generalizing s with
  | ret a => exact hp
  | raise => exact hp
  | op o k ih =>
    intro t ht hi
    refine ⟨nofun, fun _ b t' hsem => ?_⟩
    obtain ⟨hi', hg, rfl, hb⟩ := hf t b t' hi hsem
    refine ⟨hi', hg, ?_⟩
    simp only [hb, Bool.false_eq_true, if_false]
    intro u hu hiu
    refine ⟨nofun, fun ha r u' hs => ?_⟩
    obtain ⟨hi'', hg', hk⟩ := (hp u (L.rely_trans ht hu) hiu).2 ha r u' hs
    exact ⟨hi'', hg', ih r hk⟩

/-- A program all of whose operations keep a condition keeps it. -/
theorem wp_of_all {P : Op → Prop} {A : σ → Prop} (hall : p.All P) (hst : L.Stable A)
    (hstep : ∀ o t r t', P o → L.inv t → A t → L.assume o t → L.sem o t r t' →
      L.inv t' ∧ L.guar o t r t' ∧ A t')
    (hA : A s) : L.wp m p (fun _ => A) A s := by
  induction p generalizing s with
  | ret a => exact wp_ret hst hA
  | raise => exact wp_raise hst hA
  | op o k ih =>
    refine wp_op hst hA (fun _ _ _ h => h) fun t r t' hi hAt ha hsem => ?_
    obtain ⟨hi', hg, hA'⟩ := hstep o t r t' hall.1 hi hAt ha hsem
    exact ⟨hi', hg, ih r (hall.2 r) hA'⟩

/-- A program that only reads returns what it can return by the answers that are right at its
end, if answers that are right stay right. -/
theorem wp_returnsBy {P : Op → Prop} {A : σ → Prop} (ans : σ → (o : Op) → Res o → Prop)
    (hall : p.All P) (hn : p.NoRaise) (hst : L.Stable A)
    (hans : ∀ s t, L.rely s t → ∀ o r, ans s o r → ans t o r)
    (hstep : ∀ o t r t', P o → L.inv t → A t → L.assume o t → L.sem o t r t' →
      L.inv t' ∧ L.guar o t r t' ∧ A t' ∧ ans t' o r ∧ ∀ o r, ans t o r → ans t' o r)
    (hA : A s) :
    L.wp false p (fun a t => A t ∧ p.ReturnsBy (ans t) a ∧ ∀ o r, ans s o r → ans t o r) E s := by
  induction p generalizing s with
  | ret a => exact fun t hr hi => ⟨hst s t hA hr hi, rfl, hans s t hr⟩
  | raise => exact hn.elim
  | op o k ih =>
    intro t hr hi
    refine ⟨nofun, fun ha r t' hsem => ?_⟩
    obtain ⟨hi', hg, hA', hor, hkeep⟩ := hstep o t r t' hall.1 hi (hst s t hA hr hi) ha hsem
    refine ⟨hi', hg, wp_mono (ih r (hall.2 r) (hn r) hA') ?_ fun _ _ h => h⟩
    rintro a u - ⟨hAu, hret, hle⟩
    exact ⟨hAu, ⟨r, hle o r hor, hret⟩, fun o r h => hle o r (hkeep o r (hans s t hr o r h))⟩

/-- A program that raises no error needs no condition for one. -/
theorem wp_noRaise (hn : p.NoRaise) (h : L.wp false p Q E s) : L.wp false p Q E' s := by
  induction p generalizing s with
  | ret a => exact h
  | raise => exact hn.elim
  | op o k ih =>
    intro t ht hi
    refine ⟨nofun, fun ha r t' hsem => ?_⟩
    obtain ⟨hi', hg, hk⟩ := (h t ht hi).2 ha r t' hsem
    exact ⟨hi', hg, ih r (hn r) hk⟩

/-- A program all of whose operations keep a condition keeps it, and is left with what the
operations before its errors bring about. -/
theorem wp_raisesAfter {P : Op → Prop} {bad : (o : Op) → Res o → Prop} {A B : σ → Prop}
    (hall : p.All P) (hr : p.RaisesAfter bad) (hA : L.Stable A) (hB : L.Stable B)
    (hstep : ∀ o t r t', P o → L.inv t → A t → L.assume o t → L.sem o t r t' →
      L.inv t' ∧ L.guar o t r t' ∧ A t' ∧ (bad o r → B t'))
    (hs : A s) : L.wp false p (fun _ => A) (fun t => A t ∧ B t) s := by
  induction p generalizing s with
  | ret a => exact wp_ret hA hs
  | raise => exact hr.elim
  | op o k ih =>
    refine wp_op hA hs nofun fun t r t' hi hAt ha hsem => ?_
    obtain ⟨hi', hg, hA', hB'⟩ := hstep o t r t' hall.1 hi hAt ha hsem
    refine ⟨hi', hg, ?_⟩
    rcases hr r with ⟨hraise, hbad⟩ | hk
    · rw [hraise]
      exact wp_raise (hA.and hB) ⟨hA', hB' hbad⟩
    · exact ih r (hall.2 r) hk hA'

/-- What every operation of a program keeps is kept beside what the program does. -/
theorem wp_frame {P : Op → Prop} {B : σ → Prop} (hall : p.All P) (hB : L.Stable B)
    (hstep : ∀ o t r t', P o → L.inv t → B t → L.sem o t r t' → B t')
    (h : L.wp m p Q E s) (hb : B s) :
    L.wp m p (fun a t => Q a t ∧ B t) (fun t => E t ∧ B t) s := by
  induction p generalizing s with
  | ret a => exact fun t ht hi => ⟨h t ht hi, hB s t hb ht hi⟩
  | raise => exact fun t ht hi => ⟨h t ht hi, hB s t hb ht hi⟩
  | op o k ih =>
    intro t ht hi
    have hbt : B t := hB s t hb ht hi
    refine ⟨fun hm => ⟨(h t ht hi).1 hm, hbt⟩, fun ha r t' hsem => ?_⟩
    obtain ⟨hi', hg, hk⟩ := (h t ht hi).2 ha r t' hsem
    exact ⟨hi', hg, ih r (hall.2 r) hk (hstep o t r t' hall.1 hi hbt hsem)⟩

/-! ## Silent operations -/

/-- Where `A` holds, the operation keeps what its thread owes, and its effect is one the others
might have had too. -/
def Silent (L : Contract Res σ) (A : σ → Prop) (o : Op) : Prop := ∀ s r t, L.inv s → A s →
  L.assume o s → L.sem o s r t → L.inv t ∧ L.guar o s r t ∧ L.rely s t

theorem Silent.mono {A B : σ → Prop} {o : Op} (h : ∀ s, A s → B s) (hB : L.Silent B o) :
    L.Silent A o :=
  fun s r t hi hA => hB s r t hi (h s hA)

/-- A silent operation leaves a stable condition alone. -/
theorem wp_silent_op {o : Op} {k : Res o → Prog Res α} {A : σ → Prop} (ho : L.Silent A o)
    (hst : L.Stable A) (hA : A s) (hE : m = true → ∀ t, L.inv t → A t → E t)
    (h : ∀ r t, L.inv t → A t → L.wp m (k r) Q E t) : L.wp m (.op o k) Q E s := by
  refine wp_op hst hA hE fun t r t' hi hAt ha hsem => ?_
  obtain ⟨hi', hg, hr⟩ := ho t r t' hi hAt ha hsem
  exact ⟨hi', hg, h r t' hi' (hst t t' hAt hr hi')⟩

/-- A program of silent operations leaves a stable condition alone. -/
theorem wp_silent {A : σ → Prop} (hall : p.All (L.Silent A)) (hst : L.Stable A) (hA : A s) :
    L.wp m p (fun _ => A) A s := by
  refine wp_of_all hall hst (fun o t r t' ho hi hAt ha hsem => ?_) hA
  obtain ⟨hi', hg, hr⟩ := ho t r t' hi hAt ha hsem
  exact ⟨hi', hg, hst t t' hAt hr hi'⟩

/-! ## Promising more -/

section Promise

variable {extra : Op → σ → Prop}

/-- The contract of a thread that promises more of the states in which it acts. -/
def promising (L : Contract Res σ) (extra : Op → σ → Prop) : Contract Res σ :=
  { L with guar := fun o s r t => L.guar o s r t ∧ extra o s }

/-- Operations of which nothing more is promised. -/
theorem wp_promising (h : L.wp m p Q E s) (hall : p.All fun o => ∀ t, extra o t) :
    (L.promising extra).wp m p Q E s := by
  induction p generalizing s with
  | ret a => exact h
  | raise => exact h
  | op o k ih =>
    intro t ht hi
    refine ⟨(h t ht hi).1, fun ha r t' hsem => ?_⟩
    obtain ⟨hi', hg, hk⟩ := (h t ht hi).2 ha r t' hsem
    exact ⟨hi', ⟨hg, hall.1 t⟩, ih r hk (hall.2 r)⟩

theorem wp_promising_bind {f : α → Prog Res β} {Q : β → σ → Prop} {A : α → σ → Prop}
    (h : L.wp m p A E s) (hall : p.All fun o => ∀ t, extra o t)
    (hf : ∀ a t, L.inv t → A a t → (L.promising extra).wp m (f a) Q E t) :
    (L.promising extra).wp m (p >>= f) Q E s :=
  wp_bind (wp_mono (wp_promising h hall) hf fun _ _ h => h)

end Promise

/-! ## Abstraction -/

section Abstraction

variable {ν : Type} {view : σ → ν} {C : Contract Res ν}

/-- `view` maps what happens under `L` to what may happen under `C`, and the promises of `C` are
those of `L`. -/
structure Abstracts (L : Contract Res σ) (view : σ → ν) (C : Contract Res ν) : Prop where
  rely : ∀ {s t}, L.rely s t → C.rely (view s) (view t)
  inv : ∀ {s}, L.inv s ↔ C.inv (view s)
  assume : ∀ {o s}, L.assume o s → C.assume o (view s)
  sem : ∀ {o s r t}, L.sem o s r t → C.sem o (view s) r (view t)
  guar : ∀ {o s r t}, L.sem o s r t → C.guar o (view s) r (view t) → L.guar o s r t

/-- A program may be reasoned about on what its thread sees. -/
theorem wp_of_abstracts (hv : L.Abstracts view C) {Q : α → ν → Prop} {E : ν → Prop}
    (h : C.wp m p Q E (view s)) :
    L.wp m p (fun a t => Q a (view t)) (fun t => E (view t)) s := by
  induction p generalizing s with
  | ret a => exact fun t ht hi => h (view t) (hv.rely ht) (hv.inv.mp hi)
  | raise => exact fun t ht hi => h (view t) (hv.rely ht) (hv.inv.mp hi)
  | op o k ih =>
    intro t ht hi
    obtain ⟨hE, hstep⟩ := h (view t) (hv.rely ht) (hv.inv.mp hi)
    refine ⟨hE, fun ha r t' hsem => ?_⟩
    obtain ⟨hi', hg, hk⟩ := hstep (hv.assume ha) r (view t') (hv.sem hsem)
    exact ⟨hv.inv.mpr hi', hv.guar hsem hg, ih r hk⟩

/-- A contract on what a thread sees, as one on the whole state. -/
def comap (view : σ → ν) (C : Contract Res ν) : Contract Res σ where
  sem o s r t := C.sem o (view s) r (view t)
  inv s := C.inv (view s)
  rely s t := C.rely (view s) (view t)
  assume o s := C.assume o (view s)
  guar o s r t := C.guar o (view s) r (view t)
  rely_refl s := C.rely_refl (view s)
  rely_trans := C.rely_trans

theorem wp_comap {Q : α → ν → Prop} {E : ν → Prop} (h : C.wp m p Q E (view s)) :
    (C.comap view).wp m p (fun a t => Q a (view t)) (fun t => E (view t)) s := by
  have habs : (C.comap view).Abstracts view C :=
    ⟨fun h => h, Iff.rfl, fun h => h, fun h => h, fun _ h => h⟩
  exact wp_of_abstracts habs h

end Abstraction

/-! ## No interference -/

section Sequential

variable {step : (o : Op) → σ → Res o → σ → Prop} {inv : σ → Prop} {guar : Op → σ → Prop}

/-- The contract of a thread that runs alone. -/
def sequential (step : (o : Op) → σ → Res o → σ → Prop) (inv : σ → Prop)
    (guar : Op → σ → Prop) : Contract Res σ where
  sem := step
  inv := inv
  rely := Eq
  assume _ _ := True
  guar o s _ _ := guar o s
  rely_refl _ := rfl
  rely_trans := Eq.trans

theorem seq_stable (A : σ → Prop) : (sequential step inv guar).Stable A := by
  rintro s _ h rfl _
  exact h

theorem seq_ret {a : α} (h : inv s → Q a s) : (sequential step inv guar).wp m (.ret a) Q E s := by
  rintro _ rfl hi
  exact h hi

theorem seq_raise (h : inv s → E s) :
    (sequential step inv guar).wp m (.raise : Prog Res α) Q E s := by
  rintro _ rfl hi
  exact h hi

theorem seq_op {o : Op} {k : Res o → Prog Res α} (hE : m = true → inv s → E s)
    (hg : inv s → guar o s)
    (h : inv s → ∀ r t, step o s r t → inv t ∧ (sequential step inv guar).wp m (k r) Q E t) :
    (sequential step inv guar).wp m (.op o k) Q E s := by
  rintro _ rfl hi
  exact ⟨fun hm => hE hm hi, fun _ r t hs => ⟨(h hi r t hs).1, hg hi, (h hi r t hs).2⟩⟩

/-- What a thread that runs alone ends with, and what it does on the way. -/
theorem seq_outcome {run : (o : Op) → σ → Option (Res o × σ)} {s : σ}
    (h : (sequential (fun o s r t => run o s = some (r, t)) (fun _ => True) guar).wp
      false p Q E s) :
    (∀ a t, p.outcome run s = some (some a, t) → Q a t) ∧
      (∀ t, p.outcome run s = some (none, t) → E t) ∧
      ∀ x ∈ p.performed run s, guar x.1 x.2 := by
  induction p generalizing s with
  | ret a =>
    refine ⟨?_, ?_, fun _ hx => by cases hx⟩
    · rintro _ _ ⟨⟩
      exact h s rfl trivial
    · rintro _ ⟨⟩
  | raise =>
    refine ⟨?_, ?_, fun _ hx => by cases hx⟩
    · rintro _ _ ⟨⟩
    · rintro _ ⟨⟩
      exact h s rfl trivial
  | op o k ih =>
    rw [Prog.outcome, Prog.performed]
    cases hr : run o s with
    | none =>
      refine ⟨fun _ _ ho => ?_, fun _ ho => ?_, fun _ hx => ?_⟩
      · cases ho
      · cases ho
      · cases hx
    | some r =>
      obtain ⟨-, hg, hk⟩ := (h s rfl trivial).2 trivial r.1 r.2 hr
      obtain ⟨hret, hraise, hall⟩ := ih r.1 hk
      refine ⟨hret, hraise, ?_⟩
      intro x hx
      rcases List.mem_cons.mp hx with rfl | hx
      · exact hg
      · exact hall x hx

section Noting

variable {Env γ : Type} {exec : (o : Op) → Env → σ → Option (Res o × σ)}

/-- The contract of a thread that runs alone, while something is noted of each operation. -/
abbrev noting (exec : (o : Op) → Env → σ → Option (Res o × σ)) (note : Op × σ → γ → γ)
    (guar : Op → σ × γ → Prop) : Contract Res (σ × γ) :=
  sequential (fun o s r t => ∃ e, exec o e s.1 = some (r, t.1) ∧ t.2 = note (o, s.1) s.2)
    (fun _ => True) guar

/-- What is known of a program is known of what remains of it after some operations. -/
theorem noting_steps {note : Op × σ → γ → γ} {guar : Op → σ × γ → Prop} {Q : α → σ × γ → Prop}
    {E : σ × γ → Prop} {s t : σ} {g : γ} {l : List (Op × σ)} {p' : Prog Res α} {es : List Env}
    (h : (noting exec note guar).wp false p Q E (s, g))
    (hs : p.steps exec es s = some (l, p', t)) :
    (noting exec note guar).wp false p' Q E (t, l.foldl (fun g x => note x g) g) := by
  induction es generalizing p s g l with
  | nil =>
    obtain ⟨rfl, rfl, rfl⟩ := Prog.steps_nil hs
    exact h
  | cons e es ih =>
    obtain ⟨o, k, r, s', l', rfl, hr, hrest, rfl⟩ := Prog.steps_cons hs
    have hk := ((h (s, g) rfl trivial).2 trivial r (s', note (o, s) g) ⟨e, hr, rfl⟩).2.2
    rw [List.foldl_cons]
    exact ih hk hrest

/-- The contract of a thread that runs alone and keeps a list of what it did. -/
abbrev recording (exec : (o : Op) → Env → σ → Option (Res o × σ))
    (guar : Op → σ × List (Op × σ) → Prop) : Contract Res (σ × List (Op × σ)) :=
  sequential (fun o s r t => ∃ e, exec o e s.1 = some (r, t.1) ∧ t.2 = s.2 ++ [(o, s.1)])
    (fun _ => True) guar

theorem recording_steps {guar : Op → σ × List (Op × σ) → Prop} {Q : α → σ × List (Op × σ) → Prop}
    {E : σ × List (Op × σ) → Prop} {s t : σ} {l l' : List (Op × σ)} {p' : Prog Res α}
    {es : List Env} (h : (recording exec guar).wp false p Q E (s, l))
    (hs : p.steps exec es s = some (l', p', t)) :
    (recording exec guar).wp false p' Q E (t, l ++ l') := by
  have hnoted : (noting exec (fun x l => l ++ [x]) guar).wp false p' Q E
      (t, l'.foldl (fun l x => l ++ [x]) l) := noting_steps h hs
  rwa [List.foldl_append_eq_append, ← List.flatMap_def, List.flatMap_singleton'] at hnoted

/-- What a program keeps at every point holds after some operations. -/
theorem seq_steps (inv : σ → Prop) {guar : Op → σ → Prop} {Q : α → σ → Prop} {E : σ → Prop}
    {s t : σ} {l : List (Op × σ)} {p' : Prog Res α} {es : List Env}
    (h : (sequential (fun o s r t => ∃ e, exec o e s = some (r, t)) inv guar).wp false p Q E s)
    (hi : inv s) (hs : p.steps exec es s = some (l, p', t)) : inv t := by
  induction es generalizing p s l with
  | nil =>
    obtain ⟨rfl, rfl, rfl⟩ := Prog.steps_nil hs
    exact hi
  | cons e es ih =>
    obtain ⟨o, k, r, s', l', rfl, hr, hrest, rfl⟩ := Prog.steps_cons hs
    obtain ⟨hi', -, hk⟩ := (h s rfl hi).2 trivial r s' ⟨e, hr⟩
    exact ih hk hi' hrest

/-- A program that runs alone, never waits and is left by no error runs to its end. -/
theorem seq_solo {guar : Op → σ → Prop} {Q : α → σ → Prop} {s : σ} (e : Env)
    (h : (sequential (fun o s r t => ∃ e, exec o e s = some (r, t)) (fun _ => True) guar).wp false
      p Q (fun _ => False) s) (hp : p.All fun o => ∀ s, exec o e s ≠ none) :
    ∃ a t, p.solo (fun o => exec o e) s = some (a, t) ∧ Q a t := by
  induction p generalizing s with
  | ret a => exact ⟨a, s, rfl, h _ rfl trivial⟩
  | raise => exact (h _ rfl trivial).elim
  | op o k ih =>
    obtain ⟨⟨r, t⟩, hr⟩ := Option.ne_none_iff_exists'.mp (hp.1 s)
    obtain ⟨-, -, hk⟩ := (h s rfl trivial).2 trivial r t ⟨e, hr⟩
    obtain ⟨a, u, hsolo, hQ⟩ := ih r hk (hp.2 r)
    exact ⟨a, u, by rw [Prog.solo, hr, Option.bind_some, hsolo], hQ⟩

end Noting

end Sequential

end Contract

end Interleaving
