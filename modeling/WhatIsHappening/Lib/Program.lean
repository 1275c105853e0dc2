/-
# Programs over atomic operations

A program is a tree of atomic operations: it performs one operation, receives its answer and
goes on.  What it does to a state is not said here; what it can perform, return and raise is a
matter of the tree alone, whatever its operations are answered.  Each of these is a predicate with
a rule for sequencing, so that it is shown of a program by following its text.
-/
import Mathlib.Logic.Function.Basic

namespace Interleaving

/-- A program over the operations `Op`, whose answers have type `Res o`. -/
inductive Prog {Op : Type} (Res : Op → Type) (α : Type) : Type where
  | ret (a : α) : Prog Res α
  | raise : Prog Res α
  | op (o : Op) (k : Res o → Prog Res α) : Prog Res α

namespace Prog

variable {Op : Type} {Res : Op → Type} {α β γ : Type}

/-- Sequencing.  An error skips everything that follows. -/
def bind : Prog Res α → (α → Prog Res β) → Prog Res β
  | .ret a, f => f a
  | .raise, _ => .raise
  | .op o k, f => .op o fun r => (k r).bind f

/-- A single operation. -/
def perform (o : Op) : Prog Res (Res o) := .op o .ret

instance : Monad (Prog Res) where
  pure := .ret
  bind := bind

@[simp] theorem pure_eq (a : α) : (pure a : Prog Res α) = .ret a := rfl

@[simp] theorem ret_bind (a : α) (f : α → Prog Res β) : (Prog.ret a >>= f) = f a := rfl

@[simp] theorem raise_bind (f : α → Prog Res β) : (Prog.raise >>= f) = .raise := rfl

@[simp] theorem op_bind (o : Op) (k : Res o → Prog Res α) (f : α → Prog Res β) :
    (Prog.op o k >>= f) = .op o fun r => k r >>= f := rfl

@[simp] theorem perform_bind (o : Op) (f : Res o → Prog Res β) :
    (perform o >>= f) = .op o f := rfl

theorem bind_assoc (p : Prog Res α) (f : α → Prog Res β) (g : β → Prog Res γ) :
    (p >>= f >>= g) = p >>= fun a => f a >>= g := by
  induction p with
  | ret a => rfl
  | raise => rfl
  | op o k ih => exact congrArg (Prog.op o) (funext ih)

/-- Run `h` in place of everything that an error in `p` skips. -/
def catching : Prog Res α → Prog Res α → Prog Res α
  | .ret a, _ => .ret a
  | .raise, h => h
  | .op o k, h => .op o fun r => (k r).catching h

/-- An error may be raised in front of every operation of the program: the operation `f` asks
the environment, and `failed` reads its answer. -/
def faulty (f : Op) (failed : Res f → Bool) : Prog Res α → Prog Res α
  | .ret a => .ret a
  | .raise => .raise
  | .op o k => .op f fun b =>
      if failed b then .raise else .op o fun r => (k r).faulty f failed

theorem faulty_bind {f : Op} {failed : Res f → Bool} (p : Prog Res α) (g : α → Prog Res β) :
    (p >>= g).faulty f failed = p.faulty f failed >>= fun a => (g a).faulty f failed := by
  induction p with
  | ret a => rfl
  | raise => rfl
  | op o k ih =>
    refine congrArg (Prog.op f) (funext fun b => ?_)
    by_cases hb : failed b = true
    · simp only [if_pos hb]
      rfl
    · simp only [if_neg hb]
      exact congrArg (Prog.op o) (funext fun r => ih r)

/-- Every operation the program can perform, whatever it is answered, satisfies `P`. -/
def All (P : Op → Prop) : Prog Res α → Prop
  | .ret _ => True
  | .raise => True
  | .op o k => P o ∧ ∀ r, (k r).All P

variable {P P' : Op → Prop}

@[simp] theorem all_ret (a : α) : (Prog.ret a : Prog Res α).All P := trivial

theorem All.bind {p : Prog Res α} {f : α → Prog Res β} (hp : p.All P) (hf : ∀ a, (f a).All P) :
    (p >>= f).All P := by
  induction p with
  | ret a => exact hf a
  | raise => trivial
  | op o k ih => exact ⟨hp.1, fun r => ih r (hp.2 r)⟩

theorem All.catching {p h : Prog Res α} (hp : p.All P) (hh : h.All P) : (p.catching h).All P := by
  induction p with
  | ret a => trivial
  | raise => exact hh
  | op o k ih => exact ⟨hp.1, fun r => ih r (hp.2 r)⟩

theorem All.faulty {p : Prog Res α} {f : Op} {failed : Res f → Bool} (hf : P f) (hp : p.All P) :
    (p.faulty f failed).All P := by
  induction p with
  | ret a => trivial
  | raise => trivial
  | op o k ih =>
    refine ⟨hf, fun b => ?_⟩
    by_cases hb : failed b = true
    · simp only [hb, if_true]
      trivial
    · simp only [hb, Bool.false_eq_true, if_false]
      exact ⟨hp.1, fun r => ih r (hp.2 r)⟩

theorem All.mono {p : Prog Res α} (h : ∀ o, P o → P' o) (hp : p.All P) : p.All P' := by
  induction p with
  | ret a => trivial
  | raise => trivial
  | op o k ih => exact ⟨h o hp.1, fun r => ih r (hp.2 r)⟩

theorem All.and {p : Prog Res α} (hp : p.All P) (hp' : p.All P') :
    p.All fun o => P o ∧ P' o := by
  induction p with
  | ret a => trivial
  | raise => trivial
  | op o k ih => exact ⟨⟨hp.1, hp'.1⟩, fun r => ih r (hp.2 r) (hp'.2 r)⟩

/-- The first part of a program performs no more than the whole. -/
theorem All.of_bind {p : Prog Res α} {f : α → Prog Res β} (h : (p >>= f).All P) : p.All P := by
  induction p with
  | ret a => trivial
  | raise => trivial
  | op o k ih => exact ⟨h.1, fun r => ih r (h.2 r)⟩

/-- The program can perform these operations, one after the other, for some answers. -/
def Performs : Prog Res α → List Op → Prop
  | _, [] => True
  | .op o k, o' :: os => o = o' ∧ ∃ r, (k r).Performs os
  | _, _ :: _ => False

theorem All.performs {p : Prog Res α} {os : List Op} (hp : p.All P) (h : p.Performs os) :
    ∀ o ∈ os, P o := by
  induction p generalizing os with
  | ret a =>
    cases os with
    | nil => exact nofun
    | cons o' os => exact h.elim
  | raise =>
    cases os with
    | nil => exact nofun
    | cons o' os => exact h.elim
  | op o k ih =>
    cases os with
    | nil => exact nofun
    | cons o' os =>
      obtain ⟨rfl, r, hk⟩ := h
      intro x hx
      rcases List.mem_cons.mp hx with rfl | hx
      · exact hp.1
      · exact ih r (hp.2 r) hk x hx

/-- The program does not raise an error by itself. -/
def NoRaise : Prog Res α → Prop
  | .ret _ => True
  | .raise => False
  | .op _ k => ∀ r, (k r).NoRaise

theorem NoRaise.bind {p : Prog Res α} {f : α → Prog Res β} (hp : p.NoRaise)
    (hf : ∀ a, (f a).NoRaise) : (p >>= f).NoRaise := by
  induction p with
  | ret a => exact hf a
  | raise => exact hp.elim
  | op o k ih => exact fun r => ih r (hp r)

/-- A handler that raises no error catches every error. -/
theorem NoRaise.catching {p h : Prog Res α} (hh : h.NoRaise) : (p.catching h).NoRaise := by
  induction p with
  | ret a => trivial
  | raise => exact hh
  | op o k ih => exact fun r => ih r

/-- The program can return `b` where its operations are answered as `ans` says. -/
def ReturnsBy (ans : (o : Op) → Res o → Prop) : Prog Res α → α → Prop
  | .ret a, b => a = b
  | .raise, _ => False
  | .op o k, b => ∃ r, ans o r ∧ (k r).ReturnsBy ans b

theorem returnsBy_bind {ans : (o : Op) → Res o → Prop} {p : Prog Res α} {f : α → Prog Res β}
    {b : β} : (p >>= f).ReturnsBy ans b ↔ ∃ a, p.ReturnsBy ans a ∧ (f a).ReturnsBy ans b := by
  induction p with
  | ret a =>
    constructor
    · exact fun h => ⟨a, rfl, h⟩
    · rintro ⟨_, rfl, h⟩
      exact h
  | raise =>
    constructor
    · exact fun h => h.elim
    · rintro ⟨_, h, -⟩
      exact h
  | op o k ih =>
    constructor
    · rintro ⟨r, hr, h⟩
      obtain ⟨a, ha, hf⟩ := (ih r).mp h
      exact ⟨a, ⟨r, hr, ha⟩, hf⟩
    · rintro ⟨a, ⟨r, hr, ha⟩, hf⟩
      exact ⟨r, hr, (ih r).mpr ⟨a, ha, hf⟩⟩

theorem ReturnsBy.mono {ans ans' : (o : Op) → Res o → Prop} {p : Prog Res α} {b : α}
    (h : p.ReturnsBy ans b) (hans : ∀ o r, ans o r → ans' o r) : p.ReturnsBy ans' b := by
  induction p with
  | ret a => exact h
  | raise => exact h
  | op o k ih =>
    obtain ⟨r, hr, h⟩ := h
    exact ⟨r, hans o r hr, ih r h⟩

/-- The program can return `b`, for some answers of its operations. -/
def Returns : Prog Res α → α → Prop
  | .ret a, b => a = b
  | .raise, _ => False
  | .op _ k, b => ∃ r, (k r).Returns b

theorem returns_iff {p : Prog Res α} {b : α} : p.Returns b ↔ p.ReturnsBy (fun _ _ => True) b := by
  induction p with
  | ret a => exact Iff.rfl
  | raise => exact Iff.rfl
  | op o k ih => simp [Returns, ReturnsBy, ih]

theorem returns_bind {p : Prog Res α} {f : α → Prog Res β} {b : β} :
    (p >>= f).Returns b ↔ ∃ a, p.Returns a ∧ (f a).Returns b := by
  simp only [returns_iff, returnsBy_bind]

/-- ...where what follows has to be looked at for what can be returned only. -/
theorem All.bind_of_returns {p : Prog Res α} {f : α → Prog Res β} (hp : p.All P)
    (hf : ∀ a, p.Returns a → (f a).All P) : (p >>= f).All P := by
  induction p with
  | ret a => exact hf a rfl
  | raise => trivial
  | op o k ih => exact ⟨hp.1, fun r => ih r (hp.2 r) fun a ha => hf a ⟨r, ha⟩⟩

/-- The program can return, and returns nothing but what satisfies `Q`. -/
def ReturnsOnly (p : Prog Res α) (Q : α → Prop) : Prop :=
  (∃ a, p.Returns a) ∧ ∀ a, p.Returns a → Q a

section ReturnsOnly

variable {p : Prog Res α} {f : α → Prog Res β} {A B : α → Prop} {Q : β → Prop}

theorem returnsOnly_ret {a : α} (h : A a) : (.ret a : Prog Res α).ReturnsOnly A := by
  refine ⟨⟨a, rfl⟩, ?_⟩
  rintro _ rfl
  exact h

theorem ReturnsOnly.bind (hp : p.ReturnsOnly A) (hf : ∀ a, A a → (f a).ReturnsOnly Q) :
    (p >>= f).ReturnsOnly Q := by
  obtain ⟨⟨a, ha⟩, hA⟩ := hp
  obtain ⟨b, hb⟩ := (hf a (hA a ha)).1
  refine ⟨⟨b, returns_bind.mpr ⟨a, ha, hb⟩⟩, ?_⟩
  intro b hb
  obtain ⟨a, ha, hb⟩ := returns_bind.mp hb
  exact (hf a (hA a ha)).2 b hb

/-- Two descriptions of what a program returns agree on something it returns. -/
theorem ReturnsOnly.exists_both (hA : p.ReturnsOnly A) (hB : p.ReturnsOnly B) :
    ∃ a, A a ∧ B a := by
  obtain ⟨a, ha⟩ := hA.1
  exact ⟨a, hA.2 a ha, hB.2 a ha⟩

end ReturnsOnly

/-- Errors of the program itself come right after an operation and an answer with `bad`. -/
def RaisesAfter (bad : (o : Op) → Res o → Prop) : Prog Res α → Prop
  | .ret _ => True
  | .raise => False
  | .op o k => ∀ r, k r = .raise ∧ bad o r ∨ (k r).RaisesAfter bad

section RaisesAfter

variable {bad : (o : Op) → Res o → Prop}

theorem NoRaise.raisesAfter {p : Prog Res α} (hp : p.NoRaise) : p.RaisesAfter bad := by
  induction p with
  | ret a => trivial
  | raise => exact hp.elim
  | op o k ih => exact fun r => .inr (ih r (hp r))

theorem RaisesAfter.bind {p : Prog Res α} {f : α → Prog Res β} (hp : p.RaisesAfter bad)
    (hf : ∀ a, (f a).RaisesAfter bad) : (p >>= f).RaisesAfter bad := by
  induction p with
  | ret a => exact hf a
  | raise => exact hp.elim
  | op o k ih =>
    intro r
    rcases hp r with ⟨hraise, hbad⟩ | hk
    · exact .inl ⟨show (k r).bind f = .raise by rw [hraise]; rfl, hbad⟩
    · exact .inr (ih r hk)

theorem RaisesAfter.faulty {p : Prog Res α} {f : Op} {failed : Res f → Bool}
    (hbad : ∀ b, failed b = true → bad f b) (hp : p.RaisesAfter bad) :
    (p.faulty f failed).RaisesAfter bad := by
  induction p with
  | ret a => trivial
  | raise => exact hp.elim
  | op o k ih =>
    intro b
    by_cases hb : failed b = true
    · exact .inl ⟨if_pos hb, hbad b hb⟩
    · right
      simp only [if_neg hb]
      intro r
      rcases hp r with ⟨hraise, hbad⟩ | hk
      · exact .inl ⟨show (k r).faulty f failed = .raise by rw [hraise]; rfl, hbad⟩
      · exact .inr (ih r hk)

end RaisesAfter

end Prog

end Interleaving
