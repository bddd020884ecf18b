import Mathlib.Tactic.Common

namespace MessageBroker.ProgramTrees

/-- A program is the tree of the atomic operations it performs, with one branch
for every answer of an operation. An uncaught exception is a leaf of its own. -/
inductive Prog (Op : Type) (Res : Op → Type) (α : Type) : Type
  | ret : α → Prog Op Res α
  | fail : String → Prog Op Res α
  | op : (o : Op) → (Res o → Prog Op Res α) → Prog Op Res α

namespace Prog

variable {Op : Type} {Res : Op → Type} {α β : Type}

def bind (p : Prog Op Res α) (f : α → Prog Op Res β) : Prog Op Res β :=
  match p with
  | ret a => f a
  | fail e => fail e
  | op o k => op o (fun r ↦ (k r).bind f)

def recover (p : Prog Op Res α) (h : String → Prog Op Res α) : Prog Op Res α :=
  match p with
  | ret a => ret a
  | fail e => h e
  | op o k => op o (fun r ↦ (k r).recover h)

instance : Monad (Prog Op Res) where
  pure := ret
  bind := bind

instance : MonadExcept String (Prog Op Res) where
  throw := fail
  tryCatch := recover

def perform (o : Op) : Prog Op Res (Res o) := op o ret

def lift : Except String α → Prog Op Res α
  | .ok a => ret a
  | .error e => fail e

def when (b : Bool) (p : Prog Op Res Unit) : Prog Op Res Unit := if b then p else ret ()

/-- Run `p` and then the clean-up `q`, also when `p` throws, as leaving the
scope of a guard object does. -/
def ensuring (p : Prog Op Res α) (q : Prog Op Res Unit) : Prog Op Res α :=
  (p.recover fun e ↦ q.bind fun _ ↦ fail e).bind fun a ↦ q.bind fun _ ↦ ret a

@[simp] theorem pure_eq (a : α) : (pure a : Prog Op Res α) = ret a := rfl

@[simp] theorem throw_eq (e : String) : (throw e : Prog Op Res α) = fail e := rfl

@[simp] theorem bind_eq (p : Prog Op Res α) (f : α → Prog Op Res β) : p >>= f = p.bind f := rfl

@[simp] theorem tryCatch_eq (p : Prog Op Res α) (h : String → Prog Op Res α) :
    tryCatch p h = p.recover h := rfl

@[simp] theorem ret_bind (a : α) (f : α → Prog Op Res β) : (ret a).bind f = f a := rfl

@[simp] theorem fail_bind (e : String) (f : α → Prog Op Res β) : (fail e).bind f = fail e := rfl

@[simp] theorem op_bind (o : Op) (k : Res o → Prog Op Res α) (f : α → Prog Op Res β) :
    (op o k).bind f = op o fun r ↦ (k r).bind f := rfl

theorem bind_ret (p : Prog Op Res α) : p.bind ret = p := by
  induction p with
  | ret | fail => rfl
  | op o k ih => simp only [op_bind, ih]

theorem bind_assoc {γ : Type} (p : Prog Op Res α) (f : α → Prog Op Res β)
    (g : β → Prog Op Res γ) : (p.bind f).bind g = p.bind fun a ↦ (f a).bind g := by
  induction p with
  | ret | fail => rfl
  | op o k ih => simp only [op_bind, ih]

instance : LawfulMonad (Prog Op Res) :=
  LawfulMonad.mk' _ bind_ret (fun _ _ ↦ rfl) bind_assoc

end Prog

end MessageBroker.ProgramTrees
