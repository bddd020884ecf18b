import MessageBroker.ProgramTrees

namespace MessageBroker.Protocols

open ProgramTrees

variable {Op : Type} {Res : Op → Type} {σ α β : Type}

/-- Which operations a program may perform in a phase, and where each answer leads. -/
structure Protocol (Op : Type) (Res : Op → Type) (σ : Type) where
  may : σ → Op → Prop
  next : σ → (o : Op) → Res o → σ

/-- Whatever the answers, the program follows the protocol from a phase; `Q`
holds where it returns and `X` where it throws. -/
def Follows (P : Protocol Op Res σ) (Q : α → σ → Prop) (X : String → σ → Prop) :
    Prog Op Res α → σ → Prop
  | .ret a, s => Q a s
  | .fail e, s => X e s
  | .op o k, s => P.may s o ∧ ∀ r, Follows P Q X (k r) (P.next s o r)

variable {P : Protocol Op Res σ} {s : σ} {Q Q' : α → σ → Prop} {X X' : String → σ → Prop}
  {p : Prog Op Res α}

theorem Follows.mono (h : Follows P Q X p s) (hQ : ∀ a t, Q a t → Q' a t)
    (hX : ∀ e t, X e t → X' e t) : Follows P Q' X' p s := by
  induction p generalizing s with
  | ret a => exact hQ a s h
  | fail e => exact hX e s h
  | op o k ih => exact ⟨h.1, fun r ↦ ih r (h.2 r)⟩

theorem Follows.bind {R : β → σ → Prop} {f : α → Prog Op Res β} (h : Follows P Q X p s)
    (hf : ∀ a t, Q a t → Follows P R X (f a) t) : Follows P R X (p.bind f) s := by
  induction p generalizing s with
  | ret a => exact hf a s h
  | fail e => exact h
  | op o k ih => exact ⟨h.1, fun r ↦ ih r (h.2 r)⟩

theorem Follows.recover {f : String → Prog Op Res α} (h : Follows P Q X' p s)
    (hf : ∀ e t, X' e t → Follows P Q X (f e) t) : Follows P Q X (p.recover f) s := by
  induction p generalizing s with
  | ret a => exact h
  | fail e => exact hf e s h
  | op o k ih => exact ⟨h.1, fun r ↦ ih r (h.2 r)⟩

theorem Follows.ensuring {q : Prog Op Res Unit} (h : Follows P Q' X' p s)
    (hQ : ∀ a t, Q' a t → Follows P (fun _ ↦ Q a) X q t)
    (hX : ∀ e t, X' e t → Follows P (fun _ ↦ X e) X q t) : Follows P Q X (p.ensuring q) s := by
  have hp : Follows P Q' X (p.recover fun e ↦ q.bind fun _ ↦ .fail e) s :=
    h.recover fun e t he ↦ (hX e t he).bind fun _ _ hx ↦ hx
  exact hp.bind fun a t ha ↦ (hQ a t ha).bind fun _ _ hq ↦ hq

theorem Follows.perform {o : Op} {Q : Res o → σ → Prop} (h : P.may s o)
    (hQ : ∀ r, Q r (P.next s o r)) : Follows P Q X (Prog.perform o) s :=
  ⟨h, hQ⟩

theorem Follows.absorbed (hs : ∀ o, P.may s o ∧ ∀ r, P.next s o r = s) (hQ : ∀ a, Q a s)
    (hX : ∀ e, X e s) : Follows P Q X p s := by
  induction p with
  | ret a => exact hQ a
  | fail e => exact hX e
  | op o k ih =>
    refine ⟨(hs o).1, fun r ↦ ?_⟩
    rw [(hs o).2 r]
    exact ih r

theorem Follows.free (hP : ∀ s o, P.may s o) (hQ : ∀ a s, Q a s) (hX : ∀ e s, X e s) : Follows P Q X p s := by
  induction p generalizing s with
  | ret a => exact hQ a s
  | fail e => exact hX e s
  | op o k ih => exact ⟨hP s o, fun r ↦ ih r⟩

/-- The program starts and ends in phase `s`, also when it throws. -/
def Keeps (P : Protocol Op Res σ) (s : σ) {α : Type} (p : Prog Op Res α) : Prop :=
  Follows P (fun _ t ↦ t = s) (fun _ t ↦ t = s) p s

theorem Keeps.perform {o : Op} (h : P.may s o) (h' : ∀ r, P.next s o r = s) :
    Keeps P s (Prog.perform o) := ⟨h, h'⟩

/-- However the program goes on, it performs an operation that satisfies `q`. -/
def Certain (q : Op → Prop) : Prog Op Res α → Prop
  | .ret _ => False
  | .fail _ => False
  | .op o k => q o ∨ ∀ r, Certain q (k r)

/-- A program that may not end in a phase of `I`, and leaves `I` only by an
operation that satisfies `q`. -/
theorem Follows.certain {I : σ → Prop} {q : Op → Prop} (h : Follows P Q X p s) (hs : I s)
    (hQ : ∀ a t, I t → ¬ Q a t) (hX : ∀ e t, I t → ¬ X e t)
    (hstay : ∀ t o, I t → P.may t o → q o ∨ ∀ r, I (P.next t o r)) : Certain q p := by
  induction p generalizing s with
  | ret a => exact hQ a s hs h
  | fail e => exact hX e s hs h
  | op o k ih =>
    rcases hstay s o hs h.1 with hq | hI
    · exact .inl hq
    · exact .inr fun r ↦ ih r (h.2 r) (hI r)

/-- A property of programs that their composition keeps. -/
structure Composable (K : ∀ {α : Type}, Prog Op Res α → Prop) : Prop where
  ret : ∀ {α : Type} (a : α), K (.ret a)
  fail : ∀ {α : Type} (e : String), K (.fail e : Prog Op Res α)
  bind : ∀ {α β : Type} {p : Prog Op Res α} {f : α → Prog Op Res β},
    K p → (∀ a, K (f a)) → K (p.bind f)
  recover : ∀ {α : Type} {p : Prog Op Res α} {f : String → Prog Op Res α},
    K p → (∀ e, K (f e)) → K (p.recover f)

theorem Keeps.composable (P : Protocol Op Res σ) (s : σ) : Composable (Keeps P s) where
  ret _ := rfl
  fail _ := rfl
  bind h hf := Follows.bind h fun a t ht ↦ by
    subst ht
    exact hf a
  recover h hf := Follows.recover h fun e t ht ↦ by
    subst ht
    exact hf e

/-- Wherever in `I` the program starts, it ends in `I`, also when it throws. -/
def Within (P : Protocol Op Res σ) (I : σ → Prop) {α : Type} (p : Prog Op Res α) : Prop :=
  ∀ s, I s → Follows P (fun _ ↦ I) (fun _ ↦ I) p s

theorem Within.perform {I : σ → Prop} {o : Op} (h : ∀ s, I s → P.may s o ∧ ∀ r, I (P.next s o r)) :
    Within P I (Prog.perform o) := h

theorem Within.composable (P : Protocol Op Res σ) (I : σ → Prop) : Composable (Within P I) where
  ret _ _ hs := hs
  fail _ _ hs := hs
  bind h hf s hs := Follows.bind (h s hs) fun a t ht ↦ hf a t ht
  recover h hf s hs := Follows.recover (h s hs) fun e t ht ↦ hf e t ht

/-- The program throws on no branch. -/
def Total : Prog Op Res α → Prop
  | .ret _ => True
  | .fail _ => False
  | .op _ k => ∀ r, Total (k r)

theorem Follows.of_total (h : Follows P Q X p s) (ht : Total p) : Follows P Q X' p s := by
  induction p generalizing s with
  | ret a => exact h
  | fail e => exact ht.elim
  | op o k ih => exact ⟨h.1, fun r ↦ ih r (h.2 r) (ht r)⟩

namespace Composable

variable {K : ∀ {α : Type}, Prog Op Res α → Prop}

variable (hK : Composable K)
include hK

theorem when {b : Bool} {p : Prog Op Res Unit} (h : K p) : K (Prog.when b p) := by
  unfold Prog.when
  split
  · exact h
  · exact hK.ret ()

theorem lift (x : Except String α) : K (Prog.lift x : Prog Op Res α) := by
  cases x with
  | ok a => exact hK.ret a
  | error e => exact hK.fail e

theorem ensuring {p : Prog Op Res α} {q : Prog Op Res Unit} (hp : K p) (hq : K q) :
    K (p.ensuring q) :=
  hK.bind (hK.recover hp fun e ↦ hK.bind hq fun _ ↦ hK.fail e) fun a ↦
    hK.bind hq fun _ ↦ hK.ret a

end Composable

end MessageBroker.Protocols
