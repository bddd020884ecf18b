import MessageBroker.ProgramTrees

namespace MessageBroker.SequentialRuns

open ProgramTrees

variable {Op : Type} {Res : Op → Type} {σ α β : Type}

/-- Run a program alone from a state; `none` when one of its operations blocks. -/
def interp (f : (o : Op) → σ → Option (Res o × σ)) :
    Prog Op Res α → σ → Option (Except String α × σ)
  | .ret a, s => some (.ok a, s)
  | .fail e, s => some (.error e, s)
  | .op o k, s => (f o s).bind fun r ↦ interp f (k r.1) r.2

/-- The run of the program comes to an end, where `Q` holds of its outcome. -/
def Ends (f : (o : Op) → σ → Option (Res o × σ)) (p : Prog Op Res α) (s : σ)
    (Q : Except String α → σ → Prop) : Prop :=
  ∃ r s', interp f p s = some (r, s') ∧ Q r s'

variable {f : (o : Op) → σ → Option (Res o × σ)} {p : Prog Op Res α} {s : σ}
  {Q R : Except String α → σ → Prop}

theorem Ends.mono (h : Ends f p s R) (hQ : ∀ r s', R r s' → Q r s') : Ends f p s Q := by
  obtain ⟨r, s', hr, hR⟩ := h
  exact ⟨r, s', hr, hQ r s' hR⟩

theorem Ends.and (h : Ends f p s R) (h' : Ends f p s Q) : Ends f p s fun r s' ↦ R r s' ∧ Q r s' := by
  obtain ⟨r, s', hr, hR⟩ := h
  obtain ⟨r', s'', hr', hQ⟩ := h'
  rw [hr] at hr'
  cases hr'
  exact ⟨r, s', hr, hR, hQ⟩

theorem Ends.ret {a : α} (h : Q (.ok a) s) : Ends f (.ret a) s Q := ⟨_, s, rfl, h⟩

theorem Ends.fail {e : String} (h : Q (.error e) s) : Ends f (.fail e) s Q := ⟨_, s, rfl, h⟩

theorem Ends.lift {x : Except String α} (h : Q x s) : Ends f (Prog.lift x) s Q := by
  cases x with
  | ok a => exact .ret h
  | error e => exact .fail h

theorem Ends.op {o : Op} {k : Res o → Prog Op Res α} {a : Res o} {t : σ}
    (ho : f o s = some (a, t)) (h : Ends f (k a) t Q) : Ends f (.op o k) s Q := by
  obtain ⟨r, s'', hr, hQ⟩ := h
  exact ⟨r, s'', by rw [interp, ho, Option.bind_some, hr], hQ⟩

theorem Ends.perform {o : Op} {a : Res o} {t : σ} {Q : Except String (Res o) → σ → Prop}
    (ho : f o s = some (a, t)) (h : Q (.ok a) t) : Ends f (Prog.perform o) s Q :=
  .op ho (.ret h)

theorem Ends.step {o : Op} {g : Res o → Prog Op Res β} {Q : Except String β → σ → Prop} {a : Res o}
    {t : σ} (ho : f o s = some (a, t)) (h : Ends f (g a) t Q) :
    Ends f ((Prog.perform o).bind g) s Q :=
  .op ho h

theorem interp_bind (p : Prog Op Res α) (g : α → Prog Op Res β) (s : σ) :
    interp f (p.bind g) s = (interp f p s).bind fun r ↦
      match r.1 with
      | .ok a => interp f (g a) r.2
      | .error e => some (.error e, r.2) := by
  induction p generalizing s with
  | ret | fail => rfl
  | op o k ih =>
    rw [Prog.op_bind, interp, interp, Option.bind_assoc]
    simp only [ih]

theorem interp_recover (p : Prog Op Res α) (g : String → Prog Op Res α) (s : σ) :
    interp f (p.recover g) s = (interp f p s).bind fun r ↦
      match r.1 with
      | .ok a => some (.ok a, r.2)
      | .error e => interp f (g e) r.2 := by
  induction p generalizing s with
  | ret | fail => rfl
  | op o k ih =>
    rw [Prog.recover, interp, interp, Option.bind_assoc]
    simp only [ih]

theorem Ends.bind {g : α → Prog Op Res β} {Q : Except String β → σ → Prop} (h : Ends f p s R)
    (hok : ∀ a s', R (.ok a) s' → Ends f (g a) s' Q)
    (herr : ∀ e s', R (.error e) s' → Q (.error e) s') : Ends f (p.bind g) s Q := by
  obtain ⟨r, s', hr, hR⟩ := h
  cases r with
  | ok a =>
    obtain ⟨r', s'', hr', hQ⟩ := hok a s' hR
    exact ⟨r', s'', by rw [interp_bind, hr, Option.bind_some]; exact hr', hQ⟩
  | error e => exact ⟨.error e, s', by rw [interp_bind, hr, Option.bind_some], herr e s' hR⟩

theorem Ends.recover {g : String → Prog Op Res α} (h : Ends f p s R)
    (hok : ∀ a s', R (.ok a) s' → Q (.ok a) s')
    (herr : ∀ e s', R (.error e) s' → Ends f (g e) s' Q) : Ends f (p.recover g) s Q := by
  obtain ⟨r, s', hr, hR⟩ := h
  cases r with
  | ok a => exact ⟨.ok a, s', by rw [interp_recover, hr, Option.bind_some], hok a s' hR⟩
  | error e =>
    obtain ⟨r', s'', hr', hQ⟩ := herr e s' hR
    exact ⟨r', s'', by rw [interp_recover, hr, Option.bind_some]; exact hr', hQ⟩

theorem Ends.invariant {P : σ → Prop} (h : Ends f p s Q) (hf : ∀ {o s a t}, f o s = some (a, t) → P s → P t)
    (hs : P s) : Ends f p s fun r s' ↦ Q r s' ∧ P s' := by
  have hP : ∀ (p : Prog Op Res α) {s r s'}, interp f p s = some (r, s') → P s → P s' := by
    intro p
    induction p with
    | ret | fail =>
      intro s r s' hr hs
      cases hr
      exact hs
    | op o k ih =>
      intro s r s' hr hs
      obtain ⟨⟨a, t⟩, ho, hk⟩ := Option.bind_eq_some_iff.mp hr
      exact ih a hk (hf ho hs)
  obtain ⟨r, s', hr, hQ⟩ := h
  exact ⟨r, s', hr, hQ, hP p hr hs⟩

theorem Ends.ensuring {q : Prog Op Res Unit} (h : Ends f p s R)
    (hq : ∀ r s', R r s' → Ends f q s' fun r' s'' ↦ r' = .ok () ∧ Q r s'') :
    Ends f (p.ensuring q) s Q := by
  refine Ends.bind (R := fun r s' ↦ match r with
    | .ok a => R (.ok a) s'
    | .error e => Q (.error e) s') ?_ (fun a s' ha ↦ ?_) fun e s' he ↦ he
  · refine h.recover (fun a s' ha ↦ ha) fun e s' he ↦ ?_
    exact (hq _ s' he).bind (fun _ s'' hx ↦ .fail hx.2) fun e' s'' hx ↦ nomatch hx.1
  · exact (hq _ s' ha).bind (fun _ s'' hx ↦ .ret hx.2) fun e' s'' hx ↦ nomatch hx.1

/-- `Q` holds of the outcome of the program, if it comes to an end. -/
def Yields (f : (o : Op) → σ → Option (Res o × σ)) (p : Prog Op Res α) (s : σ)
    (Q : Except String α → σ → Prop) : Prop :=
  ∀ r s', interp f p s = some (r, s') → Q r s'

theorem Yields.mono (h : Yields f p s R) (hQ : ∀ r s', R r s' → Q r s') : Yields f p s Q :=
  fun r s' hr ↦ hQ r s' (h r s' hr)

theorem Yields.ret {a : α} (h : Q (.ok a) s) : Yields f (.ret a) s Q := by
  intro r s' hr
  cases hr
  exact h

theorem Yields.fail {e : String} (h : Q (.error e) s) : Yields f (.fail e) s Q := by
  intro r s' hr
  cases hr
  exact h

theorem Yields.lift {x : Except String α} (h : Q x s) : Yields f (Prog.lift x) s Q := by
  cases x with
  | ok a => exact .ret h
  | error e => exact .fail h

theorem Yields.op {o : Op} {k : Res o → Prog Op Res α}
    (h : ∀ a t, f o s = some (a, t) → Yields f (k a) t Q) : Yields f (.op o k) s Q := by
  intro r s' hr
  obtain ⟨⟨a, t⟩, ho, hk⟩ := Option.bind_eq_some_iff.mp hr
  exact h a t ho r s' hk

theorem Yields.perform {o : Op} {Q : Except String (Res o) → σ → Prop}
    (h : ∀ a t, f o s = some (a, t) → Q (.ok a) t) : Yields f (Prog.perform o) s Q :=
  .op fun a t ho ↦ .ret (h a t ho)

theorem Yields.bind {g : α → Prog Op Res β} {Q : Except String β → σ → Prop} (h : Yields f p s R)
    (hok : ∀ a s', R (.ok a) s' → Yields f (g a) s' Q)
    (herr : ∀ e s', R (.error e) s' → Q (.error e) s') : Yields f (p.bind g) s Q := by
  intro r s' hr
  rw [interp_bind] at hr
  obtain ⟨⟨r₁, s₁⟩, h₁, hr⟩ := Option.bind_eq_some_iff.mp hr
  have hR := h r₁ s₁ h₁
  cases r₁ with
  | ok a => exact hok a s₁ hR r s' hr
  | error e =>
    obtain ⟨rfl, rfl⟩ := Prod.mk.inj (Option.some.inj hr)
    exact herr e _ hR

theorem Yields.recover {g : String → Prog Op Res α} (h : Yields f p s R)
    (hok : ∀ a s', R (.ok a) s' → Q (.ok a) s')
    (herr : ∀ e s', R (.error e) s' → Yields f (g e) s' Q) : Yields f (p.recover g) s Q := by
  intro r s' hr
  rw [interp_recover] at hr
  obtain ⟨⟨r₁, s₁⟩, h₁, hr⟩ := Option.bind_eq_some_iff.mp hr
  have hR := h r₁ s₁ h₁
  cases r₁ with
  | ok a =>
    obtain ⟨rfl, rfl⟩ := Prod.mk.inj (Option.some.inj hr)
    exact hok a _ hR
  | error e => exact herr e s₁ hR r s' hr

theorem Yields.ensuring {q : Prog Op Res Unit} (h : Yields f p s R)
    (hq : ∀ r s', R r s' → Yields f q s' fun r' s'' ↦ r' = .ok () ∧ Q r s'') :
    Yields f (p.ensuring q) s Q := by
  refine Yields.bind (R := fun r s' ↦ match r with
    | .ok a => R (.ok a) s'
    | .error e => Q (.error e) s') ?_ (fun a s' ha ↦ ?_) fun e s' he ↦ he
  · refine h.recover (fun a s' ha ↦ ha) fun e s' he ↦ ?_
    exact (hq _ s' he).bind (fun _ s'' hx ↦ .fail hx.2) fun e' s'' hx ↦ nomatch hx.1
  · exact (hq _ s' ha).bind (fun _ s'' hx ↦ .ret hx.2) fun e' s'' hx ↦ nomatch hx.1

end MessageBroker.SequentialRuns
