import MessageBroker.ProgramTrees

namespace MessageBroker.ProofOutlines

open ProgramTrees

variable {Op : Type} {Res : Op → Type} {W Choice : Type} {α β : Type}

/-- What a proof outline of one thread may use: the meaning of an operation
under each choice of the environment, the choices considered, the changes that
other threads may make between two operations, an invariant of all states, and
what has to be shown at each operation. -/
structure Setting (Op : Type) (Res : Op → Type) (W Choice : Type) where
  exec : (o : Op) → Choice → W → Option (Res o × W)
  admits : Op → Choice → Prop
  rely : W → W → Prop
  inv : W → Prop
  allowed : Op → W → Prop
  rely_refl : ∀ w, rely w w
  rely_trans : ∀ {u v w}, rely u v → rely v w → rely u w

/-- `Safe E Q X p w`: from `w`, whatever the other threads do in between, every
operation of `p` is allowed where it is performed, `Q` holds where `p` returns
and `X` where it throws. -/
def Safe (E : Setting Op Res W Choice) (Q : α → W → Prop) (X : String → W → Prop) :
    Prog Op Res α → W → Prop
  | .ret a, w => ∀ w', E.rely w w' → E.inv w' → Q a w'
  | .fail e, w => ∀ w', E.rely w w' → E.inv w' → X e w'
  | .op o k, w => ∀ w', E.rely w w' → E.inv w' → E.allowed o w' ∧
      ∀ c r w'', E.admits o c → E.exec o c w' = some (r, w'') → Safe E Q X (k r) w''

variable {E : Setting Op Res W Choice} {Q Q' : α → W → Prop} {X X' : String → W → Prop}
variable {p : Prog Op Res α} {w w' : W}

theorem Safe.of_rely (h : ∀ w', E.rely w w' → E.inv w' → Safe E Q X p w') : Safe E Q X p w := by
  cases p <;> exact fun w' hr hi ↦ h w' hr hi w' (E.rely_refl w') hi

theorem Safe.after_rely (h : Safe E Q X p w) (hr : E.rely w w') : Safe E Q X p w' := by
  cases p <;> exact fun w'' hr' hi ↦ h w'' (E.rely_trans hr hr') hi

theorem Safe.mono (h : Safe E Q X p w) (hQ : ∀ a w, Q a w → Q' a w)
    (hX : ∀ e w, X e w → X' e w) : Safe E Q' X' p w := by
  induction p generalizing w with
  | ret a => exact fun w' hr hi ↦ hQ _ _ (h w' hr hi)
  | fail e => exact fun w' hr hi ↦ hX _ _ (h w' hr hi)
  | op o k ih =>
    intro w' hr hi
    obtain ⟨ha, hk⟩ := h w' hr hi
    exact ⟨ha, fun c r w'' hc he ↦ ih r (hk c r w'' hc he)⟩

theorem Safe.ret {a : α} (h : ∀ w', E.rely w w' → E.inv w' → Q a w') :
    Safe E Q X (.ret a) w := h

theorem Safe.fail {e : String} (h : ∀ w', E.rely w w' → E.inv w' → X e w') :
    Safe E Q X (.fail e : Prog Op Res α) w := h

theorem Safe.bind {Q : β → W → Prop} {f : α → Prog Op Res β}
    (h : Safe E (fun a w ↦ Safe E Q X (f a) w) X p w) : Safe E Q X (p.bind f) w := by
  induction p generalizing w with
  | ret a => exact .of_rely h
  | fail e => exact h
  | op o k ih =>
    intro w' hr hi
    obtain ⟨ha, hk⟩ := h w' hr hi
    exact ⟨ha, fun c r w'' hc he ↦ ih r (hk c r w'' hc he)⟩

theorem Safe.with_inv (h : Safe E Q X p w) :
    Safe E (fun a w ↦ Q a w ∧ E.inv w) (fun e w ↦ X e w ∧ E.inv w) p w := by
  induction p generalizing w with
  | ret a => exact fun w' hr hi ↦ ⟨h w' hr hi, hi⟩
  | fail e => exact fun w' hr hi ↦ ⟨h w' hr hi, hi⟩
  | op o k ih =>
    intro w' hr hi
    obtain ⟨ha, hk⟩ := h w' hr hi
    exact ⟨ha, fun c r w'' hc he ↦ ih r (hk c r w'' hc he)⟩

theorem Safe.seq {Q : β → W → Prop} {P : α → W → Prop} {Y : String → W → Prop}
    {f : α → Prog Op Res β} (h : Safe E P Y p w) (hY : ∀ e w, E.inv w → Y e w → X e w)
    (hf : ∀ a w, E.inv w → P a w → Safe E Q X (f a) w) : Safe E Q X (p.bind f) w :=
  Safe.bind (h.with_inv.mono (fun a w ha ↦ hf a w ha.2 ha.1) fun e w he ↦ hY e w he.2 he.1)

theorem Safe.recover {g : String → Prog Op Res α}
    (h : Safe E Q (fun e w ↦ Safe E Q X (g e) w) p w) : Safe E Q X (p.recover g) w := by
  induction p generalizing w with
  | ret a => exact h
  | fail e => exact .of_rely h
  | op o k ih =>
    intro w' hr hi
    obtain ⟨ha, hk⟩ := h w' hr hi
    exact ⟨ha, fun c r w'' hc he ↦ ih r (hk c r w'' hc he)⟩

theorem Safe.perform {o : Op} {Q : Res o → W → Prop}
    (h : ∀ w', E.rely w w' → E.inv w' → E.allowed o w' ∧ ∀ c r w'', E.admits o c →
      E.exec o c w' = some (r, w'') → ∀ w₃, E.rely w'' w₃ → E.inv w₃ → Q r w₃) :
    Safe E Q X (Prog.perform o) w := h

theorem Safe.lift {r : Except String α}
    (hok : ∀ a, r = .ok a → ∀ w', E.rely w w' → E.inv w' → Q a w')
    (herr : ∀ e, r = .error e → ∀ w', E.rely w w' → E.inv w' → X e w') :
    Safe E Q X (Prog.lift r) w := by
  cases r with
  | ok a => exact hok a rfl
  | error e => exact herr e rfl

theorem Safe.settled (h : Safe E Q X p w) :
    Safe E (fun a w ↦ ∀ w', E.rely w w' → E.inv w' → Q a w') X p w := by
  induction p generalizing w with
  | ret a => exact fun w' hr _ w'' hr' hi ↦ h w'' (E.rely_trans hr hr') hi
  | fail e => exact h
  | op o k ih =>
    intro w' hr hi
    obtain ⟨ha, hk⟩ := h w' hr hi
    exact ⟨ha, fun c r w'' hc he ↦ ih r (hk c r w'' hc he)⟩

theorem Safe.ensuring {q : Prog Op Res Unit}
    (h : Safe E (fun a w ↦ Safe E (fun _ ↦ Q a) X q w)
      (fun e w ↦ Safe E (fun _ ↦ X e) X q w) p w) : Safe E Q X (p.ensuring q) w := by
  apply Safe.bind
  apply Safe.recover
  exact h.mono (fun a w ha ↦ Safe.bind ha.settled) (fun e w he ↦ Safe.bind he.settled)

/-- The program `q` is what the program has to run next, whatever comes after it
and whoever handles its exceptions. -/
inductive Begins (q : Prog Op Res α) : ∀ {β : Type}, Prog Op Res β → Prop
  | self : Begins q q
  | bind {β γ : Type} {p : Prog Op Res β} (f : β → Prog Op Res γ) :
      Begins q p → Begins q (p.bind f)
  | recover {β : Type} {p : Prog Op Res β} (g : String → Prog Op Res β) :
      Begins q p → Begins q (p.recover g)

/-- What is allowed where a program is performed, whatever its outcome. -/
abbrev Guarded (E : Setting Op Res W Choice) (p : Prog Op Res α) (w : W) : Prop :=
  Safe E (fun _ _ ↦ True) (fun _ _ ↦ True) p w

theorem Safe.guarded (h : Safe E Q X p w) : Guarded E p w :=
  h.mono (fun _ _ _ ↦ trivial) fun _ _ _ ↦ trivial

theorem Guarded.of_bind {f : α → Prog Op Res β} (h : Guarded E (p.bind f) w) : Guarded E p w := by
  induction p generalizing w with
  | ret | fail => exact fun _ _ _ ↦ trivial
  | op o k ih =>
    intro w' hr hi
    obtain ⟨ha, hk⟩ := h w' hr hi
    exact ⟨ha, fun c r w'' hc he ↦ ih r (hk c r w'' hc he)⟩

theorem Guarded.of_recover {g : String → Prog Op Res α} (h : Guarded E (p.recover g) w) :
    Guarded E p w := by
  induction p generalizing w with
  | ret | fail => exact fun _ _ _ ↦ trivial
  | op o k ih =>
    intro w' hr hi
    obtain ⟨ha, hk⟩ := h w' hr hi
    exact ⟨ha, fun c r w'' hc he ↦ ih r (hk c r w'' hc he)⟩

theorem Guarded.of_begins {q : Prog Op Res β} (h : Guarded E p w) (hq : Begins q p) :
    Guarded E q w := by
  induction hq with
  | self => exact h
  | bind f _ ih => exact ih h.of_bind
  | recover g _ ih => exact ih h.of_recover

end MessageBroker.ProofOutlines
