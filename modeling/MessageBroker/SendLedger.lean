import MessageBroker.RunInvariants

namespace MessageBroker.SendLedger

open WireMessages MessageStore ProgramTrees ThreadPools BrokerState ServerJobs OperationEffects
  ThreadViews SharedInvariant ServerOutlines RunInvariants

section FirstUpdate

variable {α : Type} {p q : α → Bool} {f : α → α} {l : List α}

/-- Change the first element that satisfies `p`. -/
def updateFirst (p : α → Bool) (f : α → α) : List α → List α
  | [] => []
  | a :: l => if p a then f a :: l else a :: updateFirst p f l

theorem filter_updateFirst_of_keeps (h : ∀ a, p a = true → p (f a) = true) :
    (updateFirst p f l).filter p = ((l.filter p).head?.map f).toList ++ (l.filter p).tail := by
  induction l with
  | nil => rfl
  | cons a l ih =>
    rw [updateFirst]
    split
    · next ha => rw [List.filter_cons_of_pos (h a ha), List.filter_cons_of_pos ha]; rfl
    · next ha => rw [List.filter_cons_of_neg ha, List.filter_cons_of_neg ha, ih]

theorem filter_updateFirst_of_drops (h : ∀ a, p a = true → p (f a) = false) :
    (updateFirst p f l).filter p = (l.filter p).tail := by
  induction l with
  | nil => rfl
  | cons a l ih =>
    rw [updateFirst]
    split
    · next ha =>
      rw [List.filter_cons_of_neg (by simp [h a ha]), List.filter_cons_of_pos ha, List.tail_cons]
    · next ha => rw [List.filter_cons_of_neg ha, List.filter_cons_of_neg ha, ih]

theorem filter_updateFirst_of_other (h : ∀ a, p a = true → q a = false ∧ q (f a) = false) :
    (updateFirst p f l).filter q = l.filter q := by
  induction l with
  | nil => rfl
  | cons a l ih =>
    rw [updateFirst]
    split
    · next ha =>
      obtain ⟨h₁, h₂⟩ := h a ha
      rw [List.filter_cons_of_neg (by simp [h₂]), List.filter_cons_of_neg (by simp [h₁])]
    · rw [List.filter_cons, List.filter_cons, ih]

theorem updateFirst_append {a : α} {l' : List α} (hl : ∀ b ∈ l, p b = false) (ha : p a = true) :
    updateFirst p f (l ++ a :: l') = l ++ f a :: l' := by
  induction l with
  | nil => exact if_pos ha
  | cons b l ih =>
    have hb : p b ≠ true := by simp [hl b List.mem_cons_self]
    rw [List.cons_append, updateFirst, if_neg hb, ih fun b hb ↦ hl b (List.mem_cons_of_mem _ hb)]
    rfl

theorem mem_updateFirst {b : α} (h : b ∈ updateFirst p f l) :
    b ∈ l ∨ ∃ a, (l.filter p).head? = some a ∧ b = f a := by
  induction l with
  | nil => cases h
  | cons a l ih =>
    rw [updateFirst] at h
    split at h
    · next ha =>
      rcases List.mem_cons.mp h with rfl | h
      · exact .inr ⟨a, by rw [List.filter_cons_of_pos ha, List.head?_cons], rfl⟩
      · exact .inl (List.mem_cons_of_mem _ h)
    · next ha =>
      rcases List.mem_cons.mp h with rfl | h
      · exact .inl List.mem_cons_self
      · rw [List.filter_cons_of_neg ha]
        exact (ih h).imp_left (List.mem_cons_of_mem _)

end FirstUpdate

inductive Place
  | queue
  | batch (thread : ℕ)
  | finished
deriving DecidableEq

/-- What was handed over, where it is now, and how often its callback was called. -/
structure Entry where
  session : ℕ
  copy : Copy
  data : List UInt8
  place : Place := .queue
  calls : ℕ := 0

abbrev Key := ℕ × Copy × List UInt8

def Entry.key (e : Entry) : Key := (e.session, e.copy, e.data)

def Entry.isAt (x : Place) (e : Entry) : Bool := e.place = x

def Entry.take (i : ℕ) (e : Entry) : Entry :=
  if e.place = .queue then { e with place := .batch i } else e

def Entry.call (e : Entry) : Entry := { e with calls := e.calls + 1 }

def Entry.finish (e : Entry) : Entry := { e with place := .finished }

/-- Thread `i` performs an operation. -/
def note (i : ℕ) : Op → List Entry → List Entry
  | .pushPendingSend s c data, l => l ++ [{ session := s, copy := c, data }]
  | .takePendingSends, l => l.map (Entry.take i)
  | .callback _ _, l => updateFirst (Entry.isAt (.batch i)) Entry.call l
  | .popSend, l => updateFirst (Entry.isAt (.batch i)) Entry.finish l
  | _, l => l

def entries : List Event → List Entry
  | [] => []
  | e :: log => note e.thread e.op (entries log)

/-- What an entry and a pending send have in common. -/
def Entry.view (e : Entry) : (ℕ × Copy × List UInt8) × ℕ := ((e.session, e.copy, e.data), e.calls)

def sendView (p : PendingSend) : (ℕ × Copy × List UInt8) × ℕ :=
  ((p.session, p.copy, p.data), if p.called then 1 else 0)

/-- Each entry is in the place that the ledger says, in order, and its callback
has been called once when it is finished. -/
structure Conserved (w : World) : Prop where
  queue : w.pendingSends.map sendView = ((entries w.log).filter (Entry.isAt .queue)).map Entry.view
  batch : ∀ i, (w.batches i).map sendView =
    ((entries w.log).filter (Entry.isAt (.batch i))).map Entry.view
  finished : ∀ e ∈ entries w.log, e.place = .finished → e.calls = 1

variable {cfg : Config} {ok : State → Step → Prop} {metrics : Option Metrics} {S : State}
  {w w' : World} {i : ℕ} {j : Job} {o : Op} {ch : Choice} {r : o.Res} {x y : Place} {l : List Entry}

@[simp] theorem isAt_iff {e : Entry} : e.isAt x = true ↔ e.place = x := by
  simp [Entry.isAt]

theorem isAt_ne {e : Entry} (h : e.isAt x = true) (hxy : x ≠ y) : e.isAt y = false := by
  simp [Entry.isAt, isAt_iff.mp h, hxy]

theorem filter_take_queue : (l.map (Entry.take i)).filter (Entry.isAt .queue) = [] := by
  refine List.filter_eq_nil_iff.mpr fun e he ↦ ?_
  obtain ⟨e₀, -, rfl⟩ := List.mem_map.mp he
  simp only [isAt_iff, Entry.take]
  split
  · exact nofun
  · assumption

theorem filter_take_other (hx : x ≠ .queue) (hi : x ≠ .batch i) :
    (l.map (Entry.take i)).filter (Entry.isAt x) = l.filter (Entry.isAt x) := by
  induction l with
  | nil => rfl
  | cons e l ih =>
    have he : e.take i = e ∨ e.isAt x = false ∧ (e.take i).isAt x = false := by
      unfold Entry.take
      split
      · next hq => exact .inr ⟨isAt_ne (isAt_iff.mpr hq) hx.symm, isAt_ne (isAt_iff.mpr rfl) hi.symm⟩
      · exact .inl rfl
    rw [List.map_cons, List.filter_cons, List.filter_cons, ih]
    rcases he with he | ⟨h₁, h₂⟩
    · rw [he]
    · rw [h₁, h₂]
      rfl

theorem filter_take_own (h : l.filter (Entry.isAt (.batch i)) = []) :
    ((l.map (Entry.take i)).filter (Entry.isAt (.batch i))).map Entry.view =
      (l.filter (Entry.isAt .queue)).map Entry.view := by
  induction l with
  | nil => rfl
  | cons e l ih =>
    have hne : ¬ e.isAt (.batch i) = true := fun he ↦ by
      rw [List.filter_cons_of_pos he] at h
      cases h
    rw [List.filter_cons_of_neg hne] at h
    have ih := ih h
    rw [List.map_cons]
    unfold Entry.take at ih ⊢
    by_cases hq : e.place = .queue
    · rw [if_pos hq, List.filter_cons_of_pos (by simp), List.filter_cons_of_pos (by simpa using hq),
        List.map_cons, List.map_cons, ih]
      rfl
    · rw [if_neg hq, List.filter_cons_of_neg hne, List.filter_cons_of_neg (by simpa using hq), ih]

theorem entries_exec (he : exec i j o ch w = some (r, w')) :
    entries w'.log = note i o (entries w.log) := by
  rw [exec_log he]
  rfl

theorem map_view_eq_nil (h : (l.map Entry.view) = []) : l = [] := List.map_eq_nil_iff.mp h

theorem conserved_push {s : ℕ} {c : Copy} {data : List UInt8} {u : Unit}
    (hp : Performs cfg ok S i j (.pushPendingSend s c data) ch u w') (h : Conserved S.world) :
    Conserved w' := by
  have hl := entries_exec hp.exec
  have hb := (exec_frame hp.exec).batches (by simp [writes])
  refine ⟨?_, fun i' ↦ ?_, fun e he hf ↦ ?_⟩ <;> simp only [note] at hl
  · rw [exec_pushPendingSend hp.exec, hl, List.map_append, h.queue, List.filter_append,
      List.map_append]
    rfl
  · rw [hb, hl, List.filter_append, h.batch, List.filter_singleton]
    simp [Entry.isAt]
  · rw [hl] at he
    rcases List.mem_append.mp he with he | he
    · exact h.finished e he hf
    · rw [List.mem_singleton.mp he] at hf
      cases hf

theorem conserved_take {n : ℕ} (hp : Performs cfg ok S i j .takePendingSends ch n w')
    (h : Conserved S.world) : Conserved w' := by
  have hl : entries w'.log = (entries S.world.log).map (Entry.take i) := entries_exec hp.exec
  obtain ⟨-, hpend, hb⟩ := exec_takePendingSends hp.exec
  have hnone : S.world.batches i = [] := hp.allowed
  have hown : w'.batches i = S.world.pendingSends := by
    rw [hb]
    split
    · next hq => rw [hnone, hq]
    · rw [Function.update_self]
  have hempty : (entries S.world.log).filter (Entry.isAt (.batch i)) = [] := by
    refine map_view_eq_nil ?_
    rw [← h.batch, hnone]
    rfl
  refine ⟨?_, fun i' ↦ ?_, fun e he hf ↦ ?_⟩
  · rw [hpend, hl, filter_take_queue]
    rfl
  · by_cases hi : i' = i
    · subst hi
      rw [hown, hl, filter_take_own hempty, h.queue]
    · have hother : w'.batches i' = S.world.batches i' := by
        rw [hb]
        split
        · rfl
        · rw [Function.update_of_ne hi]
      rw [hother, hl, filter_take_other (by simp) (by simpa using hi), h.batch]
  · rw [hl] at he
    obtain ⟨e₀, he₀, rfl⟩ := List.mem_map.mp he
    unfold Entry.take at hf ⊢
    split at hf
    · cases hf
    · next hq =>
      rw [if_neg hq]
      exact h.finished e₀ he₀ hf

theorem front_of_batch (h : Conserved w) :
    ((entries w.log).filter (Entry.isAt (.batch i))).head?.map Entry.view =
      (w.batches i).head?.map sendView := by
  rw [← List.head?_map, ← List.head?_map, h.batch]

theorem conserved_callback {send : PendingSend} {success : Bool} {u : Unit}
    (hp : Performs cfg ok S i j (.callback send success) ch u w') (h : Conserved S.world) :
    Conserved w' := by
  have hl : entries w'.log =
    updateFirst (Entry.isAt (.batch i)) Entry.call (entries S.world.log) := entries_exec hp.exec
  obtain ⟨hhead, hcalled, -⟩ := hp.allowed
  have hb := (exec_callback hp.exec).1
  have hother (y : Place) (hy : .batch i ≠ y) : (entries w'.log).filter (Entry.isAt y) =
      (entries S.world.log).filter (Entry.isAt y) := by
    rw [hl]
    exact filter_updateFirst_of_other fun e he ↦ ⟨isAt_ne he hy, isAt_ne (e := e.call) he hy⟩
  refine ⟨?_, fun i' ↦ ?_, fun e he hf ↦ ?_⟩
  · rw [hother _ (by simp), (exec_frame hp.exec).pendingSends (by simp [writes]), h.queue]
  · by_cases hi : i' = i
    · subst hi
      obtain ⟨rest, hrest⟩ := List.head?_eq_some_iff.mp hhead
      have hrest : S.world.batches i' = send :: rest := hrest
      have hbatch := h.batch i'
      rw [hrest, List.map_cons] at hbatch
      have hkept (e : Entry) (he : e.isAt (.batch i') = true) : e.call.isAt (.batch i') = true := he
      rw [hl, filter_updateFirst_of_keeps hkept, hb, Function.update_self, hrest]
      cases hf : (entries S.world.log).filter (Entry.isAt (.batch i')) with
      | nil =>
        rw [hf] at hbatch
        cases hbatch
      | cons e es =>
        rw [hf, List.map_cons, List.cons.injEq] at hbatch
        obtain ⟨he, hes⟩ := hbatch
        have hcalls : 0 = e.calls := by
          have := congrArg Prod.snd he
          simpa [sendView, hcalled, Entry.view] using this
        simp only [List.head?_cons, Option.map_some, Option.toList_some, List.tail_cons,
          List.cons_append, List.nil_append, List.map_cons, hes]
        have hv := congrArg Prod.fst he
        simp only [sendView, Entry.view] at hv
        simp only [sendView, Entry.view, Entry.call, ← hcalls, hv]
        rfl
    · rw [hother _ (by simpa using Ne.symm hi), hb, Function.update_of_ne hi, h.batch]
  · rw [hl] at he
    rcases mem_updateFirst he with he | ⟨e₀, he₀, rfl⟩
    · exact h.finished e he hf
    · have := (List.mem_filter.mp (List.mem_of_mem_head? he₀)).2
      rw [isAt_iff] at this
      cases this.symm.trans hf

theorem conserved_pop {u : Unit} (hp : Performs cfg ok S i j .popSend ch u w')
    (h : Conserved S.world) : Conserved w' := by
  have hl : entries w'.log =
    updateFirst (Entry.isAt (.batch i)) Entry.finish (entries S.world.log) := entries_exec hp.exec
  have hb := exec_popSend hp.exec
  refine ⟨?_, fun i' ↦ ?_, fun e he hf ↦ ?_⟩
  · rw [hl, filter_updateFirst_of_other fun e he ↦ ⟨isAt_ne he (by simp), rfl⟩,
      (exec_frame hp.exec).pendingSends (by simp [writes]), h.queue]
  · by_cases hi : i' = i
    · subst hi
      rw [hl, filter_updateFirst_of_drops (fun _ _ ↦ rfl), hb, Function.update_self, List.map_tail,
        List.map_tail, h.batch]
    · rw [hl, filter_updateFirst_of_other fun e he ↦ ⟨isAt_ne he (by simpa using Ne.symm hi), rfl⟩,
        hb, Function.update_of_ne hi, h.batch]
  · rw [hl] at he
    rcases mem_updateFirst he with he | ⟨e₀, he₀, rfl⟩
    · exact h.finished e he hf
    · have hfront := front_of_batch (i := i) h
      rw [he₀, Option.map_some] at hfront
      obtain ⟨send, hsend, hview⟩ := Option.map_eq_some_iff.mp hfront.symm
      have hcalled : send.called = true := hp.allowed send hsend
      have hcalls : 1 = e₀.calls := by
        have := congrArg Prod.snd hview
        simpa [sendView, hcalled, Entry.view] using this
      exact hcalls.symm

theorem conserved_step (hp : Performs cfg ok S i j o ch r w') (h : Conserved S.world) :
    Conserved w' := by
  have frame (hn : ∀ l, note i o l = l) (hs : .pendingSends ∉ writes o) (hb : .batches ∉ writes o) :
      Conserved w' := by
    have hl := entries_exec hp.exec
    rw [hn] at hl
    refine ⟨?_, fun i' ↦ ?_, hl ▸ h.finished⟩
    · rw [(exec_frame hp.exec).pendingSends (by simp [hs]), hl, h.queue]
    · rw [(exec_frame hp.exec).batches (by simp [hb]), hl, h.batch]
  cases o with
  | pushPendingSend s c data => exact conserved_push hp h
  | takePendingSends => exact conserved_take hp h
  | callback send success => exact conserved_callback hp h
  | popSend => exact conserved_pop hp h
  | _ => exact frame (fun _ ↦ rfl) (by simp [writes]) (by simp [writes])

theorem conserved (h : (broker cfg).Reachable ok (initial metrics) S) : Conserved S.world :=
  run_invariant ⟨rfl, fun _ ↦ rfl, fun _ he ↦ absurd he List.not_mem_nil⟩
    (fun _ _ _ _ h ↦ ⟨h.queue, h.batch, h.finished⟩) conserved_step h

end MessageBroker.SendLedger
