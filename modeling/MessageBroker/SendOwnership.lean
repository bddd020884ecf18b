import MessageBroker.RunInvariants

namespace MessageBroker.SendOwnership

open ByteStrings WireMessages MessageStore ProgramTrees ThreadPools BrokerState ServerJobs OperationEffects
  ThreadViews SharedInvariant ServerOutlines RunInvariants

variable {cfg : Config} {ok : State → Step → Prop} {metrics : Option Metrics} {S S' : State} {w w' : World}
  {i : ℕ} {j : Job} {o : Op} {ch : Choice} {r : o.Res} {s : ℕ}

def Waiting (w : World) (p : PendingSend) : Prop := p ∈ w.pendingSends ∨ ∃ i, p ∈ w.batches i

/-- A session that is registered or held by a handler in progress. -/
def Owned (w : World) (s : ℕ) : Prop := w.Registered s ∨ (w.sessions s).owners ≠ []

def Awaited (s : ℕ) (S : State) : Prop :=
  (∃ p ∈ S.world.pendingSends, p.session = s) ∨ ∃ i < S.threads.length, ∃ p ∈ S.world.batches i, p.session = s

instance (s : ℕ) (S : State) : Decidable (Awaited s S) := by
  unfold Awaited
  infer_instance

/-- The session that an operation takes out of the registry: the one whose name
is removed, or the one that another session replaces. -/
def removes (w : World) : Op → Option ℕ
  | .removeClient n => w.activeClients.lookup n
  | .setClient n s => (w.activeClients.lookup n).filter (· ≠ s)
  | _ => none

def sends : Op → Option ℕ
  | .pushPendingSend s _ _ => some s
  | _ => none

/-- No session is taken out of the registry while a send of it waits, and a
session that is not registered sends nothing. -/
def KeepsSenders (S : State) (l : Step) : Prop :=
  S.OnNext (removes S.world) (fun _ _ s ↦ ¬ Awaited s S) l ∧ S.OnNext sends (fun _ _ s ↦ S.world.Registered s) l

instance (S : State) (l : Step) : Decidable (KeepsSenders S l) := by
  unfold KeepsSenders
  infer_instance

theorem registered_step (hinv : Consistent w) (he : exec i j o ch w = some (r, w')) (hs : w.Registered s)
    (hrem : removes w o ≠ some s) : w'.Registered s := by
  have hl := (hinv.lt_of_registered hs).2
  have frame (hc : .clients ∉ writes o) : w'.Registered s := by
    rwa [World.Registered, (exec_frame he).clients (by simp [hc])]
  cases o with
  | setClient n s' =>
    have hc := exec_setClient he
    by_cases hn : (w.sessions s).name = n
    · rw [hn] at hl
      obtain rfl : s = s' := by
        by_contra hne
        exact hrem (by simp [removes, hl, Option.filter_some, hne])
      exact registered_of_lookup (n := n) (by rw [hc, AList.lookup_insert])
    · exact registered_of_lookup (n := (w.sessions s).name) (by rw [hc, AList.lookup_insert_ne hn, hl])
  | removeClient n =>
    obtain ⟨hc, -⟩ := exec_removeClient he
    have hn : (w.sessions s).name ≠ n := by
      rintro rfl
      exact hrem hl
    exact registered_of_lookup (n := (w.sessions s).name) (by rw [hc, AList.lookup_erase_ne hn, hl])
  | _ => exact frame (by simp [writes])

theorem waiting_step {p : PendingSend} (he : exec i j o ch w = some (r, w')) (hw : Waiting w' p) :
    (∃ q, Waiting w q ∧ q.session = p.session) ∨ ∃ c data, o = .pushPendingSend p.session c data := by
  have frame (hs : .pendingSends ∉ writes o) (hb : .batches ∉ writes o) : Waiting w p := by
    rwa [Waiting, (exec_frame he).pendingSends (by simp [hs]), (exec_frame he).batches (by simp [hb])] at hw
  cases o with
  | pushPendingSend s c data =>
    rw [Waiting, exec_pushPendingSend he, (exec_frame he).batches (by simp [writes])] at hw
    rcases hw with hw | hw
    · rcases List.mem_append.mp hw with hw | hw
      · exact .inl ⟨p, .inl hw, rfl⟩
      · rw [List.mem_singleton.mp hw]
        exact .inr ⟨c, data, rfl⟩
    · exact .inl ⟨p, .inr hw, rfl⟩
  | takePendingSends =>
    obtain ⟨-, hp, hb⟩ := exec_takePendingSends he
    rw [Waiting, hp, hb] at hw
    obtain ⟨i', hi'⟩ := hw.resolve_left List.not_mem_nil
    split at hi'
    · exact .inl ⟨p, .inr ⟨i', hi'⟩, rfl⟩
    · rw [Function.update_apply] at hi'
      split at hi'
      · exact .inl ⟨p, .inl hi', rfl⟩
      · exact .inl ⟨p, .inr ⟨i', hi'⟩, rfl⟩
  | callback send success =>
    rw [Waiting, (exec_callback he).1, (exec_frame he).pendingSends (by simp [writes])] at hw
    rcases hw with hw | ⟨i', hi'⟩
    · exact .inl ⟨p, .inl hw, rfl⟩
    · rw [Function.update_apply] at hi'
      split at hi'
      · rcases List.mem_append.mp hi' with hi' | hi'
        · obtain ⟨q, hq, rfl⟩ := Option.map_eq_some_iff.mp (Option.mem_toList.mp hi')
          exact .inl ⟨q, .inr ⟨i, List.mem_of_mem_head? hq⟩, rfl⟩
        · exact .inl ⟨p, .inr ⟨i, List.mem_of_mem_tail hi'⟩, rfl⟩
      · exact .inl ⟨p, .inr ⟨i', hi'⟩, rfl⟩
  | popSend =>
    rw [Waiting, exec_popSend he, (exec_frame he).pendingSends (by simp [writes])] at hw
    rcases hw with hw | ⟨i', hi'⟩
    · exact .inl ⟨p, .inl hw, rfl⟩
    · rw [Function.update_apply] at hi'
      split at hi'
      · exact .inl ⟨p, .inr ⟨i, List.mem_of_mem_tail hi'⟩, rfl⟩
      · exact .inl ⟨p, .inr ⟨i', hi'⟩, rfl⟩
  | _ => exact .inl ⟨p, frame (by simp [writes]) (by simp [writes]), rfl⟩

theorem awaited_of_waiting (h : (broker cfg).Reachable ok (initial metrics) S) {p : PendingSend}
    (hp : Waiting S.world p) : Awaited p.session S := by
  rcases hp with hp | ⟨i, hi⟩
  · exact .inl ⟨p, hp, rfl⟩
  · refine .inr ⟨i, ?_, p, hi, rfl⟩
    by_contra hlt
    have hrest : AtRest i S.world := (holds_of_reachable h).fresh i (Nat.le_of_not_lt hlt)
    have hbatch : S.world.batches i = [] := congrArg Hold.batch hrest.owns
    rw [hbatch] at hi
    cases hi

theorem registered_of_waiting (h : (broker cfg).Reachable KeepsSenders (initial metrics) S) :
    ∀ p, Waiting S.world p → S.world.Registered p.session := by
  refine reachable_invariant (P := fun w ↦ ∀ p, Waiting w p → w.Registered p.session) (fun p hp ↦ ?_)
    (fun _ _ _ _ hw ↦ hw) (fun hr hp ih p hw ↦ ?_) h
  · rcases hp with hp | ⟨i, hp⟩ <;> cases hp
  · rcases waiting_step hp.exec hw with ⟨q, hq, hsession⟩ | ⟨c, data, rfl⟩
    · rw [← hsession]
      exact registered_step hp.inv hp.exec (ih q hq) fun hrem ↦
        hp.ok.1.meets hp.nextOp hrem (awaited_of_waiting hr hq)
    · exact registered_step hp.inv hp.exec (hp.ok.2.meets hp.nextOp rfl) (by simp [removes])

/-- In a run that keeps the senders of its sends, every waiting send has a session
that is registered or held, and a failed send marks a session that is not destroyed. -/
theorem senders_owned (h : (broker cfg).Reachable KeepsSenders (initial metrics) S) :
    (∀ p, Waiting S.world p → Owned S.world p.session) ∧
    ∀ i ch send S', S.nextOp i = some (.callback send false) → (broker cfg).next S (.step i ch) = some S' →
      Owned S.world send.session ∧ (S.world.sessions send.session).destroyed = false := by
  refine ⟨fun p hp ↦ .inl (registered_of_waiting h p hp), fun i ch send S' ho hs ↦ ?_⟩
  obtain ⟨j, o, k, r, w', ht, he, rfl⟩ := Machine.step_cases hs
  rw [Pool.nextOp, ht] at ho
  obtain rfl := Option.some.inj ho
  have hp : Performs cfg (fun _ _ ↦ True) S i j (.callback send false) ch r w' :=
    ⟨holds_of_reachable h, ⟨k, ht⟩, trivial, he⟩
  have hreg := registered_of_waiting h send (.inr ⟨i, List.mem_of_mem_head? hp.allowed.1⟩)
  refine ⟨.inl hreg, Bool.eq_false_iff.mpr fun hd ↦ ?_⟩
  exact (hp.inv.destroyed _ hd).1.2.2 hreg

/-- Bob registers, and a message to him waits to be sent. -/
def sendWaits : List (Job × ℕ) :=
  [(arrival { type := .register, sender := [98] }, 31), (arrival { sender := [97], destination := [98] }, 16)]

def reportedFailure (S : State) (i : ℕ) : Option PendingSend :=
  match S.nextOp i with
  | some (.callback send false) => some send
  | _ => none

theorem nextOp_of_reportedFailure {send : PendingSend} (h : reportedFailure S i = some send) :
    S.nextOp i = some (.callback send false) := by
  unfold reportedFailure at h
  split at h
  · next ho =>
    cases h
    exact ho
  · cases h

/-- Carol has come and gone when the send of the message to bob fails. -/
theorem senders_owned_bob : ∃ S send, (broker {}).Reachable KeepsSenders (initial none) S ∧
    S.nextOp 4 = some (.callback send false) ∧ Owned S.world send.session ∧
    (S.world.sessions send.session).destroyed = false := by
  have hrun : ((broker {}).runs KeepsSenders
      (inTurn 0 ((arrival { type := .register, sender := [99] }, 31) ::
        (arrival { type := .unregister, sender := [99] }, 28) :: sendWaits) ++
        [.start .processPendingSends, .step 4 {}, .step 4 {}, .step 4 { socket := .error }])
          ⟨initial none, []⟩).map
      (fun S ↦ (reportedFailure S 4).isSome && ((broker {}).next S (.step 4 {})).isSome) = some true := by
    decide +kernel
  obtain ⟨S, hS, hfails⟩ := exists_run hrun
  rw [Bool.and_eq_true, Option.isSome_iff_exists, Option.isSome_iff_exists] at hfails
  obtain ⟨⟨send, hsend⟩, S', hstep⟩ := hfails
  have hop := nextOp_of_reportedFailure hsend
  exact ⟨S, send, hS, hop, (senders_owned hS).2 4 {} send S' hop hstep⟩

/-- Bob unregisters while a message to him waits to be sent. -/
theorem sender_destroyed : ¬ ∀ cfg metrics S, (broker cfg).Reachable (fun _ _ ↦ True) (initial metrics) S →
    ∀ p, Waiting S.world p → Owned S.world p.session := by
  intro h
  have hrun : ((broker {}).runs (fun _ _ ↦ True)
      (inTurn 0 (sendWaits ++ [(arrival { type := .unregister, sender := [98] }, 28)])) ⟨initial none, []⟩).map
      (fun S ↦ S.world.pendingSends.any fun p ↦
        !decide (S.world.Registered p.session) && decide ((S.world.sessions p.session).owners = [])) =
          some true := by
    decide +kernel
  obtain ⟨S, hS, hany⟩ := exists_run hrun
  obtain ⟨p, hp, hlost⟩ := List.any_eq_true.mp hany
  simp only [Bool.and_eq_true, Bool.not_eq_true', decide_eq_false_iff_not, decide_eq_true_eq] at hlost
  exact (h {} none S hS p (.inl hp)).elim hlost.1 fun hne ↦ hne hlost.2

end MessageBroker.SendOwnership
