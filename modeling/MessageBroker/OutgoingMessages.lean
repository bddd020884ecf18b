import MessageBroker.RunInvariants

namespace MessageBroker.OutgoingMessages

open WireMessages MessageStore ProgramTrees ProofOutlines ThreadPools BrokerState SessionQueues
  ServerJobs StoreInvariant OperationEffects ThreadViews SharedInvariant OutlineRules ServerOutlines
  RunInvariants

variable {cfg : Config} {ok : State → Step → Prop} {metrics : Option Metrics} {S : State}
  {w w' : World} {i i' : ℕ} {j : Job} {o : Op} {ch : Choice} {r : o.Res} {s : ℕ} {c : Copy}

/-- The world in which no thread holds the queue of a session. -/
def freeQueue (w : World) (s : ℕ) : World := w.setSession s fun x ↦ { x with queueOwner := none }

theorem freeQueue_session (w : World) (s s' : ℕ) : (freeQueue w s).sessions s' =
    if s' = s then { w.sessions s' with queueOwner := none } else w.sessions s' :=
  setSession_apply w s s' _

theorem freeQueue_frame : Frame [.queueOwners] w (freeQueue w s) :=
  setSession_frame (fun _ _ ↦ rfl) (fun _ _ ↦ rfl) (fun _ _ ↦ rfl) (by simp) (fun _ _ ↦ rfl)
    fun _ _ ↦ rfl

theorem consistent_freeQueue (h : Consistent w) : Consistent (freeQueue w s) := by
  have hf : Frame [.queueOwners] w (freeQueue w s) := freeQueue_frame
  have hqueue := hf.queues (by simp)
  have hname := hf.name (by simp)
  have howners := hf.owners (by simp)
  refine ⟨h.store, fun s' ↦ ?_, h.sends, h.batches, h.uncalled, fun s' ↦ ?_, fun s' hs ↦ ?_,
    fun s' hs ↦ ?_, fun n s' hs ↦ ?_, fun s' ↦ ?_⟩
  · rw [hqueue]
    exact h.queues s'
  · rw [hqueue, hf.presence (by simp)]
    exact h.offline s'
  · rw [hname]
    exact h.names s' hs
  · obtain ⟨ho, hq, hl⟩ := h.unused s' hs
    rw [howners, hqueue, freeQueue_session]
    refine ⟨ho, hq, ?_⟩
    split
    · rfl
    · exact hl
  · rw [hname]
    exact h.clients n s' hs
  · rw [hf.destroyed (by simp), hqueue]
    intro hd
    obtain ⟨⟨hlt, ho, hreg⟩, hq⟩ := h.destroyed s' hd
    exact ⟨⟨hlt, (howners s').trans ho, hreg⟩, hq⟩

theorem rely_freeQueue (h : (hold i w).queues s = false) : Rely i w (freeQueue w s) := by
  have hf : Frame [.queueOwners] w (freeQueue w s) := freeQueue_frame
  have hqueue := hf.queues (by simp)
  have howners := hf.owners (by simp)
  refine ⟨?_, rfl, fun _ ↦ rfl, fun s' _ ↦ hqueue s', ⟨.refl _, Nat.le_refl _, fun s' _ ↦ hf.name (by simp) s',
    fun s' _ ↦ ?_, fun s' _ ho ↦ (hf.presence (by simp) s').trans ho, fun s' hd ↦ ?_, rfl, id⟩⟩
  · simp only [hold, Hold.mk.injEq]
    refine ⟨rfl, funext fun s' ↦ ?_, funext fun s' ↦ by rw [howners], rfl⟩
    rw [freeQueue_session]
    split
    · next hs =>
      subst hs
      have hne : decide ((w.sessions s').queueOwner = some i) = false := h
      rw [hne]
      rfl
    · rfl
  · rw [freeQueue_session]
    split <;> rfl
  · exact ⟨⟨hd.1, (howners s').trans hd.2.1, hd.2.2⟩, fun hq ↦ (hqueue s').trans hq⟩

theorem fits_of_guarded (h : Guarded (env cfg i j) (sendMessage s c) w) (hc : Consistent w)
    (ht : w.terminated = false) : c.msg.Fits := by
  -- The session goes offline before the thread looks, so that the message is queued.
  obtain ⟨-, h₁⟩ := h w .refl hc
  obtain ⟨w₁, he₁⟩ : ∃ w₁, exec i j (.updateLastActivity s) {} w = some ((), w₁) :=
    ⟨_, by simp [exec, ht, effect]; rfl⟩
  have hc₁ := step_inv (o := .updateLastActivity s) hc trivial he₁
  have ht₁ : w₁.terminated = false := ((exec_frame he₁).terminated (by simp [writes])).trans ht
  obtain ⟨w₂, he₂⟩ : ∃ w₂, exec (i + 1) j (.markOffline s) {} w₁ = some ((), w₂) :=
    ⟨_, by simp [exec, ht₁, effect]; rfl⟩
  have hc₂ := step_inv (o := .markOffline s) hc₁ trivial he₂
  have ht₂ : w₂.terminated = false := ((exec_frame he₂).terminated (by simp [writes])).trans ht₁
  have hrely : Rely i w₁ w₂ :=
    step_rely (o := .markOffline s) (Nat.ne_of_lt (Nat.lt_succ_self i)) trivial he₂ hc₁
  obtain ⟨-, h₂⟩ := h₁ {} () w₁ trivial he₁ w₂ hrely hc₂
  have hoff : (w₂.sessions s).isOnline = false := by
    rw [exec_markOffline he₂]
    simp
  obtain ⟨w₃, he₃⟩ : ∃ w₃, exec i j (.isOnline s) {} w₂ = some (false, w₃) :=
    ⟨_, by simp [exec, ht₂, effect, hoff]; rfl⟩
  have hc₃ := step_inv (o := .isOnline s) hc₂ trivial he₃
  have ht₃ : w₃.terminated = false := ((exec_frame he₃).terminated (by simp [writes])).trans ht₂
  -- The thread holds no queue, so that it finds this one free at last.
  have h₃ : Guarded (env cfg i j) (enqueueMessage s c) w₃ := Guarded.of_bind (h₂ {} false w₃ trivial he₃)
  have hfree := ((h₃ w₃ .refl hc₃).1 ht₃).2 s
  have hc₄ : Consistent (freeQueue w₃ s) := consistent_freeQueue hc₃
  obtain ⟨-, h₄⟩ := h₃ (freeQueue w₃ s) (rely_freeQueue hfree) hc₄
  have hnone : ((freeQueue w₃ s).sessions s).queueOwner = none := by
    rw [freeQueue_session, if_pos rfl]
  have ht₄ : (freeQueue w₃ s).terminated = false := ht₃
  obtain ⟨w₅, he₅⟩ : ∃ w₅, exec i j (.lockQueue s) {} (freeQueue w₃ s) = some ((), w₅) :=
    ⟨_, by simp [exec, ht₄, effect, hnone]; rfl⟩
  have hc₅ := step_inv hc₄ ((h₃ _ (rely_freeQueue hfree) hc₄).1 ht₄) he₅
  have ht₅ : w₅.terminated = false := ((exec_frame he₅).terminated (by simp [writes])).trans ht₄
  obtain ⟨hpush, -⟩ := h₄ {} () w₅ trivial he₅ w₅ .refl hc₅
  exact (hpush ht₅).2.2.authentic.fits

/-- The message fits on the wire, so that it is not dropped. -/
def Serialises (c : Copy) : Prop :=
  c.msg.Fits ∧ ∃ data, serialize c.msg = .ok data ∧ ∀ s, sendZmqMessage s c = sendToClient s c data

theorem serialises_of_fits (h : c.msg.Fits) : Serialises c := by
  obtain ⟨data, hdata, -⟩ := WireCodec.deserialize_serialize h
  refine ⟨h, data, hdata, fun s ↦ ?_⟩
  unfold sendZmqMessage
  rw [hdata]
  rfl

/-- Thread `i` is about to pass a message to `sendMessage`. -/
def Sends (S : State) (i s : ℕ) (c : Copy) : Prop :=
  ∃ t, S.threads[i]? = some t ∧ Begins (sendMessage s c) t.code

/-- What an operation takes from the front of a queue. -/
def takes : (o : Op) → o.Res → Option Copy
  | .queueFront _, r => r
  | _, _ => none

/-- The messages that leave the sessions or are taken from their queues. -/
def Passed (w : World) (c : Copy) : Prop :=
  ∃ e ∈ w.log, takes e.op e.res = some c ∨ ∃ s, hands e.op = some (s, c)

theorem fits_of_takes (hp : Performs cfg ok S i j o ch r w') (h : takes o r = some c) :
    c.msg.Fits := by
  cases o with
  | queueFront s =>
    have hr : some (S.world.sessions s).outgoingQueue.head? = some r := exec_reads hp.exec
    obtain rfl : (S.world.sessions s).outgoingQueue.head? = r := Option.some.inj hr
    exact (hp.inv.queues s c (List.mem_of_mem_head? h)).fits
  | _ => cases h

theorem fits_of_passed (h : (broker cfg).Reachable ok (initial metrics) S) :
    ∀ c, Passed S.world c → c.msg.Fits := by
  refine run_invariant (P := fun w ↦ ∀ c, Passed w c → c.msg.Fits) ?_ (fun _ _ _ _ hw ↦ hw) ?_ h
  · rintro c ⟨e, he, -⟩
    exact absurd he List.not_mem_nil
  · rintro S i j o ch r w' hp ih c ⟨e, he, hpassed⟩
    rw [exec_log hp.exec] at he
    rcases List.mem_cons.mp he with rfl | he
    · rcases hpassed with htake | ⟨s, hhand⟩
      · exact fits_of_takes hp htake
      · exact (allowed_hands hp.allowed hhand).authentic.fits
    · exact ih c ⟨e, he, hpassed⟩

/-- Every message that is passed to `sendMessage` while the process runs, taken
from a queue, or handed over serialises. -/
theorem outgoing_serialises (h : (broker cfg).Reachable ok (initial metrics) S) :
    (S.world.terminated = false → ∀ i s c, Sends S i s c → Serialises c) ∧
      ∀ c, Passed S.world c → Serialises c := by
  have hh := holds_of_reachable h
  refine ⟨fun hrun i s c hsends ↦ ?_, fun c hc ↦ serialises_of_fits (fits_of_passed h c hc)⟩
  obtain ⟨t, ht, hbegins⟩ := hsends
  exact serialises_of_fits
    (fits_of_guarded ((hh.safe i t ht).guarded.of_begins hbegins) hh.inv hrun)

/-- Alice's message to bob is handed over. -/
theorem outgoing_serialises_online : ∃ S c, (broker {}).Reachable (fun _ _ ↦ True) (initial none) S ∧
    S.world.terminated = false ∧ Passed S.world c ∧ Serialises c := by
  have hrun : ((broker {}).runs (fun _ _ ↦ True) (inTurn 0 [
      (arrival { type := .register, sender := [98] }, 31),
      (arrival { sender := [97], destination := [98] }, 16)])
      ⟨initial none, []⟩).map (fun S ↦ (S.world.terminated,
        S.world.log.any fun e ↦ (hands e.op).isSome)) = some (false, true) := by decide +kernel
  obtain ⟨S, hS, hv⟩ := exists_run hrun
  obtain ⟨hterm, hany⟩ := Prod.mk.inj hv
  obtain ⟨e, he, hhands⟩ := List.any_eq_true.mp hany
  obtain ⟨⟨s, c⟩, hsc⟩ := Option.isSome_iff_exists.mp hhands
  have hpassed : Passed S.world c := ⟨e, he, .inr ⟨s, hsc⟩⟩
  exact ⟨S, c, hS, hterm, hpassed, (outgoing_serialises hS).2 c hpassed⟩

end MessageBroker.OutgoingMessages
