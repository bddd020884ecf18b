import MessageBroker.SendPasses

namespace MessageBroker.FrameTriples

open WireMessages MessageStore ProgramTrees ThreadPools Protocols BrokerState SessionQueues ServerJobs
  OperationEffects ThreadViews SharedInvariant ProgramShapes ServerOutlines RunInvariants ThreadPhases
  SendPasses
open ExclusiveSender (frames)

def triple (send : PendingSend) : List (PendingSend × SendPart) := frames.map (send, ·)

variable {d : Handling} {hs : List Handling} {send : PendingSend} {f : PendingSend × SendPart}
  {sends : List PendingSend} {l : List (PendingSend × SendPart)}

/-- What the socket has accepted of a send: nothing, all three frames, or the
first one or two where the next was refused. -/
theorem accepted_cases (h : d.Over) : d.accepted = [] ∧ ¬ d.Cut ∧ d.dataAccepted = false ∨
    d.accepted = triple d.send ∧ ¬ d.Cut ∧ d.dataAccepted = true ∨
    d.Cut ∧ (d.accepted = [(d.send, .identity)] ∨ d.accepted = [(d.send, .identity), (d.send, .delimiter)]) := by
  obtain ⟨answer, htries⟩ := h.tries
  unfold Handling.accepted Handling.Cut Handling.dataAccepted triple
  rw [htries]
  by_cases hidentity : answer .identity = .accepted
  · by_cases hdelimiter : answer .delimiter = .accepted
    · by_cases hdata : answer .data = .accepted
      · exact .inr (.inl (by simp [attempts, frames, hidentity, hdelimiter, hdata]))
      · exact .inr (.inr (by simp [attempts, frames, hidentity, hdelimiter, hdata]))
    · exact .inr (.inr (by simp [attempts, frames, hidentity, hdelimiter]))
  · exact .inl (by simp [attempts, frames, hidentity, Ne.symm hidentity])

theorem head_identity (h : ∀ d ∈ hs, d.Over) (hl : hs.flatMap Handling.accepted = f :: l) : f.2 = .identity := by
  induction hs with
  | nil => cases hl
  | cons d hs ih =>
    obtain ⟨hd, hrest⟩ := List.forall_mem_cons.mp h
    rw [List.flatMap_cons] at hl
    rcases accepted_cases hd with ⟨hout, -⟩ | ⟨hout, -⟩ | ⟨-, hout | hout⟩
    · rw [hout] at hl
      exact ih hrest hl
    all_goals
      rw [hout] at hl
      obtain ⟨rfl, -⟩ := List.cons.inj hl
      rfl

theorem not_cut_of_triples (h : ∀ d ∈ hs, d.Over) (hl : hs.flatMap Handling.accepted = sends.flatMap triple) :
    ∀ d ∈ hs, ¬ d.Cut := by
  induction hs generalizing sends with
  | nil => exact fun _ hd ↦ absurd hd List.not_mem_nil
  | cons d hs ih =>
    obtain ⟨hd, hrest⟩ := List.forall_mem_cons.mp h
    rw [List.flatMap_cons] at hl
    rw [List.forall_mem_cons]
    rcases accepted_cases hd with ⟨hout, hcut, -⟩ | ⟨hout, hcut, -⟩ | ⟨-, hout⟩
    · rw [hout] at hl
      exact ⟨hcut, ih hrest hl⟩
    · rw [hout] at hl
      cases sends with
      | nil => cases hl
      | cons send sends => exact ⟨hcut, ih hrest (List.append_inj hl rfl).2⟩
    · -- the next frame of the triple would have to begin a message
      cases sends with
      | nil => rcases hout with hout | hout <;> rw [hout] at hl <;> cases hl
      | cons send sends =>
        rcases hout with hout | hout
        · rw [hout] at hl
          cases head_identity hrest (List.cons.inj hl).2
        · rw [hout] at hl
          cases head_identity hrest (List.cons.inj (List.cons.inj hl).2).2

theorem triples_of_not_cut (h : ∀ d ∈ hs, d.Over) (hcut : ∀ d ∈ hs, ¬ d.Cut) :
    hs.flatMap Handling.accepted = ((hs.filter (·.dataAccepted)).map (·.send)).flatMap triple := by
  induction hs with
  | nil => rfl
  | cons d hs ih =>
    obtain ⟨hd, hrest⟩ := List.forall_mem_cons.mp h
    obtain ⟨hnot, hnone⟩ := List.forall_mem_cons.mp hcut
    rw [List.flatMap_cons, ih hrest hnone]
    rcases accepted_cases hd with ⟨hout, -, hdata⟩ | ⟨hout, -, hdata⟩ | ⟨hdcut, -⟩
    · rw [hout, List.filter_cons_of_neg (by simp [hdata]), List.nil_append]
    · rw [hout, List.filter_cons_of_pos hdata, List.map_cons, List.flatMap_cons]
    · exact absurd hdcut hnot

variable {cfg : Config} {ok : State → Step → Prop} {metrics : Option Metrics} {S S₁ S' : State} {w w' : World}
  {i : ℕ} {j : Job} {x : Pass} {o : Op} {ch : Choice} {r : o.Res}

def sentFrame (o : Op) (r : o.Res) : List (PendingSend × SendPart) :=
  match o, r with
  | .sendFrame send part, result => if result = .accepted then [(send, part)] else []
  | _, _ => []

def framesFrom (i : ℕ) : List Event → List (PendingSend × SendPart)
  | [] => []
  | e :: log => framesFrom i log ++ if e.thread = i then sentFrame e.op e.res else []

theorem wire_exec (he : exec i j o ch w = some (r, w')) : w'.wire = w.wire ++ sentFrame o r := by
  cases o with
  | sendFrame send part =>
    rw [exec_sendFrame he]
    by_cases hr : r = .accepted
    · rw [if_pos hr, sentFrame, if_pos hr]
    · rw [if_neg hr, sentFrame, if_neg hr, List.append_nil]
  | _ => exact ((exec_aside he).wire (by simp)).trans (List.append_nil _).symm

theorem accepted_next (hmay : (sendPassProtocol j).may x o) :
    ((sendPassProtocol j).next x o r).collect Handling.accepted =
      x.collect Handling.accepted ++ sentFrame o r := by
  rw [collect_next (fun _ ↦ rfl) hmay, Pass.collect, List.flatMap_append, List.append_assoc]
  congr 1
  have same (ho : sentFrame o r = []) (hr : ∀ d : Handling, (d.after o r).accepted = d.accepted) :
      (x.current.map (·.after o r)).toList.flatMap Handling.accepted =
        x.current.toList.flatMap Handling.accepted ++ sentFrame o r := by
    rw [ho, List.append_nil]
    cases x.current with
    | none => rfl
    | some d => simp [hr]
  cases o with
  | sendFrame send part =>
    obtain ⟨d, hd, rfl⟩ := hmay
    simp only [hd, Option.map_some, Option.toList_some, List.flatMap_singleton, Handling.after,
      Handling.accepted, List.filter_append, List.map_append, sentFrame]
    congr 1
    by_cases hr : r = .accepted <;> simp [hr]
  | _ => exact same rfl fun _ ↦ rfl

theorem framesFrom_eq (h : (broker cfg).Reachable ok (initial metrics) S) :
    ∀ i, framesFrom i S.world.log = (pass i S.world).collect Handling.accepted := by
  refine thread_invariant (I := fun i w ↦ framesFrom i w.log = (pass i w).collect Handling.accepted)
    (fun _ ↦ rfl) (fun _ _ _ _ _ h ↦ h) (fun hr hp hw ↦ ?_) (fun _ hp hi hw ↦ ?_) h
  · rw [exec_log hp.exec, framesFrom, pass_exec hp.exec, accepted_next (may_of_performs hr hp), hw, if_pos rfl]
  · rw [exec_log hp.exec, framesFrom, pass_exec_ne hp.exec hi, if_neg (Ne.symm hi), List.append_nil, hw]

def sendsFrame : Op → Bool
  | .sendFrame _ _ => true
  | _ => false

def OnlySender (i : ℕ) (S : State) : Step → Prop
  | .step i' _ => (S.nextOp i').any sendsFrame = true → i' = i
  | _ => True

instance (i : ℕ) (S : State) : (l : Step) → Decidable (OnlySender i S l)
  | .step i' _ => inferInstanceAs (Decidable ((S.nextOp i').any sendsFrame = true → i' = i))
  | .start _ | .tick _ => instDecidableTrue

theorem wire_of_leads (hl : (broker cfg).Leads (OnlySender i) S S') :
    ∃ out, S'.world.wire = S.world.wire ++ out ∧
      framesFrom i S'.world.log = framesFrom i S.world.log ++ out := by
  induction hl with
  | refl => exact ⟨[], (List.append_nil _).symm, (List.append_nil _).symm⟩
  | @next S₂ S₃ l hl hok hs ih =>
    obtain ⟨out, hwire, hframes⟩ := ih
    obtain ⟨k, ch', j, o, code, r, rfl, ht, he⟩ | ⟨n, now, elapsed, hw⟩ := next_cases hs
    · refine ⟨out ++ sentFrame o r, ?_, ?_⟩
      · rw [wire_exec he, hwire, List.append_assoc]
      · rw [exec_log he, framesFrom, hframes, List.append_assoc]
        split
        · rfl
        · next hk =>
          have hnot : sendsFrame o = false := by
            refine Bool.eq_false_iff.mpr fun hsends ↦ hk (hok ?_)
            rw [Pool.nextOp, ht]
            exact hsends
          cases o with
          | sendFrame send part => cases hnot
          | _ => rfl
    · refine ⟨out, ?_, ?_⟩ <;> rw [hw]
      · exact hwire
      · exact hframes

/-- Between two sends of a pass the frames that the socket has accepted from the
thread are complete messages, in the order of the batch, exactly if in none of its
sends a frame after the identity was refused. -/
theorem frames_complete_iff (h : (broker cfg).Reachable ok (initial metrics) S)
    (hop : S.nextOp i = some .takePendingSends) (hok : ok S (.step i ch))
    (hs : (broker cfg).next S (.step i ch) = some S₁) (hl : (broker cfg).Leads ok S₁ S')
    (hidle : (pass i S'.world).current = none) :
    (pass i S'.world).finished.map (·.send) ++ S'.world.batches i = S.world.pendingSends ∧
    ((∃ sends : List PendingSend, sends.Sublist S.world.pendingSends ∧
      framesFrom i S'.world.log = sends.flatMap triple) ↔ ∀ d ∈ (pass i S'.world).finished, ¬ d.Cut) ∧
    ((broker cfg).Leads (OnlySender i) S₁ S' →
      S'.world.wire = S.world.wire ++ framesFrom i S'.world.log) := by
  have hr : (broker cfg).Reachable ok (initial metrics) S' := (h.next _ hok hs).leads hl
  have htracks := tracks_of_leads h hop hok hs hl
  rw [Tracks, hidle] at htracks
  have hover := over_of_finished hr i
  have hout := framesFrom_eq hr i
  rw [Pass.collect, hidle, Option.toList_none, List.append_nil] at hout
  refine ⟨htracks.2, ?_, fun hsole ↦ ?_⟩
  · rw [hout]
    constructor
    · rintro ⟨sends, -, hsends⟩
      exact not_cut_of_triples hover hsends
    · intro hcut
      refine ⟨_, ?_, triples_of_not_cut hover hcut⟩
      rw [← htracks.2]
      exact (List.filter_sublist.map _).trans (List.sublist_append_left _ _)
  · obtain ⟨out, hwire, hframes⟩ := wire_of_leads hsole
    obtain ⟨j, o, k, n, w', ht, he, rfl⟩ := Machine.step_cases hs
    rw [Pool.nextOp, ht] at hop
    obtain rfl := Option.some.inj hop
    have hp : Performs cfg ok S i j .takePendingSends ch n w' := ⟨holds_of_reachable h, ⟨k, ht⟩, hok, he⟩
    have hstart : pass i S.world = {} := may_of_performs h hp
    have hnone : framesFrom i w'.log = [] := by
      rw [framesFrom_eq (h.next _ hok hs) i]
      change (pass i w').collect _ = []
      rw [pass_exec he, hstart]
      rfl
    rw [hwire, hframes]
    change w'.wire ++ out = _ ++ (framesFrom i w'.log ++ out)
    rw [hnone, wire_exec he]
    simp [sentFrame]

theorem exists_pass {ls ls' : List Step} {α : Type} {f : State → α} {v : α}
    (h : ((broker cfg).runs (fun _ _ ↦ True) ls ⟨initial metrics, []⟩).bind (fun S ↦
      if (S.nextOp i).any ExclusiveSender.takes = true then ((broker cfg).next S (.step i {})).bind fun S₁ ↦
        ((broker cfg).runs (OnlySender i) ls' S₁).map f else none) = some v) :
    ∃ S S₁ S', (broker cfg).Reachable (fun _ _ ↦ True) (initial metrics) S ∧
      S.nextOp i = some .takePendingSends ∧ (broker cfg).next S (.step i {}) = some S₁ ∧
      (broker cfg).Leads (OnlySender i) S₁ S' ∧ f S' = v := by
  obtain ⟨S, hS, h⟩ := Option.bind_eq_some_iff.mp h
  split at h
  · next hop =>
    obtain ⟨S₁, hs, h⟩ := Option.bind_eq_some_iff.mp h
    obtain ⟨S', hS', hv⟩ := Option.map_eq_some_iff.mp h
    refine ⟨S, S₁, S', Machine.Reachable.init.runs ls hS, ?_, hs, Machine.leads_of_runs ls' hS', hv⟩
    cases ho : S.nextOp i with
    | none =>
      rw [ho] at hop
      cases hop
    | some o =>
      rw [ho] at hop
      cases o with
      | takePendingSends => rfl
      | _ => cases hop
  · cases h

/-- Bob is sent two messages, and the identity of the first would block. -/
theorem frames_complete_two : ∃ S S' : State, (broker {}).Reachable (fun _ _ ↦ True) (initial none) S ∧
    (framesFrom 3 S'.world.log).map (fun f ↦ (f.1.copy.msg.correlationId, f.2)) =
      [(2, .identity), (2, .delimiter), (2, .data)] ∧
    ((∃ sends : List PendingSend, sends.Sublist S.world.pendingSends ∧
        framesFrom 3 S'.world.log = sends.flatMap triple) ↔ ∀ d ∈ (pass 3 S'.world).finished, ¬ d.Cut) ∧
    S'.world.wire = S.world.wire ++ framesFrom 3 S'.world.log := by
  have hrun : ((broker {}).runs (fun _ _ ↦ True) (inTurn 0 [
      (arrival { type := .register, sender := [98] }, 31),
      (arrival { sender := [97], destination := [98], correlationId := 1 }, 16),
      (arrival { sender := [97], destination := [98], correlationId := 2 }, 16), (.processPendingSends, 0)])
      ⟨initial none, []⟩).bind (fun S ↦ if (S.nextOp 3).any ExclusiveSender.takes = true then
        ((broker {}).next S (.step 3 {})).bind fun S₁ ↦ ((broker {}).runs (OnlySender 3)
          (.step 3 {} :: .step 3 { socket := .wouldBlock } :: List.replicate 9 (.step 3 {})) S₁).map fun S' ↦
            ((pass 3 S'.world).current.isNone,
              (framesFrom 3 S'.world.log).map fun f ↦ (f.1.copy.msg.correlationId, f.2)) else none) =
      some (true, [(2, .identity), (2, .delimiter), (2, .data)]) := by
    decide +kernel
  obtain ⟨S, S₁, S', hS, hop, hs, hl, hv⟩ := exists_pass hrun
  obtain ⟨hidle, hframes⟩ := Prod.mk.inj hv
  obtain ⟨-, hiff, hwire⟩ := frames_complete_iff hS hop trivial hs (hl.mono fun _ _ _ ↦ trivial)
    (Option.isNone_iff_eq_none.mp hidle)
  exact ⟨S, S', hS, hframes, hiff, hwire hl⟩

/-- The delimiter of the first message would have blocked: the second one goes out
behind the identity of the first. -/
theorem delimiter_blocked_corrupts : ∃ S S₁ S' : State, (broker {}).Reachable (fun _ _ ↦ True) (initial none) S ∧
    S.nextOp 3 = some .takePendingSends ∧ (broker {}).next S (.step 3 {}) = some S₁ ∧
    (broker {}).Leads (OnlySender 3) S₁ S' ∧ (pass 3 S'.world).current = none ∧ S'.world.batches 3 = [] ∧
    (framesFrom 3 S'.world.log).map (fun f ↦ (f.1.copy.msg.correlationId, f.2)) =
      [(1, .identity), (2, .identity), (2, .delimiter), (2, .data)] ∧
    ¬ ∃ sends : List PendingSend, framesFrom 3 S'.world.log = sends.flatMap triple := by
  have hrun : ((broker {}).runs (fun _ _ ↦ True) (inTurn 0 [
      (arrival { type := .register, sender := [98] }, 31),
      (arrival { sender := [97], destination := [98], correlationId := 1 }, 16),
      (arrival { sender := [97], destination := [98], correlationId := 2 }, 16), (.processPendingSends, 0)])
      ⟨initial none, []⟩).bind (fun S ↦ if (S.nextOp 3).any ExclusiveSender.takes = true then
        ((broker {}).next S (.step 3 {})).bind fun S₁ ↦ ((broker {}).runs (OnlySender 3)
          (.step 3 {} :: .step 3 {} :: .step 3 { socket := .wouldBlock } :: List.replicate 9 (.step 3 {}))
            S₁).map fun S' ↦ ((pass 3 S'.world).current.isNone, S'.world.batches 3,
              (framesFrom 3 S'.world.log).map fun f ↦ (f.1.copy.msg.correlationId, f.2)) else none) =
      some (true, [], [(1, .identity), (2, .identity), (2, .delimiter), (2, .data)]) := by
    decide +kernel
  obtain ⟨S, S₁, S', hS, hop, hs, hl, hv⟩ := exists_pass hrun
  obtain ⟨hidle, hv⟩ := Prod.mk.inj hv
  obtain ⟨hbatch, hframes⟩ := Prod.mk.inj hv
  refine ⟨S, S₁, S', hS, hop, hs, hl, Option.isNone_iff_eq_none.mp hidle, hbatch, hframes, ?_⟩
  rintro ⟨sends, hsends⟩
  rw [hsends] at hframes
  -- the second frame of a triple is a delimiter
  cases sends with
  | nil => cases hframes
  | cons send sends => cases congrArg (fun l ↦ l[1]?.map Prod.snd) hframes

end MessageBroker.FrameTriples
