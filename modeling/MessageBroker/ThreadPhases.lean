import MessageBroker.RunInvariants
import MessageBroker.ProgramShapes

namespace MessageBroker.ThreadPhases

open ProgramTrees ThreadPools Protocols BrokerState SessionQueues ServerJobs OperationEffects ServerOutlines
  RunInvariants

variable {cfg : Config} {ok : State → Step → Prop} {metrics : Option Metrics} {S S' : State}
  {w w' : World} {i i' : ℕ} {j : Job} {o : Op} {ch : Choice} {r : o.Res} {σ : Type}
  {P : Protocol Op Op.Res σ} {s₀ : σ} {log : List Event}

/-- The phase that thread `i` has reached, from its history. -/
def phase (P : Protocol Op Op.Res σ) (s₀ : σ) (i : ℕ) : List Event → σ
  | [] => s₀
  | e :: log => if e.thread = i then P.next (phase P s₀ i log) e.op e.res else phase P s₀ i log

theorem phase_exec (he : exec i j o ch w = some (r, w')) :
    phase P s₀ i w'.log = P.next (phase P s₀ i w.log) o r := by
  rw [exec_log he, phase, if_pos rfl]

theorem phase_exec_ne (he : exec i j o ch w = some (r, w')) (hi : i' ≠ i) :
    phase P s₀ i' w'.log = phase P s₀ i' w.log := by
  rw [exec_log he, phase, if_neg (Ne.symm hi)]

theorem phase_eq_start (h : ∀ e ∈ log, e.thread ≠ i) : phase P s₀ i log = s₀ := by
  induction log with
  | nil => rfl
  | cons e log ih =>
    rw [phase, if_neg (h e List.mem_cons_self)]
    exact ih fun e he ↦ h e (List.mem_cons_of_mem _ he)

theorem start_log {w w' : World} (h : ServerJobs.start j w = some w') : w'.log = w.log := by
  obtain ⟨n, rfl⟩ := start_eq h
  rfl

theorem job_of_event (h : (broker cfg).Reachable ok (initial metrics) S) :
    ∀ e ∈ S.world.log, (S.threads[e.thread]?).map (·.job) = some e.job := by
  induction h with
  | init => exact fun _ he ↦ absurd he List.not_mem_nil
  | @next S S' l hr hl hs ih =>
    cases l with
    | start j =>
      obtain ⟨w', hw, rfl⟩ := Machine.start_cases hs
      intro e he
      have he := ih e (start_log hw ▸ he)
      obtain ⟨t, ht, -⟩ := Option.map_eq_some_iff.mp he
      rw [List.getElem?_append_left (List.getElem?_eq_some_iff.mp ht).1]
      exact he
    | step i ch =>
      obtain ⟨j, o, k, r, w', ht, he, rfl⟩ := Machine.step_cases hs
      have hi := (List.getElem?_eq_some_iff.mp ht).1
      intro e hm
      change ((S.threads.set i ⟨j, k r⟩)[e.thread]?).map (·.job) = some e.job
      rw [exec_log he] at hm
      rcases List.mem_cons.mp hm with rfl | hm
      · rw [List.getElem?_set_self hi]
        rfl
      · have hjob := ih e hm
        by_cases hie : i = e.thread
        · rw [← hie] at hjob ⊢
          rw [ht] at hjob
          rw [List.getElem?_set_self hi]
          exact hjob
        · rwa [List.getElem?_set_ne hie]
    | tick t => exact Option.some.inj hs ▸ ih

theorem thread_lt (h : (broker cfg).Reachable ok (initial metrics) S) :
    ∀ e ∈ S.world.log, e.thread < S.threads.length := by
  intro e he
  obtain ⟨t, ht, -⟩ := Option.map_eq_some_iff.mp (job_of_event h e he)
  exact (List.getElem?_eq_some_iff.mp ht).1

def phaseOf (P : Protocol Op Op.Res σ) (s : Job → σ) (i : ℕ) (S : State) : Option σ :=
  (S.threads[i]?).map fun t ↦ phase P (s t.job) i S.world.log

variable {s : Job → σ}

theorem phaseOf_eq {t : Thread Op Op.Res Job} (h : S.threads[i]? = some t) :
    phaseOf P s i S = some (phase P (s t.job) i S.world.log) := by
  rw [phaseOf, h]
  rfl

theorem phaseOf_start (h : (broker cfg).Reachable ok (initial metrics) S)
    (hw : ServerJobs.start j S.world = some w')
    (i : ℕ) : phaseOf P s i ⟨w', S.threads ++ [⟨j, (broker cfg).code j⟩]⟩ =
      if i = S.threads.length then some (s j) else phaseOf P s i S := by
  rcases Nat.lt_trichotomy i S.threads.length with hi | rfl | hi
  · rw [if_neg (Nat.ne_of_lt hi), phaseOf, phaseOf, List.getElem?_append_left hi]
    simp only [start_log hw]
  · rw [if_pos rfl, phaseOf_eq List.getElem?_concat_length, start_log hw,
      phase_eq_start fun e he ↦ Nat.ne_of_lt (thread_lt h e he)]
  · have hnone : S.threads[i]? = none := List.getElem?_eq_none hi.le
    have hnone' : (S.threads ++ [⟨j, (broker cfg).code j⟩])[i]? = none :=
      List.getElem?_eq_none (by rw [List.length_append]; exact hi)
    rw [if_neg (Nat.ne_of_gt hi), phaseOf, phaseOf, hnone, hnone']
    rfl

theorem phaseOf_step {k : o.Res → Program Unit} (hi : S.threads[i]? = some ⟨j, .op o k⟩)
    (he : exec i j o ch S.world = some (r, w')) (i' : ℕ) :
    phaseOf P s i' ⟨w', S.threads.set i ⟨j, k r⟩⟩ =
      if i' = i then (phaseOf P s i S).map (P.next · o r) else phaseOf P s i' S := by
  by_cases heq : i' = i
  · subst heq
    rw [if_pos rfl, phaseOf_eq hi, phaseOf_eq (List.getElem?_set_self (List.getElem?_eq_some_iff.mp hi).1)]
    exact congrArg some (phase_exec he)
  · rw [if_neg heq, phaseOf, phaseOf, List.getElem?_set_ne (Ne.symm heq)]
    simp only [phase_exec_ne he heq]

/-- When the code of every job follows its protocol, every thread does in every run. -/
theorem follows_of_reachable {P : Job → Protocol Op Op.Res σ} {s : Job → σ}
    {Q X : Job → σ → Prop}
    (hcode : ∀ j, Follows (P j) (fun _ ↦ Q j) (fun _ ↦ X j) (code cfg j) (s j))
    (h : (broker cfg).Reachable ok (initial metrics) S) :
    ∀ i t, S.threads[i]? = some t → Follows (P t.job) (fun _ ↦ Q t.job) (fun _ ↦ X t.job) t.code
      (phase (P t.job) (s t.job) i S.world.log) := by
  induction h with
  | init => exact fun _ _ ht ↦ nomatch ht
  | @next S S' l hr hl hs ih =>
    cases l with
    | start j =>
      obtain ⟨w', hw, rfl⟩ := Machine.start_cases hs
      intro i t ht
      change Follows _ _ _ _ (phase _ _ _ w'.log)
      rw [start_log hw]
      rcases getElem?_concat_cases ht with ht | ⟨rfl, rfl⟩
      · exact ih i t ht
      · rw [phase_eq_start fun e he ↦ Nat.ne_of_lt (thread_lt hr e he)]
        exact hcode j
    | step i ch =>
      obtain ⟨j, o, k, r, w', ht, he, rfl⟩ := Machine.step_cases hs
      intro i' t ht'
      change Follows _ _ _ _ (phase _ _ _ w'.log)
      by_cases hi : i' = i
      · subst hi
        rw [List.getElem?_set_self (List.getElem?_eq_some_iff.mp ht).1] at ht'
        obtain rfl := Option.some.inj ht'
        rw [phase_exec he]
        exact (ih i' _ ht).2 r
      · rw [List.getElem?_set_ne (Ne.symm hi)] at ht'
        rw [phase_exec_ne he hi]
        exact ih i' t ht'
    | tick t =>
      obtain rfl := Option.some.inj hs
      exact ih

theorem may_of_follows {P : Job → Protocol Op Op.Res σ} {s : Job → σ} {Q X : Job → σ → Prop}
    (hcode : ∀ j, Follows (P j) (fun _ ↦ Q j) (fun _ ↦ X j) (code cfg j) (s j))
    (h : (broker cfg).Reachable ok (initial metrics) S) (hp : Performs cfg ok S i j o ch r w') :
    (P j).may (phase (P j) (s j) i S.world.log) o := by
  obtain ⟨k, hk⟩ := hp.thread
  exact (follows_of_reachable hcode h i _ hk).1

theorem of_ended_follows {P : Protocol Op Op.Res σ} {Q : Unit → σ → Prop} {X : String → σ → Prop} {x : σ}
    {t : Thread Op Op.Res Job} (h : Follows P Q X t.code x) (hend : t.ended) : Q () x := by
  obtain ⟨u, hu⟩ := hend
  rw [hu] at h
  exact h

/-- What every thread knows in its phase, if it keeps it through the steps of the others. -/
theorem knows_of_reachable {P : Job → Protocol Op Op.Res σ} {s : Job → σ}
    {I : ℕ → Job → σ → World → Prop} (hstart : ∀ i j w, I i j (s j) w)
    (hidle : ∀ i j x w n now elapsed, I i j x w →
      I i j x { w with postedTasks := n, wallClock := now, steadyClock := elapsed })
    (hother : ∀ {S i j o ch r w' i' j' x}, (broker cfg).Reachable ok (initial metrics) S →
      Performs cfg ok S i j o ch r w' → i' ≠ i → (S.threads[i']?).map (·.job) = some j' →
        I i' j' x S.world → I i' j' x w')
    (hown : ∀ {S i j o ch r w'}, (broker cfg).Reachable ok (initial metrics) S →
      Performs cfg ok S i j o ch r w' → I i j (phase (P j) (s j) i S.world.log) S.world →
        I i j (phase (P j) (s j) i w'.log) w')
    (h : (broker cfg).Reachable ok (initial metrics) S) :
    ∀ i t, S.threads[i]? = some t → I i t.job (phase (P t.job) (s t.job) i S.world.log) S.world := by
  induction h with
  | init => exact fun _ _ ht ↦ by cases ht
  | @next S S' l hr hl hs ih =>
    intro i t ht
    cases l with
    | start j =>
      obtain ⟨w', hw, rfl⟩ := Machine.start_cases hs
      change I i t.job (phase _ _ i w'.log) w'
      rw [start_log hw]
      rcases getElem?_concat_cases ht with ht | ⟨rfl, rfl⟩
      · have hknows := ih i t ht
        obtain ⟨n, rfl⟩ := start_eq hw
        exact hidle _ _ _ _ n S.world.wallClock S.world.steadyClock hknows
      · rw [phase_eq_start fun e he ↦ Nat.ne_of_lt (thread_lt hr e he)]
        exact hstart _ _ _
    | step i₁ ch =>
      have hjob := Machine.job_step hs i
      obtain ⟨j, o, k, r, w', hthread, he, rfl⟩ := Machine.step_cases hs
      have hp : Performs cfg ok S i₁ j o ch r w' := ⟨holds_of_reachable hr, ⟨k, hthread⟩, hl, he⟩
      rw [ht] at hjob
      obtain ⟨t₀, ht₀, hj⟩ := Option.map_eq_some_iff.mp hjob.symm
      have hknows := ih i t₀ ht₀
      rw [hj] at hknows
      change I i t.job (phase _ _ i w'.log) w'
      by_cases hi : i = i₁
      · subst hi
        obtain rfl : t₀ = ⟨j, .op o k⟩ := Option.some.inj (ht₀.symm.trans hthread)
        obtain rfl : j = t.job := hj
        exact hown hr hp hknows
      · rw [phase_exec_ne he hi]
        exact hother hr hp hi (hjob.symm.trans rfl) hknows
    | tick t' =>
      obtain rfl := Option.some.inj hs
      exact hidle _ _ _ _ S.world.postedTasks _ _ (ih i t ht)

end MessageBroker.ThreadPhases
