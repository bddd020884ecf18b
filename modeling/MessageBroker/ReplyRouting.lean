import MessageBroker.RoutePhases
import MessageBroker.HandOverOnce

namespace MessageBroker.ReplyRouting

open ByteStrings WireMessages MessageStore OrderedSelection ProgramTrees ThreadPools Protocols BrokerState
  ServerJobs StoreInvariant OperationEffects ThreadViews SharedInvariant ServerOutlines RunInvariants
  ThreadPhases HandOverOnce RoutePhases

variable {cfg : Config} {ok : State → Step → Prop} {metrics : Option Metrics} {S S' : State}
  {w w' : World} {i i' : ℕ} {j : Job} {o : Op} {ch : Choice} {r : o.Res} {m : Message}
  {x y : RoutePhase} {d : Bytes} {id s : ℕ} {log : List Event}

def routePhase (i : ℕ) (j : Job) (w : World) : RoutePhase :=
  phase (routeProtocol (incoming j)) (routeStart j) i w.log

theorem settles_of_reachable (h : (broker cfg).Reachable ok (initial metrics) S)
    {t : Thread Op Op.Res Job} (ht : S.threads[i]? = some t) :
    Settles (incoming t.job) t.code (routePhase i t.job S.world) :=
  follows_of_reachable (P := fun j ↦ routeProtocol (incoming j)) (Q := fun j ↦ Final (incoming j))
    (X := fun j ↦ Final (incoming j)) (settles_code cfg) h i t ht

theorem may_of_performs (h : (broker cfg).Reachable ok (initial metrics) S)
    (hp : Performs cfg ok S i j o ch r w') :
    (routeProtocol (incoming j)).may (routePhase i j S.world) o := by
  obtain ⟨k, hk⟩ := hp.thread
  exact (settles_of_reachable h hk).1

theorem routePhase_exec (he : exec i j o ch w = some (r, w')) :
    routePhase i j w' = (routeProtocol (incoming j)).next (routePhase i j w) o r := phase_exec he

theorem routePhase_exec_ne (he : exec i j o ch w = some (r, w')) (hi : i' ≠ i) (j' : Job) :
    routePhase i' j' w' = routePhase i' j' w := phase_exec_ne he hi

theorem clean_of_reachable (h : (broker cfg).Reachable Serialised (initial metrics) S) :
    ∀ i, (account i S.world.log).failed = false :=
  run_invariant (P := fun w ↦ ∀ i, (account i w.log).failed = false) (fun _ ↦ rfl)
    (fun _ _ _ _ hw ↦ hw) clean_step h

theorem unfailed_next (he : exec i j o ch w = some (r, w')) (hdb : Sound w.db)
    (hclean : (account i w'.log).failed = false) (hx : x ≠ .failed) :
    (routeProtocol m).next x o r ≠ .failed := by
  rw [account_exec he] at hclean
  intro h
  cases o with
  | saveMessage | saveCorrelation | markSent =>
    cases r with
    | error e => cases hclean
    | ok a => cases x <;> first | exact hx h | cases h
  | findOriginalSenderByCorrelation corr =>
    have hr : some (if ch.dbError then [] else w.db.findOriginalSenderByCorrelation ch.tie corr) = some r :=
      exec_reads he
    have hlen : r.length ≤ 255 := by
      rw [← Option.some.inj hr]
      split
      · simp
      · exact originalSender_length hdb ch.tie corr
    cases x with
    | asking =>
      change (if r.length ≤ 255 then RoutePhase.redirected r else .failed) = .failed at h
      rw [if_pos hlen] at h
      cases h
    | _ => exact hx h
  | findClient | isOnline =>
    cases x <;> first | exact hx h | (cases r <;> cases h)
  | _ => cases x <;> first | exact hx h | cases h

/-- What kind of thread a phase belongs to. -/
inductive Kind
  | outside
  | loose
  | message
  | reply
  | ack
  | failed

def kind : RoutePhase → Kind
  | .outside => .outside
  | .loose => .loose
  | .failed => .failed
  | .accepting | .accepted => .message
  | .found _ => .ack
  | _ => .reply

theorem kind_next (h : (routeProtocol m).next x o r ≠ .failed) :
    kind ((routeProtocol m).next x o r) = kind x := by
  cases o with
  | saveMessage | saveCorrelation | markSent =>
    cases r <;> cases x <;> first | rfl | exact absurd rfl h
  | findOriginalSenderByCorrelation corr =>
    cases x with
    | asking =>
      change (if r.length ≤ 255 then RoutePhase.redirected r else .failed) ≠ .failed at h
      change kind (if r.length ≤ 255 then RoutePhase.redirected r else .failed) = .reply
      split at h
      · next hlen =>
        rw [if_pos hlen]
        rfl
      · exact absurd rfl h
    | _ => rfl
  | findClient | isOnline => cases r <;> cases x <;> rfl
  | _ => cases x <;> rfl

theorem start_ne_failed (j : Job) : routeStart j ≠ .failed := by
  unfold routeStart
  split
  · split
    · simp
    · split <;> simp
  · simp

theorem kind_of_reachable (h : (broker cfg).Reachable Serialised (initial metrics) S) :
    ∀ i t, S.threads[i]? = some t → routePhase i t.job S.world ≠ .failed ∧
      kind (routePhase i t.job S.world) = kind (routeStart t.job) := by
  refine knows_of_reachable (P := fun j ↦ routeProtocol (incoming j))
    (I := fun _ j x _ ↦ x ≠ .failed ∧ kind x = kind (routeStart j))
    (fun _ j _ ↦ ⟨start_ne_failed j, rfl⟩) (fun _ _ _ _ _ _ _ hx ↦ hx) (fun _ _ _ _ hx ↦ hx) ?_ h
  intro S i j o ch r w' hr hp hx
  have hclean : (account i w'.log).failed = false := clean_step hp (clean_of_reachable hr) i
  have hnext := unfailed_next (m := incoming j) hp.exec hp.inv.store hclean hx.1
  rw [phase_exec hp.exec]
  exact ⟨hnext, (kind_next hnext).trans hx.2⟩

def Did (i : ℕ) (q : (o : Op) → o.Res → Prop) (w : World) : Prop :=
  ∃ e ∈ w.log, e.thread = i ∧ q e.op e.res

theorem Did.mono {q : (o : Op) → o.Res → Prop} (h : Did i q w) (hl : w.log ⊆ w'.log) : Did i q w' := by
  obtain ⟨e, he, hq⟩ := h
  exact ⟨e, hl he, hq⟩

theorem did_exec {q : (o : Op) → o.Res → Prop} (he : exec i j o ch w = some (r, w')) (hq : q o r) :
    Did i q w' := by
  refine ⟨⟨i, j, o, ch, r, w.wallClock⟩, ?_, rfl, hq⟩
  rw [exec_log he]
  exact List.mem_cons_self

def saves (m : Message) (id : ℕ) : (o : Op) → o.Res → Prop
  | .saveMessage c, r => c.msg = m ∧ r = .ok id
  | _, _ => False

def finds (n : Bytes) (s : ℕ) : (o : Op) → o.Res → Prop
  | .findClient n', r => n' = n ∧ r = some s
  | _, _ => False

def seesOnline (s : ℕ) : (o : Op) → o.Res → Prop
  | .isOnline s', r => s' = s ∧ r = true
  | _, _ => False

def handsOver (s : ℕ) (c : Copy) : (o : Op) → o.Res → Prop := fun o _ ↦ hands o = some (s, c)

/-- Thread `i` has saved the reply `m` for `d` as row `id`. -/
def Stored (i : ℕ) (m : Message) (d : Bytes) (id : ℕ) (w : World) : Prop :=
  Did i (saves (redirect m d) id) w ∧ ∃ r ∈ w.db.messages, r.id = id ∧
    r.type = m.type.toByte.toNat ∧ r.destination = .of d ∧ r.correlationId = m.correlationId.toInt64

/-- What the thread of `m` knows in its phase. -/
def Facts (i : ℕ) (m : Message) (w : World) : RoutePhase → Prop
  | .found id => id ≠ 0 → ∃ r ∈ w.db.messages, r.id = id ∧ r.correlationId = m.correlationId.toInt64
  | .saved d id | .linked d id | .absent d id => Stored i m d id w
  | .met d id s => Stored i m d id w ∧ Did i (finds d s) w
  | .online d id s => Stored i m d id w ∧ Did i (finds d s) w ∧ Did i (seesOnline s) w
  | .handed d id s => Stored i m d id w ∧ Did i (finds d s) w ∧ Did i (seesOnline s) w ∧
    Did i (handsOver s ⟨redirect m d, some id, d⟩) w
  | _ => True

theorem Stored.mono (h : Stored i m d id w) (hl : w.log ⊆ w'.log) (hx : Extends w.db w'.db) :
    Stored i m d id w' := by
  obtain ⟨hdid, r, hr, hid, ht, hd, hc⟩ := h
  obtain ⟨st, hst⟩ := hx r hr
  exact ⟨hdid.mono hl, _, hst, hid, ht, hd, hc⟩

theorem Facts.mono (h : Facts i m w x) (hl : w.log ⊆ w'.log) (hx : Extends w.db w'.db) :
    Facts i m w' x := by
  cases x with
  | found id =>
    intro hid
    obtain ⟨r, hr, hrid, hc⟩ := h hid
    obtain ⟨st, hst⟩ := hx r hr
    exact ⟨_, hst, hrid, hc⟩
  | saved | linked | absent => exact Stored.mono h hl hx
  | met => exact ⟨h.1.mono hl hx, h.2.mono hl⟩
  | online => exact ⟨h.1.mono hl hx, h.2.1.mono hl, h.2.2.mono hl⟩
  | handed => exact ⟨h.1.mono hl hx, h.2.1.mono hl, h.2.2.1.mono hl, h.2.2.2.mono hl⟩
  | _ => trivial

theorem row_of_correlation {db : Database} (hdb : Sound db) {p : Correlation → Bool} {corr : UInt64}
    (hcorr : ∀ k, p k = true → k.correlationId = corr.toInt64) {tie : ℕ → ℕ}
    (h : ((latest (·.createdAt) (fun k ↦ tie k.id) (db.correlations.filter p)).map (·.messageId)).getD 0 = id)
    (hid : id ≠ 0) : ∃ r ∈ db.messages, r.id = id ∧ r.correlationId = corr.toInt64 := by
  cases hl : latest (·.createdAt) (fun k ↦ tie k.id) (db.correlations.filter p) with
  | none =>
    rw [hl] at h
    exact absurd h.symm hid
  | some k =>
    rw [hl] at h
    obtain ⟨hk, hp⟩ := List.mem_filter.mp (mem_of_latest hl)
    obtain ⟨-, r, hr, hrid, hc⟩ := hdb.correlations k hk
    exact ⟨r, hr, hrid.trans h, hc.trans (hcorr k hp)⟩

theorem Facts.next (hp : Performs cfg ok S i j o ch r w')
    (hmay : (routeProtocol m).may x o) (h : Facts i m S.world x) :
    Facts i m w' ((routeProtocol m).next x o r) := by
  have he := hp.exec
  have hl : S.world.log ⊆ w'.log := fun _ ↦ mem_log he
  have hx := hp.grows.db
  have stays {y : RoutePhase} (hy : Facts i m S.world y) : Facts i m w' y := hy.mono hl hx
  have did {q : (o : Op) → o.Res → Prop} (hq : q o r) : Did i q w' := did_exec he hq
  cases x with
  | found id =>
    have row {v : ℕ} (hv : v ≠ 0 → ∃ r ∈ S.world.db.messages, r.id = v ∧
        r.correlationId = m.correlationId.toInt64) : Facts i m w' (.found v) :=
      stays (y := .found v) hv
    cases o with
    | findMessageIdByCorrelation corr =>
      obtain rfl : corr = m.correlationId := hmay
      have hr : some (if ch.dbError then 0 else S.world.db.findMessageIdByCorrelation ch.tie _) = some r :=
        exec_reads he
      refine row fun hne ↦ ?_
      have hr := Option.some.inj hr
      split at hr
      · exact absurd hr.symm hne
      · exact row_of_correlation hp.inv.store (by simp) hr hne
    | findMessageIdByCorrelationAndDestination corr n =>
      obtain rfl : corr = m.correlationId := hmay
      have hr : some (if ch.dbError then 0 else
          S.world.db.findMessageIdByCorrelationAndDestination ch.tie _ n) = some r := exec_reads he
      refine row fun hne ↦ ?_
      have hr := Option.some.inj hr
      split at hr
      · exact absurd hr.symm hne
      · exact row_of_correlation hp.inv.store (fun k hk ↦ (of_decide_eq_true hk).1) hr hne
    | _ => exact stays h
  | redirected owner =>
    obtain rfl : o = .saveMessage ⟨redirect m (recipient m owner), none, recipient m owner⟩ := hmay
    obtain ⟨-, ⟨e, rfl⟩, -⟩ | ⟨rfl, hdb⟩ := exec_saveMessage he
    · trivial
    · have hrow : S.world.db.newRow S.world.wallClock
          ⟨redirect m (recipient m owner), none, recipient m owner⟩ ∈ w'.db.messages := by
        rw [hdb]
        exact List.mem_append_right _ (List.mem_singleton_self _)
      exact ⟨did ⟨rfl, rfl⟩, _, hrow, rfl, rfl, rfl, rfl⟩
  | saved d id =>
    obtain rfl : o = .saveCorrelation id m.correlationId d := hmay
    cases r with
    | error e => trivial
    | ok u => exact stays h
  | linked d id =>
    cases o with
    | findClient n =>
      obtain rfl : n = d := hmay
      have hstored : Stored i m n id w' := Stored.mono h hl hx
      cases r with
      | none => exact hstored
      | some s => exact ⟨hstored, did ⟨rfl, rfl⟩⟩
    | _ => exact stays h
  | met d id s =>
    cases o with
    | isOnline s' =>
      obtain rfl : s' = s := hmay
      obtain ⟨hstored, hmet⟩ := h
      cases r with
      | false => exact hstored.mono hl hx
      | true => exact ⟨hstored.mono hl hx, hmet.mono hl, did ⟨rfl, rfl⟩⟩
    | _ => exact stays h
  | online d id s =>
    have handed (hh : ∃ s' c, hands o = some (s', c)) : Facts i m w' (.handed d id s) := by
      obtain ⟨s', c, hh⟩ := hh
      obtain ⟨rfl, rfl⟩ := hmay.2 s' c hh
      exact ⟨h.1.mono hl hx, h.2.1.mono hl, h.2.2.mono hl, did hh⟩
    cases o with
    | pushQueue s' c => exact handed ⟨s', c, rfl⟩
    | pushPendingSend s' c data => exact handed ⟨s', c, rfl⟩
    | markSent id =>
      cases r with
      | error e => trivial
      | ok u => exact stays h
    | _ => exact stays h
  | accepting =>
    cases o with
    | saveMessage | saveCorrelation => cases r <;> trivial
    | _ => trivial
  | asking =>
    cases o with
    | findOriginalSenderByCorrelation corr =>
      change Facts i m w' (if r.length ≤ 255 then .redirected r else .failed)
      split <;> trivial
    | _ => trivial
  | absent | handed => exact stays h
  | outside | loose | failed | accepted => trivial

theorem facts_of_reachable (h : (broker cfg).Reachable ok (initial metrics) S) {t : Thread Op Op.Res Job}
    (ht : S.threads[i]? = some t) : Facts i (incoming t.job) S.world (routePhase i t.job S.world) := by
  refine knows_of_reachable (P := fun j ↦ routeProtocol (incoming j)) (s := routeStart)
    (I := fun i j x w ↦ Facts i (incoming j) w x) (fun i j w ↦ ?_)
    (fun _ _ _ _ _ _ _ hx ↦ hx.mono (List.Subset.refl _) (.refl _))
    (fun _ hp _ _ hx ↦ hx.mono (fun _ ↦ mem_log hp.exec) hp.grows.db) (fun hr hp hx ↦ ?_) h i t ht
  · unfold routeStart
    split
    · split
      · trivial
      · split
        · trivial
        · trivial
        · exact fun hne ↦ absurd rfl hne
        · trivial
    · trivial
  · rw [phase_exec hp.exec]
    exact Facts.next hp (may_of_performs hr hp) hx

/-- Every handler but the last one has ended. -/
theorem ended_before (h : (broker cfg).Reachable Serialised (initial metrics) S) :
    ∀ (i i' : ℕ) t t', S.threads[i]? = some t → S.threads[i']? = some t' →
      isReceive t.job = true → isReceive t'.job = true → i' < i → t'.ended := by
  induction h with
  | init => exact fun i i' t t' ht ↦ by cases ht
  | @next S S' l hr hl hs ih =>
    intro i i' t t' ht ht' hj hj' hlt
    cases l with
    | start j =>
      obtain ⟨w', -, rfl⟩ := Machine.start_cases hs
      rcases getElem?_concat_cases ht with ht | ⟨rfl, rfl⟩
      · rw [List.getElem?_append_left (hlt.trans (List.getElem?_eq_some_iff.mp ht).1)] at ht'
        exact ih i i' t t' ht ht' hj hj' hlt
      · rw [List.getElem?_append_left hlt] at ht'
        exact ended_of_hasEnded (hl hj t' (List.mem_of_getElem? ht') hj')
    | step i₁ ch =>
      have hjob := Machine.job_step hs i
      rw [ht] at hjob
      obtain ⟨t₀, ht₀, hj₀⟩ := Option.map_eq_some_iff.mp hjob.symm
      obtain ⟨j, o, k, r, w', hthread, he, rfl⟩ := Machine.step_cases hs
      have old {t₁ : Thread Op Op.Res Job} (ht₁ : S.threads[i']? = some t₁)
          (hj₁ : isReceive t₁.job = true) : t₁.ended :=
        ih i i' t₀ t₁ ht₀ ht₁ (hj₀ ▸ hj) hj₁ hlt
      by_cases hi : i₁ = i'
      · subst hi
        rw [List.getElem?_set_self (List.getElem?_eq_some_iff.mp hthread).1] at ht'
        obtain rfl := Option.some.inj ht'
        obtain ⟨u, hu⟩ := old hthread hj'
        cases hu
      · rw [List.getElem?_set_ne hi] at ht'
        exact old ht' hj'
    | tick t'' =>
      obtain rfl := Option.some.inj hs
      exact ih i i' t t' ht ht' hj hj' hlt

/-- No handler that started after thread `i` has done anything. -/
def Latest (i : ℕ) (w : World) : Prop := ∀ e ∈ w.log, i < e.thread → isReceive e.job = false

/-- What the row of a reply for `d` waits with for its recipient. -/
def Waits (m : Message) (db : Database) : RoutePhase → Prop
  | .saved _ id => ∃ r ∈ db.messages, r.id = id ∧ r.status ≠ .delivered
  | .linked d id | .absent d id | .met d id _ | .online d id _ =>
    (∃ r ∈ db.messages, r.id = id ∧ r.status ≠ .delivered) ∧
      ∃ k ∈ db.correlations, k.correlationId = m.correlationId.toInt64 ∧ k.originalSender = .of d
  | _ => True

theorem undelivered_quiet (he : exec i j o ch w = some (r, w')) (hq : quiet o = true)
    (h : ∃ r ∈ w.db.messages, r.id = id ∧ r.status ≠ .delivered) :
    ∃ r ∈ w'.db.messages, r.id = id ∧ r.status ≠ .delivered := by
  obtain ⟨row, hrow, hid, hst⟩ := h
  refine ⟨_, status_exec he hrow, hid, ?_⟩
  cases o with
  | markDelivered => cases hq
  | markSent | markPending =>
    cases r with
    | ok u =>
      simp only [statusAfter]
      split
      · simp
      · exact hst
    | error e => exact hst
  | _ => exact hst

theorem waits_quiet (he : exec i j o ch w = some (r, w')) (hq : quiet o = true) (h : Waits m w.db x) :
    Waits m w'.db x := by
  have hcorr : w'.db.correlations = w.db.correlations := by
    refine (exec_frame he).correlations ?_
    cases o with
    | saveCorrelation | markAckReceived => cases hq
    | _ => simp [writes]
  cases x with
  | saved => exact undelivered_quiet he hq h
  | linked | absent | met | online =>
    obtain ⟨hrow, hk⟩ := h
    exact ⟨undelivered_quiet he hq hrow, by rwa [hcorr]⟩
  | _ => trivial

theorem Waits.next (he : exec i j o ch w = some (r, w'))
    (hmay : (routeProtocol m).may x o) (h : Waits m w.db x) :
    Waits m w'.db ((routeProtocol m).next x o r) := by
  cases x with
  | redirected owner =>
    obtain rfl : o = .saveMessage ⟨redirect m (recipient m owner), none, recipient m owner⟩ := hmay
    obtain ⟨-, ⟨e, rfl⟩, -⟩ | ⟨rfl, hdb⟩ := exec_saveMessage he
    · trivial
    · have hrow : w.db.newRow w.wallClock
          ⟨redirect m (recipient m owner), none, recipient m owner⟩ ∈ w'.db.messages := by
        rw [hdb]
        exact List.mem_append_right _ (List.mem_singleton_self _)
      exact ⟨_, hrow, rfl, by simp [Database.newRow]⟩
  | saved d id =>
    obtain rfl : o = .saveCorrelation id m.correlationId d := hmay
    obtain ⟨-, ⟨e, rfl⟩, -⟩ | ⟨rfl, hdb⟩ := exec_saveCorrelation he
    · trivial
    · obtain ⟨hm, -, hc⟩ := saveCorrelation_eq_some hdb
      refine ⟨by rwa [hm], ?_⟩
      rw [hc]
      exact ⟨_, List.mem_append_right _ (List.mem_singleton_self _), rfl, rfl⟩
  | linked d id =>
    have hkeep {y : RoutePhase} (hq : quiet o = true) (hy : Waits m w.db y) := waits_quiet he hq hy
    cases o with
    | findClient n =>
      have hw : Waits m w'.db (.linked d id) := hkeep rfl h
      cases r with
      | none => exact hw
      | some s => exact hw
    | _ => exact hkeep hmay h
  | met d id s =>
    cases o with
    | isOnline s' =>
      have hw : Waits m w'.db (.met d id s) := waits_quiet he rfl h
      cases r with
      | false => exact hw
      | true => exact hw
    | _ => exact waits_quiet he hmay h
  | online d id s =>
    have hw : Waits m w'.db (.online d id s) := waits_quiet he hmay.1 h
    cases o with
    | pushQueue | pushPendingSend => trivial
    | markSent id =>
      cases r with
      | error e => trivial
      | ok u => exact hw
    | _ => exact hw
  | absent => exact waits_quiet he hmay h
  | asking =>
    cases o with
    | findOriginalSenderByCorrelation corr =>
      change Waits m w'.db (if r.length ≤ 255 then .redirected r else .failed)
      split <;> trivial
    | _ => trivial
  | accepting =>
    cases o with
    | saveMessage | saveCorrelation => cases r <;> trivial
    | _ => trivial
  | found id => cases o <;> trivial
  | outside | loose | failed | accepted | handed => trivial

theorem quiet_of_outside (h : (broker cfg).Reachable Serialised (initial metrics) S)
    (hp : Performs cfg Serialised S i j o ch r w') (hj : isReceive j = false) : quiet o = true := by
  have hmay := may_of_performs h hp
  obtain ⟨k, hk⟩ := hp.thread
  obtain ⟨hne, hkind⟩ := kind_of_reachable h i _ hk
  have hstart : routeStart j = .outside := by
    cases j with
    | receive => cases hj
    | cleanupInactiveSessions | checkExpiredAcks | processPendingSends | sendTask => rfl
  change routePhase i j S.world ≠ .failed at hne
  change kind (routePhase i j S.world) = kind (routeStart j) at hkind
  rw [hstart] at hkind
  cases hx : routePhase i j S.world with
  | outside =>
    rw [hx] at hmay
    exact hmay
  | failed => exact absurd hx hne
  | _ =>
    rw [hx] at hkind
    cases hkind

theorem latest_of_exec (he : exec i' j o ch w = some (r, w')) (h : Latest i w') :
    Latest i w ∧ (i < i' → isReceive j = false) := by
  refine ⟨fun e hm ↦ h e (mem_log he hm), fun hi ↦ ?_⟩
  refine h ⟨i', j, o, ch, r, w.wallClock⟩ ?_ hi
  rw [exec_log he]
  exact List.mem_cons_self

theorem quiet_of_latest (h : (broker cfg).Reachable Serialised (initial metrics) S)
    (hp : Performs cfg Serialised S i' j o ch r w') (hi : i ≠ i') {t : Thread Op Op.Res Job}
    (ht : S.threads[i]? = some t) (hj : isReceive t.job = true) (hlate : Latest i w') :
    quiet o = true := by
  cases hj' : isReceive j with
  | false => exact quiet_of_outside h hp hj'
  | true =>
    obtain ⟨k, hk⟩ := hp.thread
    rcases Nat.lt_or_gt_of_ne hi with hlt | hlt
    · cases hj'.symm.trans ((latest_of_exec hp.exec hlate).2 hlt)
    · obtain ⟨u, hu⟩ := ended_before h i i' t _ ht hk hj hj' hlt
      cases hu

/-- What the last handler left waiting is still there. -/
theorem waits_of_reachable (h : (broker cfg).Reachable Serialised (initial metrics) S)
    {t : Thread Op Op.Res Job} (ht : S.threads[i]? = some t) (hj : isReceive t.job = true)
    (hlate : Latest i S.world) :
    Waits (incoming t.job) S.world.db (routePhase i t.job S.world) := by
  refine knows_of_reachable (P := fun j ↦ routeProtocol (incoming j)) (s := routeStart)
    (I := fun i j x w ↦ isReceive j = true → Latest i w → Waits (incoming j) w.db x)
    (fun i j w _ _ ↦ ?_) (fun _ _ _ _ _ _ _ hx ↦ hx) ?_ ?_ h i t ht hj hlate
  · unfold routeStart
    split
    · split
      · trivial
      · split <;> trivial
    · trivial
  · intro S i j o ch r w' i' j' x hr hp hi hjob hx hj' hlate
    obtain ⟨t', ht', rfl⟩ := Option.map_eq_some_iff.mp hjob
    have hq := quiet_of_latest hr hp hi ht' hj' hlate
    exact waits_quiet hp.exec hq (hx hj' (latest_of_exec hp.exec hlate).1)
  · intro S i j o ch r w' hr hp hx hj hlate
    rw [phase_exec hp.exec]
    exact Waits.next hp.exec (may_of_performs hr hp) (hx hj (latest_of_exec hp.exec hlate).1)

variable {i₀ k : ℕ} {m₀ : Message}

/-- Thread `i₀` receives `m₀`. No other message has its correlation id, nor has
an earlier reply or a later acknowledgement from its sender. -/
structure Conversation (S : State) (i₀ : ℕ) (m₀ : Message) : Prop where
  started : ∀ t, S.threads[i₀]? = some t → Receives t.job m₀
  messages : ∀ i t m, S.threads[i]? = some t → Receives t.job m →
    m.correlationId = m₀.correlationId → m.type = .message → i = i₀
  replies : ∀ i t m, S.threads[i]? = some t → Receives t.job m →
    m.correlationId = m₀.correlationId → m.type = .reply → i₀ < i
  acks : ∀ i t m, S.threads[i]? = some t → Receives t.job m →
    m.correlationId = m₀.correlationId → m.type = .ack → m.sender = m₀.sender → i ≤ i₀

theorem Conversation.before {l : Step} (h : Conversation S' i₀ m₀)
    (hs : (broker cfg).next S l = some S') : Conversation S i₀ m₀ := by
  constructor
  · intro t ht
    obtain ⟨t', ht', hj⟩ := Machine.job_next hs ht
    exact hj ▸ h.started t' ht'
  · intro i t m ht hm
    obtain ⟨t', ht', hj⟩ := Machine.job_next hs ht
    exact h.messages i t' m ht' (hj ▸ hm)
  · intro i t m ht hm
    obtain ⟨t', ht', hj⟩ := Machine.job_next hs ht
    exact h.replies i t' m ht' (hj ▸ hm)
  · intro i t m ht hm
    obtain ⟨t', ht', hj⟩ := Machine.job_next hs ht
    exact h.acks i t' m ht' (hj ▸ hm)

def Directed (a : Bytes) : RoutePhase → Prop
  | .redirected owner => owner = a
  | .saved d _ | .linked d _ | .absent d _ | .met d _ _ | .online d _ _ | .handed d _ _ => d = a
  | _ => True

/-- The correlations of the conversation belong to the sender of its message. -/
structure Owned (S : State) (i₀ : ℕ) (m₀ : Message) : Prop where
  owner : ∀ k ∈ S.world.db.correlations, k.correlationId = m₀.correlationId.toInt64 →
    k.originalSender.val = m₀.sender
  kept : ∀ t, S.threads[i₀]? = some t → routePhase i₀ t.job S.world = .accepted →
    ∃ k ∈ S.world.db.correlations, k.correlationId = m₀.correlationId.toInt64
  directed : ∀ i t, S.threads[i]? = some t → (incoming t.job).correlationId = m₀.correlationId →
    Directed m₀.sender (routePhase i t.job S.world)

/-- A message that can open a conversation. -/
structure Request (m : Message) : Prop where
  type : m.type = .message
  needsReply : m.needsReply = true
  sender : m.sender ≠ [] ∧ NulFree m.sender

theorem may_links (hmay : (routeProtocol m).may x o) (hx : x ≠ .failed) (hl : links o = true) :
    (∃ id, x = .accepting ∧ o = .saveCorrelation id m.correlationId m.sender) ∨
      (∃ d id, x = .saved d id ∧ o = .saveCorrelation id m.correlationId d) ∨
        ∃ id, x = .found id ∧ o = .markAckReceived id m.sender := by
  cases o with
  | saveCorrelation id corr n =>
    cases x with
    | accepting =>
      obtain ⟨rfl, rfl⟩ := hmay
      exact .inl ⟨id, rfl, rfl⟩
    | saved d id' =>
      have ho : Op.saveCorrelation id corr n = .saveCorrelation id' m.correlationId d := hmay
      exact .inr (.inl ⟨d, id', rfl, ho⟩)
    | failed => exact absurd rfl hx
    | redirected => cases hmay
    | online => cases hmay.1
    | _ => cases hmay
  | markAckReceived id n =>
    cases x with
    | found id' =>
      obtain ⟨rfl, rfl⟩ := hmay
      exact .inr (.inr ⟨id, rfl, rfl⟩)
    | failed => exact absurd rfl hx
    | redirected | saved => cases hmay
    | online => cases hmay.1
    | _ => cases hmay
  | _ => cases hl

theorem correlations_exec (he : exec i j o ch w = some (r, w')) (hl : links o = false) :
    w'.db.correlations = w.db.correlations := by
  refine (exec_frame he).correlations ?_
  cases o with
  | saveCorrelation | markAckReceived => cases hl
  | _ => simp [writes]

theorem toInt64_inj {a b : UInt64} (h : a.toInt64 = b.toInt64) : a = b := by
  rw [← UInt64.toUInt64_toInt64 a, h, UInt64.toUInt64_toInt64]

/-- The kind of a thread tells what it receives. -/
def Handles (j : Job) : Kind → Prop
  | .message => Receives j (incoming j) ∧ (incoming j).type = .message
  | .reply => Receives j (incoming j) ∧ (incoming j).type = .reply
  | .ack => Receives j (incoming j) ∧ (incoming j).type = .ack
  | _ => True

theorem incoming_eq (h : Receives j m) : incoming j = m := by
  rw [incoming, received_eq.mpr h]
  rfl

theorem handles_start (j : Job) : Handles j (kind (routeStart j)) := by
  cases j with
  | receive identity data =>
    cases hm : received (.receive identity data) with
    | none =>
      simp only [routeStart, hm]
      exact trivial
    | some m =>
      have hrec : Receives (.receive identity data) m := received_eq.mp hm
      simp only [routeStart, hm]
      cases ht : m.type with
      | message | reply | ack =>
        refine ⟨?_, ?_⟩
        · rwa [incoming_eq hrec]
        · rwa [incoming_eq hrec]
      | _ => exact trivial
  | cleanupInactiveSessions | checkExpiredAcks | processPendingSends | sendTask => exact trivial

theorem handles_of_reachable (h : (broker cfg).Reachable Serialised (initial metrics) S)
    {t : Thread Op Op.Res Job} (ht : S.threads[i]? = some t) :
    Handles t.job (kind (routePhase i t.job S.world)) := by
  rw [(kind_of_reachable h i t ht).2]
  exact handles_start t.job

theorem mem_markAckReceived {db : Database} {n : Bytes} {k : Correlation} (hk : k ∈ db.correlations)
    (h : ∀ k' ∈ db.correlations, k'.messageId = id → k.messageId = id →
      k'.originalSender.val ≠ n) : k ∈ (db.markAckReceived id n).correlations := by
  simp only [Database.markAckReceived]
  split
  · next howner =>
    refine List.mem_filter.mpr ⟨hk, decide_eq_true fun hid ↦ ?_⟩
    cases hf : db.correlations.find? (·.messageId = id) with
    | none => simpa [hid] using List.find?_eq_none.mp hf k hk
    | some k' =>
      rw [hf] at howner
      exact h k' (List.mem_of_find?_eq_some hf) (by simpa using List.find?_some hf) hid howner
  · exact hk

theorem routeStart_message (h : Receives j m) (ht : m.type = .message) :
    routeStart j = .accepting := by
  have hrec := received_eq.mpr h
  obtain ⟨identity, data, rfl, -⟩ := h
  simp only [routeStart, hrec, ht]

theorem accepted_of_ended (h : (broker cfg).Reachable Serialised (initial metrics) S)
    (hc : Conversation S i₀ m₀) (hm : Request m₀) {t : Thread Op Op.Res Job}
    (ht : S.threads[i₀]? = some t) (hend : t.ended) : routePhase i₀ t.job S.world = .accepted := by
  have hrec := hc.started t ht
  have hfinal := of_ended_follows (settles_of_reachable h ht) hend
  rw [incoming_eq hrec] at hfinal
  obtain ⟨hne, hkind⟩ := kind_of_reachable h i₀ t ht
  rw [routeStart_message hrec hm.type] at hkind
  cases hx : routePhase i₀ t.job S.world with
  | accepted => rfl
  | accepting =>
    rw [hx] at hfinal
    have hflags : (m₀.needsReply || m₀.needsAck) = false := hfinal
    rw [hm.needsReply] at hflags
    cases hflags
  | failed => exact absurd hx hne
  | _ =>
    rw [hx] at hkind
    cases hkind

section Step

variable (hr : (broker cfg).Reachable Serialised (initial metrics) S)
  (hp : Performs cfg Serialised S i j o ch r w') (hc : Conversation S i₀ m₀) (hm : Request m₀)
  (h : Owned S i₀ m₀)
include hr hp hc hm h

theorem owner_step : ∀ k ∈ w'.db.correlations, k.correlationId = m₀.correlationId.toInt64 →
    k.originalSender.val = m₀.sender := by
  have he := hp.exec
  have hmay := may_of_performs hr hp
  obtain ⟨code, hk⟩ := hp.thread
  have hne : routePhase i j S.world ≠ .failed := (kind_of_reachable hr i _ hk).1
  have hhandles : Handles j (kind (routePhase i j S.world)) := handles_of_reachable hr hk
  have own : (CText.of m₀.sender).val = m₀.sender := CText.val_of hm.sender.2
  have save {id : ℕ} {corr : UInt64} {n : Bytes} (hn : corr = m₀.correlationId → n = m₀.sender)
      (ho : o = .saveCorrelation id corr n) : ∀ k ∈ w'.db.correlations,
        k.correlationId = m₀.correlationId.toInt64 → k.originalSender.val = m₀.sender := by
    subst ho
    intro k hk hcorr
    obtain ⟨-, -, hdb⟩ | ⟨-, hdb⟩ := exec_saveCorrelation he
    · exact h.owner k (hdb ▸ hk) hcorr
    · rw [(saveCorrelation_eq_some hdb).2.2] at hk
      rcases List.mem_append.mp hk with hk | hk
      · exact h.owner k (List.mem_filter.mp hk).1 hcorr
      · obtain rfl := List.mem_singleton.mp hk
        rw [hn (toInt64_inj hcorr)]
        exact own
  by_cases hl : links o = true
  · rcases may_links hmay hne hl with ⟨id, hx, ho⟩ | ⟨d, id, hx, ho⟩ | ⟨id, hx, ho⟩
    · refine save (fun hcorr ↦ ?_) ho
      rw [hx] at hhandles
      obtain rfl := hc.messages i _ _ hk hhandles.1 hcorr hhandles.2
      rw [incoming_eq (hc.started _ hk)]
    · refine save (fun hcorr ↦ ?_) ho
      have hd := h.directed i _ hk hcorr
      change Directed m₀.sender (routePhase i j S.world) at hd
      rw [hx] at hd
      exact hd
    · subst ho
      intro k hk
      rcases exec_markAckReceived he with hdb | hdb
      · exact h.owner k (hdb ▸ hk)
      · rw [hdb] at hk
        exact h.owner k ((markAckReceived_eq _).2.2 hk)
  · rw [correlations_exec he (by simpa using hl)]
    exact h.owner

theorem kept_step (hlinks : links o = true)
    (hacc : ∃ t, S.threads[i₀]? = some t ∧ routePhase i₀ t.job S.world = .accepted) :
    ∃ k ∈ w'.db.correlations, k.correlationId = m₀.correlationId.toInt64 := by
  have he := hp.exec
  obtain ⟨code, hthread⟩ := hp.thread
  have hne : routePhase i j S.world ≠ .failed := (kind_of_reachable hr i _ hthread).1
  have hhandles : Handles j (kind (routePhase i j S.world)) := handles_of_reachable hr hthread
  obtain ⟨t₀, ht₀, hphase⟩ := hacc
  obtain ⟨k, hk, hcorr⟩ := h.kept t₀ ht₀ hphase
  have save {id : ℕ} {corr : UInt64} {n : Bytes} (ho : o = .saveCorrelation id corr n) :
      ∃ k ∈ w'.db.correlations, k.correlationId = m₀.correlationId.toInt64 := by
    subst ho
    obtain ⟨-, -, hdb⟩ | ⟨-, hdb⟩ := exec_saveCorrelation he
    · exact ⟨k, hdb ▸ hk, hcorr⟩
    · rw [(saveCorrelation_eq_some hdb).2.2]
      by_cases hsame : k.correlationId = corr.toInt64 ∧ k.originalSender = .of n
      · exact ⟨_, List.mem_append_right _ (List.mem_singleton_self _), hsame.1.symm.trans hcorr⟩
      · exact ⟨k, List.mem_append_left _ (List.mem_filter.mpr ⟨hk, decide_eq_true hsame⟩), hcorr⟩
  rcases may_links (may_of_performs hr hp) hne hlinks with
    ⟨id, hx, ho⟩ | ⟨d, id, hx, ho⟩ | ⟨id, hx, ho⟩
  · exact save ho
  · exact save ho
  · subst ho
    have hfacts : Facts i (incoming j) S.world (routePhase i j S.world) := facts_of_reachable hr hthread
    rw [hx] at hhandles hfacts
    obtain ⟨hrec, hack⟩ := hhandles
    rcases exec_markAckReceived he with hdb | hdb
    · exact ⟨k, hdb ▸ hk, hcorr⟩
    · rw [hdb]
      refine ⟨k, mem_markAckReceived hk fun k' hk' hid' hid howner ↦ ?_, hcorr⟩
      -- The row that `k` refers to carries the correlation id of the acknowledgement.
      obtain ⟨-, row, hrow, hrid, hrcorr⟩ := hp.inv.store.correlations k hk
      obtain ⟨-, row', hrow', hrid', hrcorr'⟩ := hp.inv.store.correlations k' hk'
      obtain rfl := id_inj hp.inv.store hrow hrow' (by omega)
      have hpos := (hp.inv.store.bound row hrow).1
      obtain ⟨row'', hrow'', hrid'', hrcorr''⟩ := hfacts (by omega)
      obtain rfl := id_inj hp.inv.store hrow hrow'' (by omega)
      have heq : (incoming j).correlationId = m₀.correlationId :=
        toInt64_inj (hrcorr''.symm.trans (hrcorr.trans hcorr))
      have hsender : (incoming j).sender = m₀.sender :=
        howner.symm.trans (h.owner k' hk' (hrcorr'.symm.trans (hrcorr.trans hcorr)))
      have hle := hc.acks i _ _ hthread hrec heq hack hsender
      rcases Nat.lt_or_eq_of_le hle with hlt | rfl
      · obtain ⟨u, hu⟩ := ended_before hr i₀ i t₀ _ ht₀ hthread
          (isReceive_of_receives (hc.started t₀ ht₀)) (isReceive_of_receives hrec) hlt
        cases hu
      · have hm' : incoming j = m₀ := incoming_eq (hc.started _ hthread)
        rw [hm', hm.type] at hack
        cases hack

theorem asked_step {corr : UInt64} (ho : o = .findOriginalSenderByCorrelation corr)
    (hx : routePhase i j S.world = .asking)
    (hcorr : (incoming j).correlationId = m₀.correlationId) :
    Directed m₀.sender (routePhase i j w') := by
  subst ho
  have he := hp.exec
  have hmay := may_of_performs hr hp
  obtain ⟨code, hthread⟩ := hp.thread
  have hhandles : Handles j (kind (routePhase i j S.world)) := handles_of_reachable hr hthread
  rw [hx] at hhandles hmay
  obtain ⟨hrec, htype⟩ := hhandles
  obtain rfl : corr = (incoming j).correlationId := hmay
  -- The handler of the message has ended and left a correlation.
  have hlt := hc.replies i _ _ hthread hrec hcorr htype
  have ht₀ := List.getElem?_eq_getElem (hlt.trans (List.getElem?_eq_some_iff.mp hthread).1)
  have hrec₀ := hc.started _ ht₀
  have hended := ended_before hr i i₀ _ _ hthread ht₀ (isReceive_of_receives hrec)
    (isReceive_of_receives hrec₀) hlt
  obtain ⟨k, hk, hkcorr⟩ := h.kept _ ht₀ (accepted_of_ended hr hc hm ht₀ hended)
  have hfind : S.world.db.findOriginalSenderByCorrelation ch.tie (incoming j).correlationId =
      m₀.sender := by
    unfold Database.findOriginalSenderByCorrelation
    cases hl : S.world.db.latestCorrelation ch.tie (incoming j).correlationId with
    | none =>
      have hnil := latest_eq_none.mp hl
      have hmem : k ∈ S.world.db.correlations.filter
          (·.correlationId = (incoming j).correlationId.toInt64) :=
        List.mem_filter.mpr ⟨hk, decide_eq_true (hcorr ▸ hkcorr)⟩
      rw [hnil] at hmem
      cases hmem
    | some k' =>
      obtain ⟨hk', hkcorr'⟩ := List.mem_filter.mp (mem_of_latest hl)
      exact h.owner k' hk' (hcorr ▸ of_decide_eq_true hkcorr')
  have hr' : some (if ch.dbError then [] else
      S.world.db.findOriginalSenderByCorrelation ch.tie (incoming j).correlationId) = some r :=
    exec_reads he
  have hch : ch.dbError = false := hp.ok
  rw [hch, if_neg (by simp), hfind] at hr'
  rw [routePhase_exec he, hx, ← Option.some.inj hr']
  change Directed m₀.sender (if m₀.sender.length ≤ 255 then .redirected m₀.sender else .failed)
  split
  · exact rfl
  · trivial

theorem directed_step (hcorr : (incoming j).correlationId = m₀.correlationId) :
    Directed m₀.sender (routePhase i j w') := by
  have he := hp.exec
  obtain ⟨code, hthread⟩ := hp.thread
  have hd : Directed m₀.sender (routePhase i j S.world) := h.directed i _ hthread hcorr
  cases hx : routePhase i j S.world with
  | asking =>
    by_cases ho : ∃ corr, o = .findOriginalSenderByCorrelation corr
    · obtain ⟨corr, ho⟩ := ho
      exact asked_step hr hp hc hm h ho hx hcorr
    · rw [routePhase_exec he, hx]
      cases o with
      | findOriginalSenderByCorrelation corr => exact absurd ⟨corr, rfl⟩ ho
      | _ => trivial
  | redirected owner =>
    rw [hx] at hd
    obtain rfl : owner = m₀.sender := hd
    have hrecipient : recipient (incoming j) m₀.sender = m₀.sender := if_neg hm.sender.1
    rw [routePhase_exec he, hx]
    cases o with
    | saveMessage c =>
      cases r with
      | ok id => exact hrecipient
      | error e => trivial
    | _ => exact rfl
  | saved d id =>
    rw [hx] at hd
    rw [routePhase_exec he, hx]
    cases o with
    | saveCorrelation => cases r <;> first | exact hd | trivial
    | _ => exact hd
  | linked d id =>
    rw [hx] at hd
    rw [routePhase_exec he, hx]
    cases o with
    | findClient => cases r <;> exact hd
    | _ => exact hd
  | met d id s =>
    rw [hx] at hd
    rw [routePhase_exec he, hx]
    cases o with
    | isOnline => cases r <;> exact hd
    | _ => exact hd
  | online d id s =>
    rw [hx] at hd
    rw [routePhase_exec he, hx]
    cases o with
    | markSent => cases r <;> first | exact hd | trivial
    | _ => exact hd
  | absent | handed =>
    rw [hx] at hd
    rw [routePhase_exec he, hx]
    exact hd
  | accepting =>
    rw [routePhase_exec he, hx]
    cases o with
    | saveMessage | saveCorrelation => cases r <;> trivial
    | _ => trivial
  | found =>
    rw [routePhase_exec he, hx]
    cases o <;> trivial
  | outside | loose | failed | accepted =>
    rw [routePhase_exec he, hx]
    trivial

end Step

theorem accepted_next (hl : links o = false) (h : (routeProtocol m).next x o r = .accepted) :
    x = .accepted := by
  cases x with
  | accepted => rfl
  | accepting =>
    cases o with
    | saveCorrelation => cases hl
    | saveMessage => cases r <;> cases h
    | _ => cases h
  | asking =>
    cases o with
    | findOriginalSenderByCorrelation corr =>
      change (if r.length ≤ 255 then RoutePhase.redirected r else .failed) = .accepted at h
      split at h <;> cases h
    | _ => cases h
  | found => cases o <;> cases h
  | redirected =>
    cases o with
    | saveMessage => cases r <;> cases h
    | _ => cases h
  | saved =>
    cases o with
    | saveCorrelation => cases hl
    | _ => cases h
  | linked =>
    cases o with
    | findClient => cases r <;> cases h
    | _ => cases h
  | met =>
    cases o with
    | isOnline => cases r <;> cases h
    | _ => cases h
  | online =>
    cases o with
    | markSent => cases r <;> cases h
    | _ => cases h
  | _ => cases h

theorem kept_first (hr : (broker cfg).Reachable Serialised (initial metrics) S)
    (hp : Performs cfg Serialised S i₀ j o ch r w') (hc : Conversation S i₀ m₀)
    (h : Owned S i₀ m₀) (hx : routePhase i₀ j w' = .accepted) :
    ∃ k ∈ w'.db.correlations, k.correlationId = m₀.correlationId.toInt64 := by
  have he := hp.exec
  obtain ⟨code, hthread⟩ := hp.thread
  have hne : routePhase i₀ j S.world ≠ .failed := (kind_of_reachable hr i₀ _ hthread).1
  rw [routePhase_exec he] at hx
  cases hlinks : links o with
  | false =>
    rw [correlations_exec he hlinks]
    exact h.kept _ hthread (accepted_next hlinks hx)
  | true =>
    rcases may_links (may_of_performs hr hp) hne hlinks with
      ⟨id, hphase, rfl⟩ | ⟨d, id, hphase, rfl⟩ | ⟨id, hphase, rfl⟩
    · obtain ⟨-, ⟨e, rfl⟩, -⟩ | ⟨rfl, hdb⟩ := exec_saveCorrelation he
      · rw [hphase] at hx
        cases hx
      · rw [(saveCorrelation_eq_some hdb).2.2]
        refine ⟨_, List.mem_append_right _ (List.mem_singleton_self _), ?_⟩
        rw [incoming_eq (hc.started _ hthread)]
    · rw [hphase] at hx
      cases r <;> cases hx
    · rw [hphase] at hx
      cases hx

theorem directed_start (j : Job) (a : Bytes) : Directed a (routeStart j) := by
  unfold routeStart
  split
  · split
    · trivial
    · split <;> trivial
  · trivial

theorem start_db {w w' : World} (h : ServerJobs.start j w = some w') : w'.db = w.db := by
  obtain ⟨n, rfl⟩ := start_eq h
  rfl

theorem owned_of_reachable (h : (broker cfg).Reachable Serialised (initial metrics) S)
    (hm : Request m₀) (hc : Conversation S i₀ m₀) : Owned S i₀ m₀ := by
  induction h with
  | init =>
    refine ⟨fun _ hk ↦ absurd hk List.not_mem_nil, fun t ht ↦ ?_, fun i t ht ↦ ?_⟩
    · cases ht
    · cases ht
  | @next S S' l hr hl hs ih =>
    have hc₀ := hc.before hs
    have hown := ih hc₀
    cases l with
    | start j =>
      obtain ⟨w', hw, rfl⟩ := Machine.start_cases hs
      have hdb := start_db hw
      have hlog (i : ℕ) (j : Job) : routePhase i j w' = routePhase i j S.world := by
        rw [routePhase, start_log hw, routePhase]
      have hnew (j : Job) : routePhase S.threads.length j S.world = routeStart j :=
        phase_eq_start fun e he ↦ Nat.ne_of_lt (thread_lt hr e he)
      have old {i : ℕ} {t : Thread Op Op.Res Job} (ht : (S.threads ++ [⟨j, code cfg j⟩])[i]? = some t) :
          S.threads[i]? = some t ∨ i = S.threads.length :=
        (getElem?_concat_cases ht).imp_right And.left
      refine ⟨fun k hk ↦ hown.owner k (hdb ▸ hk), fun t ht hx ↦ ?_, fun i t ht hcorr ↦ ?_⟩
      · change ∃ k ∈ w'.db.correlations, _
        rw [hdb]
        rw [hlog] at hx
        rcases old ht with hold | rfl
        · exact hown.kept t hold hx
        · rw [hnew, routeStart_message (hc.started t ht) hm.type] at hx
          cases hx
      · change Directed m₀.sender (routePhase i t.job w')
        rw [hlog]
        rcases old ht with hold | rfl
        · exact hown.directed i t hold hcorr
        · rw [hnew]
          exact directed_start t.job _
    | step i ch =>
      have hjobs := Machine.job_step hs
      obtain ⟨j, o, k, r, w', hthread, he, rfl⟩ := Machine.step_cases hs
      have hp : Performs cfg Serialised S i j o ch r w' := ⟨holds_of_reachable hr, ⟨k, hthread⟩, hl, he⟩
      have old {i' : ℕ} {t : Thread Op Op.Res Job}
          (ht : (S.threads.set i ⟨j, k r⟩)[i']? = some t) :
          ∃ t', S.threads[i']? = some t' ∧ t'.job = t.job := by
        have hj := hjobs i'
        rw [ht] at hj
        exact Option.map_eq_some_iff.mp hj.symm
      refine ⟨owner_step hr hp hc₀ hm hown, fun t ht hx ↦ ?_, fun i' t ht hcorr ↦ ?_⟩
      · change routePhase i₀ t.job w' = .accepted at hx
        change ∃ k ∈ w'.db.correlations, _
        obtain ⟨t₀, ht₀, hj₀⟩ := old ht
        by_cases hi : i₀ = i
        · subst hi
          obtain rfl : t₀ = ⟨j, .op o k⟩ := Option.some.inj (ht₀.symm.trans hthread)
          obtain rfl : j = t.job := hj₀
          exact kept_first hr hp hc₀ hown hx
        · rw [routePhase_exec_ne he hi, ← hj₀] at hx
          cases hlinks : links o with
          | true => exact kept_step hr hp hc₀ hm hown hlinks ⟨t₀, ht₀, hx⟩
          | false =>
            rw [correlations_exec he hlinks]
            exact hown.kept t₀ ht₀ hx
      · change Directed m₀.sender (routePhase i' t.job w')
        obtain ⟨t₀, ht₀, hj₀⟩ := old ht
        by_cases hi : i' = i
        · subst hi
          obtain rfl : t₀ = ⟨j, .op o k⟩ := Option.some.inj (ht₀.symm.trans hthread)
          obtain rfl : j = t.job := hj₀
          exact directed_step hr hp hc₀ hm hown hcorr
        · rw [routePhase_exec_ne he hi, ← hj₀]
          exact hown.directed i' t₀ ht₀ (hj₀ ▸ hcorr)
    | tick t =>
      obtain rfl := Option.some.inj hs
      exact ⟨hown.owner, hown.kept, hown.directed⟩

theorem ends_reply (h : (broker cfg).Reachable Serialised (initial metrics) S)
    {t : Thread Op Op.Res Job} (ht : S.threads[k]? = some t) (hrec : Receives t.job m)
    (htype : m.type = .reply) (hend : t.ended) :
    (∃ d id, routePhase k t.job S.world = .absent d id) ∨
      ∃ d id s, routePhase k t.job S.world = .handed d id s := by
  have hfinal := of_ended_follows (settles_of_reachable h ht) hend
  obtain ⟨hne, hkind⟩ := kind_of_reachable h k t ht
  have hstart : routeStart t.job = .asking := by
    have hr := received_eq.mpr hrec
    obtain ⟨identity, data, hj, -⟩ := hrec
    rw [hj] at hr ⊢
    simp only [routeStart, hr, htype]
  rw [hstart] at hkind
  cases hx : routePhase k t.job S.world with
  | absent d id => exact .inl ⟨d, id, rfl⟩
  | handed d id s => exact .inr ⟨d, id, s, rfl⟩
  | failed => exact absurd hx hne
  | asking | redirected | saved | linked | met | online =>
    rw [hx] at hfinal
    exact hfinal.elim
  | outside | loose | accepting | accepted | found =>
    rw [hx] at hkind
    cases hkind

theorem loaded_of_waits {db : Database} {a : Bytes} {row : Row} (hdb : Sound db)
    (hwaits : Waits m db (.absent a row.id)) (hrow : row ∈ db.messages)
    (htype : row.type = MessageType.reply.toByte.toNat)
    (hcorr : row.correlationId = m.correlationId.toInt64) (tie : ℕ → ℕ) :
    row.load ∈ db.loadPendingRepliesForSenderOnly tie a := by
  obtain ⟨⟨row', hrow', hid, hst⟩, k, hk, hkcorr, howner⟩ := hwaits
  obtain rfl := id_inj hdb hrow' hrow hid
  refine List.mem_map_of_mem (mem_orderBy.mpr (List.mem_filter.mpr ⟨hrow', decide_eq_true ?_⟩))
  refine ⟨?_, htype, k, hk, hkcorr.trans hcorr.symm, howner⟩
  cases hs : row'.status with
  | pending => exact .inl rfl
  | sent => exact .inr rfl
  | delivered => exact absurd hs hst

/-- Thread `k` has handed row `id` over to a session that it found registered
and online as `a`. -/
def HandedTo (k : ℕ) (a : Bytes) (reply : Message) (id : ℕ) (w : World) : Prop :=
  ∃ s, Did k (finds a s) w ∧ Did k (seesOnline s) w ∧ Did k (handsOver s ⟨reply, some id, a⟩) w

/-- Every reply of a conversation is stored for the sender of its message, and
handed over to it or left for the loader. -/
theorem reply_routed (h : (broker cfg).Reachable Serialised (initial metrics) S)
    (hm : Request m₀) (hc : Conversation S i₀ m₀) {t : Thread Op Op.Res Job} {reply : Message}
    (ht : S.threads[k]? = some t) (hrec : Receives t.job reply) (htype : reply.type = .reply)
    (hcorr : reply.correlationId = m₀.correlationId) (hend : t.ended)
    (hlate : Latest k S.world) :
    ∃ r ∈ S.world.db.messages, Did k (saves (redirect reply m₀.sender) r.id) S.world ∧
      r.destination.val = m₀.sender ∧
        (HandedTo k m₀.sender (redirect reply m₀.sender) r.id S.world ∨
          ∀ tie, r.load ∈ S.world.db.loadPendingRepliesForSenderOnly tie m₀.sender) := by
  have hin : incoming t.job = reply := incoming_eq hrec
  have hdirected := (owned_of_reachable h hm hc).directed k t ht (hin ▸ hcorr)
  have hfacts := facts_of_reachable h ht
  have hwaits := waits_of_reachable h ht (isReceive_of_receives hrec) hlate
  rw [hin] at hfacts hwaits
  have hval : (CText.of m₀.sender).val = m₀.sender := CText.val_of hm.sender.2
  rcases ends_reply h ht hrec htype hend with ⟨d, id, hx⟩ | ⟨d, id, s, hx⟩
  · rw [hx] at hdirected hfacts hwaits
    obtain rfl : d = m₀.sender := hdirected
    obtain ⟨hsaved, r, hr, rfl, hrtype, hdest, hrcorr⟩ := hfacts
    refine ⟨r, hr, hsaved, by rw [hdest, hval], .inr ?_⟩
    rw [htype] at hrtype
    exact loaded_of_waits (holds_of_reachable h).inv.store hwaits hr hrtype hrcorr
  · rw [hx] at hdirected hfacts
    obtain rfl : d = m₀.sender := hdirected
    obtain ⟨⟨hsaved, r, hr, rfl, -, hdest, -⟩, hfound, honline, hhands⟩ := hfacts
    exact ⟨r, hr, hsaved, by rw [hdest, hval], .inl ⟨s, hfound, honline, hhands⟩⟩

/-- Alice asks for a reply with correlation id 7. -/
def question : Message :=
  { flags := flagNeedsReply, correlationId := 7, sender := [97], destination := [98] }

/-- Bob's reply, which names no destination. -/
def answer : Message := { type := .reply, correlationId := 7, sender := [98] }

/-- Alice is absent when bob replies. -/
theorem reply_routed_absent : ∃ S, ∃ r ∈ S.world.db.messages,
    (broker {}).Reachable Serialised (initial none) S ∧ Conversation S 0 question ∧
      Did 1 (saves (redirect answer question.sender) r.id) S.world ∧
      r.destination.val = question.sender ∧
        (HandedTo 1 question.sender (redirect answer question.sender) r.id S.world ∨
          ∀ tie, r.load ∈ S.world.db.loadPendingRepliesForSenderOnly tie question.sender) := by
  have hrun : ((broker {}).runs Serialised (inTurn 0 [(arrival question, 9), (arrival answer, 10)])
      ⟨initial none, []⟩).map (fun S ↦ (S.threads.map (·.job), S.threads.all hasEnded,
        S.world.log.all fun e ↦ e.thread ≤ 1)) =
      some ([arrival question, arrival answer], true, true) := by decide +kernel
  obtain ⟨S, hS, hv⟩ := exists_run hrun
  obtain ⟨hjobs, hv⟩ := Prod.mk.inj hv
  obtain ⟨hended, hlog⟩ := Prod.mk.inj hv
  have hm : Request question := ⟨rfl, by decide, by decide, by decide⟩
  have message {i : ℕ} {t : Thread Op Op.Res Job} {m : Message} (ht : S.threads[i]? = some t)
      (hrec : Receives t.job m) : i = 0 ∧ m = question ∨ i = 1 ∧ m = answer := by
    have hj : (S.threads.map (·.job))[i]? = some t.job := by
      rw [List.getElem?_map, ht]
      rfl
    rw [hjobs] at hj
    cases i with
    | zero =>
      rw [← Option.some.inj hj] at hrec
      exact .inl ⟨rfl, receives_arrival (by decide) hrec⟩
    | succ i =>
      cases i with
      | zero =>
        rw [← Option.some.inj hj] at hrec
        exact .inr ⟨rfl, receives_arrival (by decide) hrec⟩
      | succ i => cases hj
  have hc : Conversation S 0 question := by
    refine ⟨fun t ht ↦ ?_, fun i t m ht hrec _ htype ↦ ?_, fun i t m ht hrec _ htype ↦ ?_,
      fun i t m ht hrec _ htype ↦ ?_⟩
    · have hj : (S.threads.map (·.job))[0]? = some t.job := by
        rw [List.getElem?_map, ht]
        rfl
      rw [hjobs] at hj
      rw [← Option.some.inj hj]
      exact ⟨[97], _, rfl, by decide⟩
    · rcases message ht hrec with ⟨hi, -⟩ | ⟨-, rfl⟩
      · exact hi
      · cases htype
    · rcases message ht hrec with ⟨-, rfl⟩ | ⟨rfl, -⟩
      · cases htype
      · exact Nat.one_pos
    · rcases message ht hrec with ⟨-, rfl⟩ | ⟨-, rfl⟩
      · cases htype
      · cases htype
  have hlate : Latest 1 S.world := fun e he hlt ↦
    absurd (of_decide_eq_true (List.all_eq_true.mp hlog e he)) (Nat.not_le.mpr hlt)
  obtain ⟨t, ht, hj⟩ : ∃ t, S.threads[1]? = some t ∧ t.job = arrival answer := by
    rw [← Option.map_eq_some_iff, ← List.getElem?_map, hjobs]
    rfl
  have hend := ended_of_hasEnded (List.all_eq_true.mp hended t (List.mem_of_getElem? ht))
  have hrec : Receives t.job answer := by
    rw [hj]
    exact ⟨[98], _, rfl, by decide⟩
  obtain ⟨r, hr, hstored⟩ := reply_routed hS hm hc ht hrec rfl rfl hend hlate
  exact ⟨S, r, hr, hS, hc, hstored⟩

end MessageBroker.ReplyRouting
