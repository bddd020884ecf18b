import MessageBroker.OutlineRules
import MessageBroker.WireCodec

namespace MessageBroker.QueueOutlines

open ByteStrings WireMessages MessageStore ProgramTrees ProofOutlines BrokerState SessionQueues
  StoreInvariant OperationEffects ThreadViews SharedInvariant OutlineRules

variable {cfg : Config} {i : ℕ} {j : Job} {w : World} {s id : ℕ} {c : Copy}

theorem safe_saveMessage
    (ha : ∀ w₁, Rely i w w₁ → Consistent w₁ →
      c.msg.Fits ∧ (Incoming j c ∨ Persisting i w₁ c)) :
    Safe (env cfg i j) (fun id w' ↦ Performed i j (.saveMessage c) w (.ok id) w')
      (fun _ ↦ Crash i (hold i w) w) (saveMessage c) w := by
  refine (safe_call (.saveMessage c) (fun r ↦ r) rfl ?_ fun w₁ hr hc _ ↦ ha w₁ hr hc).mono ?_ fun _ _ h ↦ h
  · rintro a r e rfl
    rfl
  · rintro id w' ⟨r, rfl, hd⟩
    exact hd

theorem calm_saveCorrelation {corr : UInt64} {owner : Bytes}
    (ha : ∀ w₁, Rely i w w₁ → owner.length ≤ 255 ∧
      ∃ r ∈ w₁.db.messages, r.id = id ∧ r.correlationId = corr.toInt64) :
    Calm cfg i j (saveCorrelation id corr owner) (fun _ _ ↦ True) w := by
  refine (safe_call (.saveCorrelation id corr owner) (fun r ↦ r) rfl ?_ fun w₁ hr _ _ ↦ ha w₁ hr).mono ?_
    fun _ _ h ↦ h
  · rintro a r e rfl
    rfl
  · rintro u w' ⟨r, -, hd⟩
    exact ⟨hd.same rfl rfl, trivial⟩

theorem calm_markSent (ha : ∀ w₁, Rely i w w₁ → Consistent w₁ →
      ∀ r ∈ w₁.db.messages, r.id = id → r.needsAck = true) :
    Calm cfg i j (markSent id) (fun _ _ ↦ True) w := by
  refine (safe_call (.markSent id) (fun r ↦ r) rfl ?_ fun w₁ hr hc _ ↦ ha w₁ hr hc).mono ?_ fun _ _ h ↦ h
  · rintro a r e rfl
    rfl
  · rintro u w' ⟨r, -, hd⟩
    exact ⟨hd.same rfl rfl, trivial⟩

theorem calm_markPending : Calm cfg i j (markPending id) (fun _ _ ↦ True) w := by
  refine (safe_call (.markPending id) (fun r ↦ r) rfl ?_ fun _ _ _ _ ↦ trivial).mono ?_ fun _ _ h ↦ h
  · rintro a r e rfl
    rfl
  · rintro u w' ⟨r, -, hd⟩
    exact ⟨hd.same rfl rfl, trivial⟩

theorem safe_markDelivered
    (ha : ∀ w₁, Rely i w w₁ → Consistent w₁ → Allowed i j w₁ (.markDelivered id)) :
    Safe (env cfg i j) (fun _ ↦ Moves i (hold i w) ((account i w.log).settle id) w)
      (fun _ ↦ Crash i (hold i w) w) (markDelivered id) w := by
  refine (safe_call (.markDelivered id) (fun r ↦ r) rfl ?_ fun w₁ hr hc _ ↦ ha w₁ hr hc).mono ?_ fun _ _ h ↦ h
  · rintro a r e rfl
    rfl
  · rintro u w' ⟨r, rfl, hd⟩
    exact ⟨hd.owns rfl, hd.books ▸ .refl _, hd.grows⟩

theorem safe_persistMessageForClient {n : Bytes}
    (ha : ∀ w₁, Rely i w w₁ → Consistent w₁ →
      { c.msg with destination := n }.Fits ∧
        Persisting i w₁ { c with msg := { c.msg with destination := n } }) :
    Safe (env cfg i j)
      (fun _ w' ↦ ∃ id, Performed i j
        (.saveMessage { c with msg := { c.msg with destination := n } }) w (.ok id) w')
      (fun _ ↦ Crash i (hold i w) w) (persistMessageForClient n c) w := by
  refine Safe.seq (safe_saveMessage fun w₁ hr hc ↦ ?_) (fun _ _ _ h ↦ h) fun id w₁ _ hd ↦ ?_
  · exact ⟨(ha w₁ hr hc).1, .inr (ha w₁ hr hc).2⟩
  · exact fun w₂ hr _ ↦ ⟨id, hd.rely hr⟩

theorem calm_persistFront {rest : List Copy} (hs : s < w.nextSession)
    (hq : (hold i w).queues s = true) (hu : (account i w.log).unpopped = false)
    (hc : (w.sessions s).outgoingQueue = c :: rest) (hauth : Authentic w.db c) :
    Calm cfg i j (persistFront s c) (fun _ w' ↦ (w'.sessions s).outgoingQueue = rest) w := by
  refine (calm_op (.nameOf s) rfl rfl fun _ _ _ _ ↦ trivial).bind fun n w₁ _ h₁ hd₁ ↦ ?_
  have hq₁ : (hold i w₁).queues s = true := h₁.owns ▸ hq
  have hu₁ : (account i w₁.log).unpopped = false := h₁.books.unpopped.trans hu
  have hqueue₁ := (hd₁.queue hq rfl (by simp [writes])).trans hc
  have hs₁ : s < w₁.nextSession := Nat.lt_of_lt_of_le hs h₁.grows.sessions
  have hname : n = (w₁.sessions s).name := (hd₁.nameOf hs).trans (h₁.grows.name s hs).symm
  refine Safe.seq (safe_persistMessageForClient fun w₂ hr hc₂ ↦ ⟨?_, s, c, ?_, ?_, ?_, ?_, ?_⟩)
    (fun e w' _ h ↦ h) fun _ w₂ _ hw₂ ↦ ?_
  · have hn : n.length ≤ 255 := hname ▸ hr.grows.name s hs₁ ▸
      hc₂.names s (Nat.lt_of_lt_of_le hs₁ hr.grows.sessions)
    exact ⟨hauth.fits.1, hn, hauth.fits.2.2⟩
  · exact Nat.lt_of_lt_of_le hs₁ hr.grows.sessions
  · exact hr.owns ▸ hq₁
  · rw [hr.queue s hq₁, hqueue₁, List.head?_cons]
  · rw [hname, hr.grows.name s hs₁]
  · exact hr.books ▸ hu₁
  obtain ⟨id, hd₂⟩ := hw₂
  have hq₂ : (hold i w₂).queues s = true := hd₂.owns rfl ▸ hq₁
  have hqueue₂ := (hd₂.queue hq₁ rfl (by simp [writes])).trans hqueue₁
  obtain ⟨r, hr, -, hsource, -⟩ := hd₂.saveMessage
  refine (safe_op (.popQueue s) fun w₃ hr₃ _ _ ↦ ⟨hr₃.owns ▸ hq₂, fun c' id' hc' hid ↦ ?_⟩).mono
    (fun _ w₃ hd₃ ↦ ⟨⟨?_, ?_, ?_⟩, ?_⟩) fun _ _ h ↦ h
  · rw [hr₃.queue s hq₂, hqueue₂, List.head?_cons] at hc'
    obtain rfl := Option.some.inj hc'
    obtain ⟨st, hst⟩ := hr₃.grows.db r hr
    exact ⟨_, hst, hsource.trans hid⟩
  · rw [hd₃.owns rfl, hd₂.owns rfl]
  · rw [hd₃.books, hd₂.books]
    have hplain : c.source = none → plain c.msg = false := fun hn ↦ by
      by_contra hp
      exact hauth.source (by simpa using hp) hn
    have hsaved : (account i w₁.log).note j (.saveMessage
        { c with msg := { c.msg with destination := n } }) (.ok id) =
          { account i w₁.log with unpopped := decide (c.source ≠ none) } := by
      simp only [Account.note]
      split
      · next hn => simp [hn]
      · next hn =>
        have hn : c.source = none := by simpa using hn
        rw [if_neg (by exact fun hp ↦ absurd (hplain hn) (by simp [show plain c.msg = true from hp]))]
        simp [hn, ← hu₁]
    rw [hsaved]
    exact ⟨rfl, rfl, hu₁.symm, fun h ↦ h, fun _ h ↦ h, fun h ↦ h⟩
  · exact hd₂.grows.trans hd₃.grows
  · exact (hd₃.popQueue hq₂).trans (by rw [hqueue₂, List.tail_cons])

theorem calm_persistLoop (n : ℕ) (hs : s < w.nextSession) (hq : (hold i w).queues s = true)
    (hu : (account i w.log).unpopped = false) (hcons : Consistent w) :
    Calm cfg i j (persistLoop s n) (fun _ w' ↦ (w.sessions s).outgoingQueue.length ≤ n →
      (w'.sessions s).outgoingQueue = []) w := by
  induction n generalizing w with
  | zero =>
    refine Calm.ret fun w' hr _ hlen ↦ ?_
    rw [hr.queue s hq]
    exact List.length_eq_zero_iff.mp (Nat.le_zero.mp hlen)
  | succ n ih =>
    refine (calm_op (.queueFront s) rfl rfl fun _ _ _ _ ↦ trivial).bind fun r w₁ hc₁ h₁ hd ↦ ?_
    have hq₁ : (hold i w₁).queues s = true := h₁.owns ▸ hq
    have hqueue := hd.queue hq rfl (by simp [writes])
    have hr := hd.queueFront hq
    cases r with
    | none =>
      refine Calm.ret fun w' hr' _ _ ↦ ?_
      rw [hr'.queue s hq₁, hqueue]
      exact List.head?_eq_none_iff.mp hr.symm
    | some c =>
      obtain ⟨rest, hrest⟩ := List.head?_eq_some_iff.mp hr.symm
      have hu₁ := h₁.books.unpopped.trans hu
      have hs₁ := Nat.lt_of_lt_of_le hs h₁.grows.sessions
      have hcmem : c ∈ (w₁.sessions s).outgoingQueue := by
        rw [hqueue, hrest]
        exact List.mem_cons_self
      refine (calm_persistFront hs₁ hq₁ hu₁ (hqueue.trans hrest)
        (hc₁.queues s c hcmem)).bind fun _ w₂ hc₂ h₂ hqueue₂ ↦ ?_
      refine (ih (Nat.lt_of_lt_of_le hs₁ h₂.grows.sessions) (h₂.owns ▸ hq₁)
        (h₂.books.unpopped.trans hu₁) hc₂).mono fun _ w₃ _ hempty hlen ↦ hempty ?_
      rw [hrest, List.length_cons] at hlen
      rw [hqueue₂]
      omega

/-- A thread that holds no queue mutex and is not in the middle of persisting. -/
structure Outside (i : ℕ) (w : World) : Prop where
  queues : ∀ s, (hold i w).queues s = false
  unpopped : (account i w.log).unpopped = false

theorem Outside.same {w' : World} (h : Outside i w) (hs : Same i w w') : Outside i w' :=
  ⟨fun s ↦ hs.owns ▸ h.queues s, hs.books.unpopped.trans h.unpopped⟩

theorem calm_persistQueueToDatabase (hs : s < w.nextSession) (ho : Outside i w) :
    Calm cfg i j (persistQueueToDatabase s)
      (fun _ w' ↦ Dead w s → (w'.sessions s).outgoingQueue = []) w := by
  refine safe_withQueueLock (P := fun _ w₂ ↦ (w₂.sessions s).outgoingQueue = []) hs ho.queues
    ho.unpopped ho.unpopped (fun w₁ hc₁ h₁ ↦ ?_) fun _ w₂ w₃ hg hg' hq hd ↦ ?_
  · have hq : (hold i w₁).queues s = true := by
      rw [h₁.owns]
      exact Function.update_self _ _ _
    have hs₁ := Nat.lt_of_lt_of_le hs h₁.grows.sessions
    have hu₁ := h₁.books.unpopped.trans ho.unpopped
    have hbody : Calm cfg i j (do persistLoop s (← perform (.queueSize s)))
        (fun _ w₂ ↦ (w₂.sessions s).outgoingQueue = []) w₁ := by
      refine (calm_op (.queueSize s) rfl rfl fun _ _ _ _ ↦ trivial).bind fun n w₂ hc₂ h₂ hd ↦ ?_
      refine (calm_persistLoop n (Nat.lt_of_lt_of_le hs₁ h₂.grows.sessions) (h₂.owns ▸ hq)
        (h₂.books.unpopped.trans hu₁) hc₂).mono fun _ w₃ _ h ↦ h ?_
      rw [hd.queueSize hq, hd.queue hq rfl (by simp [writes])]
    exact Safe.mono hbody
      (fun _ w₂ h ↦ ⟨⟨h.1.owns, h₁.books.trans h.1.books, h.1.grows⟩, h.2⟩) fun _ _ h ↦ h
  · exact (hg'.dead s (hg.dead s hd).1).2 hq

theorem handOver_moves {w' : World} (h : HandOver i j w s c) (hs : s < w.nextSession)
    (hp : (hold i w').pointers = (hold i w).pointers)
    (hb : (account i w.log).Keeps (account i w'.log)) (hg : Grows w w') :
    HandOver i j w' s c where
  pointer := hp ▸ h.pointer
  authentic := h.authentic.mono hg.db
  credit hc := by
    rw [hb.credit]
    exact h.credit hc
  name hc := (h.name hc).trans (hg.name s hs).symm
  addressed id hid := by
    rw [hg.name s hs]
    exact (h.addressed id hid).imp_right fun hr ↦ hb.replies hr
  resent := h.resent

/-- `p` hands over the copy `c`. -/
def Spends (cfg : Config) (i : ℕ) (j : Job) (c : Copy) (p : Program Unit) (w : World) : Prop :=
  Safe (env cfg i j) (fun _ ↦ Moves i (hold i w) ((account i w.log).spend c) w)
    (fun _ ↦ Crash i (hold i w) w) p w

theorem spends_enqueueMessage (h : HandOver i j w s c) (hs : s < w.nextSession)
    (hoff : (w.sessions s).isOnline = false) (ho : Outside i w) :
    Spends cfg i j c (enqueueMessage s c) w := by
  refine (safe_withQueueLock (P := fun _ _ ↦ True) (Q := fun _ _ ↦ True) hs ho.queues
    ho.unpopped (Account.spend_unpopped.trans ho.unpopped) (fun w₁ hc₁ h₁ ↦ ?_)
    fun _ _ _ _ _ h ↦ h).mono (fun _ _ h ↦ h.1) fun _ _ h ↦ h
  have hq : (hold i w₁).queues s = true := by
    rw [h₁.owns]
    exact Function.update_self _ _ _
  have hs₁ := Nat.lt_of_lt_of_le hs h₁.grows.sessions
  have hu₁ := h₁.books.unpopped.trans ho.unpopped
  have h' : HandOver i j w₁ s c := handOver_moves h hs (by rw [h₁.owns]; rfl) h₁.books h₁.grows
  have hoff₁ := h₁.grows.offline s hs hoff
  refine Safe.seq (safe_op (.pushQueue s c) fun w₂ hr _ _ ↦ ?_) (Y := fun _ _ ↦ False)
    (fun _ _ _ h ↦ h.elim) fun _ w₂ hc₂ hd ↦ ?_
  · refine ⟨hr.owns ▸ hq, hr.grows.offline s hs₁ hoff₁, ?_⟩
    exact handOver_moves h' hs₁ (by rw [hr.owns]) (hr.books ▸ .refl _) hr.grows
  have h₂ : Moves i (hold i w₁) ((account i w.log).spend c) w₁ w₂ :=
    ⟨hd.owns rfl, hd.books ▸ Account.spend_keeps h₁.books c, hd.grows⟩
  have hrest : Calm cfg i j (do
      let size ← perform (.queueSize s)
      Prog.when (queuePersistThreshold < size) (persistLoop s (size / 2))) (fun _ _ ↦ True) w₂ := by
    refine (calm_op (.queueSize s) rfl rfl fun _ _ _ _ ↦ trivial).bind fun n w₃ hc₃ h₃ hd' ↦ ?_
    unfold Prog.when
    split
    · refine (calm_persistLoop _ ?_ ?_ ?_ hc₃).mono fun _ _ _ _ ↦ trivial
      · exact Nat.lt_of_lt_of_le hs₁ (h₂.grows.trans h₃.grows).sessions
      · rw [h₃.owns, h₂.owns]
        exact hq
      · rw [h₃.books.unpopped, h₂.books.unpopped, Account.spend_unpopped, ho.unpopped]
    · exact Calm.ret fun _ _ _ ↦ trivial
  refine Safe.mono hrest (fun _ w₃ h ↦ ⟨h₂.then h.1, trivial⟩) fun _ w₃ h ↦ h₂.crash ?_ h
  rw [Account.spend_unpopped, h₁.books.unpopped]

theorem safe_sendToClient {data : Bytes} {X : String → World → Prop} (h : HandOver i j w s c)
    (hs : s < w.nextSession) (hdata : serialize c.msg = .ok data) :
    Safe (env cfg i j) (fun _ ↦ Moves i (hold i w) ((account i w.log).spend c) w) X
      (sendToClient s c data) w := by
  refine Safe.seq (safe_op (.pushPendingSend s c data) fun w₁ hr _ _ ↦ ?_) (Y := X)
    (fun _ _ _ h ↦ h) fun _ w₁ _ hd ↦ ?_
  · exact ⟨handOver_moves h hs (by rw [hr.owns]) (hr.books ▸ .refl _) hr.grows, hdata⟩
  · have h₁ : Moves i (hold i w) ((account i w.log).spend c) w w₁ :=
      ⟨hd.owns rfl, hd.books ▸ .refl _, hd.grows⟩
    exact (safe_op .postSendTask fun _ _ _ _ ↦ trivial).mono
      (fun _ w₂ hd ↦ h₁.then (hd.same rfl rfl)) fun _ _ h ↦ h

theorem spends_sendZmqMessage (h : HandOver i j w s c) (hs : s < w.nextSession) :
    Spends cfg i j c (sendZmqMessage s c) w := by
  obtain ⟨data, hdata⟩ : ∃ data, serialize c.msg = .ok data :=
    ⟨_, WireCodec.serialize_frame h.authentic.fits⟩
  refine Safe.recover ?_
  rw [hdata]
  exact safe_sendToClient h hs hdata

theorem safe_sendMessage (h : HandOver i j w s c) (hs : s < w.nextSession) (ho : Outside i w) :
    Safe (env cfg i j)
      (fun a w' ↦ Moves i (hold i w) ((account i w.log).spend c) w w' ∧ a = true)
      (fun _ ↦ Crash i (hold i w) w) (sendMessage s c) w := by
  have hbooks {w' : World} (h' : Same i w w') :
      ((account i w.log).spend c).Keeps ((account i w'.log).spend c) :=
    Account.spend_keeps h'.books c
  refine (calm_op (.updateLastActivity s) rfl rfl fun _ _ _ _ ↦ trivial).seq (fun _ _ h ↦ h)
    fun _ w₁ _ h₁ _ ↦ ?_
  have hs₁ := Nat.lt_of_lt_of_le hs h₁.grows.sessions
  refine (calm_op (.isOnline s) rfl rfl fun _ _ _ _ ↦ trivial).seq
    (fun _ _ h ↦ h₁.crash rfl h) fun online w₂ _ h₂ hd ↦ ?_
  have hs₂ := Nat.lt_of_lt_of_le hs₁ h₂.grows.sessions
  have h₁₂ : Same i w w₂ := h₁.then h₂
  have h' : HandOver i j w₂ s c :=
    handOver_moves h hs (by rw [h₁₂.owns]) h₁₂.books h₁₂.grows
  have hsend : Spends cfg i j c (cond online (sendZmqMessage s c) (enqueueMessage s c)) w₂ := by
    cases online with
    | true => exact spends_sendZmqMessage h' hs₂
    | false =>
      exact spends_enqueueMessage h' hs₂ (hd.offline hs₁) (ho.same h₁₂)
  refine Safe.seq hsend (fun _ _ _ h ↦ h₁₂.crash rfl h) fun _ w₃ _ h₃ ↦ ?_
  refine Safe.ret fun w₄ hr _ ↦ ⟨?_, rfl⟩
  exact ⟨hr.owns.trans (h₃.owns.trans h₁₂.owns), (hbooks h₁₂).trans (h₃.rely hr).books,
    h₁₂.grows.trans (h₃.rely hr).grows⟩

theorem calm_flushLoop (n : ℕ) (hs : s < w.nextSession) (hq : (hold i w).queues s = true) :
    Calm cfg i j (flushLoop s n) (fun _ _ ↦ True) w := by
  cases n with
  | zero => exact Calm.ret fun _ _ _ ↦ trivial
  | succ n =>
    refine (calm_op (.queueFront s) rfl rfl fun _ _ _ _ ↦ trivial).bind fun r w₁ hc₁ h₁ hd ↦ ?_
    have hs₁ := Nat.lt_of_lt_of_le hs h₁.grows.sessions
    have hqueue := hd.queue hq rfl (by simp [writes])
    have hr := hd.queueFront hq
    cases r with
    | none => exact Calm.ret fun _ _ _ ↦ trivial
    | some c =>
      -- A session with a queue is offline and never comes back, so the loop stops here.
      have hoff : (w₁.sessions s).isOnline = false := by
        refine hc₁.offline s fun hnil ↦ ?_
        rw [← hqueue, hnil] at hr
        cases hr
      refine (calm_op (.isOnline s) rfl rfl fun _ _ _ _ ↦ trivial).bind fun r _ _ _ hd' ↦ ?_
      obtain rfl := hd'.isOnline_of_offline hs₁ hoff
      exact Calm.ret fun _ _ _ ↦ trivial

theorem calm_flushQueue (hs : s < w.nextSession) (ho : Outside i w) :
    Calm cfg i j (flushQueue s) (fun _ _ ↦ True) w := by
  refine safe_withQueueLock (P := fun _ _ ↦ True) hs ho.queues ho.unpopped ho.unpopped
    (fun w₁ _ h₁ ↦ ?_) fun _ _ _ _ _ h ↦ h
  have hq : (hold i w₁).queues s = true := by
    rw [h₁.owns]
    exact Function.update_self _ _ _
  have hs₁ := Nat.lt_of_lt_of_le hs h₁.grows.sessions
  have hbody : Calm cfg i j (do flushLoop s (← perform (.queueSize s))) (fun _ _ ↦ True) w₁ := by
    refine (calm_op (.queueSize s) rfl rfl fun _ _ _ _ ↦ trivial).bind fun n w₂ _ h₂ _ ↦ ?_
    exact calm_flushLoop n (Nat.lt_of_lt_of_le hs₁ h₂.grows.sessions) (h₂.owns ▸ hq)
  exact Safe.mono hbody
    (fun _ w₂ h ↦ ⟨⟨h.1.owns, h₁.books.trans h.1.books, h.1.grows⟩, h.2⟩) fun _ _ h ↦ h

theorem safe_terminated {o : Op} {Q : o.Res → World → Prop} {X : String → World → Prop}
    (ht : w.terminated = true) : Safe (env cfg i j) Q X (perform o) w := by
  refine Safe.perform fun w₁ hr _ ↦ ⟨fun hf ↦ ?_, fun ch r w₂ _ he ↦ ?_⟩
  · rw [hr.grows.terminated ht] at hf
    cases hf
  · have hf := (exec_cases he).1
    rw [hr.grows.terminated ht] at hf
    cases hf

theorem safe_terminate {X : String → World → Prop} :
    Safe (env cfg i j) (fun _ w' ↦ Same i w w' ∧ w'.terminated = true) X
      (perform .terminate) w := by
  refine (safe_op .terminate fun _ _ _ _ ↦ trivial).mono (fun _ w' hd ↦ ⟨hd.same rfl rfl, ?_⟩)
    fun _ _ h ↦ h
  obtain ⟨ch, w₁, w₂, -, -, he, h₂⟩ := hd.moment
  obtain ⟨-, v, he', rfl⟩ := exec_cases he
  cases he'
  exact h₂.grows.terminated rfl

theorem safe_destroy {X : String → World → Prop} (hd : Dead w s) (ho : Outside i w) :
    Safe (env cfg i j) (fun _ w' ↦ Same i w w') X (destroy s) w := by
  refine Safe.seq (P := fun _ w₁ ↦ (Same i w w₁ ∧ (w₁.sessions s).outgoingQueue = []) ∨
      w₁.terminated = true) (Y := X)
    (Safe.recover ?_) (fun _ _ _ h ↦ h) fun _ w₁ _ h₁ ↦ ?_
  · refine Safe.mono (calm_persistQueueToDatabase hd.1 ho)
      (fun _ w₁ h ↦ .inl ⟨h.1, h.2 hd⟩) fun _ w₁ _ ↦ ?_
    exact safe_terminate.mono (fun _ _ h ↦ .inr h.2) fun _ _ h ↦ h
  · obtain ⟨h₁, hq⟩ | ht := h₁
    · refine (safe_op (.destroySession s) fun w₂ hr _ _ ↦ ?_).mono
        (fun _ w₂ hd ↦ h₁.then (hd.same rfl rfl)) fun _ _ h ↦ h
      have hd₂ := hr.grows.dead s (h₁.grows.dead s hd).1
      exact ⟨hd₂.1, hd₂.2 hq⟩
    · exact safe_terminated ht

theorem safe_dropSession {X : String → World → Prop} (hp : 0 < (hold i w).pointers s)
    (ho : Outside i w) :
    Safe (env cfg i j) (fun _ ↦ Moves i ((hold i w).release s) (account i w.log) w) X
      (dropSession s) w := by
  refine Safe.seq (safe_op (.release s) fun w₁ hr _ _ ↦ ?_) (Y := X) (fun _ _ _ h ↦ h)
    fun last w₁ _ hd ↦ ?_
  · change 0 < (hold i w₁).pointers s
    rw [hr.owns]
    exact hp
  have h₁ := hd.moves (f := (·.release s)) (fun _ _ _ ↦ hold_release) rfl
  unfold Prog.when
  split
  · next hlast =>
    have hdead : Dead w₁ s := by
      obtain ⟨ch, u, u', hr, hc, he, hr'⟩ := hd.moment
      have hu := of_decide_eq_true ((exec_release he).1.symm.trans hlast)
      have hlt : s < u'.nextSession := by
        rw [(exec_frame he).nextSession (by simp [writes])]
        exact hc.lt_of_pointer (hr.owns ▸ hp)
      exact (hr'.grows.dead s ⟨hlt, hu⟩).1
    have ho₁ : Outside i w₁ :=
      ⟨fun s ↦ by rw [h₁.owns]; exact ho.queues s, h₁.books.unpopped.trans ho.unpopped⟩
    exact (safe_destroy hdead ho₁).mono (fun _ _ h ↦ h₁.then h) fun _ _ h ↦ h
  · exact Safe.ret fun w₂ hr _ ↦ h₁.rely hr

/-- What remains of `Moves` when the thread has handed messages over. -/
structure Works (i : ℕ) (H : Hold) (w w' : World) : Prop where
  owns : hold i w' = H
  unpopped : (account i w'.log).unpopped = (account i w.log).unpopped
  failed : (account i w.log).failed = true → (account i w'.log).failed = true
  grows : Grows w w'

theorem Works.of_moves {A : Account} {H : Hold} {w' : World} (h : Moves i H A w w')
    (hu : A.unpopped = (account i w.log).unpopped)
    (hf : A.failed = (account i w.log).failed) : Works i H w w' :=
  ⟨h.owns, h.books.unpopped.trans hu, fun hw ↦ h.books.failed (hf.trans hw), h.grows⟩

theorem Works.of_same {w' : World} (h : Same i w w') : Works i (hold i w) w w' :=
  .of_moves h rfl rfl

theorem Works.then {H : Hold} {u v : World} (h : Works i H u v) (h' : Works i (hold i v) v w) :
    Works i H u w :=
  ⟨h'.owns.trans h.owns, h'.unpopped.trans h.unpopped, fun hu ↦ h'.failed (h.failed hu),
    h.grows.trans h'.grows⟩

theorem Works.crash {H : Hold} {u v : World} (h : Works i H u v)
    (h' : Crash i (hold i v) v w) : Crash i H u w :=
  ⟨h'.owns.trans h.owns, h'.unpopped.trans h.unpopped, h'.failed, h.grows.trans h'.grows⟩

theorem safe_holding {α : Type} {p : Program α} {P : α → World → Prop} {H : Hold}
    {session : Option ℕ} (hH : hold i w = H.acquire session) (ho : Outside i w)
    (hp : Safe (env cfg i j) (fun a w' ↦ Works i (hold i w) w w' ∧ P a w')
      (fun _ ↦ Crash i (hold i w) w) p w)
    (hP : ∀ a w₁ w₂, (account i w₁.log).Keeps (account i w₂.log) → Grows w₁ w₂ →
      P a w₁ → P a w₂) :
    Safe (env cfg i j) (fun a w' ↦ Works i H w w' ∧ P a w') (fun _ ↦ Crash i H w)
      (holding session p) w := by
  cases session with
  | none =>
    have hH : hold i w = H := hH
    rw [← hH]
    exact hp
  | some s =>
    have drop {Q : Unit → World → Prop} {X : String → World → Prop} {w₁ : World}
        (hown : hold i w₁ = hold i w)
        (hu : (account i w₁.log).unpopped = (account i w.log).unpopped)
        (hQ : ∀ w₂, Moves i H (account i w₁.log) w₁ w₂ → Q () w₂) :
        Safe (env cfg i j) Q X (dropSession s) w₁ := by
      have hback : (hold i w₁).release s = H := by
        rw [hown, hH, Hold.release_acquire]
      have hpos : 0 < (hold i w₁).pointers s := by
        rw [hown, hH]
        simp [Hold.acquire]
      have ho₁ : Outside i w₁ := ⟨fun s ↦ hown ▸ ho.queues s, hu.trans ho.unpopped⟩
      exact (safe_dropSession hpos ho₁).mono (fun _ w₂ h ↦ hQ w₂ (hback ▸ h)) fun _ _ h ↦ h
    refine Safe.ensuring (hp.mono (fun a w₁ h ↦ ?_) fun e w₁ h ↦ ?_)
    · refine drop h.1.owns h.1.unpopped fun w₂ hm ↦ ⟨?_, hP a w₁ w₂ hm.books hm.grows h.2⟩
      have hw₂ := h.1.grows.trans hm.grows
      exact ⟨hm.owns, hm.books.unpopped.trans h.1.unpopped,
        fun hf ↦ hm.books.failed (h.1.failed hf), hw₂⟩
    · refine drop h.owns h.unpopped fun w₂ hm ↦ ⟨hm.owns, hm.books.unpopped.trans h.unpopped,
        hm.books.failed h.failed, h.grows.trans hm.grows⟩

end MessageBroker.QueueOutlines
