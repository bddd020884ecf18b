import MessageBroker.StandaloneSession

namespace MessageBroker.SessionConservation

open ByteStrings WireMessages MessageStore ProgramTrees BrokerState SessionQueues SequentialRuns
  StandaloneSession

variable {A : ℕ → Answer} {x y : Standalone} {fate : Fate} {k n : ℕ} {m : Message}
  {calls : List Call}

def tickets (l : List Copy) : List (Option ℕ) := l.map (·.source)

theorem tickets_append (l l' : List Copy) : tickets (l ++ l') = tickets l ++ tickets l' :=
  List.map_append

def gone (x : Standalone) : List Copy := x.trail.map (·.2)

/-- Every message passed to `SendMessage` is in one place, either outside or in
the queue, once and unchanged; and the queue is first in, first out. -/
structure Booked (x : Standalone) : Prop where
  idle : x.locked = false
  running : x.terminated = false
  once : (tickets (gone x) ++ tickets x.outgoingQueue).Perm ((List.range x.sent.length).map some)
  outside : ∀ e ∈ x.trail, ∃ n c, x.sent[n]? = some c.msg ∧ c.source = some n ∧
    e = leaving x.name e.1 c
  waiting : ∀ c ∈ x.outgoingQueue, ∃ n, x.sent[n]? = some c.msg ∧ c.source = some n
  order : (tickets (gone x)).filter (· ∈ tickets x.queued) ++ tickets x.outgoingQueue =
    tickets x.queued

/-- Moreover the queue stays short unless the callback has thrown. -/
structure Accounted (x : Standalone) : Prop extends Booked x where
  bounded : x.threw = false → x.outgoingQueue.length ≤ queuePersistThreshold

theorem leaving_fst (name : Bytes) (fate : Fate) (c : Copy) : (leaving name fate c).1 = fate := by
  cases fate <;> rfl

theorem tickets_gone (h : Drained fate k x y) :
    tickets (gone y) = tickets (gone x) ++ tickets (x.outgoingQueue.take k) := by
  simp only [tickets, gone, h.trail, List.map_append, List.map_map]
  congr 1
  exact List.map_congr_left fun c _ ↦ leaving_source x.name fate c

theorem tickets_all (h : Drained fate k x y) :
    tickets (gone y) ++ tickets y.outgoingQueue = tickets (gone x) ++ tickets x.outgoingQueue := by
  rw [tickets_gone h, h.queue, List.append_assoc]
  congr 1
  rw [← tickets_append, List.take_append_drop]

theorem Booked.mem_queued (h : Booked x) : ∀ t ∈ tickets x.outgoingQueue, t ∈ tickets x.queued :=
  fun _ ht ↦ h.order ▸ List.mem_append_right _ ht

theorem Booked.drained (h : Booked x) (hd : Drained fate k x y) : Booked y where
  idle := hd.locked.trans h.idle
  running := hd.terminated.trans h.running
  once := by
    rw [tickets_all hd, hd.sent]
    exact h.once
  outside e he := by
    rw [hd.sent, hd.name]
    rw [hd.trail] at he
    rcases List.mem_append.mp he with he | he
    · exact h.outside e he
    · obtain ⟨c, hc, rfl⟩ := List.mem_map.mp he
      obtain ⟨n, hn, hs⟩ := h.waiting c (List.mem_of_mem_take hc)
      exact ⟨n, c, hn, hs, by rw [leaving_fst]⟩
  waiting c hc := by
    rw [hd.sent]
    rw [hd.queue] at hc
    exact h.waiting c (List.mem_of_mem_drop hc)
  order := by
    -- what has left the queue was in it, so the filter keeps all of it
    have hkept : (tickets (x.outgoingQueue.take k)).filter (· ∈ tickets x.queued) =
        tickets (x.outgoingQueue.take k) := by
      refine List.filter_eq_self.mpr fun t ht ↦ decide_eq_true (h.mem_queued t ?_)
      obtain ⟨c, hc, rfl⟩ := List.mem_map.mp ht
      exact List.mem_map_of_mem (List.mem_of_mem_take hc)
    rw [tickets_gone hd, hd.queued, hd.queue, List.filter_append, hkept, List.append_assoc]
    conv_rhs => rw [← h.order]
    congr 1
    rw [← tickets_append, List.take_append_drop]

theorem Accounted.drained (h : Accounted x) (hd : Drained fate k x y) : Accounted y where
  toBooked := h.toBooked.drained hd
  bounded hy := by
    have hx : x.threw = false := by
      by_contra hx
      exact absurd (hd.threw (Bool.not_eq_false _ ▸ hx)) (hy ▸ Bool.false_ne_true)
    rw [hd.queue, List.length_drop]
    exact (Nat.sub_le _ _).trans (h.bounded hx)

theorem Booked.fresh (h : Booked x) :
    some x.sent.length ∉ tickets (gone x) ++ tickets x.outgoingQueue := by
  intro hmem
  obtain ⟨n, hn, he⟩ := List.mem_map.mp (h.once.mem_iff.mp hmem)
  cases he
  exact absurd (List.mem_range.mp hn) (Nat.lt_irrefl _)

theorem Booked.fresh_queued (h : Booked x) : some x.sent.length ∉ tickets x.queued := by
  rw [← h.order]
  intro hmem
  refine h.fresh (List.mem_append.mpr ((List.mem_append.mp hmem).imp_left fun hl ↦ ?_))
  exact (List.mem_filter.mp hl).1

theorem getElem?_sent {l : List Message} {m m' : Message} {n : ℕ} (h : l[n]? = some m) :
    (l ++ [m'])[n]? = some m := by
  rw [List.getElem?_append_left (List.getElem?_eq_some_iff.mp h).1, h]

theorem range_sent (l : List Message) (m : Message) :
    (List.range (l ++ [m]).length).map some = (List.range l.length).map some ++ [some l.length] := by
  rw [List.length_append, List.length_singleton, List.range_succ, List.map_append]
  rfl

def ticketed (x : Standalone) (m : Message) : Copy := ⟨m, some x.sent.length, m.destination⟩

theorem Booked.pushed (h : Booked x) (m : Message) :
    Booked ({ x with sent := x.sent ++ [m] }.push (ticketed x m)) where
  idle := h.idle
  running := h.running
  once := by
    simp only [Standalone.push, gone, range_sent, tickets, List.map_append]
    rw [← List.append_assoc]
    exact h.once.append_right _
  outside e he := by
    obtain ⟨n, c, hn, hs, hl⟩ := h.outside e he
    exact ⟨n, c, getElem?_sent hn, hs, hl⟩
  waiting c hc := by
    rcases List.mem_append.mp hc with hc | hc
    · obtain ⟨n, hn, hs⟩ := h.waiting c hc
      exact ⟨n, getElem?_sent hn, hs⟩
    · cases List.mem_singleton.mp hc
      exact ⟨x.sent.length, List.getElem?_concat_length, rfl⟩
  order := by
    have hleft : some x.sent.length ∉ tickets (gone x) := fun hl ↦
      h.fresh (List.mem_append_left _ hl)
    have hfilter : (tickets (gone x)).filter (· ∈ tickets (x.queued ++ [ticketed x m])) =
        (tickets (gone x)).filter (· ∈ tickets x.queued) := by
      refine List.filter_congr fun t ht ↦ decide_eq_decide.mpr ?_
      rw [tickets_append, List.mem_append]
      refine or_iff_left fun hm ↦ hleft ?_
      cases List.mem_singleton.mp hm
      exact ht
    change (tickets (gone x)).filter (· ∈ tickets (x.queued ++ [ticketed x m])) ++
      tickets (x.outgoingQueue ++ [ticketed x m]) = tickets (x.queued ++ [ticketed x m])
    rw [hfilter, tickets_append, tickets_append, ← List.append_assoc, h.order]

theorem Booked.handed (h : Booked x) (m : Message) (online : Bool) (clock : ℕ) :
    Booked { x with
      isOnline := online
      clock := clock
      sent := x.sent ++ [m]
      trail := x.trail ++ [(.handed, ticketed x m)] } where
  idle := h.idle
  running := h.running
  once := by
    simp only [gone, range_sent, tickets, List.map_append, List.append_assoc]
    refine (List.perm_append_comm.append_left _).trans ?_
    rw [← List.append_assoc]
    exact h.once.append_right _
  outside e he := by
    rcases List.mem_append.mp he with he | he
    · obtain ⟨n, c, hn, hs, hl⟩ := h.outside e he
      exact ⟨n, c, getElem?_sent hn, hs, hl⟩
    · cases List.mem_singleton.mp he
      exact ⟨x.sent.length, ticketed x m, List.getElem?_concat_length, rfl, rfl⟩
  waiting c hc := by
    obtain ⟨n, hn, hs⟩ := h.waiting c hc
    exact ⟨n, getElem?_sent hn, hs⟩
  order := by
    have hnone : [some x.sent.length].filter (· ∈ tickets x.queued) = [] :=
      List.filter_eq_nil_iff.mpr fun t ht ↦ by
        cases List.mem_singleton.mp ht
        exact fun hm ↦ h.fresh_queued (of_decide_eq_true hm)
    change (tickets ((x.trail ++ [(Fate.handed, ticketed x m)]).map (·.2))).filter
      (· ∈ tickets x.queued) ++ tickets x.outgoingQueue = tickets x.queued
    rw [List.map_append, tickets_append, List.filter_append]
    change _ ++ [some x.sent.length].filter (· ∈ tickets x.queued) ++ _ = _
    rw [hnone, List.append_nil]
    exact h.order

theorem Accounted.push {x₀ : Standalone} (h : Accounted x₀)
    (hd : Drained .persisted k ({ x₀ with sent := x₀.sent ++ [m] }.push (ticketed x₀ m)) y)
    (hy : y.threw = true ∨ y.outgoingQueue.length ≤ max queuePersistThreshold
      (x₀.outgoingQueue.length + 1 - (x₀.outgoingQueue.length + 1) / 2)) : Accounted y where
  toBooked := (h.pushed m).drained hd
  bounded hthrew := by
    have hx : x₀.threw = false := by
      by_contra hx
      exact absurd (hd.threw (Bool.not_eq_false _ ▸ hx)) (hthrew ▸ Bool.false_ne_true)
    have hx' := h.bounded hx
    rcases hy with hy | hy
    · exact absurd hy (hthrew ▸ Bool.false_ne_true)
    · have : queuePersistThreshold = 100 := rfl
      omega

theorem accounted_sendMessage (h : Accounted x) (hfits : m.Fits) :
    Ends (exec A) (sendMessage 0 (ticketed x m)) { x with sent := x.sent ++ [m] } fun _ y ↦
      Accounted y ∧ y.sent = x.sent ++ [m] := by
  refine (ends_sendMessage (c := ticketed x m) (x := { x with sent := x.sent ++ [m] }) h.idle
    hfits).mono ?_
  rintro r y (⟨online, clock, rfl⟩ | ⟨k, hd, hy⟩)
  · exact ⟨⟨h.handed m online clock, h.bounded⟩, rfl⟩
  · exact ⟨h.push hd hy, hd.sent⟩

theorem accounted_call (h : Accounted x) (hsent : ∀ m ∈ x.sent, m.Fits) (c : Call)
    (hc : ∀ m ∈ c.message, m.Fits) :
    ∃ y, call A x c = some y ∧ Accounted y ∧ y.sent = x.sent ++ c.message.toList := by
  have hfits : ∀ c ∈ x.outgoingQueue, c.msg.Fits := fun c hc ↦ by
    obtain ⟨n, hn, -⟩ := h.waiting c hc
    exact hsent _ (List.mem_of_getElem? hn)
  cases c with
  | sendMessage m =>
    obtain ⟨r, y, hr, hy, hs⟩ := accounted_sendMessage (A := A) h (hc m rfl)
    exact ⟨y, by rw [call]; exact congrArg (Option.map _) hr, hy, hs⟩
  | markOffline | markOnline =>
    exact ⟨_, rfl, ⟨⟨h.idle, h.running, h.once, h.outside, h.waiting, h.order⟩, h.bounded⟩,
      (List.append_nil _).symm⟩
  | flushQueue =>
    obtain ⟨r, y, hr, -, k, hd⟩ := ends_flushQueue (A := A) (s := 0) h.idle hfits
    exact ⟨y, by rw [call, hr]; rfl, h.drained hd, by rw [hd.sent]; exact (List.append_nil _).symm⟩
  | persistQueueToDatabase =>
    obtain ⟨r, y, hr, k, hd, -⟩ := ends_persistQueueToDatabase (A := A) (s := 0) h.idle
    exact ⟨y, by rw [call, hr]; rfl, h.drained hd, by rw [hd.sent]; exact (List.append_nil _).symm⟩

theorem accounted_run (h : Accounted x) (hsent : ∀ m ∈ x.sent, m.Fits)
    (hcalls : ∀ m ∈ calls.filterMap Call.message, m.Fits) :
    ∃ y, run A calls x = some y ∧ Accounted y ∧
      y.sent = x.sent ++ calls.filterMap Call.message := by
  induction calls generalizing x with
  | nil => exact ⟨x, rfl, h, (List.append_nil _).symm⟩
  | cons c calls ih =>
    have hcons : (c :: calls).filterMap Call.message =
        c.message.toList ++ calls.filterMap Call.message := by
      rw [List.filterMap_cons]
      cases c.message <;> rfl
    rw [hcons] at hcalls ⊢
    obtain ⟨y, hy, hacc, hs⟩ := accounted_call (A := A) h hsent c fun m hm ↦
      hcalls m (List.mem_append_left _ (Option.mem_toList.mpr hm))
    have hsent' : ∀ m ∈ y.sent, m.Fits := fun m hm ↦ by
      rw [hs] at hm
      exact (List.mem_append.mp hm).elim (hsent m) fun hm ↦ hcalls m (List.mem_append_left _ hm)
    obtain ⟨z, hz, hacc', hs'⟩ := ih hacc hsent' fun m hm ↦ hcalls m (List.mem_append_right _ hm)
    refine ⟨z, ?_, hacc', by rw [hs', hs, List.append_assoc]⟩
    rw [run, List.foldlM_cons, hy]
    exact hz

theorem accounted_new (name : Bytes) : Accounted { name := name } where
  idle := rfl
  running := rfl
  once := .refl _
  outside _ he := absurd he List.not_mem_nil
  waiting _ hc := absurd hc List.not_mem_nil
  order := rfl
  bounded _ := Nat.zero_le _

theorem ends_destroy (h : Accounted x) (hA : ∀ t, x.clock ≤ t → (A t).throws = none) :
    Ends (exec A) (destroy 0) x fun r y ↦ r = .ok () ∧ Accounted y ∧ y.sent = x.sent ∧
      y.outgoingQueue = [] ∧ y.destroyed = true := by
  refine Ends.bind (R := fun r y ↦ r = .ok () ∧
    Drained .persisted x.outgoingQueue.length x y) ?_ ?_ fun _ _ he ↦ nomatch he.1
  · refine (ends_persistQueueToDatabase h.idle).recover ?_ ?_
    · rintro u y ⟨k, hd, ⟨-, rfl⟩ | ⟨⟨e, he⟩, -⟩⟩
      · exact ⟨rfl, hd⟩
      · exact nomatch he
    · rintro e y ⟨k, -, ⟨he, -⟩ | ⟨-, -, t, ht, hne⟩⟩
      · exact nomatch he
      · exact absurd (hA t ht) hne
  · rintro u y ⟨-, hd⟩
    have hy := h.drained hd
    refine .perform rfl ⟨rfl, ?_, hd.sent, ?_, rfl⟩
    · exact ⟨⟨hy.idle, hy.running, hy.once, hy.outside, hy.waiting, hy.order⟩, hy.bounded⟩
    · change y.outgoingQueue = []
      rw [hd.queue, List.drop_length]

/-- After any sequence of calls every message passed to `SendMessage` is
accounted for, and destruction empties the queue when the callback does not throw. -/
theorem session_conserved (A : ℕ → Answer) (name : Bytes) (calls : List Call)
    (hcalls : ∀ m ∈ calls.filterMap Call.message, m.Fits) :
    ∃ x, run A calls { name := name } = some x ∧ x.sent = calls.filterMap Call.message ∧
      Accounted x ∧ ((∀ t, x.clock ≤ t → (A t).throws = none) →
        ∃ y, interp (exec A) (destroy 0) x = some (.ok (), y) ∧ y.sent = x.sent ∧
          Accounted y ∧ y.outgoingQueue = [] ∧ y.destroyed = true) := by
  obtain ⟨x, hx, hacc, hs⟩ := accounted_run (A := A) (accounted_new name)
    (fun _ hm ↦ absurd hm List.not_mem_nil) hcalls
  refine ⟨x, hx, hs, hacc, fun hA ↦ ?_⟩
  obtain ⟨r, y, hr, rfl, hy, hys, hq, hd⟩ := ends_destroy hacc hA
  exact ⟨y, hr, hys, hy, hq, hd⟩

/-- The first call of the callback throws, and the copy stays for the flush. -/
def mixedCalls : List Call :=
  [.sendMessage { payload := [1] }, .markOffline, .sendMessage { payload := [2] },
    .persistQueueToDatabase, .sendMessage { payload := [3] }, .markOnline, .flushQueue]

def firstThrows : ℕ → Answer := fun t ↦ { throws := if t = 1 then some "busy" else none }

theorem session_conserved_mixed : (∀ m ∈ mixedCalls.filterMap Call.message, m.Fits) ∧
    ∃ x, run firstThrows mixedCalls { name := [98] } = some x ∧
      x.sent = mixedCalls.filterMap Call.message ∧ Accounted x ∧
      ((∀ t, x.clock ≤ t → (firstThrows t).throws = none) →
        ∃ y, interp (exec firstThrows) (destroy 0) x = some (.ok (), y) ∧ y.sent = x.sent ∧
          Accounted y ∧ y.outgoingQueue = [] ∧ y.destroyed = true) :=
  ⟨by decide, session_conserved firstThrows [98] mixedCalls (by decide)⟩

end MessageBroker.SessionConservation
