import RealtimeTools.Interleaving.History
import RealtimeTools.Publisher.Calls

/-!
# Calls after the loop has left

Nobody takes `turn_` back when `publishingLoop` leaves its loop, so whether a later call is refused
depends on the `turn_` it leaves behind.  It is not `REALTIME`, or a `try_publish` inside its
critical section is about to store `NON_REALTIME`, or the next call is accepted and never published.
-/

open Interleaving

namespace RealtimePublisher

variable {κ Msg : Type}

deriving instance DecidableEq for Event

/-- `publishingLoop` has left its while loop. -/
def State.Left (s : State κ Msg) : Prop := s.loop = .storeStopped ∨ s.loop = .finished

/-- A `try_publish` that owns the mutex and stores `NON_REALTIME` before it gives the mutex back, if
it still reads `REALTIME` where it has not done so. -/
def ClientPc.closes : ClientPc Msg → Bool
  | .tryPublish _ (.testTurn true) | .tryPublish _ .storeMsg | .tryPublish _ .storeTurn => true
  | _ => false

/-- The owner of the mutex is about to close the realtime side's turn. -/
def State.closing (s : State κ Msg) : Bool :=
  match s.msgMutex with
  | some (.client k) => (s.client k).closes
  | _ => false

/-- The realtime side's turn is over, or about to be. -/
def TurnOver (s : State κ Msg) : Prop := s.turn = .realtime → s.closing = true

instance (s : State κ Msg) : Decidable (TurnOver s) := inferInstanceAs (Decidable (_ → _))

/-- The loop leaves only with the realtime side's turn over. -/
def LeavesTurnOver (s : State κ Msg) (t : Thread κ) (_ : Oracle κ Msg) : Prop :=
  match t with
  | .worker => s.loop = .testKeepRunning → s.keepRunning = false → TurnOver s
  | .client _ => True

instance [DecidableEq Msg] (s : State κ Msg) (t : Thread κ) (o : Oracle κ Msg) :
    Decidable (LeavesTurnOver s t o) :=
  match t with
  | .worker => inferInstanceAs
      (Decidable (s.loop = .testKeepRunning → s.keepRunning = false → TurnOver s))
  | .client _ => inferInstanceAs (Decidable True)

/-- No call that has begun since the history was `old` has returned true. -/
def RefusedSince (old history : List (Event κ Msg)) : Prop :=
  ∃ since, history = old ++ since ∧
    ∀ k before call after, since = before ++ .called k call :: after →
      .returned k (some true) ∉ after

/-- Where a call can be that does not return true; a call that owns the mutex before its test relies
on `turn`. -/
def ClientPc.Refused (turn : Turn) : ClientPc Msg → Prop
  | .tryPublish _ (.testTurn ownsLock) | .canPublish (.testTurn ownsLock) =>
      ownsLock = true → turn ≠ .realtime
  | .tryPublish _ .storeMsg | .tryPublish _ .storeTurn | .tryPublish _ .unlock
  | .tryPublish _ .notify => False
  | .canPublish (.unlock result) => result = false
  | _ => True

variable {s s' : State κ Msg} {k : κ} {o : Oracle κ Msg}

/-! ## The turn stays over -/

theorem TurnOver.turn_ne_of_free (h : TurnOver s) (hfree : s.msgMutex = none) :
    s.turn ≠ .realtime := by
  intro ht
  have hclosing := h ht
  simp [State.closing, hfree] at hclosing

theorem closing_iff : s.closing = true ↔
    ∃ k, s.msgMutex = some (.client k) ∧ (s.client k).closes = true := by
  unfold State.closing
  constructor
  · intro h
    split at h
    · rename_i k hown
      exact ⟨k, hown, h⟩
    · cases h
  · rintro ⟨k, hown, hpc⟩
    rw [hown]
    exact hpc

/-- Clients end the realtime side's turn and never begin it. -/
theorem ClientStep.turn_ne (h : ClientStep k s s') (ht : s.turn ≠ .realtime) :
    s'.turn ≠ .realtime := by
  rw [(h.data_kept_of_turn ht).1]
  exact ht

variable [DecidableEq κ]

/-- A call that closes the turn goes on to do so. -/
theorem tryPublish_closing (h : clientStep s k o = some s') (hown : s.msgMutex = some (.client k))
    (hpc : (s.client k).closes = true) (ht : s.turn = .realtime) : TurnOver s' := by
  intro ht'
  rw [closing_iff]
  refine ⟨k, ?_⟩
  cases hc : s.client k with
  | tryPublish msg pc =>
    rw [hc] at hpc
    simp only [clientStep, hc] at h
    cases pc with
    | testTurn owns =>
      cases owns with
      | false => cases hpc
      | true =>
        simp only [tryPublish, canPublishLocked, ht, decide_true, Bool.and_true, if_true] at h
        obtain rfl := Option.some.inj h
        exact ⟨hown, by simp [State.goto, ClientPc.closes]⟩
    | storeMsg =>
      obtain rfl := Option.some.inj h
      exact ⟨hown, by simp [State.goto, State.record, ClientPc.closes]⟩
    | storeTurn =>
      obtain rfl := Option.some.inj h
      cases ht'
    | tryLock | unlock | notify | giveUp => cases hpc
  | idle | canPublish pc | stop pc => rw [hc] at hpc; cases hpc

theorem TurnOver.clientStep (h : TurnOver s) (hs : ClientStep k s s')
    (hstep : clientStep s k o = some s') : TurnOver s' := by
  by_cases ht : s.turn = .realtime
  · obtain ⟨j, hown, hpc⟩ := closing_iff.mp (h ht)
    by_cases hjk : j = k
    · subst hjk
      exact tryPublish_closing hstep hown hpc ht
    · intro _
      have hown' : s'.msgMutex = some (.client j) := hs.mutex.owner_kept (by simpa using hjk) hown
      exact closing_iff.mpr ⟨j, hown', by rwa [hs.others j hjk]⟩
  · exact fun ht' => absurd ht' (hs.turn_ne ht)

/-- The loop does not touch `turn_`, the mutex or the clients once it has left. -/
theorem publishingLoop_left (h : publishingLoop s = some s') (hleft' : s'.Left) :
    (s.loop = .testKeepRunning ∧ s.keepRunning = false ∨ s.Left) ∧ s'.turn = s.turn ∧
      s'.msgMutex = s.msgMutex ∧ s'.client = s.client ∧
      (s.Left → s'.history = s.history) := by
  unfold State.Left at hleft' ⊢
  unfold publishingLoop at h
  cases hpc : s.loop with
  | testKeepRunning =>
    simp only [hpc] at h
    split at h <;> obtain rfl := Option.some.inj h
    · simp at hleft'
    · rename_i hkeep
      exact ⟨.inl ⟨rfl, by simpa using hkeep⟩, rfl, rfl, rfl, by simp⟩
  | storeStopped =>
    simp only [hpc] at h
    obtain rfl := Option.some.inj h
    exact ⟨.inr (.inl rfl), rfl, rfl, rfl, fun _ => rfl⟩
  | finished => simp [hpc] at h
  | lock =>
    simp only [hpc] at h
    obtain ⟨_, h⟩ := Option.ite_none_right_eq_some.mp h
    obtain rfl := Option.some.inj h
    simp at hleft'
  | testTurn | testStop | testPublish outgoing =>
    simp only [hpc] at h
    obtain rfl := Option.some.inj h
    simp only at hleft'
    split at hleft' <;> simp at hleft'
  | storeRunning | storeRealtime | block | blocked | copy | unlock outgoing | publish outgoing =>
    simp only [hpc] at h
    obtain rfl := Option.some.inj h
    simp [State.record] at hleft'

variable [Inhabited Msg]

/-- After the loop has left, the realtime side's turn is over for good. -/
theorem reachable_turnOver (h : Reachable (publisher κ Msg) LeavesTurnOver s) (hleft : s.Left) :
    TurnOver s := by
  refine h.invariant (I := fun s => s.Left → TurnOver s) ?_ ?_ hleft
  · rintro s rfl (hl | hl) <;> cases hl
  · intro s t o s' hr hI hp hs hleft'
    cases t with
    | worker =>
      obtain ⟨hcases, hturn, hmutex, hclient, _⟩ := publishingLoop_left hs hleft'
      have hover : TurnOver s := by
        rcases hcases with ⟨hpc, hkeep⟩ | hleft
        · exact hp hpc hkeep
        · exact hI hleft
      unfold TurnOver State.closing at hover ⊢
      rwa [hturn, hmutex, hclient]
    | client k =>
      have hs : step (.client k) o s = some s' := hs
      obtain ⟨hat, hJ⟩ := reachable_at (hr.mono fun _ _ _ _ => trivial)
      have hstep : ClientStep k s s' := (step_sound hat hJ hs).guarantee
      exact (hI (by rwa [State.Left, hstep.loop] at hleft')).clientStep hstep hs

/-! ## Late calls -/

omit [DecidableEq κ] [Inhabited Msg] in
theorem ClientPc.Refused.mono {pc : ClientPc Msg} {turn turn' : Turn} (h : pc.Refused turn)
    (hturn : turn ≠ .realtime → turn' ≠ .realtime) : pc.Refused turn' := by
  cases pc with
  | idle | stop pc => trivial
  | tryPublish msg pc =>
    cases pc with
    | testTurn owns => exact fun ho => hturn (h ho)
    | _ => exact h
  | canPublish pc =>
    cases pc with
    | testTurn owns => exact fun ho => hturn (h ho)
    | _ => exact h

omit [DecidableEq κ] [Inhabited Msg] in
theorem Call.entry_refused (call : Call Msg) (turn : Turn) : call.entry.Refused turn := by
  cases call <;> trivial

omit [DecidableEq κ] [Inhabited Msg] in
theorem canPublishLocked_eq_false {owns : Bool} (h : owns = true → s.turn ≠ .realtime) :
    canPublishLocked s owns = false := by
  cases owns with
  | false => exact Bool.and_false _
  | true => simpa [canPublishLocked] using h rfl

omit [Inhabited Msg] in
/-- A call that is to be refused stays so, and does not return true. -/
theorem clientStep_refused (h : clientStep s k o = some s') (hover : TurnOver s)
    (hpc : (s.client k).Refused s.turn) :
    (s'.client k).Refused s'.turn ∧ s'.history ≠ s.history ++ [.returned k (some true)] := by
  have htry : ∀ {owns mutex}, s.msgMutex.tryLock (.client k) o.spuriousFail = (owns, mutex) →
      owns = true → s.turn ≠ .realtime := by
    rintro owns mutex he rfl
    rcases s.msgMutex.tryLock_cases (.client k) o.spuriousFail with ⟨hm, _⟩ | he'
    · exact hover.turn_ne_of_free hm
    · cases he.symm.trans he'
  unfold clientStep at h
  cases hc : s.client k with
  | idle =>
    simp only [hc] at h
    split at h
    · obtain rfl := Option.some.inj h
      simp [State.goto, State.record, Call.entry_refused]
    · obtain ⟨_, h⟩ := Option.ite_none_left_eq_some.mp h
      obtain rfl := Option.some.inj h
      simp [hc, ClientPc.Refused]
  | tryPublish msg pc =>
    rw [hc] at hpc
    simp only [hc] at h
    cases pc with
    | tryLock =>
      obtain rfl := Option.some.inj h
      refine ⟨?_, by simp [State.goto]⟩
      simp only [State.goto, Function.update_self]
      exact fun ho => htry rfl ho
    | testTurn owns =>
      simp only [tryPublish, canPublishLocked_eq_false hpc, Bool.false_eq_true, if_false] at h
      split at h <;> obtain rfl := Option.some.inj h <;>
        simp [State.goto, State.record, ClientPc.Refused]
    | giveUp =>
      obtain rfl := Option.some.inj h
      simp [State.goto, State.record, ClientPc.Refused]
    | storeMsg | storeTurn | unlock | notify => exact hpc.elim
  | canPublish pc =>
    rw [hc] at hpc
    simp only [hc] at h
    cases pc with
    | tryLock =>
      obtain rfl := Option.some.inj h
      refine ⟨?_, by simp [State.goto]⟩
      simp only [State.goto, Function.update_self]
      exact fun ho => htry rfl ho
    | testTurn owns =>
      simp only [canPublish, canPublishLocked_eq_false hpc] at h
      split at h <;> obtain rfl := Option.some.inj h <;>
        simp [State.goto, State.record, ClientPc.Refused]
    | unlock result =>
      obtain rfl : result = false := hpc
      obtain rfl := Option.some.inj h
      simp [State.goto, State.record, ClientPc.Refused]
  | stop pc =>
    simp only [hc] at h
    cases pc with
    | lock =>
      obtain ⟨_, h⟩ := Option.ite_none_right_eq_some.mp h
      obtain rfl := Option.some.inj h
      simp [State.goto, ClientPc.Refused]
    | store | unlock =>
      obtain rfl := Option.some.inj h
      simp [State.goto, ClientPc.Refused]
    | notify =>
      obtain ⟨cond, _, rfl⟩ := Option.map_eq_some_iff.mp h
      simp [State.goto, State.record, ClientPc.Refused]

omit [Inhabited Msg] in
/-- A call begins in a client that is idle. -/
theorem CallsOf.idle_of_called {call : Call Msg} (h : CallsOf k s)
    (hf : ∀ last ∈ (s.eventsOf k).getLast?, Follows k last (.called k call)) :
    s.client k = .idle := by
  have hlast := h.last
  have hnot : ∀ e : Event κ Msg, (s.eventsOf k).getLast? = some e →
      ∃ result, e = .returned k result := by
    intro e he
    cases hf e he with
    | call result => exact ⟨result, rfl⟩
  cases hpc : s.client k with
  | idle => rfl
  | tryPublish msg pc =>
    rw [hpc] at hlast
    cases pc <;> (obtain ⟨result, he⟩ := hnot _ hlast; cases he)
  | canPublish pc | stop pc =>
    rw [hpc] at hlast
    obtain ⟨result, he⟩ := hnot _ hlast
    cases he

/-- The calls that have begun since the history was `old` are on the way to be refused, and none has
returned true. -/
structure LateCalls (old : List (Event κ Msg)) (s : State κ Msg) : Prop where
  left : s.Left
  pending : ∃ since, s.history = old ++ since ∧
    ∀ k call, .called k call ∈ since → (s.client k).Refused s.turn
  refused : RefusedSince old s.history

omit [Inhabited Msg] in
theorem LateCalls.clientStep {old : List (Event κ Msg)} (h : LateCalls old s)
    (hover : TurnOver s) (hcalls : CallsOf k s) (hs : ClientStep k s s')
    (hstep : clientStep s k o = some s') : LateCalls old s' := by
  obtain ⟨since, hold, hpending⟩ := h.pending
  obtain ⟨_, hsince, hrefused⟩ := h.refused
  obtain rfl := List.append_cancel_left (hold.symm.trans hsince)
  -- A call stays refused: in the other clients because the turn does not come back.
  have hkeep : ∀ j, (s.client j).Refused s.turn → (s'.client j).Refused s'.turn := by
    intro j hj
    by_cases hjk : j = k
    · subst hjk
      exact (clientStep_refused hstep hover hj).1
    · rw [hs.others j hjk]
      exact hj.mono hs.turn_ne
  have hleft : s'.Left := by
    rw [State.Left, hs.loop]
    exact h.left
  cases clientStep_recorded hcalls hstep with
  | silent hh _ =>
    exact ⟨hleft, ⟨since, hh.trans hold, fun j call hmem => hkeep j (hpending j call hmem)⟩,
      ⟨since, hh.trans hold, hrefused⟩⟩
  | event e he hh hf _ =>
    have hnew : s'.history = old ++ (since ++ [e]) := by rw [hh, hold, List.append_assoc]
    refine ⟨hleft, ⟨since ++ [e], hnew, ?_⟩, ⟨since ++ [e], hnew, ?_⟩⟩
    · intro j call hmem
      rcases List.mem_append.mp hmem with hmem | hmem
      · exact hkeep j (hpending j call hmem)
      · obtain rfl := List.mem_singleton.mp hmem
        obtain rfl : j = k := by simpa [Event.client?] using he
        apply hkeep j
        rw [hcalls.idle_of_called hf]
        trivial
    · intro j before call after hsplit hmem
      rcases split_concat hsplit with ⟨_, _, rfl⟩ | ⟨earlier, rfl, hcut⟩
      · cases hmem
      · rcases List.mem_append.mp hmem with hmem | hmem
        · exact hrefused j before call earlier hcut hmem
        · obtain rfl := List.mem_singleton.mp hmem
          obtain rfl : j = k := by simpa [Event.client?] using he
          have hcalled : .called j call ∈ since := by simp [hcut]
          exact (clientStep_refused hstep hover (hpending j call hcalled)).2 hh

omit [Inhabited Msg] in
theorem LateCalls.loopStep {old : List (Event κ Msg)} (h : LateCalls old s)
    (hs : publishingLoop s = some s') : LateCalls old s' := by
  unfold publishingLoop at hs
  rcases h.left with hpc | hpc
  · simp only [hpc] at hs
    obtain rfl := Option.some.inj hs
    exact ⟨.inr rfl, h.pending, h.refused⟩
  · simp [hpc] at hs

/-- **Nothing is accepted after the exit.**  In every run in which the loop leaves only with the
realtime side's turn over: once it has left, no call of `try_publish` or `can_publish` that begins
later returns true. -/
theorem late_calls_refused (h : Reachable (publisher κ Msg) LeavesTurnOver s) (hleft : s.Left)
    (hc : Continues (publisher κ Msg) LeavesTurnOver s s') : RefusedSince s.history s'.history := by
  have hstart : LateCalls s.history s := by
    refine ⟨hleft, ⟨[], by simp, fun _ _ hmem => nomatch hmem⟩, ⟨[], by simp, ?_⟩⟩
    intro k before call after hsplit
    simp at hsplit
  refine (hc.invariant (I := LateCalls s.history) h hstart ?_).2.refused
  intro s₁ t o s₂ hr hlate _ hs
  cases t with
  | worker => exact hlate.loopStep hs
  | client k =>
    have hs : step (.client k) o s₁ = some s₂ := hs
    have hr₀ : Reachable (publisher κ Msg) anyStep s₁ := hr.mono fun _ _ _ _ => trivial
    obtain ⟨hat, hJ⟩ := reachable_at hr₀
    exact hlate.clientStep (reachable_turnOver hr hlate.left) (reachable_callsOf hr₀ k)
      (step_sound hat hJ hs).guarantee hs

/-- The publisher is stopped while a message is on its way out; then it is offered another one. -/
def stoppedWhilePublishing : List (Thread Unit × Oracle Unit Nat) :=
  List.replicate 3 (.worker, { call := .canPublish }) ++
    List.replicate 8 (.client (), { call := .tryPublish 7 }) ++
    List.replicate 5 (.worker, { call := .canPublish }) ++
    List.replicate 5 (.client (), { call := .stop }) ++
    List.replicate 3 (.worker, { call := .canPublish })

theorem late_calls_refused_after_publish :
    ∃ s s' : State Unit Nat,
      Reachable (publisher Unit Nat) LeavesTurnOver s ∧ s.loop = .finished ∧
        s'.history = s.history ++ [.called () (.tryPublish 8), .returned () (some false)] ∧
        RefusedSince s.history s'.history := by
  obtain ⟨s, s', hs, hc, hp⟩ := exists_continues_of_exec (publisher Unit Nat) LeavesTurnOver
    stoppedWhilePublishing (List.replicate 4 (.client (), { call := .tryPublish 8 })) initial
    (fun s s' => s.loop = .finished ∧
      s'.history = s.history ++ [.called () (.tryPublish 8), .returned () (some false)])
    rfl (by decide)
  obtain ⟨hpc, hh⟩ : s.loop = .finished ∧
      s'.history = s.history ++ [.called () (.tryPublish 8), .returned () (some false)] := by
    simpa using hp
  exact ⟨s, s', hs, hpc, hh, late_calls_refused hs (.inr hpc) hc⟩

/-- The publisher is stopped while its loop waits for a message. -/
def stoppedWhileWaiting : List (Thread Unit × Oracle Unit Nat) :=
  List.replicate 7 (.worker, { call := .canPublish }) ++
    List.replicate 6 (.client (), { call := .stop }) ++
    List.replicate 9 (.worker, { call := .canPublish })

/-- The loop leaves with `turn_` at `REALTIME`: `can_publish` returns true, and a message is accepted
that nobody will publish. -/
theorem late_call_accepted :
    ∃ s s' : State Unit Nat,
      Reachable (publisher Unit Nat) anyStep s ∧ s.loop = .finished ∧ s.keepRunning = false ∧
        s.isRunning = false ∧ Continues (publisher Unit Nat) anyStep s s' ∧
        s'.history = s.history ++ [.called () .canPublish, .returned () (some true),
          .called () (.tryPublish 7), .accepted () 7, .returned () (some true)] := by
  obtain ⟨s, s', hs, hc, hp⟩ := exists_continues_of_exec (publisher Unit Nat) anyStep
    stoppedWhileWaiting
    (List.replicate 4 (.client (), { call := .canPublish }) ++
      List.replicate 7 (.client (), { call := .tryPublish 7 })) initial
    (fun s s' => s.loop = .finished ∧ s.keepRunning = false ∧ s.isRunning = false ∧
      s'.history = s.history ++ [.called () .canPublish, .returned () (some true),
        .called () (.tryPublish 7), .accepted () 7, .returned () (some true)])
    rfl (by decide)
  obtain ⟨hpc, hkeep, hrunning, hh⟩ : s.loop = .finished ∧ s.keepRunning = false ∧
      s.isRunning = false ∧
      s'.history = s.history ++ [.called () .canPublish, .returned () (some true),
        .called () (.tryPublish 7), .accepted () 7, .returned () (some true)] := by
    simpa using hp
  exact ⟨s, s', hs, hpc, hkeep, hrunning, hc, hh⟩

end RealtimePublisher
