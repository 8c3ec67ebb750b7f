import RealtimeTools.Publisher.Delivery
import Mathlib.Data.List.Chain

/-!
# Calls and what they return

The history of one client is a sequence of calls.  In particular a message counts as accepted only
inside a `try_publish` of that message, and exactly the `try_publish` calls that accept return true.
-/

open Interleaving

namespace RealtimePublisher

variable {κ Msg : Type}

/-- Which event of client `k` comes next. -/
inductive Follows (k : κ) : Event κ Msg → Event κ Msg → Prop
  | accept (msg : Msg) : Follows k (.called k (.tryPublish msg)) (.accepted k msg)
  | refuse (msg : Msg) : Follows k (.called k (.tryPublish msg)) (.returned k (some false))
  | succeed (msg : Msg) : Follows k (.accepted k msg) (.returned k (some true))
  | canPublish (result : Bool) : Follows k (.called k .canPublish) (.returned k (some result))
  | stop : Follows k (.called k .stop) (.returned k none)
  | call (result : Option Bool) (call : Call Msg) : Follows k (.returned k result) (.called k call)

/-- The last event of a client that is at `pc`. -/
def LastEvent (k : κ) (last : Option (Event κ Msg)) : ClientPc Msg → Prop
  | .idle => last = none ∨ ∃ result, last = some (.returned k result)
  | .tryPublish msg .storeTurn | .tryPublish msg .unlock | .tryPublish msg .notify =>
      last = some (.accepted k msg)
  | .tryPublish msg _ => last = some (.called k (.tryPublish msg))
  | .canPublish _ => last = some (.called k .canPublish)
  | .stop _ => last = some (.called k .stop)

variable [DecidableEq κ]

/-- The events of `k` form calls, the last of which is the one `k` is in. -/
structure CallsOf (k : κ) (s : State κ Msg) : Prop where
  chain : (s.eventsOf k).IsChain (Follows k)
  last : LastEvent k (s.eventsOf k).getLast? (s.client k)

variable {s s' : State κ Msg} {k : κ} {o : Oracle κ Msg}

/-- What a step of client `k` adds to the events of `k`. -/
inductive Recorded (k : κ) (s s' : State κ Msg) : Prop
  | silent (hh : s'.history = s.history)
      (hl : LastEvent k (s.eventsOf k).getLast? (s'.client k))
  | event (e : Event κ Msg) (he : e.client? = some k) (hh : s'.history = s.history ++ [e])
      (hf : ∀ last ∈ (s.eventsOf k).getLast?, Follows k last e)
      (hl : LastEvent k (some e) (s'.client k))

theorem eventsOf_of_history (h : s'.history = s.history) : s'.eventsOf k = s.eventsOf k := by
  unfold State.eventsOf
  rw [h]

theorem eventsOf_concat {e : Event κ Msg} (h : s'.history = s.history ++ [e]) :
    s'.eventsOf k = s.eventsOf k ++ if e.client? = some k then [e] else [] := by
  unfold State.eventsOf
  rw [h, List.filter_append]
  split <;> simp_all

theorem CallsOf.recorded (h : CallsOf k s) (hr : Recorded k s s') : CallsOf k s' := by
  cases hr with
  | silent hh hl =>
    rw [← eventsOf_of_history hh] at hl
    exact ⟨(eventsOf_of_history hh) ▸ h.chain, hl⟩
  | event e he hh hf hl =>
    have hev : s'.eventsOf k = s.eventsOf k ++ [e] := by rw [eventsOf_concat hh, if_pos he]
    refine ⟨?_, ?_⟩
    · rw [hev]
      refine h.chain.append (List.isChain_singleton e) fun last hlast e' he' => ?_
      obtain rfl : e = e' := by simpa using he'
      exact hf last hlast
    · rw [hev, List.getLast?_concat]
      exact hl

/-- A step of another thread does not touch the calls of `k`. -/
theorem CallsOf.other (h : CallsOf k s) (hc : s'.client k = s.client k)
    (hh : s'.history = s.history ∨
      ∃ e, e.client? ≠ some k ∧ s'.history = s.history ++ [e]) : CallsOf k s' := by
  have hev : s'.eventsOf k = s.eventsOf k := by
    rcases hh with hh | ⟨e, he, hh⟩
    · exact eventsOf_of_history hh
    · rw [eventsOf_concat hh, if_neg he, List.append_nil]
  exact ⟨hev ▸ h.chain, by rw [hev, hc]; exact h.last⟩

theorem Recorded.silent_goto {pc : ClientPc Msg} (hclient : s'.client = Function.update s.client k pc)
    (hh : s'.history = s.history) (hl : LastEvent k (s.eventsOf k).getLast? pc) :
    Recorded k s s' :=
  .silent hh (by rw [hclient, Function.update_self]; exact hl)

theorem Recorded.event_goto {pc : ClientPc Msg} {last e : Event κ Msg}
    (hclient : s'.client = Function.update s.client k pc) (he : e.client? = some k)
    (hh : s'.history = s.history ++ [e]) (hlast : (s.eventsOf k).getLast? = some last)
    (hf : Follows k last e) (hl : LastEvent k (some e) pc) : Recorded k s s' := by
  refine .event e he hh (fun last' hlast' => ?_) (by rw [hclient, Function.update_self]; exact hl)
  obtain rfl := Option.some.inj (hlast.symm.trans hlast')
  exact hf

theorem tryPublish_recorded {msg : Msg} {pc : TryPublishPc} (hc : CallsOf k s)
    (hpc : s.client k = .tryPublish msg pc) (h : tryPublish s k o msg pc = some s') :
    Recorded k s s' := by
  have hl := hc.last
  rw [hpc] at hl
  cases pc with
  | tryLock =>
    obtain rfl := Option.some.inj h
    exact .silent_goto rfl rfl hl
  | testTurn owns =>
    simp only [tryPublish] at h
    split at h
    · obtain rfl := Option.some.inj h
      exact .silent_goto rfl rfl hl
    · split at h
      · obtain rfl := Option.some.inj h
        exact .silent_goto rfl rfl hl
      · obtain rfl := Option.some.inj h
        exact .event_goto rfl rfl rfl hl (.refuse msg) (.inr ⟨_, rfl⟩)
  | storeMsg =>
    obtain rfl := Option.some.inj h
    exact .event_goto rfl rfl rfl hl (.accept msg) rfl
  | storeTurn | unlock =>
    obtain rfl := Option.some.inj h
    exact .silent_goto rfl rfl hl
  | notify =>
    obtain ⟨cond, _, rfl⟩ := Option.map_eq_some_iff.mp h
    exact .event_goto rfl rfl rfl hl (.succeed msg) (.inr ⟨_, rfl⟩)
  | giveUp =>
    obtain rfl := Option.some.inj h
    exact .event_goto rfl rfl rfl hl (.refuse msg) (.inr ⟨_, rfl⟩)

theorem canPublish_recorded {pc : CanPublishPc} (hc : CallsOf k s)
    (hpc : s.client k = .canPublish pc) (h : canPublish s k o pc = some s') : Recorded k s s' := by
  have hl := hc.last
  rw [hpc] at hl
  cases pc with
  | tryLock =>
    obtain rfl := Option.some.inj h
    exact .silent_goto rfl rfl hl
  | testTurn owns =>
    simp only [canPublish] at h
    split at h
    · obtain rfl := Option.some.inj h
      exact .silent_goto rfl rfl hl
    · obtain rfl := Option.some.inj h
      exact .event_goto rfl rfl rfl hl (.canPublish _) (.inr ⟨_, rfl⟩)
  | unlock result =>
    obtain rfl := Option.some.inj h
    exact .event_goto rfl rfl rfl hl (.canPublish result) (.inr ⟨_, rfl⟩)

theorem stop_recorded {pc : StopPc} (hc : CallsOf k s) (hpc : s.client k = .stop pc)
    (h : stop s k o pc = some s') : Recorded k s s' := by
  have hl := hc.last
  rw [hpc] at hl
  cases pc with
  | lock =>
    obtain ⟨_, h⟩ := Option.ite_none_right_eq_some.mp h
    obtain rfl := Option.some.inj h
    exact .silent_goto rfl rfl hl
  | store | unlock =>
    obtain rfl := Option.some.inj h
    exact .silent_goto rfl rfl hl
  | notify =>
    obtain ⟨cond, _, rfl⟩ := Option.map_eq_some_iff.mp h
    exact .event_goto rfl rfl rfl hl .stop (.inr ⟨_, rfl⟩)

omit [DecidableEq κ] in
theorem Call.entry_lastEvent (call : Call Msg) :
    LastEvent k (some (.called k call)) call.entry := by
  cases call <;> rfl

theorem clientStep_recorded (hc : CallsOf k s) (h : clientStep s k o = some s') :
    Recorded k s s' := by
  unfold clientStep at h
  cases hpc : s.client k with
  | idle =>
    have hl := hc.last
    rw [hpc] at hl
    simp only [hpc] at h
    split at h
    · obtain rfl := Option.some.inj h
      rcases hl with hl | ⟨result, hl⟩
      · refine .event _ rfl rfl (fun last hlast => nomatch hl.symm.trans hlast) ?_
        simp only [State.record, State.goto, Function.update_self]
        exact Call.entry_lastEvent o.call
      · exact .event_goto rfl rfl rfl hl (.call result o.call) (Call.entry_lastEvent o.call)
    · unfold initializeWait at h
      split at h
      · cases h
      · obtain rfl := Option.some.inj h
        exact .silent rfl (hpc ▸ hl)
  | tryPublish msg pc =>
    simp only [hpc] at h
    exact tryPublish_recorded hc hpc h
  | canPublish pc =>
    simp only [hpc] at h
    exact canPublish_recorded hc hpc h
  | stop pc =>
    simp only [hpc] at h
    exact stop_recorded hc hpc h

/-- The loop's events belong to no client. -/
theorem publishingLoop_silent (h : publishingLoop s = some s') :
    s'.client = s.client ∧ (s'.history = s.history ∨
      ∃ e : Event κ Msg, e.client? = none ∧ s'.history = s.history ++ [e]) := by
  unfold publishingLoop at h
  cases hpc : s.loop <;> simp only [hpc] at h
  case testKeepRunning =>
    split at h
    · obtain rfl := Option.some.inj h
      exact ⟨rfl, .inl rfl⟩
    · obtain rfl := Option.some.inj h
      exact ⟨rfl, .inr ⟨_, rfl, rfl⟩⟩
  case publish outgoing =>
    obtain rfl := Option.some.inj h
    exact ⟨rfl, .inr ⟨_, rfl, rfl⟩⟩
  case lock =>
    obtain ⟨_, h⟩ := Option.ite_none_right_eq_some.mp h
    obtain rfl := Option.some.inj h
    exact ⟨rfl, .inl rfl⟩
  case finished => cases h
  all_goals
    obtain rfl := Option.some.inj h
    exact ⟨rfl, .inl rfl⟩

/-- Every client's history is a sequence of calls. -/
theorem reachable_callsOf [Inhabited Msg] (h : Reachable (publisher κ Msg) anyStep s) (k : κ) :
    CallsOf k s := by
  refine h.invariant (I := fun s => ∀ k, CallsOf k s) ?_ ?_ k
  · rintro s rfl k
    exact ⟨List.isChain_nil, .inl rfl⟩
  · intro s t o s' hr hI _ hs k
    obtain ⟨hat, hJ⟩ := reachable_at hr
    cases t with
    | worker =>
      obtain ⟨hc, hh⟩ := publishingLoop_silent hs
      refine (hI k).other (congrFun hc k) (hh.imp id ?_)
      rintro ⟨e, he, hh⟩
      exact ⟨e, by simp [he], hh⟩
    | client j =>
      have hrec : Recorded j s s' := clientStep_recorded (hI j) hs
      have hs : step (.client j) o s = some s' := hs
      by_cases hkj : k = j
      · exact hkj ▸ (hI j).recorded hrec
      · have hstep : ClientStep j s s' := (step_sound hat hJ hs).guarantee
        apply (hI k).other (hstep.others k hkj)
        cases hrec with
        | silent hh _ => exact .inl hh
        | event e he hh _ _ =>
          exact .inr ⟨e, by rw [he]; simpa using Ne.symm hkj, hh⟩

/-- **Delivery.**  In every reachable state the published messages are a prefix of the accepted
ones, at most one accepted message is unpublished, and every acceptance belongs to a `try_publish`
that returns true (`CallsOf`).  When the loop stores `REALTIME` nothing is outstanding, and what it
hands to `publish` is the outstanding message, never older content of `msg_`. -/
theorem published_prefix_accepted [Inhabited Msg] (h : Reachable (publisher κ Msg) anyStep s) :
    s.published <+: s.accepted ∧ s.accepted.length ≤ s.published.length + 1 ∧
      (s.loop = .storeRealtime → s.accepted = s.published) ∧
      (∀ outgoing, s.loop = .publish outgoing → s.accepted = s.published ++ [outgoing]) ∧
      ∀ k, CallsOf k s := by
  obtain ⟨a, hacc, hpub⟩ := reachable_represents h
  have hloop : LoopAt s := (reachable_at h).1 .worker
  rw [hacc, hpub]
  refine ⟨a.done_prefix_accepted, a.accepted_length_le, fun hpc => ?_, fun outgoing hpc => ?_,
    reachable_callsOf h⟩
  · have hat : s.turn ≠ .realtime ∧ Delivered s := by simpa only [LoopAt, hpc] using hloop
    rw [← hacc, ← hpub]
    exact hat.2
  · have hat : Taken s outgoing := by simpa only [LoopAt, hpc] using hloop
    rw [← hacc, ← hpub]
    exact hat.2

/-- One message is published, and a second one accepted while the loop is back at its wait. -/
def twoMessages : List (Thread Unit × Oracle Unit Nat) :=
  List.replicate 3 (.worker, { call := .canPublish }) ++
    List.replicate 8 (.client (), { call := .tryPublish 7 }) ++
    List.replicate 8 (.worker, { call := .canPublish }) ++
    List.replicate 4 (.client (), { call := .tryPublish 8 })

theorem published_prefix_accepted_twoMessages :
    ∃ s : State Unit Nat, Reachable (publisher Unit Nat) anyStep s ∧ s.accepted = [7, 8] ∧
      s.published = [7] ∧ s.published <+: s.accepted := by
  obtain ⟨s, hs, hp⟩ := exists_reachable_of_exec (publisher Unit Nat) anyStep twoMessages
    initial
    (fun s => s.accepted = [7, 8] ∧ s.published = [7]) rfl (by decide)
  have htest : s.accepted = [7, 8] ∧ s.published = [7] := by simpa using hp
  exact ⟨s, hs, htest.1, htest.2, (published_prefix_accepted hs).1⟩

end RealtimePublisher
