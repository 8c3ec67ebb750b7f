import RealtimeTools.Interleaving.Observation
import RealtimeTools.Publisher.Delivery

/-!
# What can_publish says about try_publish

With one client, `turn_` stays with the realtime side from the test of `can_publish` to that of the next
`try_publish`.  The mutex does not: the loop takes it at the start of a round and after every wake-up,
and `try_publish` does not wait for it.
-/

open Interleaving

namespace RealtimePublisher

variable {Msg : Type} {s s' : State Unit Msg} {o : Oracle Unit Msg}

/-! ## The log -/

/-- What the client sees of its own calls. -/
inductive CallEvent (Msg : Type)
  | called (call : Call Msg)
  /-- `try_to_lock`, with the owner it finds, and whether the mutex is owned afterwards. -/
  | tryLocked (owner : Mutex (Thread Unit)) (spuriousFail ownsLock : Bool)
  | returned (result : Bool)
  deriving DecidableEq

def callEvent (t : Thread Unit) (o : Oracle Unit Msg) (s : State Unit Msg) : Option (CallEvent Msg) :=
  match t with
  | .worker => none
  | .client k =>
      match s.client k with
      | .idle => if s.constructed then some (.called o.call) else none
      | .tryPublish _ .tryLock | .canPublish .tryLock =>
          some (.tryLocked s.msgMutex o.spuriousFail
            (s.msgMutex.tryLock (.client k) o.spuriousFail).1)
      | .tryPublish _ (.testTurn ownsLock) => if ownsLock then none else some (.returned false)
      | .tryPublish _ .notify => some (.returned true)
      | .tryPublish _ .giveUp => some (.returned false)
      | .canPublish (.testTurn ownsLock) =>
          if ownsLock then none else some (.returned (canPublishLocked s ownsLock))
      | .canPublish (.unlock result) => some (.returned result)
      | _ => none

/-- Nobody calls `stop`. -/
def Call.publishes : Call Msg → Bool
  | .stop => false
  | _ => true

def PublishesOnly (_ : State Unit Msg) (_ : Thread Unit) (o : Oracle Unit Msg) : Prop :=
  o.call.publishes = true

instance (s : State Unit Msg) (t : Thread Unit) (o : Oracle Unit Msg) :
    Decidable (PublishesOnly s t o) :=
  inferInstanceAs (Decidable (_ = true))

/-- A call of `can_publish` that returns true, and then one of `try_publish` up to its return. -/
def Asked (before : List (CallEvent Msg)) (owner : Mutex (Thread Unit))
    (spuriousFail ownsLock : Bool) : Prop :=
  ∃ earlier locked msg, before = earlier ++ [.called .canPublish, locked, .returned true] ++
    [.called (.tryPublish msg), .tryLocked owner spuriousFail ownsLock]

/-- After `can_publish` has returned true, the next `try_publish` returns true. -/
def Predicts (before : List (CallEvent Msg)) (e : CallEvent Msg) : Prop :=
  ∀ owner spuriousFail ownsLock result, e = .returned result →
    Asked before owner spuriousFail ownsLock → result = true

/-- After `can_publish` has returned true, the next `try_publish` returns true if it gets the mutex,
and it does not get it only if the loop owns it or the attempt fails spuriously. -/
def PredictsWithLock (before : List (CallEvent Msg)) (e : CallEvent Msg) : Prop :=
  ∀ owner spuriousFail ownsLock result, e = .returned result →
    Asked before owner spuriousFail ownsLock →
      result = ownsLock ∧ (ownsLock = false → owner = some .worker ∨ spuriousFail = true)

/-! ## One client -/

/-- The log ends with a `can_publish` that has returned true. -/
def Told (log : List (CallEvent Msg)) : Prop :=
  ∃ earlier locked, log = earlier ++ [.called .canPublish, locked, .returned true]

theorem told_of_asked {log : List (CallEvent Msg)} {owner owner' : Mutex (Thread Unit)}
    {spurious spurious' owns owns' : Bool} {call : Call Msg}
    (h : Asked (log ++ [.called call, .tryLocked owner spurious owns]) owner' spurious' owns') :
    Told log ∧ owner' = owner ∧ spurious' = spurious ∧ owns' = owns := by
  obtain ⟨earlier, locked, msg, heq⟩ := h
  obtain ⟨hlog, hend⟩ := List.append_inj' heq rfl
  obtain ⟨_, rfl, rfl, rfl⟩ : call = .tryPublish msg ∧ owner = owner' ∧ spurious = spurious' ∧
      owns = owns' := by simpa using hend
  exact ⟨⟨earlier, locked, hlog⟩, rfl, rfl, rfl⟩

theorem not_told_of_tryPublish {log : List (CallEvent Msg)} {locked : CallEvent Msg} {msg : Msg}
    {result : Bool} : ¬ Told (log ++ [.called (.tryPublish msg), locked, .returned result]) := by
  rintro ⟨earlier, locked', heq⟩
  obtain ⟨_, hend⟩ := List.append_inj' heq rfl
  simp at hend

theorem not_told_of_false {log : List (CallEvent Msg)} {call : Call Msg} {locked : CallEvent Msg} :
    ¬ Told (log ++ [.called call, locked, .returned false]) := by
  rintro ⟨earlier, locked', heq⟩
  obtain ⟨_, hend⟩ := List.append_inj' heq rfl
  simp at hend

/-- `try_to_lock` does not fail without a reason. -/
def LockOutcome (owner : Mutex (Thread Unit)) (spuriousFail ownsLock : Bool) : Prop :=
  ownsLock = false → owner = some .worker ∨ spuriousFail = true

/-- What the call the client is in has logged so far, and what it knows about `turn_`. -/
def CallSoFar (s : State Unit Msg) (log : List (CallEvent Msg)) : ClientPc Msg → Prop
  | .idle => Told log → s.turn = .realtime
  | .tryPublish msg .tryLock => ∃ earlier, log = earlier ++ [.called (.tryPublish msg)] ∧
      (Told earlier → s.turn = .realtime)
  | .tryPublish msg (.testTurn ownsLock) => ∃ earlier owner spurious,
      log = earlier ++ [.called (.tryPublish msg), .tryLocked owner spurious ownsLock] ∧
        LockOutcome owner spurious ownsLock ∧ (Told earlier → s.turn = .realtime)
  | .tryPublish msg .giveUp => ∃ earlier owner spurious,
      log = earlier ++ [.called (.tryPublish msg), .tryLocked owner spurious true] ∧ ¬ Told earlier
  | .tryPublish msg _ => ∃ earlier owner spurious,
      log = earlier ++ [.called (.tryPublish msg), .tryLocked owner spurious true]
  | .canPublish .tryLock => ∃ earlier, log = earlier ++ [.called .canPublish]
  | .canPublish (.testTurn ownsLock) => ∃ earlier owner spurious,
      log = earlier ++ [.called .canPublish, .tryLocked owner spurious ownsLock]
  | .canPublish (.unlock result) => ∃ earlier owner spurious ownsLock,
      log = earlier ++ [.called .canPublish, .tryLocked owner spurious ownsLock] ∧
        (result = true → s.turn = .realtime)
  | .stop _ => False

/-- The program points at which the client may own the mutex. -/
def ClientPc.inside : ClientPc Msg → Bool
  | .tryPublish _ (.testTurn ownsLock) | .canPublish (.testTurn ownsLock) => ownsLock
  | .tryPublish _ .storeMsg | .tryPublish _ .storeTurn | .tryPublish _ .unlock
  | .tryPublish _ .giveUp | .canPublish (.unlock _) => true
  | _ => false

structure Predicting (s : State Unit Msg) (log : List (CallEvent Msg)) : Prop where
  owner : s.msgMutex = some (.client ()) → (s.client ()).inside = true
  call : CallSoFar s log (s.client ())
  predicts : Justified PredictsWithLock log

/-! ## Steps -/

variable {log : List (CallEvent Msg)}

/-- Where the client goes, and what it logs on the way. -/
theorem Predicting.goto {seen : Option (CallEvent Msg)} (h : Predicting s log) (pc : ClientPc Msg)
    (hclient : s'.client = Function.update s.client () pc)
    (howner : s'.msgMutex = some (.client ()) → pc.inside = true)
    (hcall : CallSoFar s' (log ++ seen.toList) pc)
    (hseen : ∀ result, seen = some (.returned result) → PredictsWithLock log (.returned result)) :
    Predicting s' (log ++ seen.toList) where
  owner := by rwa [hclient, Function.update_self]
  call := by rwa [hclient, Function.update_self]
  predicts := by
    refine h.predicts.observe fun e he => ?_
    cases e with
    | returned result => exact hseen result he
    | _ => exact fun _ _ _ _ hreturned => by cases hreturned

theorem lockOutcome_tryLock (hnot : s.msgMutex ≠ some (.client ())) (spuriousFail : Bool) :
    LockOutcome s.msgMutex spuriousFail (s.msgMutex.tryLock (.client ()) spuriousFail).1 := by
  intro hfail
  unfold Mutex.tryLock at hfail
  split at hfail
  · cases hfail
  · rename_i hlock
    cases spuriousFail with
    | true => exact .inr rfl
    | false =>
      left
      match hm : s.msgMutex with
      | none => exact absurd ⟨hm, rfl⟩ hlock
      | some .worker => rfl
      | some (.client ()) => exact absurd hm hnot

/-- A return of `can_publish` says nothing about another call. -/
theorem predictsWithLock_canPublish {earlier : List (CallEvent Msg)} {locked e : CallEvent Msg} :
    PredictsWithLock (earlier ++ [.called .canPublish, locked]) e := by
  rintro owner spurious owns result rfl ⟨earlier', locked', msg, heq⟩
  obtain ⟨_, hend⟩ := List.append_inj' heq rfl
  simp at hend

/-- A return of `try_publish`, with what its call has logged. -/
theorem predictsWithLock_tryPublish {earlier : List (CallEvent Msg)}
    {owner : Mutex (Thread Unit)} {spurious ownsLock result : Bool} {call : Call Msg}
    (houtcome : LockOutcome owner spurious ownsLock) (htold : Told earlier → result = ownsLock) :
    PredictsWithLock (earlier ++ [.called call, .tryLocked owner spurious ownsLock])
      (.returned result) := by
  intro owner' spurious' owns' result' hresult hasked
  obtain ⟨htold', rfl, rfl, rfl⟩ := told_of_asked hasked
  exact ⟨(CallEvent.returned.inj hresult).symm.trans (htold htold'), houtcome⟩

theorem tryPublish_predicting {msg : Msg} {pc : TryPublishPc} (h : Predicting s log)
    (hpc : s.client () = .tryPublish msg pc) (hs : tryPublish s () o msg pc = some s') :
    Predicting s' (log ++ (callEvent (.client ()) o s).toList) := by
  have howner := h.owner
  have hcall := h.call
  unfold callEvent
  simp only [hpc] at howner hcall ⊢
  cases pc with
  | tryLock =>
    obtain ⟨earlier, rfl, hturn⟩ := hcall
    have hnot : s.msgMutex ≠ some (.client ()) := fun hm => by cases howner hm
    have houtcome := lockOutcome_tryLock hnot o.spuriousFail
    rcases Mutex.tryLock_cases s.msgMutex (.client ()) o.spuriousFail with ⟨_, he⟩ | he
    · simp only [tryPublish, he, Option.some.injEq] at hs houtcome ⊢
      subst hs
      exact h.goto (.tryPublish msg (.testTurn true)) rfl (fun _ => rfl)
        ⟨earlier, _, _, by simp, houtcome, hturn⟩ fun _ hseen => by cases hseen
    · simp only [tryPublish, he, Option.some.injEq] at hs houtcome ⊢
      subst hs
      exact h.goto (.tryPublish msg (.testTurn false)) rfl (fun hm => absurd hm hnot)
        ⟨earlier, _, _, by simp, houtcome, hturn⟩ fun _ hseen => by cases hseen
  | testTurn ownsLock =>
    obtain ⟨earlier, owner, spurious, rfl, houtcome, hturn⟩ := hcall
    simp only [tryPublish] at hs
    cases ownsLock with
    | true =>
      split at hs <;> rename_i hcan
      · obtain rfl := Option.some.inj hs
        exact h.goto (.tryPublish msg .storeMsg) rfl (fun _ => rfl)
          ⟨earlier, owner, spurious, by simp⟩ fun _ hseen => by cases hseen
      · obtain rfl := Option.some.inj hs
        refine h.goto (.tryPublish msg .giveUp) rfl (fun _ => rfl)
          ⟨earlier, owner, spurious, by simp, fun htold => hcan ?_⟩ fun _ hseen => by cases hseen
        -- After `can_publish` has returned true it is still the realtime side's turn.
        simp [canPublishLocked, hturn htold]
    | false =>
      rw [if_neg (by simp [canPublishLocked]), if_neg Bool.false_ne_true] at hs
      obtain rfl := Option.some.inj hs
      refine h.goto .idle rfl (fun hm => by cases howner hm) (fun htold => ?_) fun result hseen => ?_
      · rw [List.append_assoc] at htold
        exact absurd htold not_told_of_tryPublish
      · obtain rfl : false = result := by simpa using hseen
        exact predictsWithLock_tryPublish houtcome fun _ => rfl
  | storeMsg =>
    obtain rfl := Option.some.inj hs
    obtain ⟨earlier, owner, spurious, hlog⟩ := hcall
    exact h.goto (.tryPublish msg .storeTurn) rfl (fun _ => rfl)
      ⟨earlier, owner, spurious, by simpa using hlog⟩ fun _ hseen => by cases hseen
  | storeTurn =>
    obtain rfl := Option.some.inj hs
    obtain ⟨earlier, owner, spurious, hlog⟩ := hcall
    exact h.goto (.tryPublish msg .unlock) rfl (fun _ => rfl)
      ⟨earlier, owner, spurious, by simpa using hlog⟩ fun _ hseen => by cases hseen
  | unlock =>
    obtain rfl := Option.some.inj hs
    obtain ⟨earlier, owner, spurious, hlog⟩ := hcall
    exact h.goto (.tryPublish msg .notify) rfl (fun hm => by cases hm)
      ⟨earlier, owner, spurious, by simpa using hlog⟩ fun _ hseen => by cases hseen
  | notify =>
    obtain ⟨cond, _, rfl⟩ := Option.map_eq_some_iff.mp hs
    obtain ⟨earlier, owner, spurious, rfl⟩ := hcall
    refine h.goto .idle rfl (fun hm => by cases howner hm) (fun htold => ?_) fun result hseen => ?_
    · rw [List.append_assoc] at htold
      exact absurd htold not_told_of_tryPublish
    · obtain rfl : true = result := by simpa using hseen
      exact predictsWithLock_tryPublish (fun howns => by cases howns) fun _ => rfl
  | giveUp =>
    obtain rfl := Option.some.inj hs
    obtain ⟨earlier, owner, spurious, rfl, hnot⟩ := hcall
    refine h.goto .idle rfl (fun hm => by cases hm) (fun htold => ?_) fun result hseen => ?_
    · rw [List.append_assoc] at htold
      exact absurd htold not_told_of_tryPublish
    · exact predictsWithLock_tryPublish (fun howns => by cases howns) fun htold => absurd htold hnot

theorem canPublish_predicting {pc : CanPublishPc} (h : Predicting s log)
    (hpc : s.client () = .canPublish pc) (hs : canPublish s () o pc = some s') :
    Predicting s' (log ++ (callEvent (.client ()) o s).toList) := by
  have howner := h.owner
  have hcall := h.call
  unfold callEvent
  simp only [hpc] at howner hcall ⊢
  cases pc with
  | tryLock =>
    obtain ⟨earlier, rfl⟩ := hcall
    have hnot : s.msgMutex ≠ some (.client ()) := fun hm => by cases howner hm
    rcases Mutex.tryLock_cases s.msgMutex (.client ()) o.spuriousFail with ⟨_, he⟩ | he
    · simp only [canPublish, he, Option.some.injEq] at hs ⊢
      subst hs
      exact h.goto (.canPublish (.testTurn true)) rfl (fun _ => rfl)
        ⟨earlier, s.msgMutex, o.spuriousFail, by simp⟩ fun _ hseen => by cases hseen
    · simp only [canPublish, he, Option.some.injEq] at hs ⊢
      subst hs
      exact h.goto (.canPublish (.testTurn false)) rfl (fun hm => absurd hm hnot)
        ⟨earlier, s.msgMutex, o.spuriousFail, by simp⟩ fun _ hseen => by cases hseen
  | testTurn ownsLock =>
    obtain ⟨earlier, owner, spurious, rfl⟩ := hcall
    simp only [canPublish] at hs
    cases ownsLock with
    | true =>
      obtain rfl := Option.some.inj hs
      have hturn : canPublishLocked s true = true → s.turn = .realtime := by
        simp [canPublishLocked]
      exact h.goto (.canPublish (.unlock _)) rfl (fun _ => rfl)
        ⟨earlier, owner, spurious, true, by simp, hturn⟩ fun _ hseen => by cases hseen
    | false =>
      obtain rfl := Option.some.inj hs
      refine h.goto .idle rfl (fun hm => by cases howner hm) (fun htold => ?_) fun result _ => ?_
      · rw [List.append_assoc] at htold
        simp only [canPublishLocked, Bool.and_false] at htold
        exact absurd htold not_told_of_false
      · exact predictsWithLock_canPublish
  | unlock result =>
    obtain ⟨earlier, owner, spurious, owns, rfl, hturn⟩ := hcall
    obtain rfl := Option.some.inj hs
    refine h.goto .idle rfl (fun hm => by cases hm) (fun htold => ?_) fun result' _ => ?_
    · cases result with
      | true => exact hturn rfl
      | false =>
        rw [List.append_assoc] at htold
        exact absurd htold not_told_of_false
    · exact predictsWithLock_canPublish

theorem clientStep_predicting (h : Predicting s log) (hp : o.call.publishes = true)
    (hs : clientStep s () o = some s') :
    Predicting s' (log ++ (callEvent (.client ()) o s).toList) := by
  unfold clientStep at hs
  cases hpc : s.client () with
  | idle =>
    have howner := h.owner
    have hcall := h.call
    simp only [hpc] at hs howner hcall
    unfold callEvent
    simp only [hpc]
    split at hs <;> rename_i hconstructed
    · rw [if_pos hconstructed]
      obtain rfl := Option.some.inj hs
      refine h.goto o.call.entry rfl (fun hm => by cases howner hm) ?_ fun _ hseen => by cases hseen
      cases hc : o.call with
      | tryPublish msg => exact ⟨log, rfl, hcall⟩
      | canPublish => exact ⟨log, rfl⟩
      | stop => rw [hc] at hp; cases hp
    · rw [if_neg hconstructed]
      unfold initializeWait at hs
      split at hs
      · cases hs
      · obtain rfl := Option.some.inj hs
        refine h.goto .idle (by rw [← hpc]; exact (Function.update_eq_self () s.client).symm)
          (fun hm => by cases howner hm) (fun htold => hcall ?_) fun _ hseen => by cases hseen
        simpa using htold
  | tryPublish msg pc =>
    simp only [hpc] at hs
    exact tryPublish_predicting h hpc hs
  | canPublish pc =>
    simp only [hpc] at hs
    exact canPublish_predicting h hpc hs
  | stop pc =>
    have hcall := h.call
    rw [hpc] at hcall
    exact hcall.elim

/-- The loop does not end the realtime side's turn. -/
theorem CallSoFar.loopStep {pc : ClientPc Msg} (h : CallSoFar s log pc)
    (hturn : s.turn = .realtime → s'.turn = .realtime) : CallSoFar s' log pc := by
  cases pc with
  | idle => exact fun htold => hturn (h htold)
  | tryPublish msg pc =>
    cases pc with
    | tryLock =>
      obtain ⟨earlier, hlog, ht⟩ := h
      exact ⟨earlier, hlog, fun htold => hturn (ht htold)⟩
    | testTurn ownsLock =>
      obtain ⟨earlier, owner, spurious, hlog, houtcome, ht⟩ := h
      exact ⟨earlier, owner, spurious, hlog, houtcome, fun htold => hturn (ht htold)⟩
    | _ => exact h
  | canPublish pc =>
    cases pc with
    | unlock result =>
      obtain ⟨earlier, owner, spurious, owns, hlog, ht⟩ := h
      exact ⟨earlier, owner, spurious, owns, hlog, fun hresult => hturn (ht hresult)⟩
    | _ => exact h
  | stop pc => exact h

theorem Predicting.loopStep (h : Predicting s log) (hs : LoopStep s s') : Predicting s' log where
  owner := by
    rw [hs.client, hs.mutex.owner_iff (by simp)]
    exact h.owner
  call := by
    rw [hs.client]
    exact h.call.loopStep fun ht => (hs.data_kept ht).1.trans ht
  predicts := h.predicts

/-- `can_publish` with the loop before its lock, some more steps of the loop, and `try_publish`. -/
def askedAndTried (loop client : ℕ) : List (Thread Unit × Oracle Unit Nat) :=
  List.flatten [
    List.replicate 3 (.worker, { call := .canPublish }),
    List.replicate 5 (.client (), { call := .canPublish }),
    List.replicate loop (.worker, { call := .canPublish }),
    List.replicate client (.client (), { call := .tryPublish 7 })]

end RealtimePublisher
