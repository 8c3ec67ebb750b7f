import RealtimeTools.AsyncHandler.Effects

/-!
# Every step keeps the assertions

The functions of the model, one by one: each step of a client has one of the effects of
`ClientEffect`, and every step leaves the thread that takes it with its assertion.  So the assertions
hold in every run of a handler.
-/

open Interleaving

namespace AsyncFunctionHandler

variable {κ T E : Type} {s s' : State κ T E} {k : κ} {o : Oracle κ T E}

section Steps

variable [DecidableEq κ] [Inhabited T]

/-! ## The clients -/

abbrev Sound (t : Thread κ) (s s' : State κ T E) : Prop :=
  OwnStep At (fun _ => True) Guarantee t s s'

theorem sound_of_goto {pc : ClientPc T} (hclient : s'.client = Function.update s.client k pc)
    (hat : ClientPcAt k s' pc) (hworker : s'.worker = s.worker) (he : ClientEffect k s s') :
    Sound (.client k) s s' where
  own := by
    show ClientPcAt k s' (s'.client k)
    rw [hclient, Function.update_self]
    exact hat
  shared := trivial
  guarantee := ⟨⟨pc, hclient⟩, .inl hworker, he⟩

/-- A step to `pc` that changes nothing else. -/
theorem sound_of_move {pc : ClientPc T} (hat : ClientPcAt k s pc) :
    Sound (.client k) s (s.goto k pc) :=
  sound_of_goto rfl (hat.frame id fun _ => rfl) rfl (.quiet rfl (.inl rfl))

theorem sound_of_return {result : Result T E} : Sound (.client k) s (s.returnWith k result) :=
  sound_of_goto rfl trivial rfl (.quiet rfl (.inr ⟨.returned k result, rfl, rfl⟩))

theorem sound_of_fault {f : Fault} (hat : At (.client k) s) :
    Sound (.client k) s { s with fault := some f } := by
  have hat : ClientPcAt k s (s.client k) := hat
  exact sound_of_goto (Function.update_eq_self k s.client).symm (hat.frame id fun _ => rfl) rfl
    (.quiet rfl (.inl rfl))

theorem lockThen_sound {next : ClientPc T} (h : lockThen s k next = some s')
    (hat : ∀ s' : State κ T E, Owns (.client k) s' → ClientPcAt k s' next) :
    Sound (.client k) s s' := by
  obtain ⟨hm, h⟩ := Option.ite_none_right_eq_some.mp h
  obtain rfl := Option.some.inj h
  exact sound_of_goto rfl (hat _ rfl) rfl (.lock hm rfl rfl)

/-- Releasing the mutex with a move that is not a return. -/
theorem sound_of_unlock {next : ClientPc T} (hown : Owns (.client k) s)
    (hat : ∀ s' : State κ T E, ClientPcAt k s' next) :
    Sound (.client k) s ({ s with asyncMtx := none }.goto k next) :=
  sound_of_goto rfl (hat _) rfl (.unlock hown rfl (.inl rfl))

theorem sound_of_unlock_return {result : Result T E} (hown : Owns (.client k) s) :
    Sound (.client k) s ({ s with asyncMtx := none }.returnWith k result) :=
  sound_of_goto rfl trivial rfl (.unlock hown rfl (.inr ⟨.returned k result, rfl, rfl⟩))

theorem notifyThen_sound {next : ClientPc T} (h : notifyThen s k o next = some s')
    (hat : ∀ s' : State κ T E, ClientPcAt k s' next) : Sound (.client k) s s' := by
  obtain ⟨condition, hn, rfl⟩ := Option.map_eq_some_iff.mp h
  exact sound_of_goto rfl (hat _) rfl (.notify o.woken condition hn rfl rfl)

theorem triggerAsyncCallback_sound {time : Time} {period : Duration} {pc : TriggerPc T}
    (hpc : s.client k = .trigger time period pc) (hat : At (.client k) s)
    (h : triggerAsyncCallback s k o time period pc = some s') : Sound (.client k) s s' := by
  have hpcAt : ClientPcAt k s (s.client k) := hat
  rw [hpc] at hpcAt
  cases pc with
  | testInitialized | testRunning =>
    simp only [triggerAsyncCallback] at h
    split at h <;> obtain rfl := Option.some.inj h
    · exact sound_of_move trivial
    · exact sound_of_return
  | loadException | testPolicy =>
    obtain rfl := Option.some.inj h
    apply sound_of_move
    split <;> trivial
  | loadPause =>
    obtain rfl := Option.some.inj h
    apply sound_of_move
    split
    · trivial
    · exact fun hlock => nomatch hlock
  | rethrow =>
    simp only [triggerAsyncCallback] at h
    split at h <;> obtain rfl := Option.some.inj h
    · exact sound_of_return
    · exact sound_of_fault hat
  | lockResume => exact lockThen_sound h fun _ hown => hown
  | storeResume =>
    obtain rfl := Option.some.inj h
    exact sound_of_goto rfl hpcAt rfl
      (.storeResume hpcAt ⟨time, period, Function.update_self k _ _⟩ rfl rfl)
  | storeReturn =>
    obtain rfl := Option.some.inj h
    exact sound_of_goto rfl hpcAt rfl (.storeReturn hpcAt rfl rfl)
  | storePrevious =>
    simp only [triggerAsyncCallback] at h
    split at h
    · split at h <;> obtain rfl := Option.some.inj h
      · exact sound_of_goto rfl hpcAt rfl (.storePrevious o.now _ hpcAt rfl rfl)
      · exact sound_of_fault hat
    · obtain rfl := Option.some.inj h
      exact sound_of_fault hat
  | unlockResume | unlock =>
    obtain rfl := Option.some.inj h
    exact sound_of_unlock hpcAt fun _ => trivial
  | notifyResume | notify => exact notifyThen_sound h fun _ hlock => nomatch hlock
  | tryLock =>
    rcases Mutex.tryLock_cases s.asyncMtx (.client k) o.spuriousFail with ⟨hm, he⟩ | he
    · simp only [triggerAsyncCallback, he, if_true, Option.some.injEq] at h
      subst h
      exact sound_of_goto rfl rfl rfl (.lock hm rfl rfl)
    · simp only [triggerAsyncCallback, he, Bool.false_eq_true, if_false, Option.some.injEq] at h
      subst h
      exact sound_of_goto rfl (fun hlock => nomatch hlock) rfl (.quiet rfl (.inl rfl))
  | loadTrigger =>
    obtain rfl := Option.some.inj h
    apply sound_of_move
    split
    · exact fun _ => hpcAt
    · rename_i htrigger
      exact ⟨hpcAt, by simpa using htrigger⟩
  | predicate =>
    simp only [triggerAsyncCallback] at h
    split at h <;> obtain rfl := Option.some.inj h
    · rename_i result _
      refine sound_of_goto rfl ?_ rfl (.quiet rfl (.inr ⟨.predicate k result, rfl, rfl⟩))
      cases result with
      | true => exact hpcAt
      | false => exact fun _ => hpcAt.1
    · exact sound_of_move hpcAt.1
  | storeTrigger =>
    obtain rfl := Option.some.inj h
    exact sound_of_goto rfl ⟨hpcAt.1, rfl⟩ rfl
      (.storeTrigger time period hpcAt.1 hpcAt.2 hpc (Function.update_self k _ _) rfl rfl)
  | storeTimes =>
    obtain rfl := Option.some.inj h
    exact sound_of_goto rfl hpcAt.1 rfl (.storeTimes time period hpcAt.1 hpc rfl rfl)
  | loadReturn status ownsLock =>
    simp only [triggerAsyncCallback] at h
    split at h <;> obtain rfl := Option.some.inj h
    · rename_i hlock
      exact sound_of_move (hpcAt hlock)
    · exact sound_of_return
  | release status value | unwind =>
    obtain rfl := Option.some.inj h
    exact sound_of_unlock_return hpcAt

theorem waitForTriggerCycleToFinish_sound {pausing : Bool} {pc : WaitCyclePc}
    (hat : WaitCycleAt k s pc) (h : waitForTriggerCycleToFinish s k pausing pc = some s') :
    Sound (.client k) s s' := by
  cases pc with
  | testRunning =>
    simp only [waitForTriggerCycleToFinish] at h
    split at h <;> obtain rfl := Option.some.inj h
    · exact sound_of_move trivial
    · exact sound_of_return
  | lock => exact lockThen_sound h fun _ hown => hown
  | loadTrigger =>
    obtain rfl := Option.some.inj h
    apply sound_of_move
    split
    · rename_i htrigger
      exact ⟨hat, htrigger⟩
    · rename_i htrigger
      exact ⟨hat, by simpa using htrigger⟩
  | block =>
    obtain rfl := Option.some.inj h
    exact sound_of_goto rfl trivial rfl (.waitCycle hat.1 hat.2 rfl rfl)
  | blocked =>
    obtain rfl := Option.some.inj h
    exact sound_of_goto rfl trivial rfl (.wakeCycle rfl rfl)
  | unlock =>
    obtain rfl := Option.some.inj h
    exact sound_of_unlock_return hat.1

theorem pauseExecution_sound {pc : PausePc} (hat : PauseAt k s pc)
    (h : pauseExecution s k pc = some s') : Sound (.client k) s s' := by
  cases pc with
  | testPolicy | testRunning =>
    obtain rfl := Option.some.inj h
    apply sound_of_move
    split <;> trivial
  | storePauseSynchronized | storePause =>
    obtain rfl := Option.some.inj h
    exact sound_of_goto rfl trivial rfl (.storePause rfl rfl)
  | lock => exact lockThen_sound h fun _ hown => hown
  | unlock =>
    obtain rfl := Option.some.inj h
    exact sound_of_unlock_return hat
  | loadPause =>
    obtain rfl := Option.some.inj h
    exact sound_of_return

theorem resetVariables_sound {starting : Bool} {pc : ResetPc}
    (hpc : s.client k = .reset starting pc) (hat : ResetAt k s pc)
    (h : resetVariables s k starting pc = some s') : Sound (.client k) s s' := by
  cases pc with
  | lock => exact lockThen_sound h fun _ hown => hown
  | storeStop =>
    obtain rfl := Option.some.inj h
    exact sound_of_goto rfl hat rfl (.resetStop hat rfl rfl)
  | storeTrigger =>
    obtain rfl := Option.some.inj h
    exact sound_of_goto rfl hat rfl (.resetTrigger starting hat hpc rfl rfl)
  | storeTimes =>
    obtain rfl := Option.some.inj h
    exact sound_of_goto rfl hat rfl (.resetTimes hat ⟨starting, hpc⟩ rfl rfl)
  | storeReturn =>
    obtain rfl := Option.some.inj h
    exact sound_of_goto rfl hat rfl (.storeReturn hat rfl rfl)
  | storeException =>
    obtain rfl := Option.some.inj h
    exact sound_of_goto rfl hat rfl (.resetException hat rfl rfl)
  | unlock =>
    simp only [resetVariables] at h
    split at h <;> obtain rfl := Option.some.inj h
    · exact sound_of_unlock hat fun _ => trivial
    · exact sound_of_unlock_return hat

theorem stopThread_sound {pc : StopPc} (hat : StopAt k s pc)
    (h : stopThread s k o pc = some s') : Sound (.client k) s s' := by
  cases pc with
  | testRunning =>
    simp only [stopThread] at h
    split at h <;> obtain rfl := Option.some.inj h
    · exact sound_of_move trivial
    · exact sound_of_return
  | storeStop =>
    obtain rfl := Option.some.inj h
    exact sound_of_goto rfl trivial rfl (.storeStop (Function.update_self k _ _) rfl rfl)
  | lock => exact lockThen_sound h fun _ hown => hown
  | unlock =>
    obtain rfl := Option.some.inj h
    exact sound_of_unlock hat fun _ => trivial
  | notify => exact notifyThen_sound h fun _ => trivial
  | join =>
    simp only [stopThread] at h
    split at h
    · rename_i hfinished
      obtain rfl := Option.some.inj h
      exact sound_of_goto rfl trivial rfl (.join hfinished rfl (.inr ⟨.returned k .unit, rfl, rfl⟩))
    · cases h

theorem startThread_sound {pc : StartPc} (hpc : s.client k = .start pc)
    (h : startThread s k pc = some s') : Sound (.client k) s s' := by
  cases pc with
  | testInitialized =>
    simp only [startThread] at h
    split at h <;> obtain rfl := Option.some.inj h
    · exact sound_of_move trivial
    · exact sound_of_return
  | testJoinable =>
    simp only [startThread] at h
    split at h <;> obtain rfl := Option.some.inj h
    · exact sound_of_return
    · exact sound_of_move trivial
  | spawn =>
    obtain rfl := Option.some.inj h
    refine ⟨?_, trivial, ⟨.idle, rfl⟩, .inr ⟨hpc, rfl, rfl⟩, ?_⟩
    · show ClientPcAt k _ (Function.update s.client k _ k)
      rw [Function.update_self]
      trivial
    · exact .spawn rfl (.inr ⟨.returned k .unit, rfl, rfl⟩)

theorem initStep_sound {call : InitCall} (hpc : s.client k = .init call)
    (h : initStep s k call = some s') : Sound (.client k) s s' := by
  unfold initStep at h
  split at h <;> obtain rfl := Option.some.inj h
  · rename_i ha
    exact sound_of_goto rfl trivial rfl (.init call hpc ha (.inr ⟨.returned k .unit, rfl, rfl⟩))
  · exact sound_of_return

omit [DecidableEq κ] [Inhabited T] in
theorem Call.entry_at (call : Call) : ClientPcAt k s call.entry := by
  cases call <;> trivial

theorem clientStep_sound (hat : At (.client k) s) (h : clientStep s k o = some s') :
    Sound (.client k) s s' := by
  have hpcAt : ClientPcAt k s (s.client k) := hat
  unfold clientStep at h
  cases hpc : s.client k with
  | idle =>
    simp only [hpc, Option.some.injEq] at h
    subst h
    exact sound_of_goto rfl (Call.entry_at o.call) rfl (.quiet rfl (.inr ⟨.called k o.call, rfl, rfl⟩))
  | trigger time period pc =>
    simp only [hpc] at h
    exact triggerAsyncCallback_sound hpc hat h
  | wait pausing pc =>
    simp only [hpc] at h hpcAt
    exact waitForTriggerCycleToFinish_sound hpcAt h
  | pause pc =>
    simp only [hpc] at h hpcAt
    exact pauseExecution_sound hpcAt h
  | reset starting pc =>
    simp only [hpc] at h hpcAt
    exact resetVariables_sound hpc hpcAt h
  | stop pc =>
    simp only [hpc] at h hpcAt
    exact stopThread_sound hpcAt h
  | start pc =>
    simp only [hpc] at h
    exact startThread_sound hpc h
  | init call =>
    simp only [hpc] at h
    exact initStep_sound hpc h

/-! ## The worker -/

theorem sound_of_worker {pc : WorkerPc T E} (hj : s.joinable = true)
    (hworker : s'.worker = pc) (hjoinable : s'.joinable = s.joinable) (hat : WorkerPcAt s' pc)
    (hs : WorkerStep s s') : Sound .worker s s' where
  own := by
    refine ⟨?_, fun _ => hjoinable.trans hj⟩
    rw [hworker]
    exact hat
  shared := trivial
  guarantee := hs

/-- A step of the worker that keeps the mutex and the trigger. -/
theorem sound_of_worker_move {pc : WorkerPc T E} (hj : s.joinable = true)
    (hworker : s'.worker = pc) (hjoinable : s'.joinable = s.joinable) (hat : WorkerPcAt s' pc)
    (hclient : s'.client = s.client) (hparams : s'.params = s.params)
    (hmutex : s'.asyncMtx = s.asyncMtx) (htrigger : s'.triggerInProgress = s.triggerInProgress) :
    Sound .worker s s' :=
  sound_of_worker hj hworker hjoinable hat ⟨hclient, hparams, hmutex ▸ .keep _, .inl htrigger⟩

theorem waitAsync_sound {site : Loop} {first : Bool} {at_ : WaitPc → WorkerPc T E}
    {exit : WorkerPc T E} {pc : WaitPc} (h : waitAsync s first at_ exit pc = some s')
    (hj : s.joinable = true)
    (hsite : ∀ (s' : State κ T E) pc, WaitAt site s' pc → WorkerPcAt s' (at_ pc))
    (hexit : ∀ s' : State κ T E, Owns .worker s' → s'.stopAsyncCallback = s.stopAsyncCallback →
      s'.triggerInProgress = s.triggerInProgress → (first = true ∨ s.stopAsyncCallback = true) →
      WorkerPcAt s' exit)
    (hfirst : first = false → Resting site s) (hat : WaitAt site s pc) : Sound .worker s s' := by
  cases pc with
  | lock =>
    obtain ⟨hm, h⟩ := Option.ite_none_right_eq_some.mp h
    obtain rfl := Option.some.inj h
    exact sound_of_worker hj rfl rfl (hsite _ .loadFirst rfl) ⟨rfl, rfl, hm ▸ .acquire, .inl rfl⟩
  | loadFirst =>
    obtain rfl := Option.some.inj h
    cases hf : first with
    | true => exact sound_of_worker_move hj rfl rfl (hexit _ hat rfl rfl (.inl hf)) rfl rfl rfl rfl
    | false =>
      have hrest : Resting site s := hfirst hf
      refine sound_of_worker_move hj rfl rfl (hsite _ .loadStop ⟨hat, ?_⟩) rfl rfl rfl rfl
      cases site <;> exact hrest
  | loadStop =>
    obtain rfl := Option.some.inj h
    cases hs : s.stopAsyncCallback with
    | true => exact sound_of_worker_move hj rfl rfl (hexit _ hat.1 rfl rfl (.inr hs)) rfl rfl rfl rfl
    | false =>
      have hrest : Resting site s := hat.2
      refine sound_of_worker_move hj rfl rfl (hsite _ .block ⟨hat.1, ?_⟩) rfl rfl rfl rfl
      cases site <;> exact hrest
  | block =>
    obtain rfl := Option.some.inj h
    have hmutex : s.asyncMtx = some .worker := hat.1
    exact sound_of_worker hj rfl rfl (hsite _ .blocked trivial)
      ⟨rfl, rfl, hmutex ▸ .release, .inl rfl⟩
  | blocked =>
    obtain rfl := Option.some.inj h
    exact sound_of_worker_move hj rfl rfl (hsite _ .lock trivial) rfl rfl rfl rfl

/-- The shared part of the loops; `run` and `next` are where the loops differ. -/
theorem loopBody_sound {site : Loop} {first : Bool} {run next pc : LoopPc T E}
    (h : loopBody site first run next s o pc = some s') (hj : s.joinable = true)
    (hfirst : first = false → Resting site s)
    (hcycle : first = true → Cycling site s)
    (hrun : ∀ s' : State κ T E, Owns .worker s' → Cycling site s' → LoopAt site s' run)
    (hnext : ∀ s' : State κ T E, Owns .worker s' → Cycling site s' → LoopAt site s' next)
    (hat : LoopAt site s pc) : Sound .worker s s' := by
  cases pc with
  | head =>
    simp only [loopBody] at h
    split at h <;> obtain rfl := Option.some.inj h
    · exact sound_of_worker_move hj rfl rfl trivial rfl rfl rfl rfl
    · exact sound_of_worker_move hj rfl rfl trivial rfl rfl rfl rfl
  | wait pc =>
    have h : waitAsync s first (fun pc => .loop site (.wait pc)) (.loop site .testStop) pc =
        some s' := h
    refine waitAsync_sound h hj (fun _ _ hat => hat) ?_ hfirst hat
    intro s' hown hstop htrigger hexit
    refine ⟨hown, fun hgo => ?_⟩
    have hgo : s.stopAsyncCallback = false := hstop ▸ hgo
    have hf : first = true := hexit.resolve_right fun hs => nomatch hgo.symm.trans hs
    exact fun hsite => htrigger.trans (hcycle hf hsite)
  | testStop =>
    obtain rfl := Option.some.inj h
    cases hs : s.stopAsyncCallback with
    | true => exact sound_of_worker_move hj rfl rfl hat.1 rfl rfl rfl rfl
    | false => exact sound_of_worker_move hj rfl rfl (hrun _ hat.1 (hat.2 hs)) rfl rfl rfl rfl
  | invoke =>
    obtain rfl := Option.some.inj h
    exact sound_of_worker_move hj rfl rfl hat rfl rfl rfl rfl
  | inCallback =>
    simp only [loopBody] at h
    split at h <;> obtain rfl := Option.some.inj h
    · exact sound_of_worker_move hj rfl rfl hat rfl rfl rfl rfl
    · exact sound_of_worker_move hj rfl rfl hat rfl rfl rfl rfl
  | storeReturn value | storeException e =>
    obtain rfl := Option.some.inj h
    exact sound_of_worker_move hj rfl rfl (hnext _ hat.1 hat.2) rfl rfl rfl rfl
  | clear ran =>
    have hown : Owns .worker s := by
      cases ran with
      | true => exact hat.1
      | false => exact hat
    obtain rfl := Option.some.inj h
    have hmutex : MutexStep .worker s.asyncMtx s.asyncMtx := .keep _
    cases ran with
    | true => exact sound_of_worker hj rfl rfl ⟨hown, rfl⟩ ⟨rfl, rfl, hmutex, .inr ⟨hown, rfl⟩⟩
    | false => exact sound_of_worker hj rfl rfl ⟨hown, rfl⟩ ⟨rfl, rfl, hmutex, .inr ⟨hown, rfl⟩⟩
  | unlock =>
    obtain rfl := Option.some.inj h
    have hmutex : s.asyncMtx = some .worker := hat.1
    exact sound_of_worker hj rfl rfl trivial ⟨rfl, rfl, hmutex ▸ .release, .inl rfl⟩
  | notifyAll =>
    obtain rfl := Option.some.inj h
    exact sound_of_worker_move hj rfl rfl trivial rfl rfl rfl rfl
  | measure | schedule | sleepUntil => cases h

theorem executeSynchronizedCallback_sound {pc : LoopPc T E} (hj : s.joinable = true)
    (hat : LoopAt .synchronized s pc) (h : executeSynchronizedCallback s o pc = some s') :
    Sound .worker s s' :=
  loopBody_sound h hj id (fun htrigger _ => htrigger) (fun _ hown hc => ⟨hown, hc⟩)
    (fun _ hown hc => ⟨hown, hc⟩) hat

/-- A fault leaves everything else as it is. -/
theorem sound_of_worker_fault {f : Fault} (hat : At .worker s) :
    Sound .worker s { s with fault := some f } := by
  refine ⟨⟨?_, hat.2⟩, trivial, rfl, rfl, .keep _, .inl rfl⟩
  have hpc := hat.1
  show WorkerPcAt { s with fault := some f } s.worker
  cases hw : s.worker with
  | start | finished => trivial
  | prologue pc =>
    rw [hw] at hpc
    cases pc with
    | wait pc => exact WaitAt.frame hpc id fun _ hr => hr
    | _ => exact hpc
  | loop site pc =>
    rw [hw] at hpc
    cases pc with
    | wait pc =>
      refine WaitAt.frame hpc id fun _ hr => ?_
      cases site <;> exact hr
    | clear ran => cases ran <;> exact hpc
    | _ => exact hpc

theorem executeDetachedCallback_sound {pc : LoopPc T E} (hw : s.worker = .loop .detached pc)
    (hat : At .worker s) (h : executeDetachedCallback s o pc = some s') : Sound .worker s s' := by
  have hj : s.joinable = true := hat.2 (by simp [hw])
  have hpc : LoopAt .detached s pc := by
    have hpc := hat.1
    rwa [hw] at hpc
  have hcycle : ∀ s' : State κ T E, Cycling .detached s' := fun _ hsite => nomatch hsite
  have hbody : ∀ {pc : LoopPc T E}, LoopAt .detached s pc →
      loopBody .detached (!s.pauseThread) .measure .schedule s o pc = some s' →
      Sound .worker s s' := fun hat h =>
    loopBody_sound h hj (fun hf => by simpa [Resting] using hf) (fun _ => hcycle s)
      (fun _ hown _ => ⟨hown, rfl⟩) (fun _ hown _ => ⟨hown, rfl⟩) hat
  cases pc with
  | measure =>
    obtain rfl := Option.some.inj h
    exact sound_of_worker_move hj rfl rfl ⟨hpc.1, hcycle _⟩ rfl rfl rfl rfl
  | schedule =>
    simp only [executeDetachedCallback] at h
    split at h <;> obtain rfl := Option.some.inj h
    · exact sound_of_worker_move hj rfl rfl hpc rfl rfl rfl rfl
    · exact sound_of_worker_fault hat
  | sleepUntil =>
    obtain rfl := Option.some.inj h
    exact sound_of_worker_move hj rfl rfl ⟨hpc.1, hcycle _⟩ rfl rfl rfl rfl
  | _ => exact hbody hpc h

theorem detachedPrologue_sound {pc : ProloguePc} (hw : s.worker = .prologue pc)
    (hat : At .worker s) (h : detachedPrologue s o pc = some s') : Sound .worker s s' := by
  have hj : s.joinable = true := hat.2 (by simp [hw])
  have hpc : PrologueAt s pc := by
    have hpc := hat.1
    rwa [hw] at hpc
  cases pc with
  | testClock =>
    simp only [detachedPrologue] at h
    split at h <;> obtain rfl := Option.some.inj h
    · exact sound_of_worker_move hj rfl rfl trivial rfl rfl rfl rfl
    · exact sound_of_worker_fault hat
  | testRate =>
    simp only [detachedPrologue] at h
    split at h <;> obtain rfl := Option.some.inj h
    · exact sound_of_worker_fault hat
    · exact sound_of_worker_move hj rfl rfl trivial rfl rfl rfl rfl
  | loadPause =>
    obtain rfl := Option.some.inj h
    refine sound_of_worker_move hj rfl rfl ?_ rfl rfl rfl rfl
    split <;> trivial
  | wait pc =>
    have h : waitAsync s (!s.pauseThread) (fun pc => .prologue (.wait pc)) (.prologue .unlock) pc =
        some s' := h
    refine waitAsync_sound h hj (fun _ _ hat => hat) ?_ ?_ hpc
    · exact fun _ hown _ _ _ => hown
    · exact fun hf => by simpa [Resting] using hf
  | unlock =>
    obtain rfl := Option.some.inj h
    have hmutex : s.asyncMtx = some .worker := hpc
    exact sound_of_worker hj rfl rfl trivial ⟨rfl, rfl, hmutex ▸ .release, .inl rfl⟩
  | readPrevious | sleepPeriod | readSteady =>
    obtain rfl := Option.some.inj h
    exact sound_of_worker_move hj rfl rfl trivial rfl rfl rfl rfl

theorem workerStep_sound (hat : At .worker s) (h : workerStep s o = some s') :
    Sound .worker s s' := by
  unfold workerStep at h
  cases hw : s.worker with
  | start =>
    have hj : s.joinable = true := hat.2 (by simp [hw])
    simp only [hw] at h
    split at h <;> obtain rfl := Option.some.inj h
    · exact sound_of_worker_move hj rfl rfl trivial rfl rfl rfl rfl
    · exact sound_of_worker_move hj rfl rfl trivial rfl rfl rfl rfl
  | prologue pc =>
    simp only [hw] at h
    exact detachedPrologue_sound hw hat h
  | loop site pc =>
    simp only [hw] at h
    cases site with
    | synchronized =>
      have hpc := hat.1
      rw [hw] at hpc
      exact executeSynchronizedCallback_sound (hat.2 (by simp [hw])) hpc h
    | detached => exact executeDetachedCallback_sound hw hat h
  | finished =>
    simp only [hw] at h
    cases h

/-! ## Runs -/

theorem fault_of_step {t : Thread κ} (h : step t o s = some s') : s.fault = none := by
  unfold step at h
  split at h
  · cases h
  · rename_i hf
    simpa using hf

theorem workerStep_of_step (h : step .worker o s = some s') : workerStep s o = some s' := by
  have hf := fault_of_step h
  unfold step at h
  rwa [if_neg (by simp [hf])] at h

theorem clientStep_of_step (h : step (.client k) o s = some s') : clientStep s k o = some s' := by
  have hf := fault_of_step h
  unfold step at h
  rwa [if_neg (by simp [hf])] at h

theorem step_sound {t : Thread κ} (hI : ∀ u, At u s) (h : step t o s = some s') :
    Sound t s s' := by
  cases t with
  | worker => exact workerStep_sound (hI .worker) (workerStep_of_step h)
  | client k => exact clientStep_sound (hI (.client k)) (clientStep_of_step h)

/-- The assertions hold in every run from a state with idle clients whose worker is not yet, or no
longer, running. -/
theorem reachable_at_of_idle {M : System (Thread κ) (Oracle κ T E) (State κ T E)}
    {permit : State κ T E → Thread κ → Oracle κ T E → Prop} (hM : M.step = step)
    (hstart : ∀ s, M.start s → (∀ k, s.client k = .idle) ∧
      (s.worker = .finished ∨ (s.worker = .start ∧ s.joinable = true)))
    (h : Reachable M permit s) (t : Thread κ) : At t s := by
  have hall : (∀ t, At t s) ∧ True := by
    refine h.rely_guarantee (I := At) (J := fun _ => True) (G := Guarantee) ?_ ?_ ?_
    · intro s hs
      obtain ⟨hclient, hworker⟩ := hstart s hs
      refine ⟨fun t => ?_, trivial⟩
      cases t with
      | worker =>
        rcases hworker with hw | ⟨hw, hj⟩
        · exact ⟨by rw [hw]; trivial, fun hne => absurd hw hne⟩
        · exact ⟨by rw [hw]; trivial, fun _ => hj⟩
      | client k =>
        show ClientPcAt k s (s.client k)
        rw [hclient k]
        trivial
    · intro s t o s' _ hI _ _ hs
      exact step_sound hI (hM ▸ hs)
    · intro s s' t u htu hI _ _ hG
      cases t with
      | worker =>
        cases u with
        | worker => exact absurd rfl htu
        | client j => exact workerAt_frame (hI .worker) hG
      | client k =>
        cases u with
        | worker => exact clientAt_frame_worker (hI (.client k)) hG
        | client j => exact clientAt_frame_client (hI (.client k)) hG (by simpa using htu)
  exact hall.1 t

theorem fresh_at {permit : State κ T E → Thread κ → Oracle κ T E → Prop}
    (h : Reachable (freshHandler κ T E) permit s) (t : Thread κ) : At t s := by
  refine reachable_at_of_idle rfl ?_ h t
  rintro s rfl
  exact ⟨fun _ => rfl, .inl rfl⟩

theorem started_at {policy : AsyncSchedulingPolicy}
    {permit : State κ T E → Thread κ → Oracle κ T E → Prop}
    (h : Reachable (startedHandler κ T E policy) permit s) (t : Thread κ) : At t s := by
  refine reachable_at_of_idle rfl ?_ h t
  rintro s ⟨params, pauseThread, previousTime, _, rfl⟩
  exact ⟨fun _ => rfl, .inr ⟨rfl, rfl⟩⟩

end Steps

end AsyncFunctionHandler
