import RealtimeTools.AsyncHandler.Steps

/-!
# What one step of the worker does

The counterpart of `ClientEffect`: every step of the worker with its program points, the guard it ran
under, and what it does to the members and the history.
-/

open Interleaving

namespace AsyncFunctionHandler

variable {κ T E : Type} {s s' : State κ T E} {o : Oracle κ T E}

/-- The three places where the worker waits on `async_callback_condition_`. -/
inductive WaitSite
  | prologue
  | loop (site : Loop)
  deriving DecidableEq

namespace WaitSite

def pc : WaitSite → WaitPc → WorkerPc T E
  | .prologue, pc => .prologue (.wait pc)
  | .loop site, pc => .loop site (.wait pc)

/-- Where the worker is once the wait has returned. -/
def exit : WaitSite → WorkerPc T E
  | .prologue => .prologue .unlock
  | .loop site => .loop site .testStop

/-- The loop whose predicate the wait has. -/
def kind : WaitSite → Loop
  | .prologue => .detached
  | .loop site => site

end WaitSite

/-- What follows the store of the callback's result. -/
def Loop.afterStore : Loop → LoopPc T E
  | .synchronized => .clear true
  | .detached => .schedule

/-- What follows a stop test that fails. -/
def Loop.afterTest : Loop → LoopPc T E
  | .synchronized => .invoke
  | .detached => .measure

/-- Moves of the worker that only read. -/
inductive QuietMove (s : State κ T E) : WorkerPc T E → WorkerPc T E → Prop
  | startSynchronized (hp : s.params.schedulingPolicy = .synchronized) :
      QuietMove s .start (.loop .synchronized .head)
  | startDetached (hp : s.params.schedulingPolicy ≠ .synchronized) :
      QuietMove s .start (.prologue .testClock)
  | testClock (hc : s.params.clock = true) :
      QuietMove s (.prologue .testClock) (.prologue .testRate)
  | testRate (hr : s.params.execRate ≠ 0) :
      QuietMove s (.prologue .testRate) (.prologue .loadPause)
  | loadPaused (hp : s.pauseThread = true) :
      QuietMove s (.prologue .loadPause) (.prologue (.wait .lock))
  | loadUnpaused (hp : s.pauseThread = false) :
      QuietMove s (.prologue .loadPause) (.prologue .readPrevious)
  | sleepPeriod : QuietMove s (.prologue .sleepPeriod) (.prologue .readSteady)
  | readSteady : QuietMove s (.prologue .readSteady) (.loop .detached .head)
  | leave (site : Loop) (hs : s.stopAsyncCallback = true) :
      QuietMove s (.loop site .head) .finished
  | enter (site : Loop) (hs : s.stopAsyncCallback = false) :
      QuietMove s (.loop site .head) (.loop site (.wait .lock))
  | firstTrue (site : WaitSite) (hr : ¬ Resting site.kind s) :
      QuietMove s (site.pc .loadFirst) site.exit
  | firstFalse (site : WaitSite) (hr : Resting site.kind s) :
      QuietMove s (site.pc .loadFirst) (site.pc .loadStop)
  | stopTrue (site : WaitSite) (hs : s.stopAsyncCallback = true) :
      QuietMove s (site.pc .loadStop) site.exit
  | stopFalse (site : WaitSite) (hs : s.stopAsyncCallback = false) :
      QuietMove s (site.pc .loadStop) (site.pc .block)
  | stopping (site : Loop) (hs : s.stopAsyncCallback = true) :
      QuietMove s (.loop site .testStop) (.loop site (.clear false))
  | running (site : Loop) (hs : s.stopAsyncCallback = false) :
      QuietMove s (.loop site .testStop) (.loop site site.afterTest)
  | schedule : QuietMove s (.loop .detached .schedule) (.loop .detached .sleepUntil)
  | sleepUntil : QuietMove s (.loop .detached .sleepUntil) (.loop .detached (.clear true))

/-- The callback has been invoked in the current cycle. -/
def WorkerPc.hasInvoked : WorkerPc T E → Bool
  | .loop _ .inCallback | .loop _ (.storeReturn _) | .loop _ (.storeException _)
  | .loop _ .schedule | .loop _ .sleepUntil | .loop _ (.clear true) => true
  | _ => false

theorem QuietMove.hasInvoked {pc pc' : WorkerPc T E} (h : QuietMove s pc pc') :
    pc'.hasInvoked = pc.hasInvoked := by
  cases h with
  | firstTrue site _ | firstFalse site _ | stopTrue site _ | stopFalse site _ | running site _ =>
    cases site <;> rfl
  | _ => rfl

theorem owns_of_hasInvoked (hat : At .worker s) (h : s.worker.hasInvoked = true) :
    Owns .worker s := by
  have hpc : WorkerPcAt s s.worker := hat.1
  unfold WorkerPc.hasInvoked at h
  split at h <;> rename_i hw
  · rw [hw] at hpc
    exact hpc.1
  · rw [hw] at hpc
    exact hpc.1
  · rw [hw] at hpc
    exact hpc.1
  · rw [hw] at hpc
    exact hpc.1
  · rw [hw] at hpc
    exact hpc.1
  · rw [hw] at hpc
    exact hpc.1
  · cases h

/-! ## The worker follows its policy -/

section Policy

variable {policy : AsyncSchedulingPolicy}

/-- The worker runs the function its policy calls for. -/
def WorkerPc.Follows (policy : AsyncSchedulingPolicy) : WorkerPc T E → Prop
  | .start | .finished => True
  | .prologue _ | .loop .detached _ => policy ≠ .synchronized
  | .loop .synchronized _ => policy = .synchronized

theorem follows_of_loop {site : Loop} {pc : LoopPc T E} (pc' : LoopPc T E)
    (h : (WorkerPc.loop site pc).Follows policy) : (WorkerPc.loop site pc').Follows policy := by
  cases site <;> exact h

theorem follows_of_wait {site : WaitSite} {pc : WaitPc} (pc' : WaitPc)
    (h : (site.pc pc : WorkerPc T E).Follows policy) :
    (site.pc pc' : WorkerPc T E).Follows policy := by
  cases site with
  | prologue => exact h
  | loop site => exact follows_of_loop _ h

theorem follows_exit {site : WaitSite} {pc : WaitPc}
    (h : (site.pc pc : WorkerPc T E).Follows policy) :
    (site.exit : WorkerPc T E).Follows policy := by
  cases site with
  | prologue => exact h
  | loop site => exact follows_of_loop _ h

theorem site_of_follows {site : Loop} {pc : LoopPc T E}
    (h : (WorkerPc.loop site pc).Follows .synchronized) : site = .synchronized := by
  cases site with
  | synchronized => rfl
  | detached => exact absurd rfl h

theorem QuietMove.follows {pc pc' : WorkerPc T E} (h : QuietMove s pc pc')
    (hp : s.params.schedulingPolicy = policy) (hpc : pc.Follows policy) : pc'.Follows policy := by
  cases h with
  | startSynchronized hs => exact hp.symm.trans hs
  | startDetached hs => exact fun hpolicy => hs (hp.trans hpolicy)
  | leave site hs => trivial
  | enter site hs | stopping site hs | running site hs => exact follows_of_loop _ hpc
  | firstTrue site hr => exact follows_exit hpc
  | stopTrue site hs => exact follows_exit hpc
  | firstFalse site hr => exact follows_of_wait _ hpc
  | stopFalse site hs => exact follows_of_wait _ hpc
  | _ => exact hpc

end Policy

/-! ## Effects of a worker step -/

section Effects

variable [DecidableEq κ]

/-- What a step of the worker does to the members, and what it adds to the history. -/
inductive WorkerEffect (s s' : State κ T E) : Prop
  | quiet (hpc : QuietMove s s.worker s'.worker) (hm : s'.toMembers = s.toMembers)
      (hh : s'.history = s.history)
  | fault (hpc : s'.worker = s.worker) (hm : s'.toMembers = s.toMembers)
      (hh : s'.history = s.history)
  | lock (site : WaitSite) (hpc : s.worker = site.pc .lock) (hpc' : s'.worker = site.pc .loadFirst)
      (hfree : s.asyncMtx = none) (hm : s'.toMembers = { s.toMembers with asyncMtx := some .worker })
      (hh : s'.history = s.history)
  | block (site : WaitSite) (hpc : s.worker = site.pc .block) (hpc' : s'.worker = site.pc .blocked)
      (hown : Owns .worker s) (hrest : Resting site.kind s)
      (hm : s'.toMembers = { s.toMembers with
        asyncMtx := none, asyncCallbackCondition := s.asyncCallbackCondition.wait .worker })
      (hh : s'.history = s.history)
  | wake (site : WaitSite) (hpc : s.worker = site.pc .blocked) (hpc' : s'.worker = site.pc .lock)
      (hm : s'.toMembers =
        { s.toMembers with asyncCallbackCondition := s.asyncCallbackCondition.wake .worker })
      (hh : s'.history = s.history)
  | prologueUnlock (hpc : s.worker = .prologue .unlock) (hpc' : s'.worker = .prologue .readPrevious)
      (hown : Owns .worker s) (hm : s'.toMembers = { s.toMembers with asyncMtx := none })
      (hh : s'.history = s.history)
  | readPrevious (now : Time) (hpc : s.worker = .prologue .readPrevious)
      (hpc' : s'.worker = .prologue .sleepPeriod)
      (hm : s'.toMembers = { s.toMembers with previousTime := now }) (hh : s'.history = s.history)
  | measure (now : Time) (hpc : s.worker = .loop .detached .measure)
      (hpc' : s'.worker = .loop .detached .invoke) (hown : Owns .worker s)
      (hm : s'.toMembers = { s.toMembers with
        previousTime := now
        currentCallbackTime := now
        currentCallbackPeriod := now - s.previousTime })
      (hh : s'.history = s.history)
  | invoke (site : Loop) (hpc : s.worker = .loop site .invoke)
      (hpc' : s'.worker = .loop site .inCallback) (hown : Owns .worker s) (hc : Cycling site s)
      (hm : s'.toMembers = s.toMembers)
      (hh : s'.history = s.history ++ [.invoked s.currentCallbackTime s.currentCallbackPeriod])
  | callbackReturned (site : Loop) (value : T) (hpc : s.worker = .loop site .inCallback)
      (hpc' : s'.worker = .loop site (.storeReturn value)) (hown : Owns .worker s)
      (hc : Cycling site s) (hm : s'.toMembers = s.toMembers)
      (hh : s'.history = s.history ++ [.callbackReturned value])
  | callbackThrew (site : Loop) (e : E) (hpc : s.worker = .loop site .inCallback)
      (hpc' : s'.worker = .loop site (.storeException e)) (hown : Owns .worker s)
      (hc : Cycling site s) (hm : s'.toMembers = s.toMembers)
      (hh : s'.history = s.history ++ [.callbackThrew e])
  | storeReturn (site : Loop) (value : T) (hpc : s.worker = .loop site (.storeReturn value))
      (hpc' : s'.worker = .loop site site.afterStore) (hown : Owns .worker s) (hc : Cycling site s)
      (hm : s'.toMembers = { s.toMembers with asyncCallbackReturn := value })
      (hh : s'.history = s.history)
  | storeException (site : Loop) (e : E) (hpc : s.worker = .loop site (.storeException e))
      (hpc' : s'.worker = .loop site site.afterStore) (hown : Owns .worker s) (hc : Cycling site s)
      (hm : s'.toMembers = { s.toMembers with asyncExceptionPtr := some e })
      (hh : s'.history = s.history)
  | clear (site : Loop) (hpc : s.worker = .loop site (.clear true))
      (hpc' : s'.worker = .loop site .unlock) (hown : Owns .worker s) (hc : Cycling site s)
      (hm : s'.toMembers = { s.toMembers with triggerInProgress := false })
      (hh : s'.history = s.history ++ [.cycleEnded])
  | clearStopped (site : Loop) (hpc : s.worker = .loop site (.clear false))
      (hpc' : s'.worker = .loop site .unlock) (hown : Owns .worker s)
      (hm : s'.toMembers = { s.toMembers with triggerInProgress := false })
      (hh : s'.history = s.history)
  | unlock (site : Loop) (hpc : s.worker = .loop site .unlock)
      (hpc' : s'.worker = .loop site .notifyAll) (hown : Owns .worker s)
      (hfree : s.triggerInProgress = false)
      (hm : s'.toMembers = { s.toMembers with asyncMtx := none }) (hh : s'.history = s.history)
  | notifyAll (site : Loop) (hpc : s.worker = .loop site .notifyAll)
      (hpc' : s'.worker = .loop site .head)
      (hm : s'.toMembers =
        { s.toMembers with cycleEndCondition := s.cycleEndCondition.notifyAll })
      (hh : s'.history = s.history)

theorem waitAsync_effect {first : Bool} {pc : WaitPc} (site : WaitSite)
    (h : waitAsync s first site.pc site.exit pc = some s') (hw : s.worker = site.pc pc)
    (hfirst : first = false ↔ Resting site.kind s) (hat : WaitAt site.kind s pc) :
    WorkerEffect s s' := by
  cases pc with
  | lock =>
    obtain ⟨hm, h⟩ := Option.ite_none_right_eq_some.mp h
    obtain rfl := Option.some.inj h
    exact .lock site hw rfl hm rfl rfl
  | loadFirst =>
    obtain rfl := Option.some.inj h
    refine .quiet ?_ rfl rfl
    rw [hw]
    cases hf : first with
    | true => exact .firstTrue site fun hr => nomatch hf.symm.trans (hfirst.mpr hr)
    | false => exact .firstFalse site (hfirst.mp hf)
  | loadStop =>
    obtain rfl := Option.some.inj h
    refine .quiet ?_ rfl rfl
    rw [hw]
    cases hs : s.stopAsyncCallback with
    | true => exact .stopTrue site hs
    | false => exact .stopFalse site hs
  | block =>
    obtain rfl := Option.some.inj h
    exact .block site hw rfl hat.1 hat.2 rfl rfl
  | blocked =>
    obtain rfl := Option.some.inj h
    exact .wake site hw rfl rfl rfl

theorem loopBody_effect {site : Loop} {first : Bool} {pc : LoopPc T E}
    (h : loopBody site first site.afterTest site.afterStore s o pc = some s')
    (hw : s.worker = .loop site pc) (hfirst : first = false ↔ Resting site s)
    (hat : LoopAt site s pc) : WorkerEffect s s' := by
  cases pc with
  | head =>
    simp only [loopBody] at h
    split at h <;> obtain rfl := Option.some.inj h
    · rename_i hs
      exact .quiet (hw ▸ .leave site hs) rfl rfl
    · rename_i hs
      exact .quiet (hw ▸ .enter site (by simpa using hs)) rfl rfl
  | wait pc => exact waitAsync_effect (.loop site) h hw hfirst hat
  | testStop =>
    obtain rfl := Option.some.inj h
    refine .quiet ?_ rfl rfl
    rw [hw]
    cases hs : s.stopAsyncCallback with
    | true => exact .stopping site hs
    | false => exact .running site hs
  | invoke =>
    obtain rfl := Option.some.inj h
    exact .invoke site hw rfl hat.1 hat.2 rfl rfl
  | inCallback =>
    simp only [loopBody] at h
    split at h <;> obtain rfl := Option.some.inj h
    · exact .callbackReturned site _ hw rfl hat.1 hat.2 rfl rfl
    · exact .callbackThrew site _ hw rfl hat.1 hat.2 rfl rfl
  | storeReturn value =>
    obtain rfl := Option.some.inj h
    exact .storeReturn site value hw rfl hat.1 hat.2 rfl rfl
  | storeException e =>
    obtain rfl := Option.some.inj h
    exact .storeException site e hw rfl hat.1 hat.2 rfl rfl
  | clear ran =>
    cases ran with
    | true =>
      obtain rfl := Option.some.inj h
      exact .clear site hw rfl hat.1 hat.2 rfl rfl
    | false =>
      obtain rfl := Option.some.inj h
      exact .clearStopped site hw rfl hat rfl rfl
  | unlock =>
    obtain rfl := Option.some.inj h
    exact .unlock site hw rfl hat.1 hat.2 rfl rfl
  | notifyAll =>
    obtain rfl := Option.some.inj h
    exact .notifyAll site hw rfl rfl rfl
  | measure | schedule | sleepUntil => cases h

theorem detachedPrologue_effect {pc : ProloguePc} (h : detachedPrologue s o pc = some s')
    (hw : s.worker = .prologue pc) (hat : PrologueAt s pc) : WorkerEffect s s' := by
  cases pc with
  | testClock =>
    simp only [detachedPrologue] at h
    split at h <;> obtain rfl := Option.some.inj h
    · rename_i hc
      exact .quiet (hw ▸ .testClock hc) rfl rfl
    · exact .fault rfl rfl rfl
  | testRate =>
    simp only [detachedPrologue] at h
    split at h <;> obtain rfl := Option.some.inj h
    · exact .fault rfl rfl rfl
    · rename_i hr
      exact .quiet (hw ▸ .testRate hr) rfl rfl
  | loadPause =>
    obtain rfl := Option.some.inj h
    refine .quiet ?_ rfl rfl
    rw [hw]
    cases hp : s.pauseThread with
    | true => exact .loadPaused hp
    | false => exact .loadUnpaused hp
  | wait pc => exact waitAsync_effect .prologue h hw (by simp [WaitSite.kind, Resting]) hat
  | unlock =>
    obtain rfl := Option.some.inj h
    exact .prologueUnlock hw rfl hat rfl rfl
  | readPrevious =>
    obtain rfl := Option.some.inj h
    exact .readPrevious o.now hw rfl rfl rfl
  | sleepPeriod =>
    obtain rfl := Option.some.inj h
    exact .quiet (hw ▸ .sleepPeriod) rfl rfl
  | readSteady =>
    obtain rfl := Option.some.inj h
    exact .quiet (hw ▸ .readSteady) rfl rfl

theorem executeDetachedCallback_effect {pc : LoopPc T E}
    (h : executeDetachedCallback s o pc = some s') (hw : s.worker = .loop .detached pc)
    (hat : LoopAt .detached s pc) : WorkerEffect s s' := by
  have hrest : (!s.pauseThread) = false ↔ Resting .detached s := by simp [Resting]
  have hbody : ∀ {pc : LoopPc T E}, s.worker = .loop .detached pc → LoopAt .detached s pc →
      loopBody .detached (!s.pauseThread) (Loop.afterTest .detached) (Loop.afterStore .detached)
        s o pc = some s' → WorkerEffect s s' := fun hw hat h => loopBody_effect h hw hrest hat
  cases pc with
  | measure =>
    obtain rfl := Option.some.inj h
    exact .measure o.now hw rfl hat.1 rfl rfl
  | schedule =>
    simp only [executeDetachedCallback] at h
    split at h <;> obtain rfl := Option.some.inj h
    · exact .quiet (hw ▸ .schedule) rfl rfl
    · exact .fault rfl rfl rfl
  | sleepUntil =>
    obtain rfl := Option.some.inj h
    exact .quiet (hw ▸ .sleepUntil) rfl rfl
  | _ => exact hbody hw hat h

theorem workerStep_effect [Inhabited T] (h : workerStep s o = some s') (hat : At .worker s) :
    WorkerEffect s s' := by
  have hpc : WorkerPcAt s s.worker := hat.1
  unfold workerStep at h
  cases hw : s.worker with
  | start =>
    simp only [hw] at h
    split at h <;> obtain rfl := Option.some.inj h
    · rename_i hp
      exact .quiet (hw ▸ .startSynchronized hp) rfl rfl
    · rename_i hp
      exact .quiet (hw ▸ .startDetached hp) rfl rfl
  | prologue pc =>
    simp only [hw] at h hpc
    exact detachedPrologue_effect h hw hpc
  | loop site pc =>
    simp only [hw] at h hpc
    cases site with
    | synchronized => exact loopBody_effect h hw Iff.rfl hpc
    | detached => exact executeDetachedCallback_effect h hw hpc
  | finished =>
    simp only [hw] at h
    cases h

end Effects

end AsyncFunctionHandler
