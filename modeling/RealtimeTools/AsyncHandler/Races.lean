import RealtimeTools.AsyncHandler.Validity
import RealtimeTools.AsyncHandler.StopRequest
import RealtimeTools.AsyncHandler.Wakeup
import RealtimeTools.Interleaving.DataRace

/-!
# Data races of the handler

`async_mtx_` guards the arguments of the callback completely.  `previous_time_` is written once without
it, by a detached worker before its loop; `async_exception_ptr_` is tested and rethrown without it; and
nothing guards `thread_`.  These are all the races there are, and each of them can be reached.
-/

open Interleaving

namespace AsyncFunctionHandler

variable {κ T E : Type} {s : State κ T E} {k : κ}

/-- The members that are not atomic and change while the handler runs. -/
inductive Member
  /-- `current_callback_time_` and `current_callback_period_`. -/
  | callbackTimes
  | previousTime
  | exceptionPtr
  | thread
  deriving DecidableEq

/-- What the next step of the worker does to a member.  A synchronized callback is given references. -/
def accessWorker : WorkerPc T E → Member → Option Access
  | .loop .synchronized .invoke, .callbackTimes | .loop .synchronized .inCallback, .callbackTimes =>
      some .read
  | .loop .detached .measure, .callbackTimes | .loop .detached .measure, .previousTime
  | .prologue .readPrevious, .previousTime | .loop _ (.storeException _), .exceptionPtr =>
      some .write
  | _, _ => none

/-- What the next step of a client does to a member; `join` changes the thread once it returns. -/
def accessClient (worker : WorkerPc T E) : ClientPc T → Member → Option Access
  | .trigger _ _ .storeTimes, .callbackTimes | .reset _ .storeTimes, .callbackTimes
  | .trigger _ _ .storePrevious, .previousTime | .reset _ .storeException, .exceptionPtr
  | .start .spawn, .thread => some .write
  | .trigger _ _ .loadException, .exceptionPtr | .trigger _ _ .rethrow, .exceptionPtr
  | .trigger _ _ .testRunning, .thread | .wait _ .testRunning, .thread | .pause .testRunning, .thread
  | .stop .testRunning, .thread | .start .testJoinable, .thread | .init _, .thread => some .read
  | .stop .join, .thread => if worker.hasLeft then some .write else none
  | _, _ => none

def access (t : Thread κ) (s : State κ T E) (m : Member) : Option Access :=
  match t with
  | .worker => accessWorker s.worker m
  | .client k => accessClient s.worker (s.client k) m

/-! ## Who owns the mutex -/

theorem owner_of_callbackTimes {t : Thread κ} (hat : At t s)
    (h : (access t s .callbackTimes).isSome) : s.asyncMtx = some t := by
  cases t with
  | worker =>
    have hat : WorkerPcAt s s.worker := hat.1
    simp only [access, accessWorker] at h
    split at h <;> rename_i hpc hm <;> first | cases hm | cases h
    all_goals
      rw [hpc] at hat
      exact hat.1
  | client k =>
    have hat : ClientPcAt k s (s.client k) := hat
    simp only [access, accessClient] at h
    split at h <;> rename_i hpc hm <;> first | cases hm | cases h
    · rw [hpc] at hat
      exact hat.1
    · rw [hpc] at hat
      exact hat

/-- The worker reads the clock before its loop, without the mutex. -/
theorem unguarded_previousTime {t : Thread κ} (hat : At t s) (hnot : s.asyncMtx ≠ some t)
    (h : (access t s .previousTime).isSome) : t = .worker ∧ s.worker = .prologue .readPrevious := by
  cases t with
  | worker =>
    have hat : WorkerPcAt s s.worker := hat.1
    simp only [access, accessWorker] at h
    split at h <;> rename_i hpc hm <;> first | cases hm | cases h
    · rw [hpc] at hat
      exact absurd hat.1 hnot
    · exact ⟨rfl, hpc⟩
  | client k =>
    have hat : ClientPcAt k s (s.client k) := hat
    simp only [access, accessClient] at h
    split at h <;> rename_i hpc hm <;> first | cases hm | cases h
    rw [hpc] at hat
    exact absurd hat hnot

theorem client_previousTime (h : (access (.client k) s .previousTime).isSome) :
    ∃ time period, s.client k = .trigger time period .storePrevious := by
  simp only [access, accessClient] at h
  split at h <;> rename_i hpc hm <;> first | cases hm | cases h
  exact ⟨_, _, hpc⟩

/-- A trigger is about to test or rethrow the exception of the callback. -/
def Inspects (k : κ) (s : State κ T E) : Prop :=
  ∃ time period, s.client k = .trigger time period .loadException ∨
    s.client k = .trigger time period .rethrow

/-- The worker is about to store an exception, or a reset to clear it. -/
def StoresException (s : State κ T E) : Prop :=
  (∃ site e, s.worker = .loop site (.storeException e)) ∨
    ∃ k starting, s.client k = .reset starting .storeException

theorem inspects_of_unguarded {t : Thread κ} (hat : At t s) (hnot : s.asyncMtx ≠ some t)
    (h : (access t s .exceptionPtr).isSome) :
    access t s .exceptionPtr = some .read ∧ ∃ k, t = .client k ∧ Inspects k s := by
  cases t with
  | worker =>
    have hat : WorkerPcAt s s.worker := hat.1
    simp only [access, accessWorker] at h
    split at h <;> rename_i hpc hm <;> first | cases hm | cases h
    rw [hpc] at hat
    exact absurd hat.1 hnot
  | client k =>
    have hat : ClientPcAt k s (s.client k) := hat
    have ha := h
    simp only [access, accessClient] at ha
    split at ha <;> rename_i hpc hm <;> first | cases hm | cases ha
    · rw [hpc] at hat
      exact absurd hat hnot
    · exact ⟨by simp only [access, hpc, accessClient], k, rfl, _, _, .inl hpc⟩
    · exact ⟨by simp only [access, hpc, accessClient], k, rfl, _, _, .inr hpc⟩

theorem storesException_iff :
    StoresException s ↔ ∃ t, access t s .exceptionPtr = some .write := by
  constructor
  · rintro (⟨site, e, hpc⟩ | ⟨k, starting, hpc⟩)
    · exact ⟨.worker, by cases site <;> simp [access, accessWorker, hpc]⟩
    · exact ⟨.client k, by simp [access, accessClient, hpc]⟩
  · rintro ⟨t, ht⟩
    cases t with
    | worker =>
      simp only [access, accessWorker] at ht
      split at ht <;> rename_i hpc hm <;> first | cases hm | cases ht
      exact .inl ⟨_, _, hpc⟩
    | client k =>
      simp only [access, accessClient] at ht
      split at ht <;> rename_i hpc hm <;> try cases hm
      all_goals try cases ht
      exact .inr ⟨k, _, hpc⟩

theorem thread_of_write {t : Thread κ} (hno : ∀ k, NotSettingUp k s)
    (h : access t s .thread = some .write) :
    s.worker = .finished ∧ ∃ k, t = .client k ∧ s.client k = .stop .join := by
  cases t with
  | worker =>
    simp only [access, accessWorker] at h
    split at h <;> rename_i hpc hm <;> first | cases hm | cases h
  | client k =>
    simp only [access, accessClient] at h
    split at h <;> rename_i hpc hm <;> try cases hm
    all_goals try cases h
    · cases hno k .start (by rw [hpc]; rfl)
    · obtain ⟨hleft, _⟩ := Option.ite_none_right_eq_some.mp h
      exact ⟨hasLeft_iff.mp hleft, k, rfl, hpc⟩

theorem client_of_thread {t : Thread κ} (h : (access t s .thread).isSome) : ∃ k, t = .client k := by
  cases t with
  | worker =>
    simp only [access, accessWorker] at h
    split at h <;> rename_i hpc hm <;> first | cases hm | cases h
  | client k => exact ⟨k, rfl⟩

/-! ## Runs -/

/-- A detached worker is about to read the clock; the handler is paused and then resumed up to the store
of the time. -/
def resumedWhileStarting : List (Thread Unit × Oracle Unit Nat Unit) :=
  List.replicate 4 (.worker, { callback := .ok 0 }) ++
    List.replicate 6 (.client (), { call := .pause, callback := .ok 0 }) ++
    List.replicate 8 (.client (), { call := .trigger 1 1, callback := .ok 0 })

end AsyncFunctionHandler
