import RealtimeTools.GoalHandle.Model

/-!
# Outcome requests of several threads

The setters test the flags before they take the mutex and do not test them again under it.  Where
every setter that takes the mutex finds no outcome requested, at most one outcome is requested and it
carries its own result; a setter that comes second because two of them passed the test together
breaks both.
-/

open Interleaving

namespace GoalHandle

variable {κ R F : Type}

/-! ## What a state says about the requests -/

/-- How an event changes the calls that have set the flag of `o`. -/
@[simp] def Event.setters (o : Outcome) (calls : List (κ × Option R)) :
    Event κ R F → List (κ × Option R)
  | .requested k o' result => if o' = o then calls ++ [(k, result)] else calls
  | .withdrawn o' => if o' = o then [] else calls
  | _ => calls

/-- The calls that have stored true into the flag of `o` since it was last cleared, each with the
result pointer passed to it. -/
def State.setters (s : State κ R F) (o : Outcome) : List (κ × Option R) :=
  s.history.foldl (fun calls e => e.setters o calls) []

@[simp] theorem State.setters_record (s : State κ R F) (e : Event κ R F) (o : Outcome) :
    (s.record e).setters o = e.setters o (s.setters o) := by
  simp [setters, record, List.foldl_append]

/-- A requested outcome was set by one call, and `req_result_` is what was passed to that call. -/
def Carries (s : State κ R F) : Prop :=
  ∀ o, if s.handle.requested o = true then ∃ k, s.setters o = [(k, s.handle.reqResult)]
    else s.setters o = []

structure Requests (s : State κ R F) : Prop where
  one : s.handle.OneRequest
  carries : Carries s

def NoRequest (h : Handle R F) : Prop := ∀ o, h.requested o = false

/-- The flags, the stored result and the calls behind them are the same. -/
structure SameRequests (s s' : State κ R F) : Prop where
  requested : ∀ o, s'.handle.requested o = s.handle.requested o
  reqResult : s'.handle.reqResult = s.handle.reqResult
  setters : ∀ o, s'.setters o = s.setters o

variable {s s' : State κ R F} {k : κ} {t u : Actor κ}

theorem Requests.same (h : Requests s) (hs : SameRequests s s') : Requests s' := by
  refine ⟨fun o o' ho ho' => ?_, fun o => ?_⟩
  · rw [hs.requested] at ho ho'
    exact h.one o o' ho ho'
  · rw [hs.requested, hs.reqResult, hs.setters]
    exact h.carries o

theorem Requests.setters_eq_nil (h : Requests s) (hn : NoRequest s.handle) (o : Outcome) :
    s.setters o = [] := by
  have hc := h.carries o
  rwa [if_neg (by rw [hn o]; exact Bool.false_ne_true)] at hc

/-- The store of a flag, with no outcome requested and the result in place. -/
theorem Requests.store {o : Outcome} {result : Option R} (h : Requests s)
    (hn : NoRequest s.handle) (hr : s.handle.reqResult = result)
    (hflags : ∀ o', s'.handle.requested o' = if o' = o then true else s.handle.requested o')
    (hresult : s'.handle.reqResult = s.handle.reqResult)
    (hset : ∀ o', s'.setters o' = (Event.requested k o result : Event κ R F).setters o' (s.setters o')) :
    Requests s' := by
  have honly : ∀ o', s'.handle.requested o' = true → o' = o := by
    intro o' ho'
    by_contra hne
    rw [hflags, if_neg hne, hn o'] at ho'
    exact Bool.false_ne_true ho'
  refine ⟨fun o₁ o₂ h₁ h₂ => (honly o₁ h₁).trans (honly o₂ h₂).symm, fun o' => ?_⟩
  rw [hset, h.setters_eq_nil hn]
  by_cases ho' : o' = o
  · subst ho'
    rw [if_pos (by rw [hflags, if_pos rfl])]
    exact ⟨k, by simp [hresult, hr]⟩
  · rw [if_neg fun ht => ho' (honly o' ht)]
    simp [Ne.symm ho']

/-- The store of false into a flag. -/
theorem Requests.withdraw {o : Outcome} (h : Requests s)
    (hflags : ∀ o', s'.handle.requested o' = if o' = o then false else s.handle.requested o')
    (hresult : s'.handle.reqResult = s.handle.reqResult)
    (hset : ∀ o', s'.setters o' = (Event.withdrawn o : Event κ R F).setters o' (s.setters o')) :
    Requests s' := by
  have hkept : ∀ o', s'.handle.requested o' = true → s.handle.requested o' = true := by
    intro o' ho'
    rw [hflags] at ho'
    split at ho'
    · exact absurd ho' Bool.false_ne_true
    · exact ho'
  refine ⟨fun o₁ o₂ h₁ h₂ => h.one o₁ o₂ (hkept o₁ h₁) (hkept o₂ h₂), fun o' => ?_⟩
  rw [hflags, hresult, hset]
  by_cases ho' : o' = o
  · simp [ho']
  · have hc := h.carries o'
    simpa [ho', Ne.symm ho'] using hc

/-! ## Assertions at the program points -/

def Owns (t : Actor κ) (s : State κ R F) : Prop := s.mutex = some t

def RunAt (s : State κ R F) : Prop :=
  match s.run with
  | .idle | .testValid | .lock => True
  | _ => Owns .nonRealtime s

def SetAt (k : κ) (result : Option R) (s : State κ R F) : RequestPc → Prop
  | .storeResult => Owns (.user k) s ∧ NoRequest s.handle
  | .storeRequest => Owns (.user k) s ∧ NoRequest s.handle ∧ s.handle.reqResult = result
  | .unlock => Owns (.user k) s
  | _ => True

def ExecuteAt (k : κ) (s : State κ R F) : ExecutePc → Prop
  | .storeExecute | .unlock => Owns (.user k) s
  | _ => True

def FeedbackAt (k : κ) (s : State κ R F) : FeedbackPc → Prop
  | .tryLock => True
  | _ => Owns (.user k) s

def UserPcAt (k : κ) (s : State κ R F) : UserPc R F → Prop
  | .idle => True
  | .execute pc => ExecuteAt k s pc
  | .set _ result pc => SetAt k result s pc
  | .setFeedback _ pc | .trySetFeedback pc => FeedbackAt k s pc

def At : Actor κ → State κ R F → Prop
  | .nonRealtime, s => RunAt s
  | .actionClient, _ => True
  | .user k, s => UserPcAt k s (s.user k)

/-- `u` is where it was. -/
def Stays (u : Actor κ) (s s' : State κ R F) : Prop :=
  match u with
  | .nonRealtime => s'.run = s.run
  | .actionClient => True
  | .user k => s'.user k = s.user k

/-- One step of `t`: the others stay where they are, and the requests change only under the mutex. -/
structure Step (t : Actor κ) (s s' : State κ R F) : Prop where
  others : ∀ u, u ≠ t → Stays u s s'
  mutex : MutexStep t s.mutex s'.mutex
  data : Owns t s ∨ SameRequests s s'

theorem At.frame (h : At t s) (htu : t ≠ u) (hs : Step u s s') : At t s' := by
  have howns : Owns t s → Owns t s' := hs.mutex.owner_kept htu
  have hsame : Owns t s → SameRequests s s' := fun hown =>
    hs.data.resolve_left fun hu => htu (Option.some.inj (hown.symm.trans hu))
  have hnone : Owns t s → NoRequest s.handle → NoRequest s'.handle := fun hown hn o =>
    ((hsame hown).requested o).trans (hn o)
  cases t with
  | nonRealtime =>
    have hpc : s'.run = s.run := hs.others _ htu
    simp only [At, RunAt, hpc] at h ⊢
    cases hr : s.run <;> simp only [hr] at h <;> first | trivial | exact howns h
  | actionClient => trivial
  | user k =>
    have hpc : s'.user k = s.user k := hs.others _ htu
    simp only [At, hpc] at h ⊢
    cases hu : s.user k with
    | idle => trivial
    | execute pc =>
      rw [hu] at h
      cases pc <;> first | trivial | exact howns h
    | set o result pc =>
      rw [hu] at h
      cases pc with
      | storeResult => exact ⟨howns h.1, hnone h.1 h.2⟩
      | storeRequest => exact ⟨howns h.1, hnone h.1 h.2.1, (hsame h.1).reqResult.trans h.2.2⟩
      | unlock => exact howns h
      | _ => trivial
    | setFeedback feedback pc | trySetFeedback pc =>
      rw [hu] at h
      cases pc <;> first | trivial | exact howns h

/-! ## Every step keeps the assertions -/

/-- A setter that takes the mutex finds no outcome requested. -/
def findsFree (s : State κ R F) : Actor κ → Bool
  | .user k =>
      match s.user k with
      | .set _ _ .lock => !s.handle.reqAbort && !s.handle.reqCancel && !s.handle.reqSucceed
      | _ => true
  | _ => true

def SettersFindFree (s : State κ R F) (t : Actor κ) (_ : Oracle R F) : Prop := findsFree s t = true

instance (s : State κ R F) (t : Actor κ) (a : Oracle R F) : Decidable (SettersFindFree s t a) :=
  inferInstanceAs (Decidable (_ = true))

theorem noRequest_of_findsFree {o : Outcome} {result : Option R} {a : Oracle R F}
    (h : SettersFindFree s (.user k) a) (hpc : s.user k = .set o result .lock) :
    NoRequest s.handle := by
  simp only [SettersFindFree, findsFree, hpc, Bool.and_eq_true, Bool.not_eq_true'] at h
  intro o
  cases o with
  | abort => exact h.1.1
  | cancel => exact h.1.2
  | succeed => exact h.2

abbrev Sound (t : Actor κ) (s s' : State κ R F) : Prop := OwnStep At Requests Step t s s'

/-- A step of `runNonRealtime` that leaves the requests alone. -/
theorem sound_of_run (hJ : Requests s) (hat : RunAt s')
    (hmutex : MutexStep .nonRealtime s.mutex s'.mutex) (huser : s'.user = s.user)
    (hsame : SameRequests s s') : Sound .nonRealtime s s' where
  own := hat
  shared := hJ.same hsame
  guarantee :=
    { others := fun u hu => by
        cases u with
        | nonRealtime => exact absurd rfl hu
        | actionClient => trivial
        | user k => exact congrFun huser k
      mutex := hmutex
      data := .inr hsame }

/-- Every program point of `runNonRealtime` is one where it may own the mutex. -/
theorem Owns.runAt (hown : Owns .nonRealtime s) : RunAt s := by
  unfold RunAt
  split <;> trivial

theorem callGoal_sound {f : Goal R F → Option (Goal R F)} {next : RunPc} (hJ : Requests s)
    (hown : Owns .nonRealtime s) : Sound .nonRealtime s (callGoal s f next) := by
  have hown' : Owns .nonRealtime (callGoal s f next) := by
    unfold callGoal
    split <;> exact hown
  apply sound_of_run hJ hown'.runAt
  all_goals unfold callGoal; split
  · exact .keep _
  · exact .keep _
  · rfl
  · rfl
  · exact ⟨fun _ => rfl, rfl, fun _ => rfl⟩
  · exact ⟨fun _ => rfl, rfl, fun _ => rfl⟩

theorem runNonRealtime_sound (hat : RunAt s) (hJ : Requests s)
    (h : runNonRealtime s = some s') : Sound .nonRealtime s s' := by
  unfold RunAt at hat
  unfold runNonRealtime at h
  cases hpc : s.run <;> simp only [hpc] at hat h
  case idle =>
    obtain rfl := Option.some.inj h
    exact sound_of_run hJ trivial (.keep _) rfl ⟨fun _ => rfl, rfl, fun _ => rfl⟩
  case testValid =>
    obtain rfl := Option.some.inj h
    refine sound_of_run hJ ?_ (.keep _) rfl ⟨fun _ => rfl, rfl, fun _ => rfl⟩
    unfold RunAt
    cases s.handle.valid <;> trivial
  case lock =>
    obtain ⟨hm, h⟩ := Option.ite_none_right_eq_some.mp h
    obtain rfl := Option.some.inj h
    exact sound_of_run hJ rfl (hm ▸ .acquire) rfl ⟨fun _ => rfl, rfl, fun _ => rfl⟩
  case execute | finish o =>
    obtain rfl := Option.some.inj h
    exact callGoal_sound hJ hat
  case storeRequest o =>
    obtain rfl := Option.some.inj h
    refine ⟨Owns.runAt hat, ?_, ?_⟩
    · exact hJ.withdraw (fun o' => Handle.requested_setRequested _ false o o')
        (Handle.reqResult_setRequested _ false o) (fun o' => State.setters_record _ _ o')
    · refine ⟨fun u hu => ?_, .keep _, .inl hat⟩
      cases u with
      | nonRealtime => exact absurd rfl hu
      | actionClient => trivial
      | user k => rfl
  case publishFeedback =>
    split at h
    · obtain rfl := Option.some.inj h
      exact sound_of_run hJ hat (.keep _) rfl
        ⟨fun _ => rfl, rfl, fun o => State.setters_record _ _ o⟩
    · cases h
  case unlock =>
    obtain rfl := Option.some.inj h
    have hmutex : s.mutex = some .nonRealtime := hat
    exact sound_of_run hJ trivial (hmutex ▸ .release) rfl ⟨fun _ => rfl, rfl, fun _ => rfl⟩
  all_goals
    obtain rfl := Option.some.inj h
    exact sound_of_run hJ (Owns.runAt hat) (.keep _) rfl ⟨fun _ => rfl, rfl, fun _ => rfl⟩

section Steps

variable [DecidableEq κ] {a : Oracle R F}

/-- A step of user `k` that moves `k` and leaves the requests alone. -/
theorem sound_of_goto {pc : UserPc R F} (hJ : Requests s)
    (huser : s'.user = Function.update s.user k pc) (hpc : UserPcAt k s' pc)
    (hmutex : MutexStep (.user k) s.mutex s'.mutex) (hrun : s'.run = s.run)
    (hsame : SameRequests s s') : Sound (.user k) s s' where
  own := by
    show UserPcAt k s' (s'.user k)
    rw [huser, Function.update_self]
    exact hpc
  shared := hJ.same hsame
  guarantee :=
    { others := fun u hu => by
        cases u with
        | nonRealtime => exact hrun
        | actionClient => trivial
        | user j =>
          show s'.user j = s.user j
          rw [huser, Function.update_of_ne (by simpa using hu)]
      mutex := hmutex
      data := .inr hsame }

/-- Returning early, with the mutex left as it is. -/
theorem sound_of_return {result : Option Bool} (hJ : Requests s) :
    Sound (.user k) s ((s.goto k .idle).record (.returned k result)) :=
  sound_of_goto hJ rfl trivial (.keep _) rfl ⟨fun _ => rfl, rfl, fun o => State.setters_record _ _ o⟩

/-- Releasing the mutex on the way out. -/
theorem sound_of_unlock {result : Option Bool} (hJ : Requests s) (hown : Owns (.user k) s) :
    Sound (.user k) s (({ s with mutex := none }.goto k .idle).record (.returned k result)) := by
  have hmutex : s.mutex = some (.user k) := hown
  exact sound_of_goto hJ rfl trivial (hmutex ▸ .release) rfl
    ⟨fun _ => rfl, rfl, fun o => State.setters_record _ _ o⟩

theorem set_sound {o : Outcome} {result : Option R} {pc : RequestPc} (hat : SetAt k result s pc)
    (hJ : Requests s) (hfree : pc = .lock → NoRequest s.handle)
    (h : set s k o result pc = some s') : Sound (.user k) s s' := by
  cases pc with
  | loadExecute | loadSucceed | loadAbort | loadCancel =>
    simp only [set] at h
    split at h
    · obtain rfl := Option.some.inj h
      exact sound_of_goto hJ rfl trivial (.keep _) rfl ⟨fun _ => rfl, rfl, fun _ => rfl⟩
    · obtain rfl := Option.some.inj h
      exact sound_of_return hJ
  | lock =>
    obtain ⟨hm, h⟩ := Option.ite_none_right_eq_some.mp h
    obtain rfl := Option.some.inj h
    exact sound_of_goto hJ rfl ⟨rfl, hfree rfl⟩ (hm ▸ .acquire) rfl
      ⟨fun _ => rfl, rfl, fun _ => rfl⟩
  | storeResult =>
    obtain rfl := Option.some.inj h
    -- No outcome is requested yet, so nobody relies on the old result.
    have hset : ∀ o, s.setters o = [] := hJ.setters_eq_nil hat.2
    refine ⟨?_, ⟨hJ.one, fun o' => ?_⟩, ?_⟩
    · show UserPcAt k _ (Function.update s.user k _ k)
      rw [Function.update_self]
      exact ⟨hat.1, hat.2, rfl⟩
    · have hn : ¬ s.handle.requested o' = true := by rw [hat.2 o']; exact Bool.false_ne_true
      show if s.handle.requested o' = true then _ else s.setters o' = []
      rw [if_neg hn]
      exact hset o'
    · refine ⟨fun u hu => ?_, .keep _, .inl hat.1⟩
      cases u with
      | nonRealtime => rfl
      | actionClient => trivial
      | user j => exact Function.update_of_ne (by simpa using hu) _ _
  | storeRequest =>
    obtain rfl := Option.some.inj h
    refine ⟨?_, ?_, ?_⟩
    · show UserPcAt k _ (Function.update s.user k _ k)
      rw [Function.update_self]
      exact hat.1
    · exact hJ.store (k := k) hat.2.1 hat.2.2
        (fun o' => Handle.requested_setRequested _ true o o')
        (Handle.reqResult_setRequested _ true o) (fun o' => State.setters_record _ _ o')
    · refine ⟨fun u hu => ?_, .keep _, .inl hat.1⟩
      cases u with
      | nonRealtime => rfl
      | actionClient => trivial
      | user j => exact Function.update_of_ne (by simpa using hu) _ _
  | unlock =>
    obtain rfl := Option.some.inj h
    exact sound_of_unlock hJ hat

theorem execute_sound {pc : ExecutePc} (hat : ExecuteAt k s pc) (hJ : Requests s)
    (h : execute s k pc = some s') : Sound (.user k) s s' := by
  cases pc with
  | loadSucceed | loadAbort | loadCancel =>
    simp only [execute] at h
    split at h
    · obtain rfl := Option.some.inj h
      exact sound_of_goto hJ rfl trivial (.keep _) rfl ⟨fun _ => rfl, rfl, fun _ => rfl⟩
    · obtain rfl := Option.some.inj h
      exact sound_of_return hJ
  | lock =>
    obtain ⟨hm, h⟩ := Option.ite_none_right_eq_some.mp h
    obtain rfl := Option.some.inj h
    exact sound_of_goto hJ rfl rfl (hm ▸ .acquire) rfl ⟨fun _ => rfl, rfl, fun _ => rfl⟩
  | storeExecute =>
    obtain rfl := Option.some.inj h
    exact sound_of_goto hJ rfl hat (.keep _) rfl ⟨fun _ => rfl, rfl, fun _ => rfl⟩
  | unlock =>
    obtain rfl := Option.some.inj h
    exact sound_of_unlock hJ hat

/-- `try_to_lock`, and what follows where it fails and where it succeeds. -/
theorem tryLock_sound {pc : UserPc R F} {b : Bool} (hJ : Requests s)
    (hpc : ∀ s' : State κ R F, Owns (.user k) s' → UserPcAt k s' pc)
    (h : (let (ownsLock, mutex) := s.mutex.tryLock (.user k) b
      let s := { s with mutex }
      if ownsLock then some (s.goto k pc)
      else some ((s.goto k .idle).record (.returned k (some false)))) = some s') :
    Sound (.user k) s s' := by
  rcases Mutex.tryLock_cases s.mutex (.user k) b with ⟨hm, he⟩ | he
  · simp only [he, if_true, Option.some.injEq] at h
    subst h
    exact sound_of_goto hJ rfl (hpc _ rfl) (hm ▸ .acquire) rfl
      ⟨fun _ => rfl, rfl, fun _ => rfl⟩
  · simp only [he, Bool.false_eq_true, if_false, Option.some.injEq] at h
    subst h
    exact sound_of_return hJ

theorem storeFeedback_sound {pc : UserPc R F} {feedback : Option (FeedbackPtr F)}
    (hJ : Requests s) (hpc : ∀ s' : State κ R F, Owns (.user k) s' → UserPcAt k s' pc)
    (hown : Owns (.user k) s) : Sound (.user k) s ((storeFeedback s k feedback).goto k pc) :=
  sound_of_goto hJ rfl (hpc _ hown) (.keep _) rfl
    ⟨fun _ => rfl, rfl, fun o => State.setters_record _ _ o⟩

theorem setFeedback_sound {feedback : Option (FeedbackPtr F)} {pc : FeedbackPc}
    (hat : FeedbackAt k s pc) (hJ : Requests s) (h : setFeedback s k a feedback pc = some s') :
    Sound (.user k) s s' := by
  cases pc with
  | tryLock =>
    have hnext : ∀ s' : State κ R F, Owns (.user k) s' →
        UserPcAt k s' (.setFeedback feedback .storeFeedback) := fun _ hown => hown
    exact tryLock_sound hJ hnext h
  | update => cases h
  | storeFeedback =>
    obtain rfl := Option.some.inj h
    exact storeFeedback_sound hJ (fun _ hown => hown) hat
  | unlock =>
    obtain rfl := Option.some.inj h
    exact sound_of_unlock hJ hat

theorem trySetFeedback_sound {pc : FeedbackPc} (hpc : s.user k = .trySetFeedback pc)
    (hat : FeedbackAt k s pc) (hJ : Requests s) (h : trySetFeedback s k a pc = some s') :
    Sound (.user k) s s' := by
  cases pc with
  | tryLock =>
    have hnext : ∀ s' : State κ R F, Owns (.user k) s' →
        UserPcAt k s' (.trySetFeedback .update) := fun _ hown => hown
    exact tryLock_sound hJ hnext h
  | update =>
    simp only [trySetFeedback] at h
    split at h
    · obtain rfl := Option.some.inj h
      -- The callback goes on; the user stays inside it.
      refine sound_of_goto hJ (Function.update_eq_self k s.user).symm ?_ (.keep _) rfl
        ⟨fun _ => rfl, rfl, fun _ => rfl⟩
      rw [hpc]
      exact hat
    · obtain rfl := Option.some.inj h
      exact sound_of_goto hJ rfl hat (.keep _) rfl ⟨fun _ => rfl, rfl, fun _ => rfl⟩
  | storeFeedback =>
    obtain rfl := Option.some.inj h
    exact storeFeedback_sound hJ (fun _ hown => hown) hat
  | unlock =>
    obtain rfl := Option.some.inj h
    exact sound_of_unlock hJ hat

omit [DecidableEq κ] in
theorem Call.entry_at (call : Call R F) : UserPcAt k s call.entry := by
  cases call <;> trivial

theorem userStep_sound (hat : At (.user k) s) (hJ : Requests s)
    (hfree : ∀ o result, s.user k = .set o result .lock → NoRequest s.handle)
    (h : userStep s k a = some s') : Sound (.user k) s s' := by
  unfold At at hat
  unfold userStep at h
  cases hpc : s.user k with
  | idle =>
    simp only [hpc, Option.some.injEq] at h
    subst h
    exact sound_of_goto hJ rfl (Call.entry_at a.call) (.keep _) rfl
      ⟨fun _ => rfl, rfl, fun o => State.setters_record _ _ o⟩
  | execute pc =>
    simp only [hpc] at hat h
    exact execute_sound hat hJ h
  | set o result pc =>
    simp only [hpc] at hat h
    exact set_sound hat hJ (fun hlock => hfree o result (hlock ▸ hpc)) h
  | setFeedback feedback pc =>
    simp only [hpc] at hat h
    exact setFeedback_sound hat hJ h
  | trySetFeedback pc =>
    simp only [hpc] at hat h
    exact trySetFeedback_sound hpc hat hJ h

theorem step_sound (hI : ∀ t, At t s) (hJ : Requests s) (hp : SettersFindFree s t a)
    (h : step t a s = some s') : Sound t s s' := by
  cases t with
  | nonRealtime => exact runNonRealtime_sound (hI .nonRealtime) hJ h
  | actionClient =>
    obtain rfl := Option.some.inj h
    have hsame : SameRequests s { s with handle := s.handle.clientCancel } :=
      ⟨fun _ => rfl, rfl, fun _ => rfl⟩
    refine ⟨trivial, hJ.same hsame, fun u hu => ?_, .keep _, .inr hsame⟩
    cases u with
    | nonRealtime => rfl
    | actionClient => trivial
    | user k => rfl
  | user k =>
    exact userStep_sound (hI (.user k)) hJ (fun o result hpc => noRequest_of_findsFree hp hpc) h

theorem reachable_requests (h : Reachable (goalHandle κ R F) SettersFindFree s) :
    (∀ t, At t s) ∧ Requests s := by
  refine h.rely_guarantee (I := At) (J := Requests) (G := Step) ?_ ?_ ?_
  · rintro s ⟨gh, content, rfl⟩
    have hnone : NoRequest (initial gh content : State κ R F).handle := fun o => by cases o <;> rfl
    refine ⟨fun t => by cases t <;> trivial, fun o o' ho _ => ?_, fun o => ?_⟩
    · rw [hnone o] at ho
      exact absurd ho Bool.false_ne_true
    · rw [if_neg (by rw [hnone o]; exact Bool.false_ne_true)]
      rfl
  · intro s t a s' _ hI hJ hp hs
    exact step_sound hI hJ hp hs
  · intro s s' t u htu hI _ _ hG
    exact (hI t).frame htu hG

/-- **One outcome with its own result.**  In every run in which each setter that takes the mutex
finds no outcome requested, at most one outcome is requested in every state, exactly one call has set
its flag, and `req_result_` is the pointer passed to that call. -/
theorem requested_carries_result (h : Reachable (goalHandle κ R F) SettersFindFree s) :
    (∀ o o', s.handle.requested o = true → s.handle.requested o' = true → o = o') ∧
      ∀ o, s.handle.requested o = true → ∃ k, s.setters o = [(k, s.handle.reqResult)] := by
  have hJ := (reachable_requests h).2
  refine ⟨hJ.one, fun o ho => ?_⟩
  have hc := hJ.carries o
  rwa [if_pos ho] at hc

end Steps

/-! ## Two users -/

def started : State Bool Nat Unit := initial (some ⟨.accepted, [], []⟩) ()

/-- `execute` from one user. -/
def executeRun : List (Actor Bool × Oracle Nat Unit) :=
  List.replicate 7 (.user false, { call := .execute })

/-- After `execute`, one user asks for success and the request stays pending. -/
theorem requested_carries_result_succeed :
    ∃ s : State Bool Nat Unit, Reachable (goalHandle Bool Nat Unit) SettersFindFree s ∧
      s.mutex = none ∧ s.handle.reqSucceed = true ∧
      ∃ k, s.setters .succeed = [(k, s.handle.reqResult)] := by
  obtain ⟨s, hs, hp⟩ := exists_reachable_of_exec (goalHandle Bool Nat Unit) SettersFindFree
    (executeRun ++ List.replicate 9 (.user true, { call := .set .succeed (some 1) }))
    started (fun s => s.mutex = none ∧ s.handle.reqSucceed) ⟨_, _, rfl⟩ (by decide)
  obtain ⟨hm, hr⟩ : s.mutex = none ∧ s.handle.reqSucceed = true := by simpa using hp
  exact ⟨s, hs, hm, hr, (requested_carries_result hs).2 .succeed hr⟩

/-- Both users pass the test before either takes the mutex: success and abortion are both requested,
and the result stored is the one meant for the abortion. -/
theorem two_outcomes_requested :
    ∃ s : State Bool Nat Unit, Reachable (goalHandle Bool Nat Unit) anyStep s ∧
      s.mutex = none ∧ s.handle.reqSucceed = true ∧ s.handle.reqAbort = true ∧
      s.setters .succeed = [(true, some 1)] ∧ s.handle.reqResult = some 2 := by
  let succeed : Actor Bool × Oracle Nat Unit := (.user true, { call := .set .succeed (some 1) })
  let abort : Actor Bool × Oracle Nat Unit := (.user false, { call := .set .abort (some 2) })
  obtain ⟨s, hs, hp⟩ := exists_reachable_of_exec (goalHandle Bool Nat Unit) anyStep
    (executeRun ++ List.replicate 5 succeed ++ List.replicate 5 abort ++
      List.replicate 4 succeed ++ List.replicate 4 abort)
    started
    (fun s => s.mutex = none ∧ s.handle.reqSucceed ∧ s.handle.reqAbort ∧
      s.setters .succeed = [(true, some 1)] ∧ s.handle.reqResult = some 2) ⟨_, _, rfl⟩ (by decide)
  exact ⟨s, hs, by simpa using hp⟩

end GoalHandle
