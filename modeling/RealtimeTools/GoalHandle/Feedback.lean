import RealtimeTools.Interleaving.Observation
import RealtimeTools.GoalHandle.Model

/-!
# Published feedback

`trySetFeedback` lets its callback write the preallocated message in place, and the feedback that is
still pending may be that message.  Both are touched under the mutex only, so what `runNonRealtime`
publishes is what the last successful call has set.  The runs here are observed with a log of what the
feedback calls do.
-/

open Interleaving

namespace GoalHandle

/-! ## The log -/

inductive FeedbackEvent (κ F : Type)
  /-- A call of `setFeedback`, with null or with a message. -/
  | setFeedback (k : κ) (content : Option F)
  | trySetFeedback (k : κ)
  /-- The callback of `k` writes the preallocated message. -/
  | wrote (k : κ) (content : F)
  /-- The callback of `k` returns, and the preallocated message reads `content`. -/
  | callbackReturned (k : κ) (content : F)
  /-- `req_feedback_` is stored. -/
  | stored (k : κ)
  | returned (k : κ) (result : Bool)
  /-- `gh_->publish_feedback` is called with this message. -/
  | published (content : F)
  deriving DecidableEq

variable {κ R F : Type}

namespace FeedbackEvent

def user? : FeedbackEvent κ F → Option κ
  | .setFeedback k _ | .trySetFeedback k | .wrote k _ | .callbackReturned k _ | .stored k
  | .returned k _ => some k
  | .published _ => none

/-- The start of a call of `k`. -/
def BeginsBy (k : κ) : FeedbackEvent κ F → Prop
  | .setFeedback j _ | .trySetFeedback j => j = k
  | _ => False

def Succeeds (e : FeedbackEvent κ F) : Prop := ∃ k, e = .returned k true

end FeedbackEvent

/-- What a step of user `k` shows of the feedback calls. -/
def userFeedbackEvent [DecidableEq κ] (k : κ) (o : Oracle R F) (s : State κ R F) :
    Option (FeedbackEvent κ F) :=
  let refusal := if (s.mutex.tryLock (.user k) o.spuriousFail).1 then none
    else some (.returned k false)
  match s.user k with
  | .idle =>
      match o.call with
      | .setFeedback feedback => some (.setFeedback k (feedback.map s.handle.content))
      | .trySetFeedback => some (.trySetFeedback k)
      | _ => none
  | .setFeedback _ .tryLock | .trySetFeedback .tryLock => refusal
  | .trySetFeedback .update =>
      match o.update with
      | some content => some (.wrote k content)
      | none => some (.callbackReturned k s.handle.preallocatedFeedback)
  | .setFeedback _ .storeFeedback | .trySetFeedback .storeFeedback => some (.stored k)
  | .setFeedback _ .unlock | .trySetFeedback .unlock => some (.returned k true)
  | _ => none

/-- What a step shows of the feedback. -/
def feedbackEvent [DecidableEq κ] (t : Actor κ) (o : Oracle R F) (s : State κ R F) :
    Option (FeedbackEvent κ F) :=
  match t with
  | .nonRealtime =>
      match s.run with
      | .publishFeedback =>
          s.handle.reqFeedback.map fun feedback => .published (s.handle.content feedback)
      | _ => none
  | .actionClient => none
  | .user k => userFeedbackEvent k o s

/-- The message given to `setFeedback` is not the preallocated one. -/
def Call.givesOther : Call R F → Bool
  | .setFeedback (some .preallocated) => false
  | _ => true

def GivesOther (_ : State κ R F) (_ : Actor κ) (o : Oracle R F) : Prop := o.call.givesOther = true

instance (s : State κ R F) (t : Actor κ) (o : Oracle R F) : Decidable (GivesOther s t o) :=
  inferInstanceAs (Decidable (_ = true))

section Calls

variable [DecidableEq κ] {k j : κ} {b e : FeedbackEvent κ F} {own log : List (FeedbackEvent κ F)}

/-- The last call of `k` has begun with `b` and has done `own` since. -/
def LastCall (k : κ) (b : FeedbackEvent κ F) (own log : List (FeedbackEvent κ F)) : Prop :=
  ∃ before since, LastEvent (FeedbackEvent.BeginsBy k) log before b since ∧
    since.filter (fun e => e.user? = some k) = own

/-- The message that the last call of `k` sets; `none` is null. -/
inductive Gives (k : κ) (log : List (FeedbackEvent κ F)) : Option F → Prop
  | setFeedback (content : Option F) {own : List (FeedbackEvent κ F)}
      (h : LastCall k (.setFeedback k content) own log) : Gives k log content
  | trySetFeedback (content : F) {own : List (FeedbackEvent κ F)}
      (h : LastCall k (.trySetFeedback k) own log) (hmem : .callbackReturned k content ∈ own) :
      Gives k log (some content)

theorem LastCall.begin (hb : b.BeginsBy k) : LastCall k b [] (log ++ [b]) :=
  ⟨log, [], .concat_self hb, rfl⟩

theorem LastCall.concat (h : LastCall k b own log) (he : e.user? = some k) (hnot : ¬ e.BeginsBy k) :
    LastCall k b (own ++ [e]) (log ++ [e]) := by
  obtain ⟨before, since, hlast, rfl⟩ := h
  exact ⟨before, since ++ [e], hlast.concat hnot, by simp [he]⟩

theorem LastCall.other (h : LastCall k b own log) {seen : Option (FeedbackEvent κ F)}
    (he : ∀ e, seen = some e → e.user? ≠ some k) : LastCall k b own (log ++ seen.toList) := by
  cases seen with
  | none => rwa [Option.toList_none, List.append_nil]
  | some e =>
    obtain ⟨before, since, hlast, rfl⟩ := h
    have hne := he e rfl
    refine ⟨before, since ++ [e], hlast.concat fun hb => hne ?_, by simp [hne]⟩
    cases e <;> first | exact congrArg some hb | exact hb.elim

/-- A call sets one message. -/
theorem LastCall.not_gives_none {content : F} (h : Gives k log (some content)) :
    ¬ Gives k log none := by
  rintro (⟨_, ⟨before, since, hlast, _⟩⟩)
  generalize hc : some content = content' at h
  cases h with
  | setFeedback _ h' =>
    obtain ⟨before', since', hlast', _⟩ := h'
    obtain ⟨_, he, _⟩ := hlast.unique hlast'
    obtain ⟨_, rfl⟩ : k = k ∧ none = content' := by simpa using he
    cases hc
  | trySetFeedback _ h' _ =>
    obtain ⟨before', since', hlast', _⟩ := h'
    cases (hlast.unique hlast').2.1

end Calls

/-! ## Who owns the mutex -/

/-- The mutex is owned there. -/
def RunPc.inside : RunPc → Bool
  | .idle | .testValid | .lock => false
  | _ => true

def UserPc.inside : UserPc R F → Bool
  | .execute .storeExecute | .execute .unlock => true
  | .set _ _ .storeResult | .set _ _ .storeRequest | .set _ _ .unlock => true
  | .setFeedback _ .storeFeedback | .setFeedback _ .unlock => true
  | .trySetFeedback .update | .trySetFeedback .storeFeedback | .trySetFeedback .unlock => true
  | _ => false

def State.inside (s : State κ R F) : Actor κ → Bool
  | .nonRealtime => s.run.inside
  | .actionClient => false
  | .user k => (s.user k).inside

def MutexOwned (s : State κ R F) : Prop := ∀ t, s.inside t = true → s.mutex = some t

variable {s s' : State κ R F} {t : Actor κ} {k : κ} {o : Oracle R F}

/-- A step of `t`, as far as the mutex is concerned. -/
structure MutexMove (t : Actor κ) (s s' : State κ R F) : Prop where
  mutex : MutexStep t s.mutex s'.mutex
  run : .nonRealtime ≠ t → s'.run = s.run
  user : ∀ k, .user k ≠ t → s'.user k = s.user k
  own : s'.inside t = true → s'.mutex = some t

theorem MutexMove.others (h : MutexMove t s s') {u : Actor κ} (hut : u ≠ t) :
    s'.inside u = s.inside u := by
  cases u with
  | nonRealtime => exact congrArg RunPc.inside (h.run hut)
  | actionClient => rfl
  | user k => exact congrArg UserPc.inside (h.user k hut)

theorem MutexOwned.step (h : MutexOwned s) (hs : MutexMove t s s') : MutexOwned s' := by
  intro u hu
  by_cases hut : u = t
  · subst hut
    exact hs.own hu
  · rw [hs.others hut] at hu
    exact hs.mutex.owner_kept hut (h u hu)

/-- Nobody else is inside. -/
theorem MutexOwned.alone {u : Actor κ} (h : MutexOwned s) (ht : s.inside t = true) (hut : u ≠ t) :
    s.inside u = false := by
  rw [← Bool.not_eq_true]
  intro hu
  exact hut (Option.some.inj ((h u hu).symm.trans (h t ht)))

theorem mutexMove_of_run (huser : s'.user = s.user)
    (hmutex : MutexStep .nonRealtime s.mutex s'.mutex)
    (hown : s'.run.inside = true → s'.mutex = some .nonRealtime) : MutexMove .nonRealtime s s' where
  mutex := hmutex
  run hne := absurd rfl hne
  user k _ := congrFun huser k
  own := hown

theorem runNonRealtime_mutexMove (hown : s.run.inside = true → s.mutex = some .nonRealtime)
    (h : runNonRealtime s = some s') : MutexMove .nonRealtime s s' := by
  unfold runNonRealtime at h
  cases hpc : s.run <;> simp only [hpc] at h hown
  case idle =>
    obtain rfl := Option.some.inj h
    exact mutexMove_of_run rfl (.keep _) fun hin => by cases hin
  case testValid =>
    obtain rfl := Option.some.inj h
    refine mutexMove_of_run rfl (.keep _) fun hin => ?_
    cases hv : s.handle.valid <;> simp [hv, RunPc.inside] at hin
  case lock =>
    obtain ⟨hm, h⟩ := Option.ite_none_right_eq_some.mp h
    obtain rfl := Option.some.inj h
    exact mutexMove_of_run rfl (hm ▸ .acquire) fun _ => rfl
  case execute | finish =>
    obtain rfl := Option.some.inj h
    unfold callGoal
    split <;> exact mutexMove_of_run rfl (.keep _) fun _ => hown rfl
  case publishFeedback =>
    split at h
    · obtain rfl := Option.some.inj h
      exact mutexMove_of_run rfl (.keep _) fun _ => hown rfl
    · cases h
  case unlock =>
    obtain rfl := Option.some.inj h
    exact mutexMove_of_run rfl (hown rfl ▸ .release) fun hin => by cases hin
  all_goals
    obtain rfl := Option.some.inj h
    exact mutexMove_of_run rfl (.keep _) fun _ => hown rfl

section Steps

variable [DecidableEq κ]

theorem mutexMove_of_user (pc : UserPc R F) (huser : s'.user = Function.update s.user k pc)
    (hrun : s'.run = s.run) (hmutex : MutexStep (.user k) s.mutex s'.mutex)
    (hown : pc.inside = true → s'.mutex = some (.user k)) : MutexMove (.user k) s s' where
  mutex := hmutex
  run _ := hrun
  user j hj := by
    rw [huser, Function.update_of_ne (by simpa using hj)]
  own hin := by
    have hin : (s'.user k).inside = true := hin
    rw [huser, Function.update_self] at hin
    exact hown hin

/-- Taking the mutex. -/
theorem lock_mutexMove {pc : UserPc R F}
    (h : (if s.mutex = none then some ({ s with mutex := some (.user k) }.goto k pc) else none) =
      some s') : MutexMove (.user k) s s' := by
  obtain ⟨hm, h⟩ := Option.ite_none_right_eq_some.mp h
  obtain rfl := Option.some.inj h
  exact mutexMove_of_user pc rfl rfl (hm ▸ .acquire) fun _ => rfl

theorem tryLock_mutexMove (pc : UserPc R F) {b : Bool}
    (h : (let (ownsLock, mutex) := s.mutex.tryLock (.user k) b
      let s := { s with mutex }
      if ownsLock then some (s.goto k pc)
      else some ((s.goto k .idle).record (.returned k (some false)))) = some s') :
    MutexMove (.user k) s s' := by
  rcases Mutex.tryLock_cases s.mutex (.user k) b with ⟨hm, he⟩ | he
  · simp only [he, if_true, Option.some.injEq] at h
    subst h
    exact mutexMove_of_user pc rfl rfl (hm ▸ .acquire) fun _ => rfl
  · simp only [he, Bool.false_eq_true, if_false, Option.some.injEq] at h
    subst h
    exact mutexMove_of_user .idle rfl rfl (.keep _) fun hin => by cases hin

theorem userStep_mutexMove (hown : (s.user k).inside = true → s.mutex = some (.user k))
    (h : userStep s k o = some s') : MutexMove (.user k) s s' := by
  unfold userStep at h
  cases hpc : s.user k with
  | idle =>
    simp only [hpc, Option.some.injEq] at h
    subst h
    refine mutexMove_of_user o.call.entry rfl rfl (.keep _) fun hin => ?_
    cases hc : o.call <;> rw [hc] at hin <;> cases hin
  | execute pc =>
    simp only [hpc] at h
    rw [hpc] at hown
    cases pc with
    | loadSucceed | loadAbort | loadCancel =>
      simp only [execute] at h
      split at h <;> obtain rfl := Option.some.inj h
      · exact mutexMove_of_user (.execute _) rfl rfl (.keep _) fun hin => by cases hin
      · exact mutexMove_of_user .idle rfl rfl (.keep _) fun hin => by cases hin
    | lock => exact lock_mutexMove h
    | storeExecute =>
      obtain rfl := Option.some.inj h
      exact mutexMove_of_user (.execute .unlock) rfl rfl (.keep _) fun _ => hown rfl
    | unlock =>
      obtain rfl := Option.some.inj h
      exact mutexMove_of_user .idle rfl rfl (hown rfl ▸ .release) fun hin => by cases hin
  | set outcome result pc =>
    simp only [hpc] at h
    rw [hpc] at hown
    cases pc with
    | loadExecute | loadSucceed | loadAbort | loadCancel =>
      simp only [set] at h
      split at h <;> obtain rfl := Option.some.inj h
      · exact mutexMove_of_user (.set _ _ _) rfl rfl (.keep _) fun hin => by cases hin
      · exact mutexMove_of_user .idle rfl rfl (.keep _) fun hin => by cases hin
    | lock => exact lock_mutexMove h
    | storeResult | storeRequest =>
      obtain rfl := Option.some.inj h
      exact mutexMove_of_user (.set _ _ _) rfl rfl (.keep _) fun _ => hown rfl
    | unlock =>
      obtain rfl := Option.some.inj h
      exact mutexMove_of_user .idle rfl rfl (hown rfl ▸ .release) fun hin => by cases hin
  | setFeedback feedback pc =>
    simp only [hpc] at h
    rw [hpc] at hown
    cases pc with
    | tryLock => exact tryLock_mutexMove (.setFeedback feedback .storeFeedback) h
    | update => cases h
    | storeFeedback =>
      obtain rfl := Option.some.inj h
      exact mutexMove_of_user (.setFeedback _ .unlock) rfl rfl (.keep _) fun _ => hown rfl
    | unlock =>
      obtain rfl := Option.some.inj h
      exact mutexMove_of_user .idle rfl rfl (hown rfl ▸ .release) fun hin => by cases hin
  | trySetFeedback pc =>
    simp only [hpc] at h
    have hin : (s.user k).inside = true → s.mutex = some (.user k) := hown
    rw [hpc] at hown
    cases pc with
    | tryLock => exact tryLock_mutexMove (.trySetFeedback .update) h
    | update =>
      simp only [trySetFeedback] at h
      split at h <;> obtain rfl := Option.some.inj h
      -- The callback goes on; the user stays inside it.
      · exact mutexMove_of_user (s.user k) (Function.update_eq_self k s.user).symm rfl (.keep _) hin
      · exact mutexMove_of_user (.trySetFeedback .storeFeedback) rfl rfl (.keep _) fun _ => hown rfl
    | storeFeedback =>
      obtain rfl := Option.some.inj h
      exact mutexMove_of_user (.trySetFeedback .unlock) rfl rfl (.keep _) fun _ => hown rfl
    | unlock =>
      obtain rfl := Option.some.inj h
      exact mutexMove_of_user .idle rfl rfl (hown rfl ▸ .release) fun hin => by cases hin

end Steps

/-! ## What a step does to the feedback -/

structure SameFeedback (s s' : State κ R F) : Prop where
  preallocated : s'.handle.preallocatedFeedback = s.handle.preallocatedFeedback
  request : s'.handle.reqFeedback = s.handle.reqFeedback

def UserPc.inFeedback : UserPc R F → Bool
  | .setFeedback _ _ | .trySetFeedback _ => true
  | _ => false

/-- A step of user `k` with what it shows. -/
inductive FeedbackMove (k : κ) (o : Oracle R F) (s s' : State κ R F) : Option (FeedbackEvent κ F) → Prop
  | other (hpc : (s.user k).inFeedback = false) (hpc' : (s'.user k).inFeedback = false)
      (hsame : SameFeedback s s') : FeedbackMove k o s s' none
  | beginSet (feedback : Option (FeedbackPtr F)) (hpc : s.user k = .idle)
      (hcall : o.call = .setFeedback feedback) (hpc' : s'.user k = .setFeedback feedback .tryLock)
      (hsame : SameFeedback s s') :
      FeedbackMove k o s s' (some (.setFeedback k (feedback.map s.handle.content)))
  | beginTry (hpc : s.user k = .idle) (hpc' : s'.user k = .trySetFeedback .tryLock)
      (hsame : SameFeedback s s') : FeedbackMove k o s s' (some (.trySetFeedback k))
  | refused (hpc : s.user k = .trySetFeedback .tryLock ∨
        ∃ feedback, s.user k = .setFeedback feedback .tryLock)
      (hpc' : s'.user k = .idle) (hsame : SameFeedback s s') :
      FeedbackMove k o s s' (some (.returned k false))
  | grantedSet (feedback : Option (FeedbackPtr F)) (hpc : s.user k = .setFeedback feedback .tryLock)
      (hpc' : s'.user k = .setFeedback feedback .storeFeedback) (hsame : SameFeedback s s') :
      FeedbackMove k o s s' none
  | grantedTry (hpc : s.user k = .trySetFeedback .tryLock)
      (hpc' : s'.user k = .trySetFeedback .update) (hsame : SameFeedback s s') :
      FeedbackMove k o s s' none
  | wrote (content : F) (hpc : s.user k = .trySetFeedback .update) (hpc' : s'.user k = s.user k)
      (hrequest : s'.handle.reqFeedback = s.handle.reqFeedback) :
      FeedbackMove k o s s' (some (.wrote k content))
  | callbackReturned (hpc : s.user k = .trySetFeedback .update)
      (hpc' : s'.user k = .trySetFeedback .storeFeedback) (hsame : SameFeedback s s') :
      FeedbackMove k o s s' (some (.callbackReturned k s.handle.preallocatedFeedback))
  | storedSet (feedback : Option (FeedbackPtr F))
      (hpc : s.user k = .setFeedback feedback .storeFeedback)
      (hpc' : s'.user k = .setFeedback feedback .unlock) (hrequest : s'.handle.reqFeedback = feedback)
      (hkept : s'.handle.preallocatedFeedback = s.handle.preallocatedFeedback) :
      FeedbackMove k o s s' (some (.stored k))
  | storedTry (hpc : s.user k = .trySetFeedback .storeFeedback)
      (hpc' : s'.user k = .trySetFeedback .unlock)
      (hrequest : s'.handle.reqFeedback = some .preallocated)
      (hkept : s'.handle.preallocatedFeedback = s.handle.preallocatedFeedback) :
      FeedbackMove k o s s' (some (.stored k))
  | returned (hpc : s.user k = .trySetFeedback .unlock ∨
        ∃ feedback, s.user k = .setFeedback feedback .unlock)
      (hpc' : s'.user k = .idle) (hsame : SameFeedback s s') :
      FeedbackMove k o s s' (some (.returned k true))

section Steps

variable [DecidableEq κ]

theorem notInFeedback_of_goto (pc : UserPc R F) (huser : s'.user = Function.update s.user k pc)
    (hpc : pc.inFeedback = false) : (s'.user k).inFeedback = false := by
  rwa [huser, Function.update_self]

theorem set_sameFeedback {outcome : Outcome} {result : Option R} {pc : RequestPc}
    (h : set s k outcome result pc = some s') :
    (s'.user k).inFeedback = false ∧ SameFeedback s s' := by
  cases pc with
  | loadExecute | loadSucceed | loadAbort | loadCancel =>
    simp only [set] at h
    split at h <;> obtain rfl := Option.some.inj h
    · exact ⟨notInFeedback_of_goto (.set _ _ _) rfl rfl, rfl, rfl⟩
    · exact ⟨notInFeedback_of_goto .idle rfl rfl, rfl, rfl⟩
  | lock =>
    obtain ⟨_, h⟩ := Option.ite_none_right_eq_some.mp h
    obtain rfl := Option.some.inj h
    exact ⟨notInFeedback_of_goto (.set _ _ _) rfl rfl, rfl, rfl⟩
  | storeResult =>
    obtain rfl := Option.some.inj h
    exact ⟨notInFeedback_of_goto (.set _ _ _) rfl rfl, rfl, rfl⟩
  | storeRequest =>
    obtain rfl := Option.some.inj h
    refine ⟨notInFeedback_of_goto (.set _ _ _) rfl rfl, ?_, ?_⟩
    · cases outcome <;> rfl
    · cases outcome <;> rfl
  | unlock =>
    obtain rfl := Option.some.inj h
    exact ⟨notInFeedback_of_goto .idle rfl rfl, rfl, rfl⟩

theorem execute_sameFeedback {pc : ExecutePc} (h : execute s k pc = some s') :
    (s'.user k).inFeedback = false ∧ SameFeedback s s' := by
  cases pc with
  | loadSucceed | loadAbort | loadCancel =>
    simp only [execute] at h
    split at h <;> obtain rfl := Option.some.inj h
    · exact ⟨notInFeedback_of_goto (.execute _) rfl rfl, rfl, rfl⟩
    · exact ⟨notInFeedback_of_goto .idle rfl rfl, rfl, rfl⟩
  | lock =>
    obtain ⟨_, h⟩ := Option.ite_none_right_eq_some.mp h
    obtain rfl := Option.some.inj h
    exact ⟨notInFeedback_of_goto (.execute _) rfl rfl, rfl, rfl⟩
  | storeExecute =>
    obtain rfl := Option.some.inj h
    exact ⟨notInFeedback_of_goto (.execute _) rfl rfl, rfl, rfl⟩
  | unlock =>
    obtain rfl := Option.some.inj h
    exact ⟨notInFeedback_of_goto .idle rfl rfl, rfl, rfl⟩

/-- `try_to_lock`, and what it shows where it fails. -/
theorem tryLock_feedback {pc : UserPc R F} {b : Bool}
    (h : (let (ownsLock, mutex) := s.mutex.tryLock (.user k) b
      let s := { s with mutex }
      if ownsLock then some (s.goto k pc)
      else some ((s.goto k .idle).record (.returned k (some false)))) = some s') :
    SameFeedback s s' ∧ ((s.mutex.tryLock (.user k) b).1 = true ∧ s'.user k = pc ∨
      (s.mutex.tryLock (.user k) b).1 = false ∧ s'.user k = .idle) := by
  rcases Mutex.tryLock_cases s.mutex (.user k) b with ⟨_, he⟩ | he
  · simp only [he, if_true, Option.some.injEq] at h
    subst h
    exact ⟨⟨rfl, rfl⟩, .inl ⟨by rw [he], Function.update_self ..⟩⟩
  · simp only [he, Bool.false_eq_true, if_false, Option.some.injEq] at h
    subst h
    exact ⟨⟨rfl, rfl⟩, .inr ⟨by rw [he], Function.update_self ..⟩⟩

theorem userStep_feedback (h : userStep s k o = some s') :
    FeedbackMove k o s s' (userFeedbackEvent k o s) := by
  unfold userStep at h
  unfold userFeedbackEvent
  cases hpc : s.user k with
  | idle =>
    simp only [hpc, Option.some.injEq] at h
    subst h
    have hpc' : ((s.goto k o.call.entry).record (.called k o.call)).user k = o.call.entry :=
      Function.update_self ..
    cases hc : o.call with
    | setFeedback feedback =>
      exact .beginSet feedback hpc hc (by rw [← hc, hpc', hc]; rfl) ⟨rfl, rfl⟩
    | trySetFeedback => exact .beginTry hpc (by rw [← hc, hpc', hc]; rfl) ⟨rfl, rfl⟩
    | execute | set outcome result =>
      refine .other (by rw [hpc]; rfl) ?_ ⟨rfl, rfl⟩
      rw [← hc, hpc', hc]
      rfl
  | execute pc =>
    simp only [hpc] at h
    obtain ⟨hpc', hsame⟩ := execute_sameFeedback h
    exact .other (by rw [hpc]; rfl) hpc' hsame
  | set outcome result pc =>
    simp only [hpc] at h
    obtain ⟨hpc', hsame⟩ := set_sameFeedback h
    exact .other (by rw [hpc]; rfl) hpc' hsame
  | setFeedback feedback pc =>
    simp only [hpc] at h
    cases pc with
    | tryLock =>
      obtain ⟨hsame, ⟨hlock, hpc'⟩ | ⟨hlock, hpc'⟩⟩ := tryLock_feedback h
      · simp only [hlock, if_true]
        exact .grantedSet feedback hpc hpc' hsame
      · simp only [hlock, Bool.false_eq_true, if_false]
        exact .refused (.inr ⟨feedback, hpc⟩) hpc' hsame
    | update => cases h
    | storeFeedback =>
      obtain rfl := Option.some.inj h
      exact .storedSet feedback hpc (Function.update_self ..) rfl rfl
    | unlock =>
      obtain rfl := Option.some.inj h
      exact .returned (.inr ⟨feedback, hpc⟩) (Function.update_self ..) ⟨rfl, rfl⟩
  | trySetFeedback pc =>
    simp only [hpc] at h
    cases pc with
    | tryLock =>
      obtain ⟨hsame, ⟨hlock, hpc'⟩ | ⟨hlock, hpc'⟩⟩ := tryLock_feedback h
      · simp only [hlock, if_true]
        exact .grantedTry hpc hpc' hsame
      · simp only [hlock, Bool.false_eq_true, if_false]
        exact .refused (.inl hpc) hpc' hsame
    | update =>
      cases hu : o.update with
      | some content =>
        simp only [trySetFeedback, hu, Option.some.injEq] at h
        subst h
        exact .wrote content hpc rfl rfl
      | none =>
        simp only [trySetFeedback, hu, Option.some.injEq] at h
        subst h
        exact .callbackReturned hpc (Function.update_self ..) ⟨rfl, rfl⟩
    | storeFeedback =>
      obtain rfl := Option.some.inj h
      exact .storedTry hpc (Function.update_self ..) rfl rfl
    | unlock =>
      obtain rfl := Option.some.inj h
      exact .returned (.inl hpc) (Function.update_self ..) ⟨rfl, rfl⟩

omit [DecidableEq κ] in
theorem runNonRealtime_feedback (h : runNonRealtime s = some s') :
    s'.user = s.user ∧ SameFeedback s s' := by
  unfold runNonRealtime at h
  cases hpc : s.run <;> simp only [hpc] at h
  case lock =>
    obtain ⟨_, h⟩ := Option.ite_none_right_eq_some.mp h
    obtain rfl := Option.some.inj h
    exact ⟨rfl, rfl, rfl⟩
  case execute | finish =>
    obtain rfl := Option.some.inj h
    unfold callGoal
    split <;> exact ⟨rfl, rfl, rfl⟩
  case storeRequest outcome =>
    obtain rfl := Option.some.inj h
    cases outcome <;> exact ⟨rfl, rfl, rfl⟩
  case publishFeedback =>
    split at h
    · obtain rfl := Option.some.inj h
      exact ⟨rfl, rfl, rfl⟩
    · cases h
  all_goals
    obtain rfl := Option.some.inj h
    exact ⟨rfl, rfl, rfl⟩

end Steps

/-! ## Runs -/

/-- What is published is what the last successful call has set. -/
def PublishesLast [DecidableEq κ] (before : List (FeedbackEvent κ F)) (e : FeedbackEvent κ F) :
    Prop :=
  ∀ content, e = .published content → ∃ earlier k since,
    LastEvent FeedbackEvent.Succeeds before earlier (.returned k true) since ∧
      Gives k earlier (some content)

/-- After null has been set nothing is published until the next success. -/
def PublishesNoNull [DecidableEq κ] (before : List (FeedbackEvent κ F)) (e : FeedbackEvent κ F) :
    Prop :=
  ∀ content earlier k since, e = .published content →
    LastEvent FeedbackEvent.Succeeds before earlier (.returned k true) since →
      ¬ Gives k earlier none

/-- A call that returns false has run no callback and stored nothing. -/
def RefusedDoesNothing [DecidableEq κ] (before : List (FeedbackEvent κ F))
    (e : FeedbackEvent κ F) : Prop :=
  ∀ k, e = .returned k false → ∃ b, LastCall k b [] before

/-- The pending feedback is being replaced. -/
def UserPc.replacing : UserPc R F → Bool
  | .setFeedback _ .unlock => true
  | .trySetFeedback .update | .trySetFeedback .storeFeedback | .trySetFeedback .unlock => true
  | _ => false

theorem UserPc.inside_of_replacing {pc : UserPc R F} (h : pc.replacing = true) :
    pc.inside = true := by
  unfold UserPc.replacing at h
  split at h <;> first | rfl | cases h

section Runs

variable [DecidableEq κ] {log : List (FeedbackEvent κ F)} {seen : Option (FeedbackEvent κ F)}
  {j : κ}

/-- The pending message is the one that the last successful call has set. -/
def Pending (s : State κ R F) (log : List (FeedbackEvent κ F)) : Prop :=
  ∀ content, s.handle.reqFeedback.map s.handle.content = some content → ∃ earlier k since,
    LastEvent FeedbackEvent.Succeeds log earlier (.returned k true) since ∧
      Gives k earlier (some content)

/-- What the call that `k` is in has done so far. -/
def CallSoFar (k : κ) (s : State κ R F) (log : List (FeedbackEvent κ F)) : UserPc R F → Prop
  | .setFeedback feedback pc => ∃ content : Option F, feedback = content.map .external ∧
      match pc with
      | .unlock => (∃ own, LastCall k (.setFeedback k content) own log) ∧
          s.handle.reqFeedback = feedback
      | _ => LastCall k (.setFeedback k content) [] log
  | .trySetFeedback .tryLock => LastCall k (.trySetFeedback k) [] log
  | .trySetFeedback .update => ∃ own, LastCall k (.trySetFeedback k) own log
  | .trySetFeedback .storeFeedback => ∃ own, LastCall k (.trySetFeedback k) own log ∧
      .callbackReturned k s.handle.preallocatedFeedback ∈ own
  | .trySetFeedback .unlock => (∃ own, LastCall k (.trySetFeedback k) own log ∧
      .callbackReturned k s.handle.preallocatedFeedback ∈ own) ∧
      s.handle.reqFeedback = some .preallocated
  | _ => True

structure FeedbackLogged (s : State κ R F) (log : List (FeedbackEvent κ F)) : Prop where
  owned : MutexOwned s
  calls : ∀ k, CallSoFar k s log (s.user k)
  pending : (∀ k, (s.user k).replacing = false) → Pending s log
  publishes : Justified PublishesLast log
  refused : Justified RefusedDoesNothing log

/-- A call goes on where another thread moves, which touches the feedback only under the mutex. -/
theorem CallSoFar.frame {pc : UserPc R F} (h : CallSoFar j s log pc)
    (hsame : pc.inside = true → SameFeedback s s') (he : ∀ e, seen = some e → e.user? ≠ some j) :
    CallSoFar j s' (log ++ seen.toList) pc := by
  cases pc with
  | idle | execute pc | set outcome result pc => trivial
  | setFeedback feedback pc =>
    obtain ⟨content, hcontent, h⟩ := h
    refine ⟨content, hcontent, ?_⟩
    cases pc with
    | unlock =>
      obtain ⟨⟨own, hcall⟩, hrequest⟩ := h
      exact ⟨⟨own, hcall.other he⟩, (hsame rfl).request.trans hrequest⟩
    | _ => exact LastCall.other h he
  | trySetFeedback pc =>
    cases pc with
    | tryLock => exact LastCall.other h he
    | update => exact h.imp fun own hcall => hcall.other he
    | storeFeedback =>
      obtain ⟨own, hcall, hmem⟩ := h
      refine ⟨own, hcall.other he, ?_⟩
      rw [(hsame rfl).preallocated]
      exact hmem
    | unlock =>
      obtain ⟨⟨own, hcall, hmem⟩, hrequest⟩ := h
      refine ⟨⟨own, hcall.other he, ?_⟩, (hsame rfl).request.trans hrequest⟩
      rw [(hsame rfl).preallocated]
      exact hmem

omit [DecidableEq κ] in
theorem SameFeedback.content (h : SameFeedback s s') :
    s'.handle.reqFeedback.map s'.handle.content = s.handle.reqFeedback.map s.handle.content := by
  rw [h.request]
  refine Option.map_congr fun feedback _ => ?_
  cases feedback with
  | preallocated => exact h.preallocated
  | external content => rfl

theorem Pending.same (h : Pending s log) (hsame : SameFeedback s s')
    (he : ∀ e, seen = some e → ¬ e.Succeeds) : Pending s' (log ++ seen.toList) := by
  intro content hcontent
  rw [hsame.content] at hcontent
  obtain ⟨earlier, k, since, hlast, hgives⟩ := h content hcontent
  cases seen with
  | none => exact ⟨earlier, k, since, by simpa using hlast, hgives⟩
  | some e => exact ⟨earlier, k, since ++ [e], hlast.concat (he e rfl), hgives⟩

omit [DecidableEq κ] in
theorem FeedbackMove.user (h : FeedbackMove k o s s' seen) (e : FeedbackEvent κ F)
    (he : seen = some e) : e.user? = some k := by
  cases h with
  | other | grantedSet | grantedTry => cases he
  | _ =>
    obtain rfl := Option.some.inj he
    rfl

omit [DecidableEq κ] in
/-- The feedback is touched under the mutex only. -/
theorem FeedbackMove.same (h : FeedbackMove k o s s' seen) (hout : (s.user k).inside = false) :
    SameFeedback s s' := by
  cases h with
  | wrote _ hpc | storedSet _ hpc | storedTry hpc =>
    rw [hpc] at hout
    cases hout
  | _ => assumption

theorem FeedbackMove.callSoFar (hm : FeedbackMove k o s s' seen) (hp : o.call.givesOther = true)
    (h : CallSoFar k s log (s.user k)) : CallSoFar k s' (log ++ seen.toList) (s'.user k) := by
  cases hm with
  | other hpc hpc' _ =>
    cases hu : s'.user k with
    | idle | execute pc | set outcome result pc => trivial
    | setFeedback feedback pc | trySetFeedback pc =>
      rw [hu] at hpc'
      cases hpc'
  | beginSet feedback _ hcall hpc' _ =>
    rw [hpc']
    rw [hcall] at hp
    match feedback, hp with
    | none, _ => exact ⟨none, rfl, .begin rfl⟩
    | some (.external content), _ => exact ⟨some content, rfl, .begin rfl⟩
  | beginTry _ hpc' _ =>
    rw [hpc']
    exact LastCall.begin rfl
  | refused _ hpc' _ | returned _ hpc' _ =>
    rw [hpc']
    trivial
  | grantedSet feedback hpc hpc' _ =>
    rw [hpc] at h
    rw [hpc']
    obtain ⟨content, hcontent, hcall⟩ := h
    exact ⟨content, hcontent, by simpa using hcall⟩
  | grantedTry hpc hpc' _ =>
    rw [hpc] at h
    rw [hpc']
    have h : LastCall k (.trySetFeedback k) [] log := h
    exact ⟨[], by simpa using h⟩
  | wrote content hpc hpc' _ =>
    rw [hpc] at h
    rw [hpc', hpc]
    obtain ⟨own, hcall⟩ := h
    exact ⟨_, hcall.concat rfl id⟩
  | callbackReturned hpc hpc' hsame =>
    rw [hpc] at h
    rw [hpc']
    obtain ⟨own, hcall⟩ := h
    refine ⟨_, hcall.concat rfl id, ?_⟩
    rw [hsame.preallocated]
    exact List.mem_append_right _ (List.mem_singleton_self _)
  | storedSet feedback hpc hpc' hrequest _ =>
    rw [hpc] at h
    rw [hpc']
    obtain ⟨content, hcontent, hcall⟩ := h
    exact ⟨content, hcontent, ⟨_, LastCall.concat hcall rfl id⟩, hrequest⟩
  | storedTry hpc hpc' hrequest hkept =>
    rw [hpc] at h
    rw [hpc']
    obtain ⟨own, hcall, hmem⟩ := h
    refine ⟨⟨_, hcall.concat rfl id, ?_⟩, hrequest⟩
    rw [hkept]
    exact List.mem_append_left _ hmem

/-- A call that returns true has set the pending message. -/
theorem CallSoFar.gives (h : CallSoFar k s log (s.user k))
    (hpc : s.user k = .trySetFeedback .unlock ∨ ∃ feedback, s.user k = .setFeedback feedback .unlock)
    {content : F} (hcontent : s.handle.reqFeedback.map s.handle.content = some content) :
    Gives k log (some content) := by
  rcases hpc with hpc | ⟨feedback, hpc⟩
  · rw [hpc] at h
    obtain ⟨⟨own, hcall, hmem⟩, hrequest⟩ := h
    rw [hrequest] at hcontent
    obtain rfl := Option.some.inj hcontent
    exact .trySetFeedback _ hcall hmem
  · rw [hpc] at h
    obtain ⟨given, hgiven, ⟨own, hcall⟩, hrequest⟩ := h
    rw [hrequest, hgiven, Option.map_map] at hcontent
    obtain rfl : given = some content := by
      cases given with
      | none => cases hcontent
      | some c => exact hcontent
    exact .setFeedback _ hcall

theorem FeedbackMove.pending (hm : FeedbackMove k o s s' seen) (h : CallSoFar k s log (s.user k))
    (hothers : ∀ j, j ≠ k → s'.user j = s.user j)
    (hpending : (∀ j, (s.user j).replacing = false) → Pending s log)
    (hnone : ∀ j, (s'.user j).replacing = false) : Pending s' (log ++ seen.toList) := by
  have hkept : (s.user k).replacing = false → SameFeedback s s' →
      (∀ j, seen ≠ some (.returned j true)) → Pending s' (log ++ seen.toList) := by
    intro hk hsame hnot
    refine (hpending fun j => ?_).same hsame fun e he => ?_
    · by_cases hj : j = k
      · rw [hj]
        exact hk
      · rw [← hothers j hj]
        exact hnone j
    · rintro ⟨j, rfl⟩
      exact hnot j he
  have hk := hnone k
  cases hm with
  | other hpc _ hsame =>
    refine hkept ?_ hsame (by simp)
    cases hu : s.user k with
    | setFeedback feedback pc | trySetFeedback pc => rw [hu] at hpc; cases hpc
    | _ => rfl
  | beginSet feedback hpc _ _ hsame => exact hkept (by rw [hpc]; rfl) hsame (by simp)
  | beginTry hpc _ hsame => exact hkept (by rw [hpc]; rfl) hsame (by simp)
  | refused hpc _ hsame =>
    refine hkept ?_ hsame (by simp)
    rcases hpc with hpc | ⟨feedback, hpc⟩ <;> rw [hpc] <;> rfl
  | grantedSet feedback hpc _ hsame => exact hkept (by rw [hpc]; rfl) hsame (by simp)
  | grantedTry hpc hpc' _ | callbackReturned hpc hpc' _ | storedSet _ hpc hpc' _ _
  | storedTry hpc hpc' _ _ =>
    rw [hpc'] at hk
    cases hk
  | wrote content hpc hpc' _ =>
    rw [hpc', hpc] at hk
    cases hk
  | returned hpc _ hsame =>
    intro content hcontent
    rw [hsame.content] at hcontent
    exact ⟨log, k, [], .concat_self ⟨k, rfl⟩, h.gives hpc hcontent⟩

theorem FeedbackLogged.userStep (h : FeedbackLogged s log) (hp : o.call.givesOther = true)
    (hs : userStep s k o = some s') :
    FeedbackLogged s' (log ++ (userFeedbackEvent k o s).toList) := by
  have hmove := userStep_feedback hs
  have hmutex := userStep_mutexMove (h.owned (.user k)) hs
  have hothers : ∀ j, j ≠ k → s'.user j = s.user j := fun j hj => hmutex.user j (by simpa using hj)
  refine ⟨h.owned.step hmutex, fun j => ?_, ?_, ?_, ?_⟩
  · by_cases hj : j = k
    · subst hj
      exact hmove.callSoFar hp (h.calls j)
    · rw [hothers j hj]
      refine (h.calls j).frame (fun hin => hmove.same ?_) fun e he => ?_
      -- Where `j` owns the mutex, `k` does not.
      · have hne : Actor.user k ≠ .user j := by simpa using Ne.symm hj
        exact h.owned.alone (t := .user j) hin hne
      · rw [hmove.user e he]
        simpa using Ne.symm hj
  · exact hmove.pending (h.calls k) hothers h.pending
  · refine h.publishes.observe fun e he content hpublished => ?_
    have huser := hmove.user e he
    rw [hpublished] at huser
    cases huser
  · refine h.refused.observe fun e he j hrefused => ?_
    rw [hrefused] at he
    generalize hseen : userFeedbackEvent k o s = seen at hmove he
    cases hmove with
    | refused hpc _ _ =>
      obtain rfl : k = j := by simpa using he
      have hcall := h.calls k
      rcases hpc with hpc | ⟨feedback, hpc⟩
      · rw [hpc] at hcall
        exact ⟨_, hcall⟩
      · rw [hpc] at hcall
        obtain ⟨content, _, hcall⟩ := hcall
        exact ⟨_, hcall⟩
    | _ => simp at he

theorem FeedbackLogged.runNonRealtime (h : FeedbackLogged s log)
    (hs : runNonRealtime s = some s') :
    FeedbackLogged s' (log ++ (feedbackEvent .nonRealtime o s).toList) := by
  obtain ⟨huser, hsame⟩ := runNonRealtime_feedback hs
  have hpublished : ∀ e, feedbackEvent .nonRealtime o s = some e → s.run = .publishFeedback ∧
      ∃ content, e = .published content ∧
        s.handle.reqFeedback.map s.handle.content = some content := by
    intro e he
    simp only [feedbackEvent] at he
    split at he
    · rename_i hrun
      obtain ⟨feedback, hfeedback, rfl⟩ := Option.map_eq_some_iff.mp he
      exact ⟨hrun, _, rfl, by rw [hfeedback]; rfl⟩
    · cases he
  refine ⟨h.owned.step (runNonRealtime_mutexMove (h.owned .nonRealtime) hs), fun j => ?_,
    fun hnone => ?_, ?_, ?_⟩
  · rw [huser]
    refine (h.calls j).frame (fun _ => hsame) fun e he => ?_
    obtain ⟨_, content, rfl, _⟩ := hpublished e he
    exact fun hnone => by cases hnone
  · rw [huser] at hnone
    refine (h.pending hnone).same hsame fun e he => ?_
    obtain ⟨_, content, rfl, _⟩ := hpublished e he
    rintro ⟨_, hs⟩
    cases hs
  · refine h.publishes.observe fun e he content heq => ?_
    obtain ⟨hrun, content', rfl, hcontent⟩ := hpublished e he
    obtain rfl := FeedbackEvent.published.inj heq
    -- The mutex is owned here, so no user is replacing the feedback.
    refine h.pending (fun j => ?_) content' hcontent
    rw [← Bool.not_eq_true]
    intro hreplacing
    have hinside : s.inside (.user j) = true := UserPc.inside_of_replacing hreplacing
    have hout := h.owned.alone (t := .nonRealtime) (u := .user j)
      (by show s.run.inside = true; rw [hrun]; rfl) (by simp)
    exact Bool.noConfusion (hout.symm.trans hinside)
  · refine h.refused.observe fun e he j hrefused => ?_
    obtain ⟨_, content, rfl, _⟩ := hpublished e he
    cases hrefused

theorem FeedbackLogged.clientCancel (h : FeedbackLogged s log) :
    FeedbackLogged { s with handle := s.handle.clientCancel } log where
  owned := h.owned
  calls j := by
    have hsame : SameFeedback s { s with handle := s.handle.clientCancel } := ⟨rfl, rfl⟩
    have hframe : CallSoFar j { s with handle := s.handle.clientCancel }
        (log ++ (none : Option (FeedbackEvent κ F)).toList) (s.user j) :=
      (h.calls j).frame (fun _ => hsame) fun e he => by cases he
    rwa [Option.toList_none, List.append_nil] at hframe
  pending hnone := h.pending hnone
  publishes := h.publishes
  refused := h.refused

theorem feedbackLogged_initial {gh : Option (Goal R F)} {content : F} :
    FeedbackLogged (initial gh content : State κ R F) [] where
  owned t ht := by cases t <;> cases ht
  calls k := trivial
  pending _ content hc := by cases hc
  publishes := justified_nil
  refused := justified_nil

theorem reachable_feedbackLogged {s : State κ R F × List (FeedbackEvent κ F)}
    (h : Reachable ((goalHandle κ R F).observed feedbackEvent) (unlogged GivesOther) s) :
    FeedbackLogged s.1 s.2 := by
  refine h.invariant (I := fun s => FeedbackLogged s.1 s.2) ?_ ?_
  · rintro ⟨s, log⟩ ⟨⟨gh, content, rfl⟩, rfl⟩
    exact feedbackLogged_initial
  · rintro ⟨s, log⟩ t o ⟨s', log'⟩ _ hlogged hp hs
    obtain ⟨hstep, rfl⟩ := observed_step_iff.mp hs
    cases t with
    | nonRealtime => exact hlogged.runNonRealtime hstep
    | actionClient =>
      obtain rfl := Option.some.inj hstep
      show FeedbackLogged _ (log ++ [])
      rw [List.append_nil]
      exact hlogged.clientCancel
    | user k => exact hlogged.userStep hp hstep

/-- A step that does not show it changes neither the preallocated message nor `req_feedback_`. -/
theorem step_sameFeedback {t : Actor κ} (h : step t o s = some s') :
    ((∀ k content, feedbackEvent t o s ≠ some (.wrote k content)) →
        s'.handle.preallocatedFeedback = s.handle.preallocatedFeedback) ∧
      ((∀ k, feedbackEvent t o s ≠ some (.stored k)) →
        s'.handle.reqFeedback = s.handle.reqFeedback) := by
  cases t with
  | nonRealtime =>
    obtain ⟨_, hsame⟩ := runNonRealtime_feedback h
    exact ⟨fun _ => hsame.preallocated, fun _ => hsame.request⟩
  | actionClient =>
    obtain rfl := Option.some.inj h
    exact ⟨fun _ => rfl, fun _ => rfl⟩
  | user k =>
    have hmove := userStep_feedback h
    show ((∀ j content, userFeedbackEvent k o s ≠ some (.wrote j content)) → _) ∧
      ((∀ j, userFeedbackEvent k o s ≠ some (.stored j)) → _)
    generalize userFeedbackEvent k o s = seen at hmove
    cases hmove with
    | wrote content _ _ hrequest => exact ⟨fun hno => absurd rfl (hno k content), fun _ => hrequest⟩
    | storedSet _ _ _ _ hkept => exact ⟨fun _ => hkept, fun hno => absurd rfl (hno k)⟩
    | storedTry _ _ _ hkept => exact ⟨fun _ => hkept, fun hno => absurd rfl (hno k)⟩
    | other _ _ hsame | beginSet _ _ _ _ hsame | beginTry _ _ hsame | refused _ _ hsame
    | grantedSet _ _ _ hsame | grantedTry _ _ hsame | callbackReturned _ _ hsame
    | returned _ _ hsame => exact ⟨fun _ => hsame.preallocated, fun _ => hsame.request⟩

/-- **Published feedback is whole.**  In every run in which `setFeedback` is given null or messages of
the callers: what is published is what the last successful call has set, after null has been set
nothing is published until the next success, and a call that returns false has run no callback and
stored nothing; whatever changes the preallocated message or `req_feedback_` is in the log. -/
theorem published_feedback_whole {s : State κ R F × List (FeedbackEvent κ F)}
    (h : Reachable ((goalHandle κ R F).observed feedbackEvent) (unlogged GivesOther) s) :
    Justified PublishesLast s.2 ∧ Justified PublishesNoNull s.2 ∧
      Justified RefusedDoesNothing s.2 ∧ ∀ t o s', step t o s.1 = some s' →
        ((∀ k content, feedbackEvent t o s.1 ≠ some (.wrote k content)) →
            s'.handle.preallocatedFeedback = s.1.handle.preallocatedFeedback) ∧
          ((∀ k, feedbackEvent t o s.1 ≠ some (.stored k)) →
            s'.handle.reqFeedback = s.1.handle.reqFeedback) := by
  have hlogged := reachable_feedbackLogged h
  refine ⟨hlogged.publishes, ?_, hlogged.refused, fun t o s' hs => step_sameFeedback hs⟩
  intro before e after hsplit content earlier k since hpublished hlast
  obtain ⟨earlier', k', since', hlast', hgives⟩ :=
    hlogged.publishes before e after hsplit content hpublished
  obtain ⟨rfl, hsame, _⟩ := hlast.unique hlast'
  obtain ⟨rfl, _⟩ : k = k' ∧ true = true := by simpa using hsame
  exact LastCall.not_gives_none hgives

end Runs

/-- One user writes the preallocated message twice, and another is refused while it is published. -/
def updatedAndPublished : List (Actor Bool × Oracle Unit Nat) :=
  List.flatten [
    List.replicate 2 (.user true, { call := .trySetFeedback }),
    [(.user true, { update := some 1 }), (.user true, { update := some 2 })],
    List.replicate 3 (.user true, { update := none }),
    List.replicate 9 (.nonRealtime, { update := none }),
    List.replicate 2 (.user false, { call := .setFeedback none }),
    [(.nonRealtime, { update := none })]]

theorem published_feedback_whole_updated :
    ∃ s : State Bool Unit Nat × List (FeedbackEvent Bool Nat),
      Reachable ((goalHandle Bool Unit Nat).observed feedbackEvent) (unlogged GivesOther) s ∧
        .published 2 ∈ s.2 ∧ .returned false false ∈ s.2 ∧ Justified PublishesLast s.2 ∧
        Justified RefusedDoesNothing s.2 := by
  obtain ⟨s, hs, hp⟩ := exists_reachable_of_exec
    ((goalHandle Bool Unit Nat).observed feedbackEvent) (unlogged GivesOther) updatedAndPublished
    (initial (some ⟨.executing, [], []⟩) 0, [])
    (fun s => .published 2 ∈ s.2 ∧ .returned false false ∈ s.2) ⟨⟨_, _, rfl⟩, rfl⟩ (by decide)
  obtain ⟨hpublished, hrefused⟩ : .published 2 ∈ s.2 ∧ .returned false false ∈ s.2 := by
    simpa using hp
  obtain ⟨hlast, _, hnothing, _⟩ := published_feedback_whole hs
  exact ⟨s, hs, hpublished, hrefused, hlast, hnothing⟩

end GoalHandle
