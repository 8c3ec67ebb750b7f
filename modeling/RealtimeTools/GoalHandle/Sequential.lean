import RealtimeTools.GoalHandle.Model

/-!
# Calls that are not interrupted

The two models of the handle agree: a call whose steps are taken one after another, with the mutex
free and nobody else moving, leaves the handle that its function computes in one go.  So every
sequence of calls is a run of the step-by-step model.
-/

open Interleaving

namespace GoalHandle

variable {κ R F : Type} [DecidableEq κ]

/-- A state without its history. -/
structure View (κ R F : Type) where
  handle : Handle R F
  mutex : Mutex (Actor κ)
  run : RunPc
  user : κ → UserPc R F

/-- The state that looks like `v` after `history`. -/
def View.state (v : View κ R F) (history : List (Event κ R F)) : State κ R F where
  handle := v.handle
  mutex := v.mutex
  run := v.run
  user := v.user
  history := history

/-- `t` alone gets from `v` to `v'`, whatever happened before. -/
def Leads (t : Actor κ) (v v' : View κ R F) : Prop :=
  ∀ history, ∃ history', (goalHandle κ R F).Alone t (v.state history) (v'.state history')

namespace Leads

variable {t : Actor κ} {v v' v'' : View κ R F}

theorem refl : Leads t v v := fun history => ⟨history, .refl⟩

theorem trans (h : Leads t v v') (h' : Leads t v' v'') : Leads t v v'' := by
  intro history
  obtain ⟨history', ha⟩ := h history
  obtain ⟨history'', ha'⟩ := h' history'
  exact ⟨history'', Relation.ReflTransGen.trans ha ha'⟩

/-- One step that records `events`. -/
theorem step (oracle : Oracle R F) (events : List (Event κ R F))
    (h : ∀ history, GoalHandle.step t oracle (v.state history) =
      some (v'.state (history ++ events))) : Leads t v v' :=
  fun history => ⟨history ++ events, .single ⟨oracle, h history⟩⟩

/-- One step that records nothing. -/
theorem silent (h : ∀ history, GoalHandle.step t {} (v.state history) = some (v'.state history)) :
    Leads t v v' :=
  .step {} [] fun history => by rw [h, List.append_nil]

end Leads

/-! ## `runNonRealtime` -/

/-- Where a branch of `runNonRealtime` lands: at `next`, or at the unlock if it throws. -/
def View.landing (v : View κ R F) (next : RunPc) : Except (Handle R F) (Handle R F) → View κ R F
  | .ok h => { v with handle := h, run := next }
  | .error h => { v with handle := h, run := .unlock }

/-- The steps from `pc` to `next` compute `branch`. -/
def Computes (κ : Type) [DecidableEq κ] (pc : RunPc)
    (branch : Handle R F → Except (Handle R F) (Handle R F)) (next : RunPc) : Prop :=
  ∀ v : View κ R F, v.run = pc → Leads .nonRealtime v (v.landing next (branch v.handle))

theorem Computes.bind {f g : Handle R F → Except (Handle R F) (Handle R F)} {pc mid next : RunPc}
    (hf : Computes κ pc f mid) (hg : Computes κ mid g next) :
    Computes κ pc (fun h => f h >>= g) next := by
  intro v hpc
  have hv : Leads .nonRealtime v (v.landing mid (f v.handle)) := hf v hpc
  show Leads .nonRealtime v (v.landing next (f v.handle >>= g))
  cases hfh : f v.handle with
  | error h =>
    rw [hfh] at hv
    exact hv
  | ok h =>
    rw [hfh] at hv
    exact hv.trans (hg _ rfl)

omit [DecidableEq κ] in
theorem callGoal_of_some {s : State κ R F} {f : Goal R F → Option (Goal R F)} {next : RunPc}
    {g : Goal R F} (hf : s.handle.gh.bind f = some g) :
    callGoal s f next = { s with handle := { s.handle with gh := some g }, run := next } := by
  unfold callGoal
  rw [hf]

omit [DecidableEq κ] in
theorem callGoal_of_none {s : State κ R F} {f : Goal R F → Option (Goal R F)} {next : RunPc}
    (hf : s.handle.gh.bind f = none) : callGoal s f next = { s with run := .unlock } := by
  unfold callGoal
  rw [hf]

theorem executeBranch_computes :
    Computes κ .loadExecute (Handle.executeBranch (R := R) (F := F)) (.loadRequest .abort) := by
  rintro ⟨h, mutex, run, user⟩ hpc
  obtain rfl : run = .loadExecute := hpc
  let here (pc : RunPc) : View κ R F := ⟨h, mutex, pc, user⟩
  show Leads .nonRealtime (here .loadExecute) ((here .loadExecute).landing _ h.executeBranch)
  have hload : Leads .nonRealtime (here .loadExecute)
      (here (if h.reqExecute then .testExecuting else .loadRequest .abort)) := .silent fun _ => rfl
  have hexecuting : Leads .nonRealtime (here .testExecuting)
      (here (if !h.isExecuting then .testActive else .loadRequest .abort)) := .silent fun _ => rfl
  have hactive : Leads .nonRealtime (here .testActive)
      (here (if h.isActive then .testCanceling else .loadRequest .abort)) := .silent fun _ => rfl
  have hcanceling : Leads .nonRealtime (here .testCanceling)
      (here (if !h.isCanceling then .execute else .loadRequest .abort)) := .silent fun _ => rfl
  -- The first test that fails leads to the next branch.
  cases he : h.reqExecute with
  | false =>
    rw [he] at hload
    rw [show h.executeBranch = .ok h by simp [Handle.executeBranch, he]]
    exact hload
  | true =>
    rw [he] at hload
    cases hx : !h.isExecuting with
    | false =>
      rw [hx] at hexecuting
      rw [show h.executeBranch = .ok h by simp [Handle.executeBranch, hx]]
      exact hload.trans hexecuting
    | true =>
      rw [hx] at hexecuting
      cases ha : h.isActive with
      | false =>
        rw [ha] at hactive
        rw [show h.executeBranch = .ok h by simp [Handle.executeBranch, ha]]
        exact hload.trans (hexecuting.trans hactive)
      | true =>
        rw [ha] at hactive
        have htests := hload.trans (hexecuting.trans hactive)
        cases hc : !h.isCanceling with
        | false =>
          rw [hc] at hcanceling
          rw [show h.executeBranch = .ok h by simp [Handle.executeBranch, hc]]
          exact htests.trans hcanceling
        | true =>
          rw [hc] at hcanceling
          have htest : (h.reqExecute && !h.isExecuting && h.isActive && !h.isCanceling) = true := by
            rw [he, hx, ha, hc]
            rfl
          unfold Handle.executeBranch
          rw [if_pos htest]
          apply (htests.trans hcanceling).trans
          cases hf : h.gh.bind Goal.execute with
          | some g => exact .silent fun _ => congrArg some (callGoal_of_some hf)
          | none => exact .silent fun _ => congrArg some (callGoal_of_none hf)

/-- The three outcome branches. -/
theorem outcomeBranch_computes (o : Outcome) :
    Computes κ (.loadRequest o)
      (fun h : Handle R F => Handle.outcomeBranch o (outcomeGuard h o) h) (afterOutcome o) := by
  rintro ⟨h, mutex, run, user⟩ hpc
  obtain rfl : run = .loadRequest o := hpc
  let here (pc : RunPc) : View κ R F := ⟨h, mutex, pc, user⟩
  show Leads .nonRealtime (here (.loadRequest o))
    ((here (.loadRequest o)).landing _ (h.outcomeBranch o (outcomeGuard h o)))
  have hload : Leads .nonRealtime (here (.loadRequest o))
      (here (if h.requested o then .testGuard o else afterOutcome o)) := .silent fun _ => rfl
  have hguard : Leads .nonRealtime (here (.testGuard o))
      (here (if outcomeGuard h o then .finish o else afterOutcome o)) := .silent fun _ => rfl
  cases hr : h.requested o with
  | false =>
    rw [hr] at hload
    rw [show h.outcomeBranch o (outcomeGuard h o) = .ok h by simp [Handle.outcomeBranch, hr]]
    exact hload
  | true =>
    rw [hr] at hload
    cases ht : outcomeGuard h o with
    | false =>
      rw [ht] at hguard
      rw [show h.outcomeBranch o false = .ok h by simp [Handle.outcomeBranch]]
      exact hload.trans hguard
    | true =>
      rw [ht] at hguard
      unfold Handle.outcomeBranch
      rw [hr, if_pos (Bool.and_self true)]
      apply (hload.trans hguard).trans
      cases hf : h.gh.bind (Goal.finish o h.reqResult) with
      | none => exact .silent fun _ => congrArg some (callGoal_of_none hf)
      | some g =>
        have hfinish : Leads .nonRealtime (here (.finish o))
            ⟨{ h with gh := some g }, mutex, .storeRequest o, user⟩ :=
          .silent fun _ => congrArg some (callGoal_of_some hf)
        exact hfinish.trans (.step {} [.withdrawn o] fun _ => rfl)

omit [DecidableEq κ] in
theorem runNonRealtime_publishFeedback {s : State κ R F} {feedback : FeedbackPtr F}
    (hs : s.run = .publishFeedback) (hf : s.handle.reqFeedback = some feedback) :
    runNonRealtime s =
      some ({ s with
          handle := { s.handle with
            gh := s.handle.gh.map (Goal.publishFeedback (s.handle.content feedback)) }
          run := .unlock }.record (.feedbackPublished (s.handle.content feedback))) := by
  unfold runNonRealtime
  simp only [hs, hf]

theorem feedbackBranch_computes :
    Computes κ .testFeedback (fun h : Handle R F => .ok h.feedbackBranch) .unlock := by
  rintro ⟨h, mutex, run, user⟩ hpc
  obtain rfl : run = .testFeedback := hpc
  let here (pc : RunPc) : View κ R F := ⟨h, mutex, pc, user⟩
  show Leads .nonRealtime (here .testFeedback) { here .unlock with handle := h.feedbackBranch }
  have hfeedback : Leads .nonRealtime (here .testFeedback)
      (here (if h.reqFeedback.isSome then .testFeedbackExecuting else .unlock)) :=
    .silent fun _ => rfl
  have hexecuting : Leads .nonRealtime (here .testFeedbackExecuting)
      (here (if h.isExecuting then .publishFeedback else .unlock)) := .silent fun _ => rfl
  cases hf : h.reqFeedback with
  | none =>
    rw [hf] at hfeedback
    rw [show h.feedbackBranch = h by simp [Handle.feedbackBranch, hf]]
    exact hfeedback
  | some feedback =>
    rw [hf] at hfeedback
    apply hfeedback.trans
    cases hx : h.isExecuting with
    | false =>
      rw [hx] at hexecuting
      rw [show h.feedbackBranch = h by simp [Handle.feedbackBranch, hf, hx]]
      exact hexecuting
    | true =>
      rw [hx] at hexecuting
      rw [show h.feedbackBranch =
        { h with gh := h.gh.map (Goal.publishFeedback (h.content feedback)) } by
          simp [Handle.feedbackBranch, hf, hx]]
      apply hexecuting.trans
      apply Leads.step {} [.feedbackPublished (h.content feedback)]
      intro history
      exact runNonRealtime_publishFeedback (s := (here .publishFeedback).state history) rfl hf

theorem runBranches_computes :
    Computes κ .loadExecute (Handle.runBranches (R := R) (F := F)) .unlock :=
  executeBranch_computes.bind ((outcomeBranch_computes .abort).bind
    ((outcomeBranch_computes .cancel).bind ((outcomeBranch_computes .succeed).bind
      feedbackBranch_computes)))

/-- The state between two calls. -/
def View.resting (κ : Type) (h : Handle R F) : View κ R F where
  handle := h
  mutex := none
  run := .idle
  user := fun _ => .idle

theorem runNonRealtime_leads (h : Handle R F) :
    Leads .nonRealtime (.resting κ h) (.resting κ h.runNonRealtime) := by
  let here (h : Handle R F) (mutex : Mutex (Actor κ)) (pc : RunPc) : View κ R F :=
    ⟨h, mutex, pc, fun _ => .idle⟩
  have hcall : Leads .nonRealtime (.resting κ h) (here h none .testValid) := .silent fun _ => rfl
  have hvalid : Leads .nonRealtime (here h none .testValid)
      (here h none (if h.valid then .lock else .idle)) := .silent fun _ => rfl
  unfold Handle.runNonRealtime
  cases hv : h.valid with
  | false =>
    rw [hv] at hvalid
    exact hcall.trans hvalid
  | true =>
    rw [hv] at hvalid
    have hlock : Leads .nonRealtime (here h none .lock) (here h (some .nonRealtime) .loadExecute) :=
      .silent fun _ => rfl
    have hunlock (h' : Handle R F) :
        Leads .nonRealtime (here h' (some .nonRealtime) .unlock) (.resting κ h') :=
      .silent fun _ => rfl
    have hrun := runBranches_computes (here h (some .nonRealtime) .loadExecute) rfl
    apply (hcall.trans (hvalid.trans hlock)).trans
    cases hb : h.runBranches with
    | ok h' =>
      rw [show (here h (some .nonRealtime) .loadExecute).handle.runBranches = .ok h' from hb] at hrun
      exact hrun.trans (hunlock h')
    | error h' =>
      rw [show (here h (some .nonRealtime) .loadExecute).handle.runBranches = .error h' from hb] at hrun
      exact hrun.trans (hunlock h')

/-! ## The calls of a user -/

/-- Only `k` is inside a call, at `pc`. -/
def View.calling (h : Handle R F) (mutex : Mutex (Actor κ)) (k : κ) (pc : UserPc R F) :
    View κ R F where
  handle := h
  mutex := mutex
  run := .idle
  user := Function.update (fun _ => .idle) k pc

variable {h h' : Handle R F} {mutex mutex' : Mutex (Actor κ)} {k : κ} {pc pc' : UserPc R F}
  {history : List (Event κ R F)}

theorem calling_at : ((View.calling h mutex k pc).state history).user k = pc := by
  show Function.update (fun _ => UserPc.idle) k pc k = pc
  rw [Function.update_self]

theorem calling_goto :
    ((View.calling h mutex k pc).state history).goto k pc' =
      (View.calling h mutex k pc').state history := by
  simp [State.goto, View.state, View.calling]

theorem Leads.exit {t : Actor κ} : Leads t (.calling h none k .idle) (.resting κ h) := by
  rw [show View.calling h none k .idle = .resting κ h from
    congrArg (View.mk h none .idle) (Function.update_eq_self k _)]
  exact .refl

theorem userStep_execute {s : State κ R F} {oracle : Oracle R F} {pc : ExecutePc}
    (hs : s.user k = .execute pc) : userStep s k oracle = execute s k pc := by
  unfold userStep
  rw [hs]

theorem userStep_set {s : State κ R F} {oracle : Oracle R F} {o : Outcome} {result : Option R}
    {pc : RequestPc} (hs : s.user k = .set o result pc) :
    userStep s k oracle = set s k o result pc := by
  unfold userStep
  rw [hs]

theorem userStep_setFeedback {s : State κ R F} {oracle : Oracle R F}
    {feedback : Option (FeedbackPtr F)} {pc : FeedbackPc} (hs : s.user k = .setFeedback feedback pc) :
    userStep s k oracle = setFeedback s k oracle feedback pc := by
  unfold userStep
  rw [hs]

theorem userStep_trySetFeedback {s : State κ R F} {oracle : Oracle R F} {pc : FeedbackPc}
    (hs : s.user k = .trySetFeedback pc) :
    userStep s k oracle = trySetFeedback s k oracle pc := by
  unfold userStep
  rw [hs]

theorem Leads.call (call : Call R F) :
    Leads (.user k) (.resting κ h) (.calling h none k call.entry) :=
  .step { call } [.called k call] fun _ => rfl

theorem Leads.move (oracle : Oracle R F)
    (hs : ∀ history, userStep ((View.calling h mutex k pc).state history) k oracle =
      some (((View.calling h' mutex' k pc).state history).goto k pc')) :
    Leads (.user k) (.calling h mutex k pc) (.calling h' mutex' k pc') :=
  .step oracle [] fun history => by
    rw [List.append_nil]
    exact (hs history).trans (congrArg some calling_goto)

theorem Leads.moveRecord (oracle : Oracle R F) (event : Event κ R F)
    (hs : ∀ history, userStep ((View.calling h mutex k pc).state history) k oracle =
      some ((((View.calling h' mutex' k pc).state history).goto k pc').record event)) :
    Leads (.user k) (.calling h mutex k pc) (.calling h' mutex' k pc') :=
  .step oracle [event] fun history =>
    (hs history).trans (congrArg (fun s : State κ R F => some (s.record event)) calling_goto)

/-- A call tests a flag before it takes the mutex, and returns if the test fails. -/
theorem Leads.test {test : Bool}
    (hs : ∀ history, userStep ((View.calling h mutex k pc).state history) k {} =
      if test then some (((View.calling h mutex k pc).state history).goto k pc')
      else some ((((View.calling h mutex k pc).state history).goto k .idle).record
        (.returned k none))) :
    Leads (.user k) (.calling h mutex k pc) (.calling h mutex k (if test then pc' else .idle)) := by
  cases ht : test with
  | true =>
    rw [ht] at hs
    exact .move {} hs
  | false =>
    rw [ht] at hs
    exact .moveRecord {} (.returned k none) hs

theorem set_leads (o : Outcome) (result : Option R) :
    Leads (.user k) (.resting κ h) (.resting κ (h.request o result)) := by
  let here (pc : RequestPc) : View κ R F := .calling h none k (.set o result pc)
  have hcall : Leads (.user k) (.resting κ h) (here .loadExecute) := .call (.set o result)
  have hexecute : Leads (.user k) (here .loadExecute) (.calling h none k
      (if h.reqExecute then .set o result .loadSucceed else .idle)) :=
    .test fun _ => userStep_set calling_at
  have hsucceed : Leads (.user k) (here .loadSucceed) (.calling h none k
      (if !h.reqSucceed then .set o result .loadAbort else .idle)) :=
    .test fun _ => userStep_set calling_at
  have habort : Leads (.user k) (here .loadAbort) (.calling h none k
      (if !h.reqAbort then .set o result .loadCancel else .idle)) :=
    .test fun _ => userStep_set calling_at
  have hcancel : Leads (.user k) (here .loadCancel) (.calling h none k
      (if !h.reqCancel then .set o result .lock else .idle)) :=
    .test fun _ => userStep_set calling_at
  -- The first flag that shuts the call out ends it.
  cases he : h.reqExecute with
  | false =>
    rw [he] at hexecute
    rw [show h.request o result = h by simp [Handle.request, he]]
    exact hcall.trans (hexecute.trans .exit)
  | true =>
    rw [he] at hexecute
    cases hs : !h.reqSucceed with
    | false =>
      rw [hs] at hsucceed
      rw [show h.request o result = h by simp [Handle.request, hs]]
      exact hcall.trans (hexecute.trans (hsucceed.trans .exit))
    | true =>
      rw [hs] at hsucceed
      have hpassed := hcall.trans (hexecute.trans hsucceed)
      cases ha : !h.reqAbort with
      | false =>
        rw [ha] at habort
        rw [show h.request o result = h by simp [Handle.request, ha]]
        exact hpassed.trans (habort.trans .exit)
      | true =>
        rw [ha] at habort
        cases hc : !h.reqCancel with
        | false =>
          rw [hc] at hcancel
          rw [show h.request o result = h by simp [Handle.request, hc]]
          exact hpassed.trans (habort.trans (hcancel.trans .exit))
        | true =>
          rw [hc] at hcancel
          let stored : Handle R F := { h with reqResult := result }
          let owned (h : Handle R F) (pc : RequestPc) : View κ R F :=
            .calling h (some (.user k)) k (.set o result pc)
          have hlock : Leads (.user k) (here .lock) (owned h .storeResult) :=
            .move {} fun _ => userStep_set calling_at
          have hresult : Leads (.user k) (owned h .storeResult) (owned stored .storeRequest) :=
            .move {} fun _ => userStep_set calling_at
          have hrequest : Leads (.user k) (owned stored .storeRequest)
              (owned (stored.setRequested true o) .unlock) :=
            .moveRecord {} (.requested k o result) fun _ => userStep_set calling_at
          have hunlock : Leads (.user k) (owned (stored.setRequested true o) .unlock)
              (.calling (stored.setRequested true o) none k .idle) :=
            .moveRecord {} (.returned k none) fun _ => userStep_set calling_at
          have htest : (h.reqExecute && !h.reqSucceed && !h.reqAbort && !h.reqCancel) = true := by
            rw [he, hs, ha, hc]
            rfl
          rw [show h.request o result = stored.setRequested true o from if_pos htest]
          exact (hpassed.trans (habort.trans hcancel)).trans
            (hlock.trans (hresult.trans (hrequest.trans (hunlock.trans .exit))))

theorem execute_leads : Leads (.user k) (.resting κ h) (.resting κ h.execute) := by
  let here (pc : ExecutePc) : View κ R F := .calling h none k (.execute pc)
  have hcall : Leads (.user k) (.resting κ h) (here .loadSucceed) := .call .execute
  have hsucceed : Leads (.user k) (here .loadSucceed) (.calling h none k
      (if !h.reqSucceed then .execute .loadAbort else .idle)) :=
    .test fun _ => userStep_execute calling_at
  have habort : Leads (.user k) (here .loadAbort) (.calling h none k
      (if !h.reqAbort then .execute .loadCancel else .idle)) :=
    .test fun _ => userStep_execute calling_at
  have hcancel : Leads (.user k) (here .loadCancel) (.calling h none k
      (if !h.reqCancel then .execute .lock else .idle)) :=
    .test fun _ => userStep_execute calling_at
  cases hs : !h.reqSucceed with
  | false =>
    rw [hs] at hsucceed
    rw [show h.execute = h by simp [Handle.execute, hs]]
    exact hcall.trans (hsucceed.trans .exit)
  | true =>
    rw [hs] at hsucceed
    cases ha : !h.reqAbort with
    | false =>
      rw [ha] at habort
      rw [show h.execute = h by simp [Handle.execute, ha]]
      exact hcall.trans (hsucceed.trans (habort.trans .exit))
    | true =>
      rw [ha] at habort
      have hpassed := hcall.trans (hsucceed.trans habort)
      cases hc : !h.reqCancel with
      | false =>
        rw [hc] at hcancel
        rw [show h.execute = h by simp [Handle.execute, hc]]
        exact hpassed.trans (hcancel.trans .exit)
      | true =>
        rw [hc] at hcancel
        let started : Handle R F := { h with reqExecute := true }
        let owned (h : Handle R F) (pc : ExecutePc) : View κ R F :=
          .calling h (some (.user k)) k (.execute pc)
        have hlock : Leads (.user k) (here .lock) (owned h .storeExecute) :=
          .move {} fun _ => userStep_execute calling_at
        have hexecute : Leads (.user k) (owned h .storeExecute) (owned started .unlock) :=
          .move {} fun _ => userStep_execute calling_at
        have hunlock : Leads (.user k) (owned started .unlock) (.calling started none k .idle) :=
          .moveRecord {} (.returned k none) fun _ => userStep_execute calling_at
        have htest : (!h.reqSucceed && !h.reqAbort && !h.reqCancel) = true := by
          rw [hs, ha, hc]
          rfl
        rw [show h.execute = started from if_pos htest]
        exact (hpassed.trans hcancel).trans (hlock.trans (hexecute.trans (hunlock.trans .exit)))

theorem setFeedback_leads (feedback : Option (FeedbackPtr F)) :
    Leads (.user k) (.resting κ h) (.resting κ (h.setFeedback feedback)) := by
  let here (h : Handle R F) (mutex : Mutex (Actor κ)) (pc : FeedbackPc) : View κ R F :=
    .calling h mutex k (.setFeedback feedback pc)
  have hcall : Leads (.user k) (.resting κ h) (here h none .tryLock) := .call (.setFeedback feedback)
  have hlock : Leads (.user k) (here h none .tryLock) (here h (some (.user k)) .storeFeedback) :=
    .move {} fun _ => userStep_setFeedback calling_at
  have hstore : Leads (.user k) (here h (some (.user k)) .storeFeedback)
      (here (h.setFeedback feedback) (some (.user k)) .unlock) :=
    .moveRecord {} (.feedbackSet k (feedback.map h.content))
      fun _ => userStep_setFeedback calling_at
  have hunlock : Leads (.user k) (here (h.setFeedback feedback) (some (.user k)) .unlock)
      (.calling (h.setFeedback feedback) none k .idle) :=
    .moveRecord {} (.returned k (some true)) fun _ => userStep_setFeedback calling_at
  exact hcall.trans (hlock.trans (hstore.trans (hunlock.trans .exit)))

/-- The callback writes `content` into the preallocated message and returns. -/
theorem trySetFeedback_leads (content : F) :
    Leads (.user k) (.resting κ h) (.resting κ (h.trySetFeedback content)) := by
  let here (h : Handle R F) (mutex : Mutex (Actor κ)) (pc : FeedbackPc) : View κ R F :=
    .calling h mutex k (.trySetFeedback pc)
  let written : Handle R F := { h with preallocatedFeedback := content }
  have hcall : Leads (.user k) (.resting κ h) (here h none .tryLock) := .call .trySetFeedback
  have hlock : Leads (.user k) (here h none .tryLock) (here h (some (.user k)) .update) :=
    .move {} fun _ => userStep_trySetFeedback calling_at
  have hwrite : Leads (.user k) (here h (some (.user k)) .update)
      (here written (some (.user k)) .update) := by
    apply Leads.step { update := some content } []
    intro history
    rw [List.append_nil]
    exact userStep_trySetFeedback calling_at
  have hdone : Leads (.user k) (here written (some (.user k)) .update)
      (here written (some (.user k)) .storeFeedback) :=
    .move {} fun _ => userStep_trySetFeedback calling_at
  have hstore : Leads (.user k) (here written (some (.user k)) .storeFeedback)
      (here (h.trySetFeedback content) (some (.user k)) .unlock) :=
    .moveRecord {} (.feedbackSet k (some content)) fun _ => userStep_trySetFeedback calling_at
  have hunlock : Leads (.user k) (here (h.trySetFeedback content) (some (.user k)) .unlock)
      (.calling (h.trySetFeedback content) none k .idle) :=
    .moveRecord {} (.returned k (some true)) fun _ => userStep_trySetFeedback calling_at
  exact hcall.trans (hlock.trans (hwrite.trans (hdone.trans (hstore.trans (hunlock.trans .exit)))))

/-! ## Sequences of calls -/

/-- Who makes a call, if the users' calls are made by `k`. -/
def Op.actor (k : κ) : Op R F → Actor κ
  | .runNonRealtime => .nonRealtime
  | .clientCancel => .actionClient
  | _ => .user k

theorem Op.leads (k : κ) (op : Op R F) (h : Handle R F) :
    Leads (op.actor k) (.resting κ h) (.resting κ (op.apply h)) := by
  cases op with
  | execute => exact execute_leads
  | setAborted result | setCanceled result | setSucceeded result => exact set_leads _ result
  | setFeedback feedback => exact setFeedback_leads feedback
  | trySetFeedback content => exact trySetFeedback_leads content
  | runNonRealtime => exact runNonRealtime_leads h
  | clientCancel => exact .silent fun _ => rfl

/-- **Sequences of calls are runs.**  Whatever a sequence of calls makes of a fresh handle, the
threads of the step-by-step model make of it when they make the same calls one after another. -/
theorem calls_reachable [Inhabited κ] {h : Handle R F} (hr : Reachable (calls R F) anyStep h) :
    ∃ history, Reachable (goalHandle κ R F) anyStep ((View.resting κ h).state history) := by
  induction hr with
  | start hs =>
    obtain ⟨gh, content, rfl⟩ := hs
    exact ⟨[], .start ⟨gh, content, rfl⟩⟩
  | @step _ _ _ op _ _ hs ih =>
    obtain rfl := Option.some.inj hs
    obtain ⟨history, hreach⟩ := ih
    obtain ⟨history', halone⟩ := op.leads default _ history
    exact ⟨history', hreach.alone halone⟩

end GoalHandle
