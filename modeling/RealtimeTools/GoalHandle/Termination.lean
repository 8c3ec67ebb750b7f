import RealtimeTools.GoalHandle.Handle

/-!
# Which goals can still be finished

A request that is pending shuts out every other request, and `runNonRealtime` withdraws it only when
it applies it.  So a goal whose pending request does not fit its state is wedged: every call the
server can make leaves the handle exactly as it is.
-/

open Interleaving

namespace GoalHandle

variable {R F : Type}

/-- The goal has started and can still be finished by the server. -/
def GoalStatus.isRunning (g : GoalStatus) : Bool := g.isExecuting || g.isCanceling

/-- The outcomes `runNonRealtime` applies in a state of the goal. -/
def GoalStatus.applies : GoalStatus → Outcome → Bool
  | .executing, .abort | .executing, .succeed | .canceling, .cancel => true
  | _, _ => false

/-- What the server can do about a goal: set an outcome, or run the non-realtime part. -/
inductive ServerCall (R : Type)
  | set (o : Outcome) (result : Option R)
  | runNonRealtime

def ServerCall.apply : ServerCall R → Handle R F → Handle R F
  | .set o result => Handle.request o result
  | .runNonRealtime => Handle.runNonRealtime

namespace Handle

variable {h h' : Handle R F} {g : Goal R F} {o : Outcome}

/-- `gh_` is in a terminal state. -/
def Terminated (h : Handle R F) : Prop := ∃ g, h.gh = some g ∧ g.status.isActive = false

/-- Some calls of the server finish the goal. -/
def Finishable (h : Handle R F) : Prop :=
  ∃ run : List (ServerCall R), (run.foldl (fun h call => call.apply h) h).Terminated

/-- The pending request will not be applied in the state the goal is in. -/
def Wedged (h : Handle R F) : Prop :=
  ∃ g o, h.gh = some g ∧ g.status.isRunning = true ∧ h.requested o = true ∧
    g.status.applies o = false

/-! ## The setters -/

/-- What the setters test before they store anything. -/
theorem accepts_iff :
    (h.reqExecute && !h.reqSucceed && !h.reqAbort && !h.reqCancel) = true ↔
      h.reqExecute = true ∧ ∀ o, h.requested o = false := by
  constructor
  · intro ht
    simp only [Bool.and_eq_true, Bool.not_eq_true'] at ht
    refine ⟨ht.1.1.1, fun o => ?_⟩
    cases o with
    | abort => exact ht.1.2
    | cancel => exact ht.2
    | succeed => exact ht.1.1.2
  · rintro ⟨he, hnone⟩
    have ha : h.reqAbort = false := hnone .abort
    have hc : h.reqCancel = false := hnone .cancel
    have hs : h.reqSucceed = false := hnone .succeed
    rw [he, ha, hc, hs]
    rfl

theorem request_of_requested {o' : Outcome} {result : Option R} (ho : h.requested o = true) :
    h.request o' result = h := by
  refine if_neg fun ht => ?_
  have hnone := (accepts_iff.mp ht).2 o
  exact Bool.noConfusion (ho.symm.trans hnone)

theorem request_of_free {result : Option R} (he : h.reqExecute = true)
    (hnone : ∀ o, h.requested o = false) :
    h.request o result = { h with reqResult := result }.setRequested true o :=
  if_pos (accepts_iff.mpr ⟨he, hnone⟩)

theorem OneRequest.request {result : Option R} (h₁ : h.OneRequest) :
    (h.request o result).OneRequest := by
  by_cases ht : (h.reqExecute && !h.reqSucceed && !h.reqAbort && !h.reqCancel) = true
  · obtain ⟨he, hnone⟩ := accepts_iff.mp ht
    have hflag : ∀ o', (h.request o result).requested o' = true → o' = o := by
      intro o' ho'
      by_contra hne
      rw [request_of_free he hnone, requested_setRequested, if_neg hne] at ho'
      exact Bool.noConfusion (ho'.symm.trans (hnone o'))
    intro o₁ o₂ ho₁ ho₂
    rw [hflag o₁ ho₁, hflag o₂ ho₂]
  · have hsame : h.request o result = h := if_neg ht
    rwa [hsame]

/-! ## The branches of `runNonRealtime` -/

theorem executeBranch_of_running (hg : h.gh = some g) (hr : g.status.isRunning = true) :
    executeBranch h = .ok h := by
  refine if_neg ?_
  cases hs : g.status <;> simp_all [isExecuting, isCanceling, GoalStatus.isRunning,
    GoalStatus.isExecuting, GoalStatus.isCanceling]

theorem outcomeBranch_skip {guard : Bool} (hs : (h.requested o && guard) = false) :
    outcomeBranch o guard h = .ok h :=
  if_neg (by rw [hs]; exact Bool.false_ne_true)

/-- A branch either finishes the goal and withdraws its request, or leaves the handle alone. -/
theorem outcomeBranch_cases (o : Outcome) (guard : Bool) (h : Handle R F) :
    outcomeBranch o guard h = .ok h ∨ outcomeBranch o guard h = .error h ∨
      ∃ g g', h.gh = some g ∧ g.finish o h.reqResult = some g' ∧
        outcomeBranch o guard h = .ok ({ h with gh := some g' }.setRequested false o) := by
  unfold outcomeBranch
  split
  · cases hf : h.gh.bind (Goal.finish o h.reqResult) with
    | none => exact .inr (.inl rfl)
    | some g' =>
      obtain ⟨g, hg, hg'⟩ := Option.bind_eq_some_iff.mp hf
      exact .inr (.inr ⟨g, g', hg, hg', rfl⟩)
  · exact .inl rfl

/-- A handle on which `runNonRealtime` has only withdrawn requests. -/
def OnlyWithdraws (h h' : Handle R F) : Prop :=
  ∀ o, h'.requested o = true → h.requested o = true

theorem OnlyWithdraws.oneRequest (hw : OnlyWithdraws h h') (h₁ : h.OneRequest) : h'.OneRequest :=
  fun o o' ho ho' => h₁ o o' (hw o ho) (hw o' ho')

/-- The handle a branch ends with, whether it throws or not. -/
def after : Except (Handle R F) (Handle R F) → Handle R F
  | .ok h => h
  | .error h => h

theorem runNonRealtime_eq_after (h : Handle R F) :
    h.runNonRealtime = if h.valid then after (runBranches h) else h := by
  unfold runNonRealtime
  split
  · cases runBranches h <;> rfl
  · rfl

theorem executeBranch_withdraws (h : Handle R F) : OnlyWithdraws h (after (executeBranch h)) := by
  unfold executeBranch
  split
  · split <;> exact fun o ho => by cases o <;> exact ho
  · exact fun _ ho => ho

theorem outcomeBranch_withdraws (o : Outcome) (guard : Bool) (h : Handle R F) :
    OnlyWithdraws h (after (outcomeBranch o guard h)) := by
  rcases outcomeBranch_cases o guard h with he | he | ⟨g, g', _, _, he⟩
  · rw [he]
    exact fun _ ho => ho
  · rw [he]
    exact fun _ ho => ho
  · intro o' ho'
    rw [he] at ho'
    have hflag : (({ h with gh := some g' } : Handle R F).setRequested false o).requested o' = true :=
      ho'
    rw [requested_setRequested] at hflag
    split at hflag
    · exact Bool.noConfusion hflag
    · cases o' <;> exact hflag

theorem feedbackBranch_withdraws (h : Handle R F) : OnlyWithdraws h (feedbackBranch h) := by
  unfold feedbackBranch
  split
  · split
    · exact fun o ho => by cases o <;> exact ho
    · exact fun _ ho => ho
  · exact fun _ ho => ho

/-- A branch and what comes after it. -/
theorem after_bind {P : Handle R F → Prop} {branch : Except (Handle R F) (Handle R F)}
    {next : Handle R F → Except (Handle R F) (Handle R F)} (hb : P (after branch))
    (hn : ∀ h, P h → P (after (next h))) : P (after (branch >>= next)) := by
  cases branch with
  | error h => exact hb
  | ok h => exact hn h hb

theorem OnlyWithdraws.bind {branch : Except (Handle R F) (Handle R F)}
    {next : Handle R F → Except (Handle R F) (Handle R F)} (hw : OnlyWithdraws h (after branch))
    (hn : ∀ h', OnlyWithdraws h' (after (next h'))) : OnlyWithdraws h (after (branch >>= next)) :=
  after_bind hw fun h' hw' o ho => hw' o (hn h' o ho)

theorem runNonRealtime_withdraws (h : Handle R F) : OnlyWithdraws h h.runNonRealtime := by
  rw [runNonRealtime_eq_after]
  split
  · unfold runBranches
    apply (executeBranch_withdraws h).bind
    intro h
    apply (outcomeBranch_withdraws .abort h.isExecuting h).bind
    intro h
    apply (outcomeBranch_withdraws .cancel h.isActive h).bind
    intro h
    apply (outcomeBranch_withdraws .succeed (!h.isCanceling) h).bind
    exact feedbackBranch_withdraws
  · exact fun _ ho => ho

/-! ## Wedged goals -/

theorem isExecuting_eq (hg : h.gh = some g) : h.isExecuting = g.status.isExecuting := by
  simp [isExecuting, hg]

theorem isCanceling_eq (hg : h.gh = some g) : h.isCanceling = g.status.isCanceling := by
  simp [isCanceling, hg]

theorem isActive_eq (hg : h.gh = some g) : h.isActive = g.status.isActive := by
  simp [isActive, hg]

/-- A running goal is past its `execute`, so the rest of `runNonRealtime` starts from `h` itself. -/
theorem runNonRealtime_of_running (hg : h.gh = some g) (hr : g.status.isRunning = true) :
    h.runNonRealtime =
      after (abortBranch h >>= cancelBranch >>= succeedBranch >>= fun h => .ok (feedbackBranch h)) := by
  have hvalid : h.valid = true := by simp [valid, hg]
  rw [runNonRealtime_eq_after, if_pos hvalid]
  unfold runBranches
  rw [executeBranch_of_running hg hr]
  simp only [bind_assoc]
  rfl

theorem requested_eq_false (h₁ : h.OneRequest) (ho : h.requested o = true) {o' : Outcome}
    (hne : o' ≠ o) : h.requested o' = false := by
  by_contra ht
  exact hne (h₁ o' o (by simpa using ht) ho)

theorem feedbackBranch_of_not_executing (hx : h.isExecuting = false) : feedbackBranch h = h := by
  unfold feedbackBranch
  split
  · exact if_neg (by rw [hx]; exact Bool.false_ne_true)
  · rfl

/-- The pending request does not fit the goal, there is no other one, and nothing changes. -/
theorem runNonRealtime_of_wedged (h₁ : h.OneRequest) (hw : h.Wedged) : h.runNonRealtime = h := by
  obtain ⟨g, o, hg, hr, ho, hn⟩ := hw
  rw [runNonRealtime_of_running hg hr]
  cases hs : g.status with
  | executing =>
    -- Only a cancel request does not fit, and `canceled` throws.
    obtain rfl : o = .cancel := by
      rw [hs] at hn
      cases o <;> first | rfl | cases hn
    have habort : abortBranch h = .ok h := by
      refine outcomeBranch_skip ?_
      rw [requested_eq_false h₁ ho (by decide), Bool.false_and]
    have hcancel : cancelBranch h = .error h := by
      unfold cancelBranch outcomeBranch
      rw [isActive_eq hg, hs, ho, hg]
      simp [Goal.finish, GoalStatus.finish, GoalStatus.isActive, hs]
    rw [habort]
    show after (cancelBranch h >>= _ >>= _) = h
    rw [hcancel]
    rfl
  | canceling =>
    -- An abort or succeed request is held back by its guard, and nothing else is requested.
    have hcancelReq : o ≠ .cancel := by
      rintro rfl
      rw [hs] at hn
      cases hn
    have habort : abortBranch h = .ok h := by
      refine outcomeBranch_skip ?_
      rw [isExecuting_eq hg, hs]
      exact Bool.and_false _
    have hcancel : cancelBranch h = .ok h := by
      refine outcomeBranch_skip ?_
      rw [requested_eq_false h₁ ho hcancelReq.symm, Bool.false_and]
    have hsucceed : succeedBranch h = .ok h := by
      refine outcomeBranch_skip ?_
      rw [isCanceling_eq hg, hs]
      exact Bool.and_false _
    rw [habort]
    show after (cancelBranch h >>= _ >>= _) = h
    rw [hcancel]
    show after (succeedBranch h >>= _) = h
    rw [hsucceed]
    exact feedbackBranch_of_not_executing (by rw [isExecuting_eq hg, hs]; rfl)
  | _ => simp [GoalStatus.isRunning, hs, GoalStatus.isExecuting, GoalStatus.isCanceling] at hr

theorem apply_of_wedged (h₁ : h.OneRequest) (hw : h.Wedged) (call : ServerCall R) :
    call.apply h = h := by
  cases call with
  | set o' result =>
    obtain ⟨_, o, _, _, ho, _⟩ := hw
    exact request_of_requested ho
  | runNonRealtime => exact runNonRealtime_of_wedged h₁ hw

theorem GoalStatus.isActive_of_isRunning {g : GoalStatus} (hr : g.isRunning = true) :
    g.isActive = true := by
  cases g <;> first | rfl | cases hr

theorem not_finishable_of_wedged (h₁ : h.OneRequest) (hw : h.Wedged) : ¬ h.Finishable := by
  rintro ⟨run, hrun⟩
  have hfix : run.foldl (fun h call => call.apply h) h = h := by
    induction run with
    | nil => rfl
    | cons call run ih =>
      rw [List.foldl_cons, apply_of_wedged h₁ hw call] at hrun ⊢
      exact ih hrun
  rw [hfix] at hrun
  obtain ⟨g, hg, hdone⟩ := hrun
  obtain ⟨g', _, hg', hr, _, _⟩ := hw
  obtain rfl := Option.some.inj (hg.symm.trans hg')
  exact Bool.noConfusion (hdone.symm.trans (GoalStatus.isActive_of_isRunning hr))

/-! ## The other goals -/

theorem outcomeBranch_finish {guard : Bool} {g' : Goal R F} (hg : h.gh = some g)
    (ho : h.requested o = true) (hguard : guard = true) (hf : g.finish o h.reqResult = some g') :
    outcomeBranch o guard h = .ok ({ h with gh := some g' }.setRequested false o) := by
  have htest : (h.requested o && guard) = true := by rw [ho, hguard]; rfl
  unfold outcomeBranch
  rw [if_pos htest, hg]
  simp only [Option.bind_some, hf]

theorem outcomeBranch_of_not_requested {guard : Bool} (ho : h.requested o = false) :
    outcomeBranch o guard h = .ok h :=
  outcomeBranch_skip (by rw [ho, Bool.false_and])

/-- `runNonRealtime` applies the pending request where it fits the goal. -/
theorem terminated_of_applies (h₁ : h.OneRequest) (hg : h.gh = some g)
    (ho : h.requested o = true) (ha : g.status.applies o = true) :
    h.runNonRealtime.Terminated := by
  obtain ⟨g', hf, hdone⟩ : ∃ g', g.finish o h.reqResult = some g' ∧ g'.status.isActive = false := by
    unfold Goal.finish
    cases hs : g.status <;> cases o <;>
      first | exact ⟨_, rfl, rfl⟩ | (rw [hs] at ha; cases ha)
  have hother : ∀ o', o' ≠ o → h.requested o' = false := fun o' => requested_eq_false h₁ ho
  let h' : Handle R F := { h with gh := some g' }.setRequested false o
  have hgh' : h'.gh = some g' := gh_setRequested _ false o
  have hnone : ∀ o', h'.requested o' = false := by
    intro o'
    rw [requested_setRequested]
    split
    · rfl
    · rename_i hne
      have hkept := hother o' hne
      cases o' <;> exact hkept
  have hfeedback : feedbackBranch h' = h' := by
    apply feedbackBranch_of_not_executing
    rw [isExecuting_eq hgh']
    cases hs' : g'.status <;> first | rfl | (rw [hs'] at hdone; cases hdone)
  have hrun : h.runNonRealtime = h' := by
    have hr : g.status.isRunning = true := by
      cases hs : g.status <;> first | rfl | (rw [hs] at ha; cases ha)
    rw [runNonRealtime_of_running hg hr]
    cases o with
    | abort =>
      have hs : g.status = .executing := by
        cases hs : g.status <;> first | rfl | (rw [hs] at ha; cases ha)
      have habort : abortBranch h = .ok h' :=
        outcomeBranch_finish hg ho (by rw [isExecuting_eq hg, hs]; rfl) hf
      rw [habort]
      show after (cancelBranch h' >>= succeedBranch >>= _) = h'
      rw [show cancelBranch h' = .ok h' from outcomeBranch_of_not_requested (hnone .cancel)]
      show after (succeedBranch h' >>= _) = h'
      rw [show succeedBranch h' = .ok h' from outcomeBranch_of_not_requested (hnone .succeed)]
      exact hfeedback
    | cancel =>
      have hs : g.status = .canceling := by
        cases hs : g.status <;> first | rfl | (rw [hs] at ha; cases ha)
      have hcancel : cancelBranch h = .ok h' :=
        outcomeBranch_finish hg ho (by rw [isActive_eq hg, hs]; rfl) hf
      rw [show abortBranch h = .ok h from outcomeBranch_of_not_requested (hother .abort (by decide))]
      show after (cancelBranch h >>= succeedBranch >>= _) = h'
      rw [hcancel]
      show after (succeedBranch h' >>= _) = h'
      rw [show succeedBranch h' = .ok h' from outcomeBranch_of_not_requested (hnone .succeed)]
      exact hfeedback
    | succeed =>
      have hs : g.status = .executing := by
        cases hs : g.status <;> first | rfl | (rw [hs] at ha; cases ha)
      have hsucceed : succeedBranch h = .ok h' :=
        outcomeBranch_finish hg ho (by rw [isCanceling_eq hg, hs]; rfl) hf
      rw [show abortBranch h = .ok h from outcomeBranch_of_not_requested (hother .abort (by decide))]
      show after (cancelBranch h >>= succeedBranch >>= _) = h'
      rw [show cancelBranch h = .ok h from
        outcomeBranch_of_not_requested (hother .cancel (by decide))]
      show after (succeedBranch h >>= _) = h'
      rw [hsucceed]
      exact hfeedback
  rw [hrun]
  exact ⟨g', hgh', hdone⟩

/-- With nothing pending, the outcome that fits the goal can be requested and applied. -/
theorem finishable_of_free (hg : h.gh = some g) (hr : g.status.isRunning = true)
    (he : h.reqExecute = true) (hnone : ∀ o, h.requested o = false) : h.Finishable := by
  obtain ⟨o, ha⟩ : ∃ o, g.status.applies o = true := by
    cases hs : g.status with
    | executing => exact ⟨.succeed, rfl⟩
    | canceling => exact ⟨.cancel, rfl⟩
    | _ => rw [hs] at hr; cases hr
  refine ⟨[.set o none, .runNonRealtime], ?_⟩
  show (h.request o none).runNonRealtime.Terminated
  have h₁ : h.OneRequest := fun o _ ho => Bool.noConfusion (ho.symm.trans (hnone o))
  have hreq : h.request o none = { h with reqResult := none }.setRequested true o :=
    request_of_free he hnone
  apply terminated_of_applies h₁.request (g := g) _ _ ha
  · rw [hreq, gh_setRequested]
    exact hg
  · rw [hreq, requested_setRequested, if_pos rfl]

theorem finishable_of_not_wedged (h₁ : h.OneRequest) (hg : h.gh = some g)
    (hr : g.status.isRunning = true) (he : h.reqExecute = true) (hw : ¬ h.Wedged) :
    h.Finishable := by
  by_cases hpending : ∃ o, h.requested o = true
  · obtain ⟨o, ho⟩ := hpending
    have ha : g.status.applies o = true := by
      by_contra hn
      exact hw ⟨g, o, hg, hr, ho, by simpa using hn⟩
    exact ⟨[.runNonRealtime], terminated_of_applies h₁ hg ho ha⟩
  · exact finishable_of_free hg hr he fun o => by simpa using not_exists.mp hpending o

end Handle

/-! ## Runs -/

open Handle

theorem reachable_oneRequest {h : Handle R F} (hr : Reachable (calls R F) anyStep h) :
    h.OneRequest := by
  refine hr.invariant (I := Handle.OneRequest) ?_ ?_
  · rintro h ⟨gh, content, rfl⟩ o _ ho
    cases o <;> cases ho
  · intro h _ op h' _ h₁ _ hs
    obtain rfl := Option.some.inj hs
    cases op with
    | setAborted result | setCanceled result | setSucceeded result => exact h₁.request
    | runNonRealtime => exact (runNonRealtime_withdraws h).oneRequest h₁
    | execute =>
      have hw : OnlyWithdraws h h.execute := by
        intro o ho
        unfold Handle.execute at ho
        split at ho <;> cases o <;> exact ho
      exact hw.oneRequest h₁
    | setFeedback feedback | trySetFeedback content | clientCancel =>
      have hw : OnlyWithdraws h _ := fun o ho => by cases o <;> exact ho
      exact hw.oneRequest h₁

theorem wedged_iff {h : Handle R F} {g : Goal R F} (hg : h.gh = some g) :
    h.Wedged ↔ (g.status = .canceling ∧ (h.reqAbort = true ∨ h.reqSucceed = true)) ∨
      (g.status = .executing ∧ h.reqCancel = true) := by
  constructor
  · rintro ⟨g', o, hg', hr, ho, hn⟩
    obtain rfl := Option.some.inj (hg.symm.trans hg')
    cases hs : g.status with
    | executing =>
      cases o with
      | cancel => exact .inr ⟨rfl, ho⟩
      | _ => rw [hs] at hn; cases hn
    | canceling =>
      cases o with
      | abort => exact .inl ⟨rfl, .inl ho⟩
      | succeed => exact .inl ⟨rfl, .inr ho⟩
      | cancel => rw [hs] at hn; cases hn
    | _ => rw [hs] at hr; cases hr
  · rintro (⟨hs, ho | ho⟩ | ⟨hs, ho⟩)
    · exact ⟨g, .abort, hg, by rw [hs]; rfl, ho, by rw [hs]; rfl⟩
    · exact ⟨g, .succeed, hg, by rw [hs]; rfl, ho, by rw [hs]; rfl⟩
    · exact ⟨g, .cancel, hg, by rw [hs]; rfl, ho, by rw [hs]; rfl⟩

/-- **When a running goal can be finished.**  Setters and `runNonRealtime` take it to a terminal
state exactly if no abort or succeed request is pending while it is canceling, and no cancel request
while it is executing. -/
theorem finishable_iff {h : Handle R F} {g : Goal R F} (hr : Reachable (calls R F) anyStep h)
    (he : h.reqExecute = true) (hg : h.gh = some g)
    (hs : g.status = .executing ∨ g.status = .canceling) :
    h.Finishable ↔ ¬ (g.status = .canceling ∧ (h.reqAbort = true ∨ h.reqSucceed = true)) ∧
      ¬ (g.status = .executing ∧ h.reqCancel = true) := by
  have h₁ : h.OneRequest := reachable_oneRequest hr
  have hrun : g.status.isRunning = true := by
    rcases hs with hs | hs <;> rw [hs] <;> rfl
  have hiff : h.Finishable ↔ ¬ h.Wedged :=
    ⟨fun hf hw => not_finishable_of_wedged h₁ hw hf, finishable_of_not_wedged h₁ hg hrun he⟩
  rw [hiff, wedged_iff hg, not_or]

def acceptedGoal : Handle Unit Unit := Handle.create (some ⟨.accepted, [], []⟩) ()

/-- A started goal with nothing pending. -/
theorem finishable_iff_started :
    ∃ h : Handle Unit Unit, Reachable (calls Unit Unit) anyStep h ∧ h.Finishable := by
  let run : List (Unit × Op Unit Unit) := [((), .execute), ((), .runNonRealtime)]
  obtain ⟨h, hr, hp⟩ := exists_reachable_of_exec (calls Unit Unit) anyStep run acceptedGoal
    (fun h => h.reqExecute ∧ h.gh = some ⟨.executing, [], []⟩ ∧ h.reqCancel = false)
    ⟨_, _, rfl⟩ (by decide)
  obtain ⟨he, hg, hc⟩ : h.reqExecute = true ∧ h.gh = some ⟨.executing, [], []⟩ ∧
      h.reqCancel = false := by simpa using hp
  exact ⟨h, hr, (finishable_iff hr he hg (.inl rfl)).mpr
    ⟨fun hbad => absurd hbad.1 (by decide), fun hbad => Bool.noConfusion (hc.symm.trans hbad.2)⟩⟩

/-- `setAborted` is followed by the client's cancel request before `runNonRealtime` comes round: the
goal is canceling with an abort request that is neither applied nor withdrawn. -/
theorem abort_then_clientCancel_not_finishable :
    ∃ (h : Handle Unit Unit) (g : Goal Unit Unit), Reachable (calls Unit Unit) anyStep h ∧
      h.reqExecute = true ∧ h.gh = some g ∧ g.status = .canceling ∧ ¬ h.Finishable := by
  let run : List (Unit × Op Unit Unit) :=
    [((), .execute), ((), .runNonRealtime), ((), .setAborted none), ((), .clientCancel),
      ((), .runNonRealtime)]
  obtain ⟨h, hr, hp⟩ := exists_reachable_of_exec (calls Unit Unit) anyStep run acceptedGoal
    (fun h => h.reqExecute ∧ h.gh = some ⟨.canceling, [], []⟩ ∧ h.reqAbort)
    ⟨_, _, rfl⟩ (by decide)
  obtain ⟨he, hg, ha⟩ : h.reqExecute = true ∧ h.gh = some ⟨.canceling, [], []⟩ ∧
      h.reqAbort = true := by simpa using hp
  have hw : h.Wedged := (wedged_iff hg).mpr (.inl ⟨rfl, .inl ha⟩)
  exact ⟨h, _, hr, he, hg, rfl, not_finishable_of_wedged (reachable_oneRequest hr) hw⟩

end GoalHandle
