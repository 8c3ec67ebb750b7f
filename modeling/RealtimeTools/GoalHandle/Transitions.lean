import RealtimeTools.GoalHandle.Termination

/-!
# Which transitions are asked for

`runNonRealtime` tests the goal before each call on `gh_`, and each outcome has a test of its own.
The one of `abort` is the states in which `abort` is legal; those of `canceled` and `succeed` let
through more.
-/

open Interleaving

namespace GoalHandle

variable {R F : Type}

theorem GoalStatus.eq_accepted {g : GoalStatus} (hx : g.isExecuting = false)
    (ha : g.isActive = true) (hc : g.isCanceling = false) : g = .accepted := by
  cases g with
  | accepted => rfl
  | executing => cases hx
  | canceling => cases hc
  | _ => cases ha

namespace Handle

variable {h h' : Handle R F} {g : Goal R F} {o : Outcome}

/-- The next `runNonRealtime` makes no illegal call on `gh_`: the `catch` block is not entered. -/
def AsksLegally (h : Handle R F) : Prop := h.valid = true → ∃ h', runBranches h = .ok h'

/-- What the branch of an outcome tests of the goal. -/
def guard (h : Handle R F) : Outcome → Bool
  | .abort => h.isExecuting
  | .cancel => h.isActive
  | .succeed => !h.isCanceling

/-- The outcome is not requested, held back, or legal. -/
def OutcomeLegal (h : Handle R F) (o : Outcome) : Prop :=
  h.requested o = true → h.guard o = true →
    ∃ g g', h.gh = some g ∧ g.finish o h.reqResult = some g'

/-- An outcome that is requested comes after `execute`. -/
def StartedFirst (h : Handle R F) : Prop := ∀ o, h.requested o = true → h.reqExecute = true

/-! ## The branches -/

theorem outcomeBranch_ok_iff :
    (∃ h', outcomeBranch o (h.guard o) h = .ok h') ↔ h.OutcomeLegal o := by
  unfold outcomeBranch OutcomeLegal
  by_cases htest : (h.requested o && h.guard o) = true
  · rw [if_pos htest]
    rw [Bool.and_eq_true] at htest
    cases hf : h.gh.bind (Goal.finish o h.reqResult) with
    | none =>
      refine iff_of_false ?_ fun hlegal => ?_
      · rintro ⟨h', herror⟩
        cases herror
      · obtain ⟨g, g', hg, hg'⟩ := hlegal htest.1 htest.2
        rw [hg, Option.bind_some, hg'] at hf
        cases hf
    | some g' => exact iff_of_true ⟨_, rfl⟩ fun _ _ =>
        (Option.bind_eq_some_iff.mp hf).imp fun g hg => ⟨g', hg⟩
  · rw [if_neg htest]
    refine iff_of_true ⟨h, rfl⟩ fun ho hguard => ?_
    rw [ho, hguard] at htest
    exact absurd rfl htest

/-- A branch that is legal leaves no other one illegal: it has changed nothing, or the one request
there was is withdrawn. -/
theorem outcomeBranch_of_legal (h₁ : h.OneRequest) (hlegal : ∀ o, h.OutcomeLegal o) (o : Outcome) :
    ∃ h', outcomeBranch o (h.guard o) h = .ok h' ∧ h'.OneRequest ∧ ∀ o', h'.OutcomeLegal o' := by
  rcases outcomeBranch_cases o (h.guard o) h with he | he | ⟨g, g', _, _, he⟩
  · exact ⟨h, he, h₁, hlegal⟩
  · obtain ⟨h', hok⟩ := outcomeBranch_ok_iff.mpr (hlegal o)
    rw [he] at hok
    cases hok
  · by_cases ho : h.requested o = true
    · have hclear : ∀ o', (({ h with gh := some g' } : Handle R F).setRequested false o).requested o'
          = false := by
        intro o'
        rw [requested_setRequested]
        split
        · rfl
        · rename_i hne
          have hkept := requested_eq_false h₁ ho hne
          cases o' <;> exact hkept
      refine ⟨_, he, fun o₁ _ ho₁ => ?_, fun o' ho' => ?_⟩
      · rw [hclear o₁] at ho₁
        cases ho₁
      · rw [hclear o'] at ho'
        cases ho'
    · have hskip : outcomeBranch o (h.guard o) h = .ok h :=
        outcomeBranch_of_not_requested (by simpa using ho)
      exact ⟨h, hskip, h₁, hlegal⟩

/-- The branches of the outcomes, in the order of the source. -/
theorem outcomes_ok_iff (h₁ : h.OneRequest) :
    (∃ h', (abortBranch h >>= cancelBranch >>= succeedBranch) = .ok h') ↔
      ∀ o, h.OutcomeLegal o := by
  constructor
  · rintro ⟨h', hok⟩ o ho
    -- The branches before the one of the pending outcome are skipped.
    have hother : ∀ o', o' ≠ o → h.requested o' = false := fun o' => requested_eq_false h₁ ho
    have hbranch : ∃ h', outcomeBranch o (h.guard o) h = .ok h' := by
      cases o with
      | abort =>
        cases ha : abortBranch h with
        | error h'' =>
          rw [ha] at hok
          cases hok
        | ok h'' => exact ⟨h'', ha⟩
      | cancel =>
        have habort : abortBranch h = .ok h :=
          outcomeBranch_of_not_requested (hother .abort (by decide))
        rw [habort] at hok
        cases hc : cancelBranch h with
        | error h'' =>
          change (cancelBranch h >>= succeedBranch) = _ at hok
          rw [hc] at hok
          cases hok
        | ok h'' => exact ⟨h'', hc⟩
      | succeed =>
        have habort : abortBranch h = .ok h :=
          outcomeBranch_of_not_requested (hother .abort (by decide))
        have hcancel : cancelBranch h = .ok h :=
          outcomeBranch_of_not_requested (hother .cancel (by decide))
        rw [habort] at hok
        change (cancelBranch h >>= succeedBranch) = _ at hok
        rw [hcancel] at hok
        exact ⟨h', hok⟩
    exact outcomeBranch_ok_iff.mp hbranch ho
  · intro hlegal
    obtain ⟨h₂, habort, h₁, hlegal⟩ := outcomeBranch_of_legal h₁ hlegal .abort
    obtain ⟨h₃, hcancel, h₁, hlegal⟩ := outcomeBranch_of_legal h₁ hlegal .cancel
    obtain ⟨h₄, hsucceed, -, -⟩ := outcomeBranch_of_legal h₁ hlegal .succeed
    refine ⟨h₄, ?_⟩
    rw [show abortBranch h = .ok h₂ from habort]
    change (cancelBranch h₂ >>= succeedBranch) = _
    rw [show cancelBranch h₂ = .ok h₃ from hcancel]
    exact hsucceed

/-- The goal after the first branch. -/
def started (h : Handle R F) (g : Goal R F) : Goal R F :=
  if h.reqExecute = true ∧ g.status = .accepted then { g with status := .executing } else g

/-- `execute` is asked for in the one state where it is legal. -/
theorem executeBranch_eq (hg : h.gh = some g) :
    executeBranch h = .ok { h with gh := some (h.started g) } := by
  by_cases hstart : h.reqExecute = true ∧ g.status = .accepted
  · obtain ⟨he, hs⟩ := hstart
    have htest : (h.reqExecute && !h.isExecuting && h.isActive && !h.isCanceling) = true := by
      rw [isExecuting_eq hg, isActive_eq hg, isCanceling_eq hg, he, hs]
      rfl
    have hexecute : h.gh.bind Goal.execute = some (h.started g) := by
      simp [hg, Goal.execute, GoalStatus.execute, started, he, hs]
    unfold executeBranch
    rw [if_pos htest, hexecute]
  · have htest : (h.reqExecute && !h.isExecuting && h.isActive && !h.isCanceling) ≠ true := by
      rw [isExecuting_eq hg, isActive_eq hg, isCanceling_eq hg]
      intro htest
      simp only [Bool.and_eq_true, Bool.not_eq_true'] at htest
      obtain ⟨⟨⟨he, hx⟩, ha⟩, hc⟩ := htest
      exact hstart ⟨he, GoalStatus.eq_accepted hx ha hc⟩
    have hsame : h.started g = g := if_neg hstart
    unfold executeBranch
    rw [if_neg htest, hsame, ← hg]

theorem asksLegally_iff_outcomes (h₁ : h.OneRequest) (hg : h.gh = some g) :
    h.AsksLegally ↔ ∀ o, ({ h with gh := some (h.started g) } : Handle R F).OutcomeLegal o := by
  have hvalid : h.valid = true := by simp [valid, hg]
  have h₁' : ({ h with gh := some (h.started g) } : Handle R F).OneRequest := by
    intro o o' ho ho'
    apply h₁
    · cases o <;> exact ho
    · cases o' <;> exact ho'
  rw [← outcomes_ok_iff h₁']
  unfold AsksLegally runBranches
  rw [executeBranch_eq hg]
  constructor
  · intro hasks
    obtain ⟨h', hok⟩ := hasks hvalid
    change (abortBranch _ >>= fun h => cancelBranch h >>= fun h => succeedBranch h >>= _) = _ at hok
    cases hall : abortBranch ({ h with gh := some (h.started g) } : Handle R F) >>= cancelBranch >>=
        succeedBranch with
    | ok h'' => exact ⟨h'', rfl⟩
    | error h'' =>
      simp only [← bind_assoc] at hok
      rw [hall] at hok
      cases hok
  · rintro ⟨h', hok⟩ -
    refine ⟨feedbackBranch h', ?_⟩
    change (abortBranch _ >>= fun h => cancelBranch h >>= fun h => succeedBranch h >>= _) = _
    simp only [← bind_assoc]
    rw [hok]
    rfl

/-! ## The states in which a request is legal -/

variable (h) in
/-- The pending request fits the goal, as far as `runNonRealtime` goes without looking. -/
def FitsGoal (g : Goal R F) : Prop :=
  ¬ (h.reqCancel = true ∧ (g.status = .accepted ∨ g.status = .executing)) ∧
    ¬ (h.reqSucceed = true ∧ g.status.isActive = false)

/-- What is legal for the goal that the outcomes find. -/
theorem outcomeLegal_iff_of_goal (hg : h.gh = some g) :
    h.OutcomeLegal o ↔ (h.requested o = true → h.guard o = true → g.status.finish o ≠ none) := by
  unfold OutcomeLegal
  refine imp_congr_right fun _ => imp_congr_right fun _ => ?_
  constructor
  · rintro ⟨g₀, g', hg₀, hf⟩
    obtain rfl := Option.some.inj (hg.symm.trans hg₀)
    intro hnone
    rw [Goal.finish, hnone] at hf
    cases hf
  · intro hne
    obtain ⟨status, hstatus⟩ := Option.ne_none_iff_exists'.mp hne
    exact ⟨g, _, hg, by rw [Goal.finish, hstatus]; rfl⟩

/-- `abort` has the guard that it needs. -/
theorem abort_legal (hg : h.gh = some g) : h.OutcomeLegal .abort := by
  refine (outcomeLegal_iff_of_goal hg).mpr fun _ hguard => ?_
  have hexecuting : g.status.isExecuting = true := by rw [← isExecuting_eq hg]; exact hguard
  cases hs : g.status with
  | executing => exact Option.some_ne_none _
  | _ =>
    rw [hs] at hexecuting
    cases hexecuting

theorem cancel_legal_iff (hg : h.gh = some g) :
    h.OutcomeLegal .cancel ↔
      ¬ (h.reqCancel = true ∧ (g.status = .accepted ∨ g.status = .executing)) := by
  have hguard : h.guard .cancel = g.status.isActive := isActive_eq hg
  rw [outcomeLegal_iff_of_goal hg, hguard]
  cases hs : g.status <;> simp [requested, GoalStatus.isActive, GoalStatus.finish]

theorem succeed_legal_iff (hg : h.gh = some g) :
    h.OutcomeLegal .succeed ↔
      ¬ (h.reqSucceed = true ∧ (g.status = .accepted ∨ g.status.isActive = false)) := by
  have hguard : h.guard .succeed = !g.status.isCanceling := congrArg (!·) (isCanceling_eq hg)
  rw [outcomeLegal_iff_of_goal hg, hguard]
  cases hs : g.status <;>
    simp [requested, GoalStatus.isActive, GoalStatus.isCanceling, GoalStatus.finish]

/-- A request is for a goal that has been started. -/
theorem outcomesLegal_iff (hstart : h.StartedFirst) :
    (∀ o, ({ h with gh := some (h.started g) } : Handle R F).OutcomeLegal o) ↔ h.FitsGoal g := by
  have hg : ({ h with gh := some (h.started g) } : Handle R F).gh = some (h.started g) := rfl
  have hcancel : ({ h with gh := some (h.started g) } : Handle R F).OutcomeLegal .cancel ↔
      ¬ (h.reqCancel = true ∧ (g.status = .accepted ∨ g.status = .executing)) := by
    rw [cancel_legal_iff hg]
    refine not_congr (and_congr_right fun ho => ?_)
    have he : h.reqExecute = true := hstart .cancel ho
    unfold started
    cases hs : g.status <;> simp [he, hs]
  have hsucceed : ({ h with gh := some (h.started g) } : Handle R F).OutcomeLegal .succeed ↔
      ¬ (h.reqSucceed = true ∧ g.status.isActive = false) := by
    rw [succeed_legal_iff hg]
    refine not_congr (and_congr_right fun ho => ?_)
    have he : h.reqExecute = true := hstart .succeed ho
    unfold started
    cases hs : g.status <;> simp [he, hs, GoalStatus.isActive]
  constructor
  · exact fun hlegal => ⟨hcancel.mp (hlegal .cancel), hsucceed.mp (hlegal .succeed)⟩
  · rintro ⟨hc, hs⟩ o
    cases o with
    | abort => exact abort_legal hg
    | cancel => exact hcancel.mpr hc
    | succeed => exact hsucceed.mpr hs

theorem StartedFirst.withdraws (hstart : h.StartedFirst) (hw : OnlyWithdraws h h')
    (he : h.reqExecute = true → h'.reqExecute = true) : h'.StartedFirst :=
  fun o ho => he (hstart o (hw o ho))

theorem StartedFirst.request {result : Option R} (hstart : h.StartedFirst) :
    (h.request o result).StartedFirst := by
  by_cases ht : (h.reqExecute && !h.reqSucceed && !h.reqAbort && !h.reqCancel) = true
  · obtain ⟨he, hnone⟩ := accepts_iff.mp ht
    rw [request_of_free he hnone]
    intro _ _
    cases o <;> exact he
  · have hsame : h.request o result = h := if_neg ht
    rwa [hsame]

theorem executeBranch_reqExecute (he : h.reqExecute = true) :
    (after (executeBranch h)).reqExecute = true := by
  unfold executeBranch
  split
  · split <;> exact he
  · exact he

theorem outcomeBranch_reqExecute {guard : Bool} (he : h.reqExecute = true) :
    (after (outcomeBranch o guard h)).reqExecute = true := by
  rcases outcomeBranch_cases o guard h with hb | hb | ⟨g, g', _, _, hb⟩
  · rw [hb]
    exact he
  · rw [hb]
    exact he
  · rw [hb]
    cases o <;> exact he

theorem feedbackBranch_reqExecute (he : h.reqExecute = true) :
    (feedbackBranch h).reqExecute = true := by
  unfold feedbackBranch
  split
  · split <;> exact he
  · exact he

theorem runNonRealtime_reqExecute (he : h.reqExecute = true) :
    h.runNonRealtime.reqExecute = true := by
  rw [runNonRealtime_eq_after]
  split
  · unfold runBranches
    apply after_bind (P := fun h => h.reqExecute = true) (executeBranch_reqExecute he)
    intro h he
    apply after_bind (P := fun h => h.reqExecute = true) (outcomeBranch_reqExecute he)
    intro h he
    apply after_bind (P := fun h => h.reqExecute = true) (outcomeBranch_reqExecute he)
    intro h he
    apply after_bind (P := fun h => h.reqExecute = true) (outcomeBranch_reqExecute he)
    exact fun h he => feedbackBranch_reqExecute he
  · exact he

end Handle

open Handle

theorem reachable_startedFirst {h : Handle R F} (hr : Reachable (calls R F) anyStep h) :
    h.StartedFirst := by
  refine hr.invariant (I := Handle.StartedFirst) ?_ ?_
  · rintro h ⟨gh, content, rfl⟩ o ho
    cases o <;> cases ho
  · intro h _ op h' _ hstart _ hs
    obtain rfl := Option.some.inj hs
    cases op with
    | setAborted result | setCanceled result | setSucceeded result => exact hstart.request
    | runNonRealtime =>
      exact hstart.withdraws (runNonRealtime_withdraws h) runNonRealtime_reqExecute
    | execute =>
      intro o ho
      change h.execute.requested o = true at ho
      change h.execute.reqExecute = true
      unfold Handle.execute at ho ⊢
      split
      · rfl
      · rename_i htest
        rw [if_neg htest] at ho
        exact hstart o ho
    | setFeedback feedback | trySetFeedback content | clientCancel =>
      exact hstart.withdraws (fun o ho => by cases o <;> exact ho) id

/-- **Which transitions are legal.**  In every state that calls run to completion and cancel requests
lead to, the next `runNonRealtime` asks for legal transitions exactly if no cancel request is pending
for a goal that is accepted or executing, and no succeed request for one that has ended. -/
theorem asksLegally_iff {h : Handle R F} (hr : Reachable (calls R F) anyStep h) :
    h.AsksLegally ↔ ∀ g, h.gh = some g →
      ¬ (h.reqCancel = true ∧ (g.status = .accepted ∨ g.status = .executing)) ∧
        ¬ (h.reqSucceed = true ∧ g.status.isActive = false) := by
  cases hgh : h.gh with
  | none =>
    have hinvalid : h.valid = false := by simp [valid, hgh]
    refine iff_of_true (fun hvalid => ?_) fun g hg => ?_
    · rw [hinvalid] at hvalid
      cases hvalid
    · cases hg
  | some g =>
    have hiff := (asksLegally_iff_outcomes (reachable_oneRequest hr) hgh).trans
      (outcomesLegal_iff (reachable_startedFirst hr))
    refine hiff.trans ⟨fun hfits g' hg' => ?_, fun hfits => hfits g rfl⟩
    obtain rfl := Option.some.inj hg'
    exact hfits

/-- A succeed request for a goal that the client has not canceled. -/
theorem asksLegally_succeed :
    ∃ h : Handle Unit Unit, Reachable (calls Unit Unit) anyStep h ∧ h.reqSucceed = true ∧
      h.AsksLegally := by
  let run : List (Unit × Op Unit Unit) :=
    [((), .execute), ((), .runNonRealtime), ((), .setSucceeded none)]
  obtain ⟨h, hr, hp⟩ := exists_reachable_of_exec (calls Unit Unit) anyStep run acceptedGoal
    (fun h => h.reqSucceed ∧ h.gh = some ⟨.executing, [], []⟩ ∧ h.reqCancel = false)
    ⟨_, _, rfl⟩ (by decide)
  obtain ⟨hsucceed, hg, hcancel⟩ : h.reqSucceed = true ∧ h.gh = some ⟨.executing, [], []⟩ ∧
      h.reqCancel = false := by simpa using hp
  refine ⟨h, hr, hsucceed, (asksLegally_iff hr).mpr fun g hg' => ?_⟩
  obtain rfl := Option.some.inj (hg.symm.trans hg')
  refine ⟨fun hbad => ?_, fun hbad => absurd hbad.2 (by decide)⟩
  rw [hcancel] at hbad
  cases hbad.1

/-- `setCanceled` without a cancel request of the client: `canceled` is asked for while the goal is
executing. -/
theorem setCanceled_asks_illegally :
    ∃ h : Handle Unit Unit, Reachable (calls Unit Unit) anyStep h ∧ ¬ h.AsksLegally := by
  let run : List (Unit × Op Unit Unit) :=
    [((), .execute), ((), .runNonRealtime), ((), .setCanceled none)]
  obtain ⟨h, hr, hp⟩ := exists_reachable_of_exec (calls Unit Unit) anyStep run acceptedGoal
    (fun h => h.valid && !(runBranches h).isOk) ⟨_, _, rfl⟩ (by decide)
  rw [Bool.and_eq_true, Bool.not_eq_true'] at hp
  refine ⟨h, hr, fun hasks => ?_⟩
  obtain ⟨h', hok⟩ := hasks hp.1
  rw [hok] at hp
  cases hp.2

end GoalHandle
