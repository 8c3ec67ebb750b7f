import RealtimeTools.Interleaving.History
import RealtimeTools.GoalHandle.Requests

/-!
# The first accepted outcome decides the goal

With one thread calling the setters, a setter that has passed the test of the flags still finds them
all cleared under the mutex, since `runNonRealtime` only clears flags.  So the first request accepted
stays alone until `runNonRealtime` applies it, with the result that came with it, and by then the
goal has ended: whatever is requested later is refused by the goal.
-/

open Interleaving

namespace GoalHandle

variable {κ R F : Type}

/-- The request behind an event: a setter that stores true into its flag has been accepted. -/
def Event.accepted : Event κ R F → Option (Outcome × Option R)
  | .requested _ o result => some (o, result)
  | _ => none

/-- The outcome requests accepted so far, oldest first. -/
def State.accepted (s : State κ R F) : List (Outcome × Option R) :=
  s.history.filterMap Event.accepted

@[simp] theorem State.accepted_record (s : State κ R F) (e : Event κ R F) :
    (s.record e).accepted = s.accepted ++ e.accepted.toList :=
  filterMap_concat Event.accepted s.history e

/-- The state a goal ends in. -/
def Outcome.status : Outcome → GoalStatus
  | .abort => .aborted
  | .cancel => .canceled
  | .succeed => .succeeded

/-- Only `k` calls the setters; the other users may make every other call. -/
def OneRequester (k : κ) (_ : State κ R F) : Actor κ → Oracle R F → Prop
  | .user j, { call := .set _ _, .. } => j = k
  | _, _ => True

instance [DecidableEq κ] (k : κ) (s : State κ R F) (t : Actor κ) (a : Oracle R F) :
    Decidable (OneRequester k s t a) := by
  unfold OneRequester
  split <;> infer_instance

variable {s s' : State κ R F} {i j k : κ} {a : Oracle R F}

/-! ## What a step does to the requests -/

/-- The flags, the stored result and the accepted requests are the same. -/
structure SameOutcome (s s' : State κ R F) : Prop where
  requested : ∀ o, s'.handle.requested o = s.handle.requested o
  reqResult : s'.handle.reqResult = s.handle.reqResult
  accepted : s'.accepted = s.accepted

/-- A user's step stores a result, stores a flag, or leaves the requests alone. -/
inductive UserEffect (j : κ) (s s' : State κ R F) : Prop
  | storeResult (o : Outcome) (result : Option R) (hpc : s.user j = .set o result .storeResult)
      (handle : s'.handle = { s.handle with reqResult := result })
      (accepted : s'.accepted = s.accepted)
  | storeRequest (o : Outcome) (result : Option R) (hpc : s.user j = .set o result .storeRequest)
      (handle : s'.handle = s.handle.setRequested true o)
      (accepted : s'.accepted = s.accepted ++ [(o, result)])
  | other (gh : s'.handle.gh = s.handle.gh) (same : SameOutcome s s')

/-- The user is inside a setter. -/
def UserPc.isSetter : UserPc R F → Bool
  | .set _ _ _ => true
  | _ => false

/-- A step of a call that is no setter: it writes nothing but feedback and `req_execute_`. -/
structure Quiet (j : κ) (s s' : State κ R F) : Prop where
  gh : s'.handle.gh = s.handle.gh
  same : SameOutcome s s'
  pc : (s'.user j).isSetter = false

theorem UserEffect.plain (hgh : s'.handle.gh = s.handle.gh)
    (hrequested : ∀ o, s'.handle.requested o = s.handle.requested o)
    (hresult : s'.handle.reqResult = s.handle.reqResult) (hacc : s'.accepted = s.accepted) :
    UserEffect j s s' :=
  .other hgh ⟨hrequested, hresult, hacc⟩

section Effects

variable [DecidableEq κ]

omit [DecidableEq κ] in
theorem accepted_returned (s : State κ R F) (result : Option Bool) :
    (s.record (.returned k result)).accepted = s.accepted := by
  rw [State.accepted_record]
  exact List.append_nil _

theorem set_effect {o : Outcome} {result : Option R} {pc : RequestPc}
    (hpc : s.user j = .set o result pc) (h : set s j o result pc = some s') :
    UserEffect j s s' := by
  cases pc with
  | loadExecute | loadSucceed | loadAbort | loadCancel =>
    simp only [set] at h
    split at h
    · obtain rfl := Option.some.inj h
      exact .plain rfl (fun _ => rfl) rfl rfl
    · obtain rfl := Option.some.inj h
      exact .plain rfl (fun _ => rfl) rfl (accepted_returned _ none)
  | lock =>
    obtain ⟨_, h⟩ := Option.ite_none_right_eq_some.mp h
    obtain rfl := Option.some.inj h
    exact .plain rfl (fun _ => rfl) rfl rfl
  | storeResult =>
    obtain rfl := Option.some.inj h
    exact .storeResult o result hpc rfl rfl
  | storeRequest =>
    obtain rfl := Option.some.inj h
    exact .storeRequest o result hpc rfl (State.accepted_record _ _)
  | unlock =>
    obtain rfl := Option.some.inj h
    exact .plain rfl (fun _ => rfl) rfl (accepted_returned _ none)

omit [DecidableEq κ] in
theorem Quiet.effect (h : Quiet j s s') : UserEffect j s s' := .other h.gh h.same

theorem Quiet.of_goto (pc : UserPc R F) (huser : s'.user = Function.update s.user j pc)
    (hpc : pc.isSetter = false) (hgh : s'.handle.gh = s.handle.gh)
    (hrequested : ∀ o, s'.handle.requested o = s.handle.requested o)
    (hresult : s'.handle.reqResult = s.handle.reqResult) (hacc : s'.accepted = s.accepted) :
    Quiet j s s' :=
  ⟨hgh, ⟨hrequested, hresult, hacc⟩, by rwa [huser, Function.update_self]⟩

theorem quiet_return {mutex : Mutex (Actor κ)} {result : Option Bool} :
    Quiet j s (({ s with mutex := mutex }.goto j .idle).record (.returned j result)) :=
  .of_goto .idle rfl rfl rfl (fun _ => rfl) rfl (accepted_returned _ result)

theorem execute_quiet {pc : ExecutePc} (h : execute s j pc = some s') : Quiet j s s' := by
  cases pc with
  | loadSucceed | loadAbort | loadCancel =>
    simp only [execute] at h
    split at h
    · obtain rfl := Option.some.inj h
      exact .of_goto (.execute _) rfl rfl rfl (fun _ => rfl) rfl rfl
    · obtain rfl := Option.some.inj h
      exact quiet_return
  | lock =>
    obtain ⟨_, h⟩ := Option.ite_none_right_eq_some.mp h
    obtain rfl := Option.some.inj h
    exact .of_goto (.execute _) rfl rfl rfl (fun _ => rfl) rfl rfl
  | storeExecute =>
    obtain rfl := Option.some.inj h
    exact .of_goto (.execute _) rfl rfl rfl (fun o => by cases o <;> rfl) rfl rfl
  | unlock =>
    obtain rfl := Option.some.inj h
    exact quiet_return

theorem tryLock_quiet (pc : UserPc R F) {b : Bool} (hpc : pc.isSetter = false)
    (h : (let (ownsLock, mutex) := s.mutex.tryLock (.user j) b
      let s := { s with mutex }
      if ownsLock then some (s.goto j pc)
      else some ((s.goto j .idle).record (.returned j (some false)))) = some s') :
    Quiet j s s' := by
  rcases Mutex.tryLock_cases s.mutex (.user j) b with ⟨_, he⟩ | he
  · simp only [he, if_true, Option.some.injEq] at h
    subst h
    exact .of_goto pc rfl hpc rfl (fun _ => rfl) rfl rfl
  · simp only [he, Bool.false_eq_true, if_false, Option.some.injEq] at h
    subst h
    exact quiet_return

theorem storeFeedback_quiet (pc : UserPc R F) (hpc : pc.isSetter = false)
    {feedback : Option (FeedbackPtr F)} :
    Quiet j s ((storeFeedback s j feedback).goto j pc) := by
  refine .of_goto pc rfl hpc rfl (fun o => by cases o <;> rfl) rfl ?_
  show (storeFeedback s j feedback).accepted = s.accepted
  rw [storeFeedback, State.accepted_record]
  exact List.append_nil _

theorem setFeedback_quiet {feedback : Option (FeedbackPtr F)} {pc : FeedbackPc}
    (h : setFeedback s j a feedback pc = some s') : Quiet j s s' := by
  cases pc with
  | tryLock => exact tryLock_quiet (.setFeedback feedback .storeFeedback) rfl h
  | update => cases h
  | storeFeedback =>
    obtain rfl := Option.some.inj h
    exact storeFeedback_quiet (.setFeedback feedback .unlock) rfl
  | unlock =>
    obtain rfl := Option.some.inj h
    exact quiet_return

theorem trySetFeedback_quiet {pc : FeedbackPc} (hpc : s.user j = .trySetFeedback pc)
    (h : trySetFeedback s j a pc = some s') : Quiet j s s' := by
  cases pc with
  | tryLock => exact tryLock_quiet (.trySetFeedback .update) rfl h
  | update =>
    simp only [trySetFeedback] at h
    split at h
    · obtain rfl := Option.some.inj h
      -- The callback goes on; the user stays inside it.
      exact .of_goto (.trySetFeedback .update) (hpc ▸ (Function.update_eq_self j s.user).symm) rfl
        rfl (fun o => by cases o <;> rfl) rfl rfl
    · obtain rfl := Option.some.inj h
      exact .of_goto (.trySetFeedback _) rfl rfl rfl (fun _ => rfl) rfl rfl
  | storeFeedback =>
    obtain rfl := Option.some.inj h
    exact storeFeedback_quiet (.trySetFeedback .unlock) rfl
  | unlock =>
    obtain rfl := Option.some.inj h
    exact quiet_return

theorem userStep_effect (h : userStep s j a = some s') : UserEffect j s s' := by
  unfold userStep at h
  cases hpc : s.user j with
  | idle =>
    simp only [hpc, Option.some.injEq] at h
    subst h
    refine .plain rfl (fun _ => rfl) rfl ?_
    rw [State.accepted_record]
    exact List.append_nil _
  | execute pc =>
    simp only [hpc] at h
    exact (execute_quiet h).effect
  | set o result pc =>
    simp only [hpc] at h
    exact set_effect hpc h
  | setFeedback feedback pc =>
    simp only [hpc] at h
    exact (setFeedback_quiet h).effect
  | trySetFeedback pc =>
    simp only [hpc] at h
    exact (trySetFeedback_quiet hpc h).effect

end Effects

/-- `runNonRealtime` only clears flags. -/
theorem runNonRealtime_requested {o : Outcome} (h : runNonRealtime s = some s')
    (ho : s'.handle.requested o = true) : s.handle.requested o = true := by
  have hgoal : ∀ (f : Goal R F → Option (Goal R F)) next,
      (callGoal s f next).handle.requested o = s.handle.requested o := by
    intro f next
    unfold callGoal
    split
    · cases o <;> rfl
    · rfl
  unfold runNonRealtime at h
  cases hpc : s.run <;> simp only [hpc] at h
  case lock =>
    obtain ⟨_, h⟩ := Option.ite_none_right_eq_some.mp h
    obtain rfl := Option.some.inj h
    exact ho
  case execute | finish =>
    obtain rfl := Option.some.inj h
    rwa [hgoal] at ho
  case storeRequest o' =>
    -- The only store into a flag, and it clears it.
    obtain rfl := Option.some.inj h
    have hflag : (s.handle.setRequested false o').requested o = true := ho
    rw [Handle.requested_setRequested] at hflag
    split at hflag
    · exact absurd hflag Bool.false_ne_true
    · exact hflag
  case publishFeedback =>
    split at h
    · obtain rfl := Option.some.inj h
      cases o <;> exact ho
    · cases h
  all_goals
    obtain rfl := Option.some.inj h
    exact ho

/-! ## One requester -/

/-- What a setter has found on its way to the mutex still holds. -/
def Tested (h : Handle R F) : RequestPc → Prop
  | .loadAbort => h.reqSucceed = false
  | .loadCancel => h.reqSucceed = false ∧ h.reqAbort = false
  | .lock => NoRequest h
  | _ => True

def PcTested (k j : κ) (h : Handle R F) : UserPc R F → Prop
  | .set _ _ pc => j = k ∧ Tested h pc
  | _ => True

/-- Only `k` is inside a setter, and its test of the flags stays valid. -/
def Testing (k : κ) (s : State κ R F) : Prop := ∀ j, PcTested k j s.handle (s.user j)

/-- Flags that are cleared by others do not invalidate the test. -/
theorem PcTested.mono {h h' : Handle R F} {pc : UserPc R F} (ht : PcTested k j h pc)
    (hfalls : j = k → ∀ o, h'.requested o = true → h.requested o = true) :
    PcTested k j h' pc := by
  cases pc with
  | set o result pc =>
    obtain ⟨hj, ht⟩ := ht
    have hclear : ∀ o, h.requested o = false → h'.requested o = false := by
      intro o ho
      by_contra hne
      have := hfalls hj o (by simpa using hne)
      rw [ho] at this
      exact Bool.false_ne_true this
    refine ⟨hj, ?_⟩
    cases pc with
    | loadAbort => exact hclear .succeed ht
    | loadCancel => exact ⟨hclear .succeed ht.1, hclear .abort ht.2⟩
    | lock => exact fun o => hclear o (ht o)
    | _ => trivial
  | _ => trivial

theorem Testing.settersFindFree (h : Testing k s) (t : Actor κ) : SettersFindFree s t a := by
  cases t with
  | user j =>
    have hj := h j
    simp only [SettersFindFree, findsFree]
    split
    · rename_i o result hpc
      rw [hpc] at hj
      have ha : s.handle.reqAbort = false := hj.2 .abort
      have hc : s.handle.reqCancel = false := hj.2 .cancel
      have hs : s.handle.reqSucceed = false := hj.2 .succeed
      rw [ha, hc, hs]
      rfl
    · rfl
  | _ => rfl

section OneRequester

variable [DecidableEq κ]

/-- Where user `j` goes to. -/
theorem pcTested_of_goto (pc : UserPc R F) (huser : s'.user = Function.update s.user j pc)
    (h : PcTested k j s'.handle pc) : PcTested k j s'.handle (s'.user j) := by
  rwa [huser, Function.update_self]

theorem set_tested {o : Outcome} {result : Option R} {pc : RequestPc}
    (ht : PcTested k j s.handle (.set o result pc)) (h : set s j o result pc = some s') :
    PcTested k j s'.handle (s'.user j) := by
  obtain ⟨hj, ht⟩ := ht
  cases pc with
  | loadExecute =>
    simp only [set] at h
    split at h
    · obtain rfl := Option.some.inj h
      exact pcTested_of_goto _ rfl ⟨hj, trivial⟩
    · obtain rfl := Option.some.inj h
      exact pcTested_of_goto .idle rfl trivial
  | loadSucceed =>
    simp only [set] at h
    split at h
    · rename_i hs
      obtain rfl := Option.some.inj h
      have hsucceed : s.handle.reqSucceed = false := by simpa using hs
      exact pcTested_of_goto _ rfl ⟨hj, hsucceed⟩
    · obtain rfl := Option.some.inj h
      exact pcTested_of_goto .idle rfl trivial
  | loadAbort =>
    simp only [set] at h
    split at h
    · rename_i ha
      obtain rfl := Option.some.inj h
      have habort : s.handle.reqAbort = false := by simpa using ha
      exact pcTested_of_goto _ rfl ⟨hj, ht, habort⟩
    · obtain rfl := Option.some.inj h
      exact pcTested_of_goto .idle rfl trivial
  | loadCancel =>
    simp only [set] at h
    split at h
    · rename_i hc
      obtain rfl := Option.some.inj h
      have hcancel : s.handle.reqCancel = false := by simpa using hc
      have hnone : NoRequest s.handle := by
        intro o'
        cases o' with
        | abort => exact ht.2
        | cancel => exact hcancel
        | succeed => exact ht.1
      exact pcTested_of_goto _ rfl ⟨hj, hnone⟩
    · obtain rfl := Option.some.inj h
      exact pcTested_of_goto .idle rfl trivial
  | lock =>
    obtain ⟨_, h⟩ := Option.ite_none_right_eq_some.mp h
    obtain rfl := Option.some.inj h
    exact pcTested_of_goto _ rfl ⟨hj, trivial⟩
  | storeResult | storeRequest =>
    obtain rfl := Option.some.inj h
    exact pcTested_of_goto _ rfl ⟨hj, trivial⟩
  | unlock =>
    obtain rfl := Option.some.inj h
    exact pcTested_of_goto .idle rfl trivial

omit [DecidableEq κ] in
theorem Quiet.tested (h : Quiet j s s') : PcTested k j s'.handle (s'.user j) := by
  have hpc := h.pc
  cases hu : s'.user j with
  | set o result pc =>
    rw [hu] at hpc
    cases hpc
  | _ => trivial

theorem userStep_tested (ht : PcTested k j s.handle (s.user j))
    (hp : OneRequester k s (.user j) a) (h : userStep s j a = some s') :
    PcTested k j s'.handle (s'.user j) := by
  unfold userStep at h
  cases hpc : s.user j with
  | idle =>
    simp only [hpc, Option.some.injEq] at h
    subst h
    refine pcTested_of_goto a.call.entry rfl ?_
    obtain ⟨call, spuriousFail, update⟩ := a
    cases call with
    | set o result =>
      have hj : j = k := hp
      exact ⟨hj, trivial⟩
    | _ => trivial
  | execute pc =>
    simp only [hpc] at h
    exact (execute_quiet h).tested
  | set o result pc =>
    rw [hpc] at ht
    simp only [hpc] at h
    exact set_tested ht h
  | setFeedback feedback pc =>
    simp only [hpc] at h
    exact (setFeedback_quiet h).tested
  | trySetFeedback pc =>
    simp only [hpc] at h
    exact (trySetFeedback_quiet hpc h).tested

/-- A step of user `j` sets a flag only if `j` is the requester. -/
theorem userStep_requested {o : Outcome} (ht : Testing k s) (h : userStep s j a = some s')
    (hj : j ≠ k) : s'.handle.requested o = s.handle.requested o := by
  cases userStep_effect h with
  | storeResult o' result hpc handle =>
    rw [handle]
    cases o <;> rfl
  | storeRequest o' result hpc =>
    have hset := ht j
    rw [hpc] at hset
    exact absurd hset.1 hj
  | other gh same => exact same.requested o

theorem Testing.step {t : Actor κ} (ht : Testing k s) (hp : OneRequester k s t a)
    (hothers : ∀ u, u ≠ t → Stays u s s') (h : step t a s = some s') : Testing k s' := by
  intro i
  cases t with
  | nonRealtime =>
    have hi : s'.user i = s.user i := hothers (.user i) (by simp)
    rw [hi]
    exact (ht i).mono fun _ o => runNonRealtime_requested h
  | actionClient =>
    obtain rfl := Option.some.inj h
    exact (ht i).mono fun _ o ho => by cases o <;> exact ho
  | user j =>
    by_cases hij : i = j
    · subst hij
      exact userStep_tested (ht i) hp h
    · have hi : s'.user i = s.user i := hothers (.user i) (by simpa using hij)
      rw [hi]
      -- If `i` is testing, it is the requester, and `j` is another user: it sets no flag.
      refine (ht i).mono fun hik o ho => ?_
      have hj : j ≠ k := fun hjk => hij (hik.trans hjk.symm)
      rwa [userStep_requested ht h hj] at ho

/-- With one requester, a setter that takes the mutex finds no outcome requested. -/
theorem reachable_findsFree (h : Reachable (goalHandle κ R F) (OneRequester k) s) :
    Reachable (goalHandle κ R F) SettersFindFree s ∧ Testing k s := by
  refine h.invariant (I := fun s => Reachable (goalHandle κ R F) SettersFindFree s ∧ Testing k s)
    ?_ ?_
  · rintro s ⟨gh, content, rfl⟩
    exact ⟨.start ⟨gh, content, rfl⟩, fun _ => trivial⟩
  · rintro s t a s' - ⟨hr, ht⟩ hp hs
    have hfree : SettersFindFree s t a := ht.settersFindFree t
    obtain ⟨hI, hJ⟩ := reachable_requests hr
    exact ⟨hr.step hfree hs, ht.step hp (step_sound hI hJ hfree hs).guarantee.others hs⟩

end OneRequester

/-! ## What has been decided -/

/-- No transition into a terminal state lies between `g` and `g'`. -/
structure Goal.Unended (g g' : Goal R F) : Prop where
  results : g'.results = g.results
  active : g'.status.isActive = g.status.isActive
  status : g.status.isActive = false → g'.status = g.status

namespace Goal

variable {g g' g'' : Goal R F} {o : Outcome} {result : Option R}

theorem Unended.refl (g : Goal R F) : g.Unended g := ⟨rfl, rfl, fun _ => rfl⟩

theorem Unended.trans (h : g.Unended g') (h' : g'.Unended g'') : g.Unended g'' where
  results := h'.results.trans h.results
  active := h'.active.trans h.active
  status := fun hg => (h'.status (h.active.trans hg)).trans (h.status hg)

theorem unended_of_execute (h : g.execute = some g') : g.Unended g' := by
  obtain ⟨status, results, feedback⟩ := g
  cases status <;> simp only [execute, GoalStatus.execute, Option.map_some, Option.map_none,
    Option.some.injEq, reduceCtorEq] at h
  subst h
  exact ⟨rfl, rfl, fun hs => by cases hs⟩

theorem unended_clientCancel (g : Goal R F) :
    g.Unended { g with status := g.status.clientCancel } := by
  obtain ⟨status, results, feedback⟩ := g
  cases status <;> exact ⟨rfl, rfl, fun hs => by first | rfl | cases hs⟩

/-- What a transition into a terminal state does, and from where it is possible. -/
theorem finish_cases (h : g.finish o result = some g') :
    g.status.isActive = true ∧ g'.status = o.status ∧ g'.results = g.results ++ [(o, result)] := by
  obtain ⟨status, results, feedback⟩ := g
  cases o <;> cases status <;> simp only [finish, GoalStatus.finish, Option.map_some,
    Option.map_none, Option.some.injEq, reduceCtorEq] at h <;> subst h <;> exact ⟨rfl, rfl, rfl⟩

end Goal

variable {g₀ g g' : Goal R F}

theorem Outcome.status_not_active (o : Outcome) : o.status.isActive = false := by
  cases o <;> rfl

/-- The first accepted request has ended the goal. -/
def Decided (g₀ : Goal R F) (s : State κ R F) (g : Goal R F) : Prop :=
  ∃ o result, s.accepted.head? = some (o, result) ∧
    g.results = g₀.results ++ [(o, result)] ∧ g.status = o.status

/-- Nothing has been requested, one request waits for `runNonRealtime`, or the goal has ended. -/
inductive Phase (g₀ : Goal R F) (s : State κ R F) (g : Goal R F) : Prop
  | free (accepted : s.accepted = []) (noRequest : NoRequest s.handle) (goal : g₀.Unended g)
  | pending (o : Outcome) (result : Option R) (accepted : s.accepted = [(o, result)])
      (requested : s.handle.requested o = true) (reqResult : s.handle.reqResult = result)
      (goal : g₀.Unended g)
  | decided (h : Decided g₀ s g)

/-- What `runNonRealtime` knows while it applies an outcome. -/
def Applying (g₀ : Goal R F) (s : State κ R F) (g : Goal R F) : RunPc → Prop
  | .testGuard o | .finish o => s.handle.requested o = true
  | .storeRequest _ => Decided g₀ s g
  | _ => True

/-- The goal behind `gh_`, and how far it has been decided. -/
def FirstOutcome (g₀ : Goal R F) (s : State κ R F) : Prop :=
  ∃ g, s.handle.gh = some g ∧ Phase g₀ s g ∧ Applying g₀ s g s.run

theorem Decided.mono (more : List (Outcome × Option R)) (h : Decided g₀ s g)
    (hg : g.Unended g') (hacc : s'.accepted = s.accepted ++ more) : Decided g₀ s' g' := by
  obtain ⟨o, result, hfirst, hresults, hstatus⟩ := h
  have hended : g.status.isActive = false := hstatus ▸ o.status_not_active
  refine ⟨o, result, ?_, hg.results.trans hresults, (hg.status hended).trans hstatus⟩
  rw [hacc, List.head?_append, hfirst]
  rfl

/-- Other threads may set flags and add requests while `runNonRealtime` applies an outcome. -/
theorem Applying.mono {pc : RunPc} (more : List (Outcome × Option R)) (h : Applying g₀ s g pc)
    (hflags : ∀ o, s.handle.requested o = true → s'.handle.requested o = true)
    (hg : g.Unended g') (hacc : s'.accepted = s.accepted ++ more) : Applying g₀ s' g' pc := by
  cases pc with
  | testGuard o | finish o => exact hflags o h
  | storeRequest => exact Decided.mono more h hg hacc
  | _ => trivial

theorem Phase.same (h : Phase g₀ s g) (hs : SameOutcome s s') (hg : g.Unended g') :
    Phase g₀ s' g' := by
  cases h with
  | free accepted noRequest goal =>
    exact .free (hs.accepted.trans accepted) (fun o => (hs.requested o).trans (noRequest o))
      (goal.trans hg)
  | pending o result accepted requested reqResult goal =>
    exact .pending o result (hs.accepted.trans accepted) ((hs.requested o).trans requested)
      (hs.reqResult.trans reqResult) (goal.trans hg)
  | decided h => exact .decided (h.mono [] hg (by rw [hs.accepted, List.append_nil]))

/-- A transition into a terminal state applies the first request with its own result. -/
theorem Phase.finish {o : Outcome} (h : Phase g₀ s g) (hone : s.handle.OneRequest)
    (ho : s.handle.requested o = true) (hf : g.finish o s.handle.reqResult = some g')
    (hacc : s'.accepted = s.accepted) : Decided g₀ s' g' := by
  obtain ⟨hactive, hstatus, hresults⟩ := Goal.finish_cases hf
  cases h with
  | free accepted noRequest goal =>
    rw [noRequest o] at ho
    exact absurd ho Bool.false_ne_true
  | pending o' result accepted requested reqResult goal =>
    obtain rfl := hone o o' ho requested
    refine ⟨o, result, by rw [hacc, accepted]; rfl, ?_, hstatus⟩
    rw [hresults, goal.results, reqResult]
  | decided h =>
    -- A goal that has ended refuses every outcome.
    obtain ⟨o', result, hfirst, hresults', hended⟩ := h
    rw [hended, o'.status_not_active] at hactive
    exact absurd hactive Bool.false_ne_true

/-! ## Every step keeps the decision -/

/-- A step that ends nothing and leaves the requests alone. -/
theorem FirstOutcome.keep (hgh : s'.handle.gh = some g') (hg : g.Unended g')
    (hphase : Phase g₀ s g) (hs : SameOutcome s s') (hat : Applying g₀ s' g' s'.run) :
    FirstOutcome g₀ s' :=
  ⟨g', hgh, hphase.same hs hg, hat⟩

/-- A step of `runNonRealtime` that only moves on. -/
theorem FirstOutcome.goto {pc : RunPc} {mutex : Mutex (Actor κ)} (hgh : s.handle.gh = some g)
    (hphase : Phase g₀ s g) (hat : Applying g₀ s g pc) :
    FirstOutcome g₀ { s with mutex := mutex, run := pc } := by
  refine .keep hgh (.refl g) hphase ⟨fun _ => rfl, rfl, rfl⟩ ?_
  show Applying g₀ _ g pc
  cases pc <;> exact hat

theorem sameOutcome_goal {gh : Option (Goal R F)} {pc : RunPc} :
    SameOutcome s { s with handle := { s.handle with gh := gh }, run := pc } :=
  ⟨fun o => by cases o <;> rfl, rfl, rfl⟩

theorem applying_afterOutcome (o : Outcome) : Applying g₀ s g (afterOutcome o) := by
  cases o <;> trivial

theorem runNonRealtime_firstOutcome (hf : FirstOutcome g₀ s) (hone : s.handle.OneRequest)
    (h : runNonRealtime s = some s') : FirstOutcome g₀ s' := by
  obtain ⟨g, hgh, hphase, hat⟩ := hf
  unfold runNonRealtime at h
  cases hpc : s.run <;> simp only [hpc] at hat h
  case lock =>
    obtain ⟨_, h⟩ := Option.ite_none_right_eq_some.mp h
    obtain rfl := Option.some.inj h
    exact .goto hgh hphase trivial
  case loadRequest o =>
    obtain rfl := Option.some.inj h
    cases ho : s.handle.requested o with
    | true => exact .goto hgh hphase ho
    | false => exact .goto hgh hphase (applying_afterOutcome o)
  case testGuard o =>
    obtain rfl := Option.some.inj h
    cases outcomeGuard s.handle o with
    | true => exact .goto hgh hphase hat
    | false => exact .goto hgh hphase (applying_afterOutcome o)
  case execute =>
    obtain rfl := Option.some.inj h
    unfold callGoal
    rw [hgh, Option.bind_some]
    cases he : g.execute with
    | none => exact .goto hgh hphase trivial
    | some g' => exact .keep rfl (Goal.unended_of_execute he) hphase sameOutcome_goal trivial
  case finish o =>
    obtain rfl := Option.some.inj h
    unfold callGoal
    rw [hgh, Option.bind_some]
    cases he : g.finish o s.handle.reqResult with
    -- A refused transition ends in the `catch` block, with the request still pending.
    | none => exact .goto hgh hphase trivial
    | some g' =>
      have hdecided : Decided g₀ _ g' := hphase.finish hone hat he rfl
      exact ⟨g', rfl, .decided hdecided, hdecided⟩
  case storeRequest o =>
    -- The goal has ended by now, so the cleared flag lets in no request that could matter.
    obtain rfl := Option.some.inj h
    refine ⟨g, (Handle.gh_setRequested _ false o).trans hgh, .decided ?_, applying_afterOutcome o⟩
    exact Decided.mono [] hat (.refl g) (State.accepted_record _ _)
  case publishFeedback =>
    split at h
    · obtain rfl := Option.some.inj h
      refine .keep (g := g) (congrArg (Option.map _) hgh) ⟨rfl, rfl, fun _ => rfl⟩ hphase ?_ trivial
      refine ⟨fun o => by cases o <;> rfl, rfl, ?_⟩
      rw [State.accepted_record]
      exact List.append_nil _
    · cases h
  case testValid | loadExecute | testExecuting | testActive | testCanceling | testFeedback |
      testFeedbackExecuting =>
    obtain rfl := Option.some.inj h
    refine .goto hgh hphase ?_
    split <;> trivial
  case idle | unlock =>
    obtain rfl := Option.some.inj h
    exact .goto hgh hphase trivial

theorem clientCancel_firstOutcome (hf : FirstOutcome g₀ s) :
    FirstOutcome g₀ { s with handle := s.handle.clientCancel } := by
  obtain ⟨g, hgh, hphase, hat⟩ := hf
  have hsame : SameOutcome s { s with handle := s.handle.clientCancel } :=
    ⟨fun o => by cases o <;> rfl, rfl, rfl⟩
  have hg := g.unended_clientCancel
  exact .keep (congrArg (Option.map _) hgh) hg hphase hsame
    (hat.mono [] (fun o ho => (hsame.requested o).trans ho) hg (List.append_nil _).symm)

section Steps

variable [DecidableEq κ]

theorem userStep_firstOutcome (hf : FirstOutcome g₀ s) (hat : At (.user j) s)
    (hrun : s'.run = s.run) (h : userStep s j a = some s') : FirstOutcome g₀ s' := by
  obtain ⟨g, hgh, hphase, happly⟩ := hf
  have hpcat : UserPcAt j s (s.user j) := hat
  cases userStep_effect h with
  | storeResult o result hpc handle accepted =>
    rw [hpc] at hpcat
    have hnone : NoRequest s.handle := hpcat.2
    have hflags : ∀ o', s'.handle.requested o' = s.handle.requested o' := by
      intro o'
      rw [handle]
      cases o' <;> rfl
    refine ⟨g, handle ▸ hgh, ?_, ?_⟩
    · cases hphase with
      | free acc noRequest goal =>
        exact .free (accepted.trans acc) (fun o' => (hflags o').trans (noRequest o')) goal
      | pending o' result' acc requested =>
        -- The setter has found every flag cleared.
        rw [hnone o'] at requested
        exact absurd requested Bool.false_ne_true
      | decided hd =>
        exact .decided (hd.mono [] (.refl g) (by rw [accepted, List.append_nil]))
    · rw [hrun]
      exact happly.mono [] (fun o' ho' => (hflags o').trans ho') (.refl g)
        (by rw [accepted, List.append_nil])
  | storeRequest o result hpc handle accepted =>
    rw [hpc] at hpcat
    obtain ⟨_, hnone, hresult⟩ : _ ∧ NoRequest s.handle ∧ s.handle.reqResult = result := hpcat
    have hflags : ∀ o', s.handle.requested o' = true → s'.handle.requested o' = true := by
      intro o' ho'
      rw [hnone o'] at ho'
      exact absurd ho' Bool.false_ne_true
    have hgh' : s'.handle.gh = some g := by rw [handle, Handle.gh_setRequested, hgh]
    refine ⟨g, hgh', ?_, ?_⟩
    · cases hphase with
      | free acc noRequest goal =>
        -- The first request of the run.
        have hset : s'.handle.requested o = true := by
          rw [handle, Handle.requested_setRequested, if_pos rfl]
        have hstored : s'.handle.reqResult = result := by
          rw [handle, Handle.reqResult_setRequested, hresult]
        exact .pending o result (by rw [accepted, acc]; rfl) hset hstored goal
      | pending o' result' acc requested =>
        rw [hnone o'] at requested
        exact absurd requested Bool.false_ne_true
      -- A later request is accepted, but the goal is past deciding.
      | decided hd => exact .decided (hd.mono [(o, result)] (.refl g) accepted)
    · rw [hrun]
      exact happly.mono [(o, result)] hflags (.refl g) accepted
  | other gh same =>
    refine .keep (gh.trans hgh) (.refl g) hphase same ?_
    rw [hrun]
    exact happly.mono [] (fun o ho => (same.requested o).trans ho) (.refl g)
      (by rw [same.accepted, List.append_nil])

/-- Every state of a run with one requester that starts with the goal `g₀`. -/
theorem continues_firstOutcome {content : F}
    (h : Continues (goalHandle κ R F) (OneRequester k) (initial (some g₀) content) s) :
    FirstOutcome g₀ s := by
  have hstart : Reachable (goalHandle κ R F) (OneRequester k) (initial (some g₀) content) :=
    .start ⟨some g₀, content, rfl⟩
  have hnone : NoRequest (initial (some g₀) content : State κ R F).handle := fun o => by
    cases o <;> rfl
  refine (h.invariant hstart (I := FirstOutcome g₀) ⟨g₀, rfl, .free rfl hnone (.refl g₀), trivial⟩
    ?_).2
  intro s t a s' hr hf hp hs
  obtain ⟨hfree, htest⟩ := reachable_findsFree hr
  obtain ⟨hI, hJ⟩ := reachable_requests hfree
  cases t with
  | nonRealtime => exact runNonRealtime_firstOutcome hf hJ.one hs
  | actionClient =>
    obtain rfl := Option.some.inj hs
    exact clientCancel_firstOutcome hf
  | user j =>
    have hsound := step_sound hI hJ (htest.settersFindFree (.user j)) hs
    exact userStep_firstOutcome hf (hI (.user j)) (hsound.guarantee.others .nonRealtime (by simp)) hs

/-- **The first accepted outcome decides the goal.**  In every run in which one thread calls the
setters, the goal has made no transition into a terminal state, or exactly one: the transition of the
first request that was accepted, delivered with the result pointer of that call. -/
theorem first_outcome_decides {content : F}
    (h : Continues (goalHandle κ R F) (OneRequester k) (initial (some g₀) content) s) :
    ∃ g, s.handle.gh = some g ∧
      ((g.results = g₀.results ∧ g.status.isActive = g₀.status.isActive) ∨
        ∃ o result, s.accepted.head? = some (o, result) ∧
          g.results = g₀.results ++ [(o, result)] ∧ g.status = o.status) := by
  obtain ⟨g, hgh, hphase, _⟩ := continues_firstOutcome h
  refine ⟨g, hgh, ?_⟩
  cases hphase with
  | free accepted noRequest goal | pending o result accepted requested reqResult goal =>
    exact .inl ⟨goal.results, goal.active⟩
  | decided hd => exact .inr hd

end Steps

/-- An abortion with result 1 is accepted, and the client asks for a cancellation after
`runNonRealtime` has tested that the goal is executing; a success requested afterwards is accepted
too, and refused by the goal. -/
theorem first_outcome_decides_abort :
    ∃ s : State Bool Nat Unit,
      Continues (goalHandle Bool Nat Unit) (OneRequester false) started s ∧
      s.accepted = [(.abort, some 1), (.succeed, some 2)] ∧ s.handle.reqResult = some 2 ∧
      ∃ g, s.handle.gh = some g ∧
        ((g.results = [] ∧ g.status.isActive = true) ∨
          ∃ o result, s.accepted.head? = some (o, result) ∧
            g.results = [(o, result)] ∧ g.status = o.status) := by
  let runs (n : Nat) : List (Actor Bool × Oracle Nat Unit) :=
    List.replicate n (.nonRealtime, { call := .execute })
  let sets (o : Outcome) (result : Nat) : List (Actor Bool × Oracle Nat Unit) :=
    List.replicate 9 (.user false, { call := .set o (some result) })
  let schedule := executeRun ++ runs 13 ++ sets .abort 1 ++ runs 7 ++
    [(.actionClient, { call := .execute })] ++ runs 6 ++ sets .succeed 2 ++ runs 12
  obtain ⟨s, hs, hp⟩ := (Option.any_eq_true
    (fun s => s.accepted = [(.abort, some 1), (.succeed, some 2)] ∧ s.handle.reqResult = some 2)
    ((goalHandle Bool Nat Unit).exec (OneRequester false) schedule started)).mp (by decide)
  obtain ⟨haccepted, hresult⟩ := of_decide_eq_true hp
  exact ⟨s, .of_exec hs, haccepted, hresult, first_outcome_decides (.of_exec hs)⟩

end GoalHandle
