import RealtimeTools.Publisher.Calls

/-!
# No lost wake-up of the publishing thread

A notification that finds the loop awake is lost.  It is enough that the predicate of the wait only
becomes true by a client that still has its own notification ahead of it (`Wakes.announced`), and
that a client gives up this obligation only by notifying (`Wakes.pending`).
-/

open Interleaving

namespace RealtimePublisher

variable {κ Msg : Type} {s s' : State κ Msg} {k : κ}

/-- The predicate of `updated_cond_.wait`. -/
def WakePredicate (s : State κ Msg) : Prop := s.turn = .nonRealtime ∨ s.keepRunning = false

/-- Between the store of `turn_` or `keep_running_` and the `notify_one` of the same call. -/
def Announcing : ClientPc Msg → Prop
  | .tryPublish _ .unlock | .tryPublish _ .notify | .stop .unlock | .stop .notify => True
  | _ => False

/-- The loop is blocked and no notification has reached it since. -/
def Sleeping (s : State κ Msg) : Prop := s.loop = .blocked ∧ Thread.worker ∈ s.updatedCond

/-- If the sleeping loop should wake up, some client will still notify it. -/
def WakeAt : Thread κ → State κ Msg → Prop
  | .worker, s =>
      (s.loop ≠ .blocked → Thread.worker ∉ s.updatedCond) ∧
        (Sleeping s → WakePredicate s → ∃ k, Announcing (s.client k))
  | .client _, _ => True

def OnlyLoopWaits (s : State κ Msg) : Prop := s.updatedCond ⊆ {Thread.worker}

structure Wakes (k : κ) (s s' : State κ Msg) : Prop where
  loop : s'.loop = s.loop
  others : ∀ j, j ≠ k → s'.client j = s.client j
  cond : s'.updatedCond ⊆ s.updatedCond
  announced : WakePredicate s' → WakePredicate s ∨ Announcing (s'.client k)
  pending : Announcing (s.client k) → Announcing (s'.client k) ∨ Thread.worker ∉ s'.updatedCond

def WakeGuarantee : Thread κ → State κ Msg → State κ Msg → Prop
  | .worker, _, _ => True
  | .client k, s, s' => Wakes k s s'

theorem Wakes.announcing_kept (hs : Wakes k s s') (hasleep : Thread.worker ∈ s'.updatedCond)
    (h : ∃ j, Announcing (s.client j)) : ∃ j, Announcing (s'.client j) := by
  obtain ⟨j, hj⟩ := h
  by_cases hjk : j = k
  · subst hjk
    exact ⟨j, (hs.pending hj).resolve_right fun hn => hn hasleep⟩
  · exact ⟨j, by rwa [hs.others j hjk]⟩

theorem wakeAt_frame (h : WakeAt .worker s) (hs : Wakes k s s') : WakeAt .worker s' := by
  refine ⟨fun hloop hmem => h.1 (hs.loop ▸ hloop) (hs.cond hmem), fun hsleep hwake => ?_⟩
  have hsleep₀ : Sleeping s := ⟨hs.loop ▸ hsleep.1, hs.cond hsleep.2⟩
  rcases hs.announced hwake with hwake₀ | hann
  · exact hs.announcing_kept hsleep.2 (h.2 hsleep₀ hwake₀)
  · exact ⟨k, hann⟩

section Steps

variable [DecidableEq κ] {o : Oracle κ Msg}

/-- A step that neither stores nor notifies. -/
theorem Wakes.of_goto {pc : ClientPc Msg} (hclient : s'.client = Function.update s.client k pc)
    (hpc : Announcing (s.client k) → Announcing pc) (hloop : s'.loop = s.loop)
    (hcond : s'.updatedCond = s.updatedCond) (hturn : s'.turn = s.turn)
    (hkeep : s'.keepRunning = s.keepRunning) : Wakes k s s' where
  loop := hloop
  others j hj := by rw [hclient, Function.update_of_ne hj]
  cond := hcond.subset
  announced hw := by
    unfold WakePredicate at hw ⊢
    rw [hturn, hkeep] at hw
    exact .inl hw
  pending ha := .inl (by rw [hclient, Function.update_self]; exact hpc ha)

/-- A store that may make the predicate true is followed by a notification. -/
theorem Wakes.of_store {pc : ClientPc Msg} (hclient : s'.client = Function.update s.client k pc)
    (hpc : Announcing pc) (hloop : s'.loop = s.loop) (hcond : s'.updatedCond = s.updatedCond) :
    Wakes k s s' where
  loop := hloop
  others j hj := by rw [hclient, Function.update_of_ne hj]
  cond := hcond.subset
  announced _ := .inr (by rwa [hclient, Function.update_self])
  pending _ := .inl (by rwa [hclient, Function.update_self])

/-- A notification reaches the loop if it sleeps, so nothing is owed to it any more. -/
theorem Wakes.of_notify {pc : ClientPc Msg} (hJ : OnlyLoopWaits s)
    (hclient : s'.client = Function.update s.client k pc)
    (hnotify : s.updatedCond.notifyOne o.woken = some s'.updatedCond) (hloop : s'.loop = s.loop)
    (hturn : s'.turn = s.turn) (hkeep : s'.keepRunning = s.keepRunning) : Wakes k s s' where
  loop := hloop
  others j hj := by rw [hclient, Function.update_of_ne hj]
  cond := CondVar.notifyOne_subset hnotify
  announced hw := by
    unfold WakePredicate at hw ⊢
    rw [hturn, hkeep] at hw
    exact .inl hw
  pending _ := .inr (CondVar.not_mem_of_notifyOne hJ hnotify)

theorem tryPublish_wakes {msg : Msg} {pc : TryPublishPc} (hJ : OnlyLoopWaits s)
    (hpc : s.client k = .tryPublish msg pc) (h : tryPublish s k o msg pc = some s') :
    Wakes k s s' := by
  cases pc with
  | tryLock =>
    obtain rfl := Option.some.inj h
    exact .of_goto rfl (by rw [hpc]; exact id) rfl rfl rfl rfl
  | testTurn owns =>
    have hnot : ¬ Announcing (s.client k) := by rw [hpc]; exact id
    simp only [tryPublish] at h
    split at h
    · obtain rfl := Option.some.inj h
      exact .of_goto rfl (absurd · hnot) rfl rfl rfl rfl
    · split at h <;>
      · obtain rfl := Option.some.inj h
        exact .of_goto rfl (absurd · hnot) rfl rfl rfl rfl
  | storeMsg | giveUp =>
    have hnot : ¬ Announcing (s.client k) := by rw [hpc]; exact id
    obtain rfl := Option.some.inj h
    exact .of_goto rfl (absurd · hnot) rfl rfl rfl rfl
  | storeTurn =>
    obtain rfl := Option.some.inj h
    exact .of_store rfl trivial rfl rfl
  | unlock =>
    obtain rfl := Option.some.inj h
    exact .of_goto rfl (fun _ => trivial) rfl rfl rfl rfl
  | notify =>
    obtain ⟨cond, hn, rfl⟩ := Option.map_eq_some_iff.mp h
    exact .of_notify hJ rfl hn rfl rfl rfl

theorem canPublish_wakes {pc : CanPublishPc} (hpc : s.client k = .canPublish pc)
    (h : canPublish s k o pc = some s') : Wakes k s s' := by
  have hnot : ¬ Announcing (s.client k) := by rw [hpc]; exact id
  cases pc with
  | tryLock =>
    obtain rfl := Option.some.inj h
    exact .of_goto rfl (absurd · hnot) rfl rfl rfl rfl
  | testTurn owns =>
    simp only [canPublish] at h
    split at h <;>
    · obtain rfl := Option.some.inj h
      exact .of_goto rfl (absurd · hnot) rfl rfl rfl rfl
  | unlock result =>
    obtain rfl := Option.some.inj h
    exact .of_goto rfl (absurd · hnot) rfl rfl rfl rfl

theorem stop_wakes {pc : StopPc} (hJ : OnlyLoopWaits s) (hpc : s.client k = .stop pc)
    (h : stop s k o pc = some s') : Wakes k s s' := by
  cases pc with
  | lock =>
    obtain ⟨_, h⟩ := Option.ite_none_right_eq_some.mp h
    obtain rfl := Option.some.inj h
    exact .of_goto rfl (by rw [hpc]; exact False.elim) rfl rfl rfl rfl
  | store =>
    obtain rfl := Option.some.inj h
    exact .of_store rfl trivial rfl rfl
  | unlock =>
    obtain rfl := Option.some.inj h
    exact .of_goto rfl (fun _ => trivial) rfl rfl rfl rfl
  | notify =>
    obtain ⟨cond, hn, rfl⟩ := Option.map_eq_some_iff.mp h
    exact .of_notify hJ rfl hn rfl rfl rfl

theorem clientStep_wakes (hJ : OnlyLoopWaits s) (h : clientStep s k o = some s') :
    Wakes k s s' := by
  unfold clientStep at h
  cases hpc : s.client k with
  | idle =>
    have hnot : ¬ Announcing (s.client k) := by rw [hpc]; exact id
    simp only [hpc] at h
    split at h
    · obtain rfl := Option.some.inj h
      exact .of_goto rfl (absurd · hnot) rfl rfl rfl rfl
    · unfold initializeWait at h
      split at h
      · cases h
      · obtain rfl := Option.some.inj h
        exact .of_goto (Function.update_eq_self k s.client).symm id rfl rfl rfl rfl
  | tryPublish msg pc =>
    simp only [hpc] at h
    exact tryPublish_wakes hJ hpc h
  | canPublish pc =>
    simp only [hpc] at h
    exact canPublish_wakes hpc h
  | stop pc =>
    simp only [hpc] at h
    exact stop_wakes hJ hpc h

/-- The loop blocks only after it has found its predicate false under the mutex. -/
theorem publishingLoop_wakeAt (hat : LoopAt s) (hw : WakeAt .worker s) (hJ : OnlyLoopWaits s)
    (h : publishingLoop s = some s') : WakeAt .worker s' ∧ OnlyLoopWaits s' := by
  by_cases hblock : s.loop = .block
  · obtain ⟨_, hturn, hkeep⟩ : s.msgMutex = some .worker ∧ s.turn = .realtime ∧
        s.keepRunning = true := by simpa only [LoopAt, hblock] using hat
    simp only [publishingLoop, hblock, Option.some.injEq] at h
    subst h
    refine ⟨⟨fun hne => absurd rfl hne, fun _ hwake => ?_⟩, CondVar.wait_subset_singleton hJ⟩
    rcases hwake with hwake | hwake
    · cases hturn.symm.trans hwake
    · cases hkeep.symm.trans hwake
  · have hnot : Thread.worker ∉ s'.updatedCond ∧ s'.loop ≠ .blocked ∧
        s'.updatedCond ⊆ s.updatedCond := by
      by_cases hblocked : s.loop = .blocked
      · simp only [publishingLoop, hblocked, Option.some.injEq] at h
        subst h
        exact ⟨by simp, by simp, CondVar.wake_subset⟩
      · have hout := hw.1 hblocked
        unfold publishingLoop at h
        cases hpc : s.loop <;> simp only [hpc] at h
        case block => exact absurd hpc hblock
        case blocked => exact absurd hpc hblocked
        case finished => cases h
        case lock =>
          obtain ⟨_, h⟩ := Option.ite_none_right_eq_some.mp h
          obtain rfl := Option.some.inj h
          exact ⟨hout, by simp, subset_rfl⟩
        case testKeepRunning =>
          split at h <;>
          · obtain rfl := Option.some.inj h
            exact ⟨hout, by simp [State.record], subset_rfl⟩
        case testTurn | testStop | testPublish =>
          obtain rfl := Option.some.inj h
          refine ⟨hout, ?_, subset_rfl⟩
          dsimp only
          split <;> simp
        all_goals
          obtain rfl := Option.some.inj h
          exact ⟨hout, by simp [State.record], subset_rfl⟩
    exact ⟨⟨fun _ => hnot.1, fun hsleep => absurd hsleep.2 hnot.1⟩, hnot.2.2.trans hJ⟩

theorem reachable_wakeAt [Inhabited Msg] (h : Reachable (publisher κ Msg) anyStep s) :
    (∀ t, WakeAt t s) ∧ OnlyLoopWaits s := by
  refine h.rely_guarantee (I := WakeAt) (J := OnlyLoopWaits) (G := WakeGuarantee) ?_ ?_ ?_
  · rintro s rfl
    refine ⟨fun t => ?_, Finset.empty_subset _⟩
    cases t with
    | worker =>
      exact ⟨fun _ => Finset.notMem_empty _, fun hsleep => absurd hsleep.2 (Finset.notMem_empty _)⟩
    | client k => trivial
  · intro s t o s' hr hI hJ _ hs
    cases t with
    | worker =>
      have hw := publishingLoop_wakeAt ((reachable_at hr).1 .worker) (hI .worker) hJ hs
      exact ⟨hw.1, hw.2, trivial⟩
    | client k =>
      have hw : Wakes k s s' := clientStep_wakes hJ hs
      exact ⟨trivial, hw.cond.trans hJ, hw⟩
  · intro s s' t u htu hI _ _ hG
    cases t with
    | worker =>
      cases u with
      | worker => exact absurd rfl htu
      | client k => exact wakeAt_frame (hI .worker) hG
    | client k => trivial

/-- **No lost wake-up.**  While the loop sleeps, its predicate is false or some client is between
its store and its `notify_one`.  So once no call is on its way (the window opens at the store of
`msg_` here), the loop sleeps only with everything accepted published and no stop requested. -/
theorem sleeping_loop_not_forgotten [Inhabited Msg]
    (h : Reachable (publisher κ Msg) anyStep s) (hsleep : Sleeping s) :
    ((s.turn ≠ .nonRealtime ∧ s.keepRunning = true) ∨ ∃ k, Announcing (s.client k)) ∧
      ((∀ k, ¬ Announcing (s.client k) ∧ ¬ AtStoreTurn (s.client k)) →
        s.accepted = s.published ∧ s.keepRunning = true) := by
  obtain ⟨hI, hshared⟩ := reachable_at h
  have hwake := ((reachable_wakeAt h).1 .worker).2 hsleep
  have hfalse : ¬ WakePredicate s → s.turn ≠ .nonRealtime ∧ s.keepRunning = true := by
    intro hn
    exact ⟨fun ht => hn (.inl ht), by simpa using fun hk => hn (.inr hk)⟩
  refine ⟨?_, fun hnone => ?_⟩
  · by_cases hp : WakePredicate s
    · exact .inr (hwake hp)
    · exact .inl (hfalse hp)
  · obtain ⟨hturn, hkeep⟩ := hfalse fun hp => by
      obtain ⟨k, hk⟩ := hwake hp
      exact (hnone k).1 hk
    have hannounced : Announced s := by
      have hloop : LoopAt s := hI .worker
      simpa only [LoopAt, hsleep.1] using hloop
    have hrt : s.turn = .realtime := by
      have hstarted := hannounced.1
      cases ht : s.turn <;> simp_all
    have hquiet : Quiet s := by
      refine hshared.quiet.resolve_right ?_
      rintro ⟨k, hk⟩
      exact (hnone k).2 hk
    exact ⟨hquiet hrt, hkeep⟩

end Steps

/-- The loop sleeps, and a client has announced its message but not notified yet. -/
def announcedAsleep : List (Thread Unit × Oracle Unit Nat) :=
  List.replicate 7 (.worker, { call := .canPublish }) ++
    List.replicate 6 (.client (), { call := .tryPublish 7 })

theorem sleeping_loop_not_forgotten_announced :
    ∃ s : State Unit Nat, Reachable (publisher Unit Nat) anyStep s ∧ Sleeping s ∧
      s.turn = .nonRealtime ∧ ∃ k, Announcing (s.client k) := by
  obtain ⟨s, hs, hp⟩ := exists_reachable_of_exec (publisher Unit Nat) anyStep announcedAsleep
    initial
    (fun s => (s.loop = .blocked ∧ Thread.worker ∈ s.updatedCond) ∧ s.turn = .nonRealtime) rfl
    (by decide)
  obtain ⟨hsleep, hturn⟩ : Sleeping s ∧ s.turn = .nonRealtime := by simpa [Sleeping] using hp
  have hwake := (sleeping_loop_not_forgotten hs hsleep).1
  exact ⟨s, hs, hsleep, hturn, hwake.resolve_left fun hfalse => hfalse.1 hturn⟩

end RealtimePublisher
