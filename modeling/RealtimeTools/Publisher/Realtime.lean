import RealtimeTools.Interleaving.CriticalSection
import RealtimeTools.Interleaving.DataRace
import RealtimeTools.Publisher.Delivery

/-!
# The realtime side never waits

`try_publish` and `can_publish` are for realtime threads: they never block and end after a few steps,
whatever the other threads do.  `stop` and the loop may have to wait for `msg_mutex_`, but nobody keeps
it for more than four steps or waits for anything while he owns it.  `msg_` is the only member that is
shared and not atomic, and only the owner of the mutex touches it.
-/

open Interleaving

namespace RealtimePublisher

variable {κ Msg : Type} {s s' : State κ Msg} {k : κ}

/-! ## Steps that are left -/

/-- The steps of the loop until it gives the mutex back. -/
@[simp] def LoopPc.left : LoopPc Msg → ℕ
  | .testTurn => 4
  | .testStop => 3
  | .copy => 2
  | .block | .unlock _ => 1
  | _ => 0

/-- The steps of a client until it gives the mutex back. -/
@[simp] def ClientPc.left : ClientPc Msg → ℕ
  | .tryPublish _ (.testTurn true) => 4
  | .tryPublish _ .storeMsg => 3
  | .tryPublish _ .storeTurn | .canPublish (.testTurn true) | .stop .store => 2
  | .tryPublish _ .unlock | .tryPublish _ .giveUp | .canPublish (.unlock _) | .stop .unlock => 1
  | _ => 0

def State.left (t : Thread κ) (s : State κ Msg) : ℕ :=
  match t with
  | .worker => s.loop.left
  | .client k => (s.client k).left

/-- The steps of a client until its `try_publish` returns. -/
@[simp] def ClientPc.leftOfTryPublish : ClientPc Msg → ℕ
  | .tryPublish _ .tryLock => 6
  | .tryPublish _ (.testTurn _) => 5
  | .tryPublish _ .storeMsg => 4
  | .tryPublish _ .storeTurn => 3
  | .tryPublish _ .unlock => 2
  | .tryPublish _ .notify | .tryPublish _ .giveUp => 1
  | _ => 0

/-- The steps of a client until its `can_publish` returns. -/
@[simp] def ClientPc.leftOfCanPublish : ClientPc Msg → ℕ
  | .canPublish .tryLock => 3
  | .canPublish (.testTurn _) => 2
  | .canPublish (.unlock _) => 1
  | _ => 0

theorem ClientPc.left_le (pc : ClientPc Msg) : pc.left ≤ 4 := by
  unfold ClientPc.left
  split <;> decide

theorem State.left_le (t : Thread κ) (s : State κ Msg) : s.left t ≤ 4 := by
  cases t with
  | worker =>
    show s.loop.left ≤ 4
    unfold LoopPc.left
    split <;> decide
  | client k => exact (s.client k).left_le

theorem ClientPc.leftOfTryPublish_le (pc : ClientPc Msg) : pc.leftOfTryPublish ≤ 6 := by
  unfold ClientPc.leftOfTryPublish
  split <;> decide

theorem ClientPc.leftOfCanPublish_le (pc : ClientPc Msg) : pc.leftOfCanPublish ≤ 3 := by
  unfold ClientPc.leftOfCanPublish
  split <;> decide

section Steps

variable [DecidableEq κ] {o : Oracle κ Msg}

/-! ## Steps of the loop -/

/-- The loop inside its critical section. -/
theorem publishingLoop_section (hat : LoopAt s) (h : publishingLoop s = some s') :
    BoundedStep .worker s.loop.left s'.loop.left s.msgMutex s'.msgMutex := by
  unfold LoopAt at hat
  unfold publishingLoop at h
  cases hpc : s.loop <;> simp only [hpc] at hat h
  case storeRunning | storeRealtime | blocked | publish | storeStopped =>
    obtain rfl := Option.some.inj h
    exact .outside _ rfl rfl
  case testKeepRunning =>
    split at h <;>
    · obtain rfl := Option.some.inj h
      exact .outside _ rfl rfl
  case testPublish =>
    obtain rfl := Option.some.inj h
    refine .outside _ rfl ?_
    dsimp only
    split <;> rfl
  case lock =>
    obtain ⟨hfree, h⟩ := Option.ite_none_right_eq_some.mp h
    obtain rfl := Option.some.inj h
    rw [hfree]
    exact .enter rfl (by simp)
  case testTurn | testStop =>
    obtain rfl := Option.some.inj h
    dsimp only
    split <;> exact .inside _ (by simp) (by simp)
  case copy =>
    obtain rfl := Option.some.inj h
    exact .inside _ Nat.one_pos Nat.one_lt_two
  case block =>
    obtain rfl := Option.some.inj h
    rw [hat.1]
    exact .leave Nat.one_pos rfl
  case unlock =>
    obtain rfl := Option.some.inj h
    rw [hat.1]
    exact .leave Nat.one_pos rfl
  case finished => cases h

/-- The loop waits for the mutex only, and at its end. -/
theorem publishingLoop_enabled (h : s.loop = .lock → s.msgMutex = none) (hend : s.loop ≠ .finished) :
    ∃ s', publishingLoop s = some s' := by
  unfold publishingLoop
  cases hpc : s.loop
  case lock => exact ⟨_, if_pos (h hpc)⟩
  case finished => exact absurd hpc hend
  case testKeepRunning => dsimp only; split <;> exact ⟨_, rfl⟩
  all_goals exact ⟨_, rfl⟩

/-! ## Steps of a client -/

/-- Where client `k` is after its step. -/
@[simp] theorem State.client_goto (s : State κ Msg) (k : κ) (pc : ClientPc Msg) :
    (s.goto k pc).client k = pc := by
  simp [goto]

@[simp] theorem State.client_goto_record (s : State κ Msg) (k : κ) (pc : ClientPc Msg)
    (e : Event κ Msg) : ((s.goto k pc).record e).client k = pc := s.client_goto k pc

theorem tryPublish_section {msg : Msg} {pc : TryPublishPc} (hat : TryPublishAt k msg s pc)
    (h : tryPublish s k o msg pc = some s') :
    BoundedStep (.client k) (ClientPc.tryPublish msg pc).left (s'.client k).left s.msgMutex
      s'.msgMutex := by
  cases pc with
  | tryLock =>
    rcases s.msgMutex.tryLock_cases (.client k) o.spuriousFail with ⟨hfree, he⟩ | he
    · simp only [tryPublish, he, Option.some.injEq] at h
      subst h
      rw [State.client_goto, hfree]
      exact .enter rfl (by simp)
    · simp only [tryPublish, he, Option.some.injEq] at h
      subst h
      rw [State.client_goto]
      exact .outside _ rfl rfl
  | testTurn owns =>
    simp only [tryPublish] at h
    split at h
    · rename_i hcan
      obtain rfl : owns = true := by simpa using (Bool.and_eq_true_iff.mp hcan).2
      obtain rfl := Option.some.inj h
      rw [State.client_goto]
      exact .inside _ (by simp) (by simp)
    · split at h <;> obtain rfl := Option.some.inj h
      · rename_i howns
        subst howns
        rw [State.client_goto]
        exact .inside _ (by simp) (by simp)
      · rename_i howns
        obtain rfl : owns = false := by simpa using howns
        rw [State.client_goto_record]
        exact .outside _ rfl rfl
  | storeMsg | storeTurn =>
    obtain rfl := Option.some.inj h
    simp only [State.client_goto, State.client_goto_record]
    exact .inside _ (by simp) (by simp)
  | unlock | giveUp =>
    obtain rfl := Option.some.inj h
    have hown : s.msgMutex = some (.client k) := hat
    simp only [State.client_goto, State.client_goto_record, hown]
    exact .leave (by simp) rfl
  | notify =>
    obtain ⟨cond, _, rfl⟩ := Option.map_eq_some_iff.mp h
    rw [State.client_goto_record]
    exact .outside _ rfl rfl

theorem canPublish_section {pc : CanPublishPc} (hat : CanPublishAt k s pc)
    (h : canPublish s k o pc = some s') :
    BoundedStep (.client k) (ClientPc.canPublish pc : ClientPc Msg).left (s'.client k).left
      s.msgMutex s'.msgMutex := by
  cases pc with
  | tryLock =>
    rcases s.msgMutex.tryLock_cases (.client k) o.spuriousFail with ⟨hfree, he⟩ | he
    · simp only [canPublish, he, Option.some.injEq] at h
      subst h
      rw [State.client_goto, hfree]
      exact .enter rfl (by simp)
    · simp only [canPublish, he, Option.some.injEq] at h
      subst h
      rw [State.client_goto]
      exact .outside _ rfl rfl
  | testTurn owns =>
    cases owns with
    | true =>
      obtain rfl := Option.some.inj h
      rw [State.client_goto]
      exact .inside _ (by simp) (by simp)
    | false =>
      obtain rfl := Option.some.inj h
      rw [State.client_goto_record]
      exact .outside _ rfl rfl
  | unlock result =>
    obtain rfl := Option.some.inj h
    have hown : s.msgMutex = some (.client k) := hat
    rw [State.client_goto_record, hown]
    exact .leave (by simp) rfl

theorem stop_section {pc : StopPc} (hat : StopAt k s pc) (h : stop s k o pc = some s') :
    BoundedStep (.client k) (ClientPc.stop pc : ClientPc Msg).left (s'.client k).left s.msgMutex
      s'.msgMutex := by
  cases pc with
  | lock =>
    obtain ⟨hfree, h⟩ := Option.ite_none_right_eq_some.mp h
    obtain rfl := Option.some.inj h
    rw [State.client_goto, hfree]
    exact .enter rfl (by simp)
  | store =>
    obtain rfl := Option.some.inj h
    rw [State.client_goto]
    exact .inside _ (by simp) (by simp)
  | unlock =>
    obtain rfl := Option.some.inj h
    have hown : s.msgMutex = some (.client k) := hat
    rw [State.client_goto, hown]
    exact .leave (by simp) rfl
  | notify =>
    obtain ⟨cond, _, rfl⟩ := Option.map_eq_some_iff.mp h
    rw [State.client_goto_record]
    exact .outside _ rfl rfl

theorem clientStep_section (hat : ClientAt k s) (h : clientStep s k o = some s') :
    BoundedStep (.client k) (s.client k).left (s'.client k).left s.msgMutex s'.msgMutex := by
  unfold ClientAt at hat
  unfold clientStep at h
  cases hpc : s.client k with
  | idle =>
    simp only [hpc] at h
    split at h
    · obtain rfl := Option.some.inj h
      refine .outside _ rfl ?_
      rw [State.client_goto_record]
      cases o.call <;> rfl
    · obtain ⟨_, h⟩ := Option.ite_none_left_eq_some.mp h
      obtain rfl := Option.some.inj h
      exact .outside _ rfl (congrArg ClientPc.left hpc)
  | tryPublish msg pc =>
    simp only [hpc] at h hat
    exact tryPublish_section hat h
  | canPublish pc =>
    simp only [hpc] at h hat
    exact canPublish_section hat h
  | stop pc =>
    simp only [hpc] at h hat
    exact stop_section hat h

/-! ## Calls of the realtime side -/

theorem tryPublish_lowers {msg : Msg} {pc : TryPublishPc} (h : tryPublish s k o msg pc = some s') :
    (s'.client k).leftOfTryPublish < (ClientPc.tryPublish msg pc).leftOfTryPublish := by
  cases pc with
  | tryLock | storeMsg | storeTurn | unlock | giveUp =>
    obtain rfl := Option.some.inj h
    simp
  | testTurn owns =>
    simp only [tryPublish] at h
    split at h
    · obtain rfl := Option.some.inj h
      simp
    · split at h <;> obtain rfl := Option.some.inj h <;> simp
  | notify =>
    obtain ⟨cond, _, rfl⟩ := Option.map_eq_some_iff.mp h
    simp

theorem canPublish_lowers {pc : CanPublishPc} (h : canPublish s k o pc = some s') :
    (s'.client k).leftOfCanPublish < (ClientPc.canPublish pc : ClientPc Msg).leftOfCanPublish := by
  cases pc with
  | tryLock | unlock =>
    obtain rfl := Option.some.inj h
    simp
  | testTurn owns =>
    cases owns <;>
    · obtain rfl := Option.some.inj h
      simp

/-- A notification may always be made, so `try_publish` is not blocked anywhere. -/
theorem tryPublish_enabled (s : State κ Msg) (k : κ) (msg : Msg) (pc : TryPublishPc) :
    ∃ o s', tryPublish s k o msg pc = some s' := by
  cases pc with
  | testTurn owns =>
    refine ⟨{}, ?_⟩
    simp only [tryPublish]
    split
    · exact ⟨_, rfl⟩
    · split <;> exact ⟨_, rfl⟩
  | notify =>
    obtain ⟨w, cond, hn⟩ := s.updatedCond.exists_notifyOne .worker
    refine ⟨{ woken := w }, ?_⟩
    simp only [tryPublish, hn]
    exact ⟨_, rfl⟩
  | _ => exact ⟨{}, _, rfl⟩

theorem canPublish_enabled (s : State κ Msg) (k : κ) (pc : CanPublishPc) :
    ∃ o s', canPublish s k o pc = some s' := by
  cases pc with
  | testTurn owns => cases owns <;> exact ⟨{}, _, rfl⟩
  | _ => exact ⟨{}, _, rfl⟩

theorem stop_enabled (s : State κ Msg) (k : κ) {pc : StopPc} (h : pc = .lock → s.msgMutex = none) :
    ∃ o s', stop s k o pc = some s' := by
  cases pc with
  | lock => exact ⟨{}, _, if_pos (h rfl)⟩
  | notify =>
    obtain ⟨w, cond, hn⟩ := s.updatedCond.exists_notifyOne .worker
    refine ⟨{ woken := w }, ?_⟩
    simp only [stop, hn]
    exact ⟨_, rfl⟩
  | _ => exact ⟨{}, _, rfl⟩

/-- A client in a call is blocked by the mutex only, in `stop`. -/
theorem clientStep_enabled (hbusy : s.client k ≠ .idle)
    (h : s.client k = .stop .lock → s.msgMutex = none) : ∃ o s', clientStep s k o = some s' := by
  unfold clientStep
  cases hpc : s.client k with
  | idle => exact absurd hpc hbusy
  | tryPublish msg pc => exact tryPublish_enabled s k msg pc
  | canPublish pc => exact canPublish_enabled s k pc
  | stop pc =>
    refine stop_enabled s k fun hlock => h ?_
    rw [hpc, hlock]

/-! ## Runs -/

variable [Inhabited Msg] {t u : Thread κ}

/-- A step of one thread leaves the others where they are. -/
theorem step_others (hr : Reachable (publisher κ Msg) anyStep s) (h : step t o s = some s') :
    (t ≠ .worker → s'.loop = s.loop) ∧ ∀ k, t ≠ .client k → s'.client k = s.client k := by
  obtain ⟨hI, hJ⟩ := reachable_at hr
  have hs : Guarantee t s s' := (step_sound hI hJ h).guarantee
  cases t with
  | worker =>
    have hs : LoopStep s s' := hs
    exact ⟨fun hne => absurd rfl hne, fun k _ => congrFun hs.client k⟩
  | client j =>
    have hs : ClientStep j s s' := hs
    exact ⟨fun _ => hs.loop, fun k hk => hs.others k (by simpa using Ne.symm hk)⟩

theorem publisher_sections :
    BoundedSections (publisher κ Msg) anyStep State.msgMutex State.left where
  start := by
    rintro s rfl
    refine ⟨rfl, fun t => ?_⟩
    cases t <;> rfl
  own := by
    intro s t o s' hr _ hs
    have hat := (reachable_at hr).1 t
    cases t with
    | worker => exact publishingLoop_section hat hs
    | client k => exact clientStep_section hat hs
  others := by
    intro s t o s' u hr _ hs hut
    obtain ⟨hloop, hclient⟩ := step_others hr hs
    cases u with
    | worker => exact congrArg LoopPc.left (hloop (Ne.symm hut))
    | client k => exact congrArg ClientPc.left (hclient k (Ne.symm hut))

/-- A call that never waits for the mutex is wait-free if each of its steps brings it nearer its end. -/
theorem call_waitFree (inCall : ClientPc Msg → Prop) (rank : ClientPc Msg → ℕ) {bound : ℕ}
    (hcall : ∀ pc, inCall pc → pc ≠ .idle ∧ pc ≠ .stop .lock) (hbound : ∀ pc, rank pc ≤ bound)
    (hlowers : ∀ s o s', inCall (s.client k) → clientStep s k o = some s' →
      rank (s'.client k) < rank (s.client k)) :
    WaitFree (publisher κ Msg) anyStep (.client k) (fun s => inCall (s.client k)) bound := by
  refine .of_rank (fun s => rank (s.client k)) ?_ (fun s _ => hbound _) ?_
  · intro s _ hin
    obtain ⟨hidle, hlock⟩ := hcall _ hin
    exact clientStep_enabled hidle fun hpc => absurd hpc hlock
  · intro s u o s' hr hin _ hs
    refine ⟨?_, fun hut => (congrArg rank ((step_others hr hs).2 k hut)).le⟩
    rintro rfl
    exact hlowers s o s' hin hs

/-- **Realtime calls are wait-free.**  A thread in `try_publish` can always move and returns after six
of its own steps at the latest, one in `can_publish` after three, whatever the others do. -/
theorem realtime_calls_waitFree (k : κ) :
    WaitFree (publisher κ Msg) anyStep (.client k) (fun s => ∃ msg pc, s.client k = .tryPublish msg pc)
        6 ∧
      WaitFree (publisher κ Msg) anyStep (.client k) (fun s => ∃ pc, s.client k = .canPublish pc) 3 := by
  refine ⟨call_waitFree (fun pc => ∃ msg tryPc, pc = .tryPublish msg tryPc)
      ClientPc.leftOfTryPublish ?_ ClientPc.leftOfTryPublish_le ?_,
    call_waitFree (fun pc => ∃ canPc, pc = .canPublish canPc)
      ClientPc.leftOfCanPublish ?_ ClientPc.leftOfCanPublish_le ?_⟩
  · rintro _ ⟨msg, pc, rfl⟩
    exact ⟨by simp, by simp⟩
  · rintro s o s' ⟨msg, pc, hpc⟩ hs
    simp only [clientStep, hpc] at hs
    rw [hpc]
    exact tryPublish_lowers hs
  · rintro _ ⟨pc, rfl⟩
    exact ⟨by simp, by simp⟩
  · rintro s o s' ⟨pc, hpc⟩ hs
    simp only [clientStep, hpc] at hs
    rw [hpc]
    exact canPublish_lowers hs

/-- Where a thread may have to wait for `msg_mutex_`. -/
def AtLock (t : Thread κ) (s : State κ Msg) : Prop :=
  match t with
  | .worker => s.loop = .lock
  | .client k => s.client k = .stop .lock

/-- A client that waits for the constructor. -/
def AwaitsConstructor (t : Thread κ) (s : State κ Msg) : Prop :=
  s.constructed = false ∧ s.turn = .loopNotStarted ∧ ∃ k, t = .client k ∧ s.client k = .idle

omit [DecidableEq κ] [Inhabited Msg] in
theorem left_of_atLock (h : AtLock t s) : s.left t = 0 := by
  cases t with
  | worker =>
    have h : s.loop = .lock := h
    simp [State.left, h]
  | client k =>
    have h : s.client k = .stop .lock := h
    simp [State.left, h]

omit [Inhabited Msg] in
theorem step_enabled (hlock : AtLock t s → s.msgMutex = none)
    (hend : t = .worker → s.loop ≠ .finished) (hnot : ¬ AwaitsConstructor t s) :
    ∃ o s', step t o s = some s' := by
  cases t with
  | worker =>
    obtain ⟨s', hs⟩ := publishingLoop_enabled hlock (hend rfl)
    exact ⟨{}, s', hs⟩
  | client k =>
    by_cases hidle : s.client k = .idle
    · refine ⟨{}, ?_⟩
      simp only [step, clientStep, hidle, initializeWait]
      split
      · exact ⟨_, rfl⟩
      · rename_i hconstructed
        split
        · rename_i hturn
          exact absurd ⟨by simpa using hconstructed, hturn, k, rfl, hidle⟩ hnot
        · exact ⟨_, rfl⟩
    · exact clientStep_enabled hidle hlock

/-- **Nobody is kept waiting.**  The owner of `msg_mutex_` can always move, and gives it back after four
of its own steps at the latest.  A thread that cannot move waits for the mutex of such an owner, or for
the constructor while the loop has not begun, or is the loop after its end. -/
theorem mutex_given_back :
    (∀ t, WaitFree (publisher κ Msg) anyStep t (fun s => s.msgMutex = some t) 4) ∧
      ∀ s t, Reachable (publisher κ Msg) anyStep s → (∀ o, step t o s = none) →
        (AtLock t s ∧ ∃ u, s.msgMutex = some u ∧ u ≠ t) ∨ AwaitsConstructor t s ∨
          (t = .worker ∧ s.loop = .finished) := by
  have henabled : ∀ s (t : Thread κ), Reachable (publisher κ Msg) anyStep s → 0 < s.left t →
      ∃ o s', step t o s = some s' := by
    intro s t _ hleft
    apply step_enabled
    · intro hlock
      exact absurd (left_of_atLock hlock) (Nat.ne_of_gt hleft)
    · rintro rfl hend
      simp [State.left, hend] at hleft
    · rintro ⟨_, _, k, rfl, hidle⟩
      simp [State.left, hidle] at hleft
  refine ⟨fun t => publisher_sections.waitFree t (State.left_le t) fun s => henabled s t, ?_⟩
  intro s t hr hblocked
  by_contra hnot
  push Not at hnot
  obtain ⟨hlock, hconstructor, hend⟩ := hnot
  have hfree : AtLock t s → s.msgMutex = none := by
    intro hat
    by_contra hheld
    obtain ⟨u, hu⟩ := Option.ne_none_iff_exists'.mp hheld
    -- A thread that waits for the mutex is outside its critical section.
    obtain rfl := hlock hat u hu
    exact absurd (left_of_atLock hat) (Nat.ne_of_gt ((publisher_sections.owner_iff hr u).mp hu))
  obtain ⟨o, s', hs⟩ := step_enabled hfree hend hconstructor
  rw [hblocked o] at hs
  cases hs

/-! ## The message -/

/-- What the next step of a thread does to `msg_`. -/
def accessMsg (t : Thread κ) (s : State κ Msg) (_ : Unit) : Option Access :=
  match t with
  | .worker => match s.loop with
    | .copy => some .read
    | _ => none
  | .client k => match s.client k with
    | .tryPublish _ .storeMsg => some .write
    | _ => none

omit [DecidableEq κ] [Inhabited Msg] in
theorem owner_of_accessMsg {t : Thread κ} (hat : At t s) (h : (accessMsg t s ()).isSome) :
    s.msgMutex = some t := by
  cases t with
  | worker =>
    have hat : LoopAt s := hat
    unfold LoopAt at hat
    simp only [accessMsg] at h
    cases hpc : s.loop <;> simp only [hpc] at hat h <;> first | exact hat.1 | cases h
  | client k =>
    have hat : ClientPcAt k s (s.client k) := hat
    simp only [accessMsg] at h
    split at h
    · rename_i msg hpc
      rw [hpc] at hat
      exact hat.1
    · cases h

/-- **No data race.**  The message is written and copied by the owner of `msg_mutex_` only. -/
theorem msg_raceFree : RaceFree (publisher κ Msg) anyStep accessMsg () := by
  intro s hr
  exact not_race_of_owner s.msgMutex fun t ht => owner_of_accessMsg ((reachable_at hr).1 t) ht

end Steps

end RealtimePublisher
