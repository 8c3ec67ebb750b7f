import RealtimeTools.Publisher.Model
import RealtimeTools.Interleaving.Handover

/-!
# Delivery of accepted messages

`turn_` is stored by the loop without the mutex, and `keep_running_` is read again after the mutex
has been released.  What makes this safe is said once, as what one step of the loop (`LoopStep`) and
one step of a client (`ClientStep`) may do to the data; the assertions at the program points are
then stable by a short case analysis, and the publisher refines a one-place hand-over.
-/

open Interleaving

namespace RealtimePublisher

variable {κ Msg : Type} {s s' : State κ Msg} {k : κ}

/-! ## The data -/

/-- Every accepted message has been published. -/
def Delivered (s : State κ Msg) : Prop := s.accepted = s.published

/-- `msg` is accepted, not yet published, and the only such message. -/
def Outstanding (s : State κ Msg) (msg : Msg) : Prop := s.accepted = s.published ++ [msg]

/-- While it is the realtime side's turn nothing is outstanding. -/
def Quiet (s : State κ Msg) : Prop := s.turn = .realtime → Delivered s

/-- `NON_REALTIME` announces that `msg_` is outstanding. -/
def Announced (s : State κ Msg) : Prop :=
  s.turn ≠ .loopNotStarted ∧ (s.turn = .nonRealtime → Outstanding s s.msg)

/-- `outgoing` is worth publishing: it is outstanding and `turn_` still shuts out the clients. -/
def Taken (s : State κ Msg) (outgoing : Msg) : Prop :=
  s.turn = .nonRealtime ∧ Outstanding s outgoing

/-! ## Assertions at the program points -/

def LoopAt (s : State κ Msg) : Prop :=
  match s.loop with
  | .storeRunning | .storeRealtime => s.turn ≠ .realtime ∧ Delivered s
  | .testKeepRunning => s.keepRunning = true → s.turn ≠ .realtime ∧ Delivered s
  | .lock | .blocked => Announced s
  | .testTurn => s.msgMutex = some .worker ∧ Announced s
  | .testStop => s.msgMutex = some .worker ∧ s.turn = .realtime
  | .block => s.msgMutex = some .worker ∧ s.turn = .realtime ∧ s.keepRunning = true
  | .copy => s.msgMutex = some .worker ∧ (s.keepRunning = true → Taken s s.msg)
  | .unlock outgoing => s.msgMutex = some .worker ∧ (s.keepRunning = true → Taken s outgoing)
  | .testPublish outgoing => s.keepRunning = true → Taken s outgoing
  | .publish outgoing => Taken s outgoing
  | .storeStopped | .finished => s.keepRunning = false

def Owns (k : κ) (s : State κ Msg) : Prop := s.msgMutex = some (.client k)

def TryPublishAt (k : κ) (msg : Msg) (s : State κ Msg) : TryPublishPc → Prop
  | .tryLock | .notify => True
  | .testTurn ownsLock => ownsLock = true → Owns k s
  | .storeMsg => Owns k s ∧ s.turn = .realtime ∧ Delivered s
  | .storeTurn => Owns k s ∧ s.turn = .realtime ∧ s.msg = msg ∧ Outstanding s msg
  | .unlock | .giveUp => Owns k s

def CanPublishAt (k : κ) (s : State κ Msg) : CanPublishPc → Prop
  | .tryLock => True
  | .testTurn ownsLock => ownsLock = true → Owns k s
  | .unlock _ => Owns k s

def StopAt (k : κ) (s : State κ Msg) : StopPc → Prop
  | .lock | .notify => True
  | .store | .unlock => Owns k s

def ClientPcAt (k : κ) (s : State κ Msg) : ClientPc Msg → Prop
  | .idle => True
  | .tryPublish msg pc => TryPublishAt k msg s pc
  | .canPublish pc => CanPublishAt k s pc
  | .stop pc => StopAt k s pc

def ClientAt (k : κ) (s : State κ Msg) : Prop := ClientPcAt k s (s.client k)

def At : Thread κ → State κ Msg → Prop
  | .worker => LoopAt
  | .client k => ClientAt k

/-- A client has stored its message and not yet announced it. -/
def AtStoreTurn (pc : ClientPc Msg) : Prop := ∃ msg, pc = .tryPublish msg .storeTurn

structure Shared (s : State κ Msg) : Prop where
  quiet : Quiet s ∨ ∃ k, AtStoreTurn (s.client k)
  atMostOne : Delivered s ∨ ∃ msg, Outstanding s msg

/-! ## What one step may do -/

/-- One step of the loop: the data stay, or `turn_` is given back with nothing outstanding, or the
outstanding message is published. -/
structure LoopStep (s s' : State κ Msg) : Prop where
  client : s'.client = s.client
  keepRunning : s'.keepRunning = s.keepRunning
  msg : s'.msg = s.msg
  mutex : MutexStep .worker s.msgMutex s'.msgMutex
  accepted : s'.accepted = s.accepted
  data : (s'.turn = s.turn ∧ s'.published = s.published) ∨
    (s.turn ≠ .realtime ∧ Delivered s ∧ s'.turn = .realtime ∧ s'.published = s.published) ∨
    (s'.turn = s.turn ∧ ∃ msg, Taken s msg ∧ s'.published = s.published ++ [msg])

/-- One step of client `k`: the data stay, or a message is accepted in the realtime side's turn with
nothing outstanding, or that message is announced. -/
structure ClientStep (k : κ) (s s' : State κ Msg) : Prop where
  loop : s'.loop = s.loop
  others : ∀ j, j ≠ k → s'.client j = s.client j
  published : s'.published = s.published
  keepRunning : s'.keepRunning = s.keepRunning ∨
    (s.msgMutex = some (.client k) ∧ s'.keepRunning = false)
  mutex : MutexStep (.client k) s.msgMutex s'.msgMutex
  data : (s'.turn = s.turn ∧ s'.msg = s.msg ∧ s'.accepted = s.accepted) ∨
    (s.msgMutex = some (.client k) ∧ s.turn = .realtime ∧ Delivered s ∧ s'.turn = s.turn ∧
      s'.accepted = s.accepted ++ [s'.msg]) ∨
    (s.msgMutex = some (.client k) ∧ s.turn = .realtime ∧ Outstanding s s.msg ∧
      s'.turn = .nonRealtime ∧ s'.msg = s.msg ∧ s'.accepted = s.accepted)

def Guarantee : Thread κ → State κ Msg → State κ Msg → Prop
  | .worker => LoopStep
  | .client k => ClientStep k

/-- Only the thread that owns the mutex touches the data, as long as another thread has it. -/
theorem ClientStep.data_kept {t : Thread κ} (h : ClientStep k s s') (ht : s.msgMutex = some t)
    (hne : t ≠ .client k) :
    s'.turn = s.turn ∧ s'.msg = s.msg ∧ s'.accepted = s.accepted ∧
      s'.keepRunning = s.keepRunning := by
  have hnot : s.msgMutex ≠ some (.client k) := fun hk => hne (Option.some.inj (ht ▸ hk))
  have hkeep : s'.keepRunning = s.keepRunning := h.keepRunning.resolve_right fun hk => hnot hk.1
  rcases h.data with hd | hd | hd
  · exact ⟨hd.1, hd.2.1, hd.2.2, hkeep⟩
  · exact absurd hd.1 hnot
  · exact absurd hd.1 hnot

/-- Nothing is accepted or announced outside the realtime side's turn. -/
theorem ClientStep.data_kept_of_turn (h : ClientStep k s s') (ht : s.turn ≠ .realtime) :
    s'.turn = s.turn ∧ s'.msg = s.msg ∧ s'.accepted = s.accepted := by
  rcases h.data with hd | hd | hd
  · exact hd
  · exact absurd hd.2.1 ht
  · exact absurd hd.2.1 ht

theorem ClientStep.stopped_before (h : ClientStep k s s') (hk : s'.keepRunning = true) :
    s.keepRunning = true := by
  rcases h.keepRunning with he | he
  · exact he ▸ hk
  · rw [he.2] at hk; cases hk

/-! ## The assertions are not disturbed -/

theorem Delivered.congr (h : Delivered s) (ha : s'.accepted = s.accepted)
    (hp : s'.published = s.published) : Delivered s' := by
  unfold Delivered at h ⊢
  rw [ha, hp, h]

theorem Outstanding.congr {msg : Msg} (h : Outstanding s msg) (ha : s'.accepted = s.accepted)
    (hp : s'.published = s.published) : Outstanding s' msg := by
  unfold Outstanding at h ⊢
  rw [ha, hp, h]

/-- A taken message stays taken: its `turn_` shuts out every client. -/
theorem Taken.clientStep {msg : Msg} (h : Taken s msg) (hs : ClientStep k s s') : Taken s' msg := by
  have hd := hs.data_kept_of_turn (by rw [h.1]; decide)
  exact ⟨hd.1.trans h.1, h.2.congr hd.2.2 hs.published⟩

theorem Announced.clientStep (h : Announced s) (hs : ClientStep k s s') : Announced s' := by
  rcases hs.data with hd | hd | hd
  · refine ⟨hd.1 ▸ h.1, fun ht => ?_⟩
    rw [hd.2.1]
    exact (h.2 (hd.1 ▸ ht)).congr hd.2.2 hs.published
  · have ht : s'.turn = .realtime := hd.2.2.2.1.trans hd.2.1
    exact ⟨by rw [ht]; decide, fun ht' => nomatch ht.symm.trans ht'⟩
  · refine ⟨by rw [hd.2.2.2.1]; decide, fun _ => ?_⟩
    rw [hd.2.2.2.2.1]
    exact hd.2.2.1.congr hd.2.2.2.2.2 hs.published

theorem Quiet.loopStep (h : Quiet s) (hs : LoopStep s s') : Quiet s' := by
  intro ht
  rcases hs.data with ⟨hturn, hp⟩ | ⟨_, hdel, _, hp⟩ | ⟨hturn, _, htaken, _⟩
  · exact (h (hturn ▸ ht)).congr hs.accepted hp
  · exact hdel.congr hs.accepted hp
  · rw [hturn, htaken.1] at ht; cases ht

theorem Owns.loopStep (h : Owns k s) (hs : LoopStep s s') : Owns k s' :=
  hs.mutex.owner_kept (by simp) h

theorem Owns.clientStep {j : κ} (h : Owns k s) (hs : ClientStep j s s') (hkj : k ≠ j) : Owns k s' :=
  hs.mutex.owner_kept (by simpa using hkj) h

/-- In the realtime side's turn the loop does not touch the data either. -/
theorem LoopStep.data_kept (hs : LoopStep s s') (ht : s.turn = .realtime) :
    s'.turn = s.turn ∧ s'.published = s.published := by
  rcases hs.data with hd | hd | ⟨_, _, htaken, _⟩
  · exact hd
  · exact absurd ht hd.1
  · rw [htaken.1] at ht; cases ht

theorem loopAt_frame (h : LoopAt s) (hs : ClientStep k s s') : LoopAt s' := by
  have hown : s.msgMutex = some .worker → s'.msgMutex = some .worker :=
    hs.mutex.owner_kept (by simp)
  have hkept := fun hw : s.msgMutex = some .worker => hs.data_kept hw (by simp)
  unfold LoopAt at h ⊢
  rw [hs.loop]
  cases hpc : s.loop <;> simp only [hpc] at h ⊢
  case storeRunning | storeRealtime =>
    have hd := hs.data_kept_of_turn h.1
    exact ⟨hd.1 ▸ h.1, h.2.congr hd.2.2 hs.published⟩
  case testKeepRunning =>
    intro hk
    have h := h (hs.stopped_before hk)
    have hd := hs.data_kept_of_turn h.1
    exact ⟨hd.1 ▸ h.1, h.2.congr hd.2.2 hs.published⟩
  case lock | blocked => exact h.clientStep hs
  case testTurn => exact ⟨hown h.1, h.2.clientStep hs⟩
  case testStop => exact ⟨hown h.1, (hkept h.1).1.trans h.2⟩
  case block =>
    have hd := hkept h.1
    exact ⟨hown h.1, hd.1.trans h.2.1, hd.2.2.2.trans h.2.2⟩
  case copy =>
    have hd := hkept h.1
    refine ⟨hown h.1, fun hk => ?_⟩
    rw [hd.2.1]
    exact (h.2 (hs.stopped_before hk)).clientStep hs
  case unlock => exact ⟨hown h.1, fun hk => (h.2 (hs.stopped_before hk)).clientStep hs⟩
  case testPublish => exact fun hk => (h (hs.stopped_before hk)).clientStep hs
  case publish => exact h.clientStep hs
  case storeStopped | finished =>
    rcases hs.keepRunning with he | he
    · exact he.trans h
    · exact he.2

theorem clientAt_frame_loop (h : ClientAt k s) (hs : LoopStep s s') : ClientAt k s' := by
  unfold ClientAt at h ⊢
  rw [hs.client]
  cases hpc : s.client k with
  | idle => trivial
  | tryPublish msg pc =>
    rw [hpc] at h
    cases pc with
    | tryLock | notify => trivial
    | testTurn owns => exact fun ho => (h ho).loopStep hs
    | storeMsg =>
      have hd := hs.data_kept h.2.1
      exact ⟨Owns.loopStep h.1 hs, hd.1.trans h.2.1, h.2.2.congr hs.accepted hd.2⟩
    | storeTurn =>
      have hd := hs.data_kept h.2.1
      exact ⟨Owns.loopStep h.1 hs, hd.1.trans h.2.1, hs.msg.trans h.2.2.1, h.2.2.2.congr hs.accepted hd.2⟩
    | unlock | giveUp => exact Owns.loopStep h hs
  | canPublish pc =>
    rw [hpc] at h
    cases pc with
    | tryLock => trivial
    | testTurn owns => exact fun ho => (h ho).loopStep hs
    | unlock result => exact Owns.loopStep h hs
  | stop pc =>
    rw [hpc] at h
    cases pc with
    | lock | notify => trivial
    | store | unlock => exact Owns.loopStep h hs

theorem clientAt_frame_client {j : κ} (h : ClientAt k s) (hs : ClientStep j s s') (hkj : k ≠ j) :
    ClientAt k s' := by
  have hne : Thread.client k ≠ Thread.client j := by simpa using hkj
  unfold ClientAt at h ⊢
  rw [hs.others k hkj]
  cases hpc : s.client k with
  | idle => trivial
  | tryPublish msg pc =>
    rw [hpc] at h
    cases pc with
    | tryLock | notify => trivial
    | testTurn owns => exact fun ho => (h ho).clientStep hs hkj
    | storeMsg =>
      have hd := hs.data_kept h.1 hne
      exact ⟨Owns.clientStep h.1 hs hkj, hd.1.trans h.2.1, h.2.2.congr hd.2.2.1 hs.published⟩
    | storeTurn =>
      have hd := hs.data_kept h.1 hne
      exact ⟨Owns.clientStep h.1 hs hkj, hd.1.trans h.2.1, hd.2.1.trans h.2.2.1,
        h.2.2.2.congr hd.2.2.1 hs.published⟩
    | unlock | giveUp => exact Owns.clientStep h hs hkj
  | canPublish pc =>
    rw [hpc] at h
    cases pc with
    | tryLock => trivial
    | testTurn owns => exact fun ho => (h ho).clientStep hs hkj
    | unlock result => exact Owns.clientStep h hs hkj
  | stop pc =>
    rw [hpc] at h
    cases pc with
    | lock | notify => trivial
    | store | unlock => exact Owns.clientStep h hs hkj

/-! ## Every step keeps its promise -/

/-- What is proved of a step of thread `t`. -/
abbrev Sound (t : Thread κ) (s s' : State κ Msg) : Prop :=
  OwnStep At Shared Guarantee t s s'

theorem Shared.loopStep (h : Shared s) (hs : LoopStep s s') : Shared s' := by
  refine ⟨h.quiet.imp (·.loopStep hs) fun hk => by rwa [hs.client], ?_⟩
  · rcases hs.data with ⟨_, hp⟩ | ⟨_, hdel, _, hp⟩ | ⟨_, msg, htaken, hp⟩
    · rcases h.atMostOne with hd | ⟨msg, ho⟩
      · exact .inl (hd.congr hs.accepted hp)
      · exact .inr ⟨msg, ho.congr hs.accepted hp⟩
    · exact .inl (hdel.congr hs.accepted hp)
    · left
      unfold Delivered
      rw [hs.accepted, hp, htaken.2]

section Steps

variable [DecidableEq κ] {o : Oracle κ Msg}

theorem publishingLoop_sound (hl : LoopAt s) (hJ : Shared s) (h : publishingLoop s = some s') :
    Sound .worker s s' := by
  suffices hstep : LoopStep s s' ∧ LoopAt s' from
    ⟨hstep.2, hJ.loopStep hstep.1, hstep.1⟩
  unfold LoopAt at hl
  unfold publishingLoop at h
  cases hpc : s.loop <;> simp only [hpc] at hl h
  case storeRunning =>
    obtain rfl := Option.some.inj h
    exact ⟨⟨rfl, rfl, rfl, .keep _, rfl, .inl ⟨rfl, rfl⟩⟩, fun _ => hl⟩
  case testKeepRunning =>
    split at h
    · rename_i hk
      obtain rfl := Option.some.inj h
      exact ⟨⟨rfl, rfl, rfl, .keep _, rfl, .inl ⟨rfl, rfl⟩⟩, hl hk⟩
    · rename_i hk
      obtain rfl := Option.some.inj h
      have hstop : s.keepRunning = false := by simpa using hk
      exact ⟨⟨rfl, rfl, rfl, .keep _, by simp; rfl, .inl ⟨rfl, by simp; rfl⟩⟩, hstop⟩
  case storeRealtime =>
    obtain rfl := Option.some.inj h
    exact ⟨⟨rfl, rfl, rfl, .keep _, rfl, .inr (.inl ⟨hl.1, hl.2, rfl, rfl⟩)⟩,
      fun ht => (nomatch ht), fun ht => nomatch ht⟩
  case lock =>
    obtain ⟨hm, h⟩ := Option.ite_none_right_eq_some.mp h
    obtain rfl := Option.some.inj h
    exact ⟨⟨rfl, rfl, rfl, hm ▸ .acquire, rfl, .inl ⟨rfl, rfl⟩⟩, rfl, hl⟩
  case testTurn =>
    obtain rfl := Option.some.inj h
    refine ⟨⟨rfl, rfl, rfl, .keep _, rfl, .inl ⟨rfl, rfl⟩⟩, ?_⟩
    by_cases ht : s.turn = .nonRealtime
    · simp only [LoopAt, if_pos ht]
      exact ⟨hl.1, fun _ => ⟨ht, hl.2.2 ht⟩⟩
    · have hrt : s.turn = .realtime := by
        have hstarted := hl.2.1
        cases hturn : s.turn <;> simp_all
      simp only [LoopAt, if_neg ht]
      exact ⟨hl.1, hrt⟩
  case testStop =>
    obtain rfl := Option.some.inj h
    refine ⟨⟨rfl, rfl, rfl, .keep _, rfl, .inl ⟨rfl, rfl⟩⟩, ?_⟩
    by_cases hk : s.keepRunning = true
    · simp only [LoopAt, if_pos hk]
      exact ⟨hl.1, hl.2, hk⟩
    · simp only [LoopAt, if_neg hk]
      exact ⟨hl.1, fun hk' => absurd hk' hk⟩
  case block =>
    obtain rfl := Option.some.inj h
    refine ⟨⟨rfl, rfl, rfl, hl.1 ▸ .release, rfl, .inl ⟨rfl, rfl⟩⟩, fun ht => ?_, fun ht => ?_⟩
    · cases hl.2.1.symm.trans ht
    · cases hl.2.1.symm.trans ht
  case blocked =>
    obtain rfl := Option.some.inj h
    exact ⟨⟨rfl, rfl, rfl, .keep _, rfl, .inl ⟨rfl, rfl⟩⟩, hl⟩
  case copy =>
    obtain rfl := Option.some.inj h
    exact ⟨⟨rfl, rfl, rfl, .keep _, rfl, .inl ⟨rfl, rfl⟩⟩, hl⟩
  case unlock outgoing =>
    obtain rfl := Option.some.inj h
    exact ⟨⟨rfl, rfl, rfl, hl.1 ▸ .release, rfl, .inl ⟨rfl, rfl⟩⟩, hl.2⟩
  case testPublish outgoing =>
    obtain rfl := Option.some.inj h
    refine ⟨⟨rfl, rfl, rfl, .keep _, rfl, .inl ⟨rfl, rfl⟩⟩, ?_⟩
    by_cases hk : s.keepRunning = true
    · simp only [LoopAt, if_pos hk]
      exact hl hk
    · simp only [LoopAt, if_neg hk]
      exact fun hk' => absurd hk' hk
  case publish outgoing =>
    obtain rfl := Option.some.inj h
    refine ⟨⟨rfl, rfl, rfl, .keep _, by simp; rfl,
      .inr (.inr ⟨rfl, outgoing, hl, by simp; rfl⟩)⟩, fun _ => ⟨?_, ?_⟩⟩
    · intro ht
      cases hl.1.symm.trans (show s.turn = .realtime from ht)
    · unfold Delivered
      rw [State.accepted_record, State.published_record]
      exact (List.append_nil _).trans hl.2
  case storeStopped =>
    obtain rfl := Option.some.inj h
    exact ⟨⟨rfl, rfl, rfl, .keep _, rfl, .inl ⟨rfl, rfl⟩⟩, hl⟩
  case finished => cases h

/-- A client step that only moves the client and the mutex. -/
theorem sound_of_goto {pc : ClientPc Msg} (hJ : Shared s) (hnot : ¬ AtStoreTurn (s.client k))
    (hclient : s'.client = Function.update s.client k pc) (hpc : ClientPcAt k s' pc)
    (hmutex : MutexStep (.client k) s.msgMutex s'.msgMutex)
    (hloop : s'.loop = s.loop) (hkeep : s'.keepRunning = s.keepRunning)
    (hturn : s'.turn = s.turn) (hmsg : s'.msg = s.msg) (haccepted : s'.accepted = s.accepted)
    (hpublished : s'.published = s.published) : Sound (.client k) s s' where
  own := by
    show ClientPcAt k s' (s'.client k)
    rw [hclient, Function.update_self]
    exact hpc
  shared := by
    refine ⟨?_, ?_⟩
    · rcases hJ.quiet with hq | ⟨j, hj⟩
      · exact .inl fun ht => (hq (hturn ▸ ht)).congr haccepted hpublished
      · have hjk : j ≠ k := fun hjk => hnot (hjk ▸ hj)
        exact .inr ⟨j, by rwa [hclient, Function.update_of_ne hjk]⟩
    · rcases hJ.atMostOne with hd | ⟨msg, ho⟩
      · exact .inl (hd.congr haccepted hpublished)
      · exact .inr ⟨msg, ho.congr haccepted hpublished⟩
  guarantee :=
    { loop := hloop
      others := fun j hj => by rw [hclient, Function.update_of_ne hj]
      published := hpublished
      keepRunning := .inl hkeep
      mutex := hmutex
      data := .inl ⟨hturn, hmsg, haccepted⟩ }

omit [DecidableEq κ] in
/-- Nobody else is at its store of `turn_` while `k` owns the mutex. -/
theorem quiet_of_owns (hI : ∀ u, At u s) (hJ : Shared s) (hown : Owns k s)
    (hnot : ¬ AtStoreTurn (s.client k)) : Quiet s := by
  rcases hJ.quiet with hq | ⟨j, msg, hj⟩
  · exact hq
  · have hat : ClientPcAt j s (s.client j) := hI (.client j)
    rw [hj] at hat
    have hjk : j = k := by
      have howner : some (Thread.client j) = some (Thread.client k) := hat.1.symm.trans hown
      simpa using howner
    exact absurd ⟨msg, hjk ▸ hj⟩ hnot

omit [DecidableEq κ] in
theorem canPublishLocked_eq_true {owns : Bool} :
    canPublishLocked s owns = true ↔ s.turn = .realtime ∧ owns = true := by
  simp [canPublishLocked]

theorem tryPublish_sound {msg : Msg} {pc : TryPublishPc} (hI : ∀ u, At u s) (hJ : Shared s)
    (hpc : s.client k = .tryPublish msg pc) (h : tryPublish s k o msg pc = some s') :
    Sound (.client k) s s' := by
  have hc : ClientPcAt k s (s.client k) := hI (.client k)
  rw [hpc] at hc
  have hnot : pc ≠ .storeTurn → ¬ AtStoreTurn (s.client k) := by
    rintro hne ⟨msg', hmsg'⟩
    rw [hpc] at hmsg'
    injection hmsg' with _ hpc'
    exact hne hpc'
  cases pc with
  | tryLock =>
    have hnot := hnot (by decide)
    rcases Mutex.tryLock_cases s.msgMutex (.client k) o.spuriousFail with ⟨hm, he⟩ | he
    · simp only [tryPublish, he, Option.some.injEq] at h
      subst h
      exact sound_of_goto hJ hnot rfl (fun _ => rfl) (hm ▸ .acquire) rfl rfl rfl rfl rfl rfl
    · simp only [tryPublish, he, Option.some.injEq] at h
      subst h
      exact sound_of_goto hJ hnot rfl (fun ho => nomatch ho) (.keep _) rfl rfl rfl rfl rfl rfl
  | testTurn owns =>
    have hnot := hnot (by simp)
    simp only [tryPublish] at h
    split at h
    · rename_i hcan
      obtain ⟨hturn, howns⟩ := canPublishLocked_eq_true.mp hcan
      have hown : Owns k s := hc howns
      have hquiet : Quiet s := quiet_of_owns hI hJ hown hnot
      obtain rfl := Option.some.inj h
      exact sound_of_goto hJ hnot rfl ⟨hown, hturn, hquiet hturn⟩ (.keep _) rfl rfl rfl rfl rfl rfl
    · split at h
      · rename_i howns
        obtain rfl := Option.some.inj h
        exact sound_of_goto hJ hnot rfl (hc howns) (.keep _) rfl rfl rfl rfl rfl rfl
      · obtain rfl := Option.some.inj h
        exact sound_of_goto hJ hnot rfl trivial (.keep _) rfl rfl rfl rfl (by simp; rfl)
          (by simp; rfl)
  | storeMsg =>
    obtain rfl := Option.some.inj h
    obtain ⟨hown, ht, hd⟩ := hc
    have ho : s.accepted ++ [msg] = s.published ++ [] ++ [msg] := by rw [hd, List.append_nil]
    refine ⟨?_, ⟨.inr ⟨k, msg, Function.update_self k _ _⟩, .inr ⟨msg, ?_⟩⟩, ?_⟩
    · show ClientPcAt k _ (Function.update s.client k _ k)
      rw [Function.update_self]
      refine ⟨hown, ht, rfl, ?_⟩
      unfold Outstanding
      rw [State.accepted_record, State.published_record]
      exact ho
    · unfold Outstanding
      rw [State.accepted_record, State.published_record]
      exact ho
    · exact
        { loop := rfl
          others := fun j hj => Function.update_of_ne hj _ _
          published := by rw [State.published_record]; exact List.append_nil _
          keepRunning := .inl rfl
          mutex := .keep _
          data := .inr (.inl ⟨hown, ht, hd, rfl, State.accepted_record _ _⟩) }
  | storeTurn =>
    obtain rfl := Option.some.inj h
    obtain ⟨hown, ht, rfl, ho⟩ := hc
    refine ⟨?_, ⟨.inl fun ht => (nomatch ht), .inr ⟨s.msg, ho⟩⟩, ?_⟩
    · show ClientPcAt k _ (Function.update s.client k _ k)
      rw [Function.update_self]
      exact hown
    · exact
        { loop := rfl
          others := fun j hj => Function.update_of_ne hj _ _
          published := rfl
          keepRunning := .inl rfl
          mutex := .keep _
          data := .inr (.inr ⟨hown, ht, ho, rfl, rfl, rfl⟩) }
  | unlock =>
    have hown : Owns k s := hc
    obtain rfl := Option.some.inj h
    exact sound_of_goto hJ (hnot (by decide)) rfl trivial (hown ▸ .release) rfl rfl rfl rfl rfl rfl
  | notify =>
    obtain ⟨cond, _, rfl⟩ := Option.map_eq_some_iff.mp h
    exact sound_of_goto hJ (hnot (by decide)) rfl trivial (.keep _) rfl rfl rfl rfl (by simp; rfl)
      (by simp; rfl)
  | giveUp =>
    have hown : Owns k s := hc
    obtain rfl := Option.some.inj h
    exact sound_of_goto hJ (hnot (by decide)) rfl trivial (hown ▸ .release) rfl rfl rfl rfl
      (by simp; rfl) (by simp; rfl)

theorem canPublish_sound {pc : CanPublishPc} (hc : ClientAt k s) (hJ : Shared s)
    (hpc : s.client k = .canPublish pc) (h : canPublish s k o pc = some s') :
    Sound (.client k) s s' := by
  unfold ClientAt at hc
  rw [hpc] at hc
  have hnot : ¬ AtStoreTurn (s.client k) := by
    rintro ⟨msg, hmsg⟩
    cases hpc.symm.trans hmsg
  cases pc with
  | tryLock =>
    rcases Mutex.tryLock_cases s.msgMutex (.client k) o.spuriousFail with ⟨hm, he⟩ | he
    · simp only [canPublish, he, Option.some.injEq] at h
      subst h
      exact sound_of_goto hJ hnot rfl (fun _ => rfl) (hm ▸ .acquire) rfl rfl rfl rfl rfl rfl
    · simp only [canPublish, he, Option.some.injEq] at h
      subst h
      exact sound_of_goto hJ hnot rfl (fun ho => nomatch ho) (.keep _) rfl rfl rfl rfl rfl rfl
  | testTurn owns =>
    simp only [canPublish] at h
    split at h
    · rename_i howns
      obtain rfl := Option.some.inj h
      exact sound_of_goto hJ hnot rfl (hc howns) (.keep _) rfl rfl rfl rfl rfl rfl
    · obtain rfl := Option.some.inj h
      exact sound_of_goto hJ hnot rfl trivial (.keep _) rfl rfl rfl rfl (by simp; rfl)
        (by simp; rfl)
  | unlock result =>
    have hown : Owns k s := hc
    obtain rfl := Option.some.inj h
    exact sound_of_goto hJ hnot rfl trivial (hown ▸ .release) rfl rfl rfl rfl (by simp; rfl)
      (by simp; rfl)

theorem stop_sound {pc : StopPc} (hc : ClientAt k s) (hJ : Shared s)
    (hpc : s.client k = .stop pc) (h : stop s k o pc = some s') : Sound (.client k) s s' := by
  unfold ClientAt at hc
  rw [hpc] at hc
  have hnot : ¬ AtStoreTurn (s.client k) := by
    rintro ⟨msg, hmsg⟩
    cases hpc.symm.trans hmsg
  cases pc with
  | lock =>
    obtain ⟨hm, h⟩ := Option.ite_none_right_eq_some.mp h
    obtain rfl := Option.some.inj h
    exact sound_of_goto hJ hnot rfl rfl (hm ▸ .acquire) rfl rfl rfl rfl rfl rfl
  | store =>
    have hown : Owns k s := hc
    obtain rfl := Option.some.inj h
    refine ⟨?_, ⟨?_, hJ.atMostOne⟩, ?_⟩
    · show ClientPcAt k _ (Function.update s.client k _ k)
      rw [Function.update_self]
      exact hown
    · exact hJ.quiet.imp id fun hj => exists_update hj fun hk => absurd hk hnot
    · exact
        { loop := rfl
          others := fun j hj => Function.update_of_ne hj _ _
          published := rfl
          keepRunning := .inr ⟨hown, rfl⟩
          mutex := .keep _
          data := .inl ⟨rfl, rfl, rfl⟩ }
  | unlock =>
    have hown : Owns k s := hc
    obtain rfl := Option.some.inj h
    exact sound_of_goto hJ hnot rfl trivial (hown ▸ .release) rfl rfl rfl rfl rfl rfl
  | notify =>
    obtain ⟨cond, _, rfl⟩ := Option.map_eq_some_iff.mp h
    exact sound_of_goto hJ hnot rfl trivial (.keep _) rfl rfl rfl rfl (by simp; rfl) (by simp; rfl)

omit [DecidableEq κ] in
theorem Call.entry_at (call : Call Msg) : ClientPcAt k s call.entry := by
  cases call <;> trivial

theorem clientStep_sound (hI : ∀ u, At u s) (hJ : Shared s) (h : clientStep s k o = some s') :
    Sound (.client k) s s' := by
  have hc : ClientAt k s := hI (.client k)
  unfold clientStep at h
  cases hpc : s.client k with
  | idle =>
    have hnot : ¬ AtStoreTurn (s.client k) := by
      rintro ⟨msg, hmsg⟩
      cases hpc.symm.trans hmsg
    simp only [hpc] at h
    split at h
    · obtain rfl := Option.some.inj h
      exact sound_of_goto hJ hnot rfl (Call.entry_at o.call) (.keep _) rfl rfl rfl rfl
        (by simp; rfl) (by simp; rfl)
    · unfold initializeWait at h
      split at h
      · cases h
      · obtain rfl := Option.some.inj h
        exact sound_of_goto hJ hnot (Function.update_eq_self k s.client).symm
          (by rw [hpc]; trivial) (.keep _) rfl rfl rfl rfl rfl rfl
  | tryPublish msg pc =>
    simp only [hpc] at h
    exact tryPublish_sound hI hJ hpc h
  | canPublish pc =>
    simp only [hpc] at h
    exact canPublish_sound hc hJ hpc h
  | stop pc =>
    simp only [hpc] at h
    exact stop_sound hc hJ hpc h

theorem step_sound {t : Thread κ} (hI : ∀ u, At u s) (hJ : Shared s) (h : step t o s = some s') :
    Sound t s s' := by
  cases t with
  | worker => exact publishingLoop_sound (hI .worker) hJ h
  | client k => exact clientStep_sound hI hJ h

/-- The assertions hold in every reachable state. -/
theorem reachable_at [Inhabited Msg] (h : Reachable (publisher κ Msg) anyStep s) :
    (∀ t, At t s) ∧ Shared s := by
  refine h.rely_guarantee (I := At) (J := Shared) (G := Guarantee) ?_ ?_ ?_
  · rintro s rfl
    refine ⟨fun t => ?_, .inl fun ht => (nomatch ht), .inl rfl⟩
    cases t with
    | worker => exact ⟨fun ht => (nomatch ht), rfl⟩
    | client k => trivial
  · intro s t o s' _ hI hJ _ hs
    exact step_sound hI hJ hs
  · intro s s' t u htu hI _ _ hG
    cases t with
    | worker =>
      cases u with
      | worker => exact absurd rfl htu
      | client j => exact loopAt_frame (hI .worker) hG
    | client k =>
      cases u with
      | worker => exact clientAt_frame_loop (hI (.client k)) hG
      | client j => exact clientAt_frame_client (hI (.client k)) hG (by simpa using htu)

end Steps

/-! ## The publisher is a one-place hand-over -/

/-- The state of the hand-over that an observer of the publisher has seen. -/
def Represents (a : Handover Msg) (s : State κ Msg) : Prop :=
  s.accepted = a.accepted ∧ s.published = a.done

theorem Represents.delivered_iff {a : Handover Msg} (h : Represents a s) :
    Delivered s ↔ a.pending = none := by
  unfold Delivered
  rw [h.1, h.2, Handover.accepted_eq_done_iff]

theorem Represents.outstanding_iff {a : Handover Msg} {msg : Msg} (h : Represents a s) :
    Outstanding s msg ↔ a.pending = some msg := by
  unfold Outstanding
  rw [h.1, h.2, Handover.accepted_eq_concat_iff]

theorem LoopStep.simulates {a : Handover Msg} (ha : Represents a s) (hs : LoopStep s s') :
    ∃ a', (a' = a ∨ Handover.Step a a') ∧ Represents a' s' := by
  rcases hs.data with ⟨_, hp⟩ | ⟨_, _, _, hp⟩ | ⟨_, msg, htaken, hp⟩
  · exact ⟨a, .inl rfl, hs.accepted.trans ha.1, hp.trans ha.2⟩
  · exact ⟨a, .inl rfl, hs.accepted.trans ha.1, hp.trans ha.2⟩
  · obtain ⟨done, pending⟩ := a
    obtain rfl : pending = some msg := ha.outstanding_iff.mp htaken.2
    refine ⟨⟨done ++ [msg], none⟩, .inr (.finish done msg), ?_, ?_⟩
    · rw [hs.accepted, ha.1]
      simp [Handover.accepted]
    · rw [hp, ha.2]

theorem ClientStep.simulates {a : Handover Msg} (ha : Represents a s) (hs : ClientStep k s s') :
    ∃ a', (a' = a ∨ Handover.Step a a') ∧ Represents a' s' := by
  rcases hs.data with ⟨_, _, hacc⟩ | ⟨_, _, hdel, _, hacc⟩ | ⟨_, _, _, _, _, hacc⟩
  · exact ⟨a, .inl rfl, hacc.trans ha.1, hs.published.trans ha.2⟩
  · obtain ⟨done, pending⟩ := a
    obtain rfl : pending = none := ha.delivered_iff.mp hdel
    refine ⟨⟨done, some s'.msg⟩, .inr (.accept done s'.msg), ?_, hs.published.trans ha.2⟩
    rw [hacc, ha.1]
    simp [Handover.accepted]
  · exact ⟨a, .inl rfl, hacc.trans ha.1, hs.published.trans ha.2⟩

/-- **Refinement.**  Every step of the publisher is a step of the hand-over or invisible to it. -/
theorem step_simulates [DecidableEq κ] [Inhabited Msg] {t : Thread κ} {o : Oracle κ Msg}
    {a : Handover Msg} (hr : Reachable (publisher κ Msg) anyStep s) (h : step t o s = some s')
    (ha : Represents a s) : ∃ a', (a' = a ∨ Handover.Step a a') ∧ Represents a' s' := by
  obtain ⟨hI, hJ⟩ := reachable_at hr
  have hG := (step_sound hI hJ h).guarantee
  cases t with
  | worker => exact LoopStep.simulates ha hG
  | client k => exact ClientStep.simulates ha hG

theorem reachable_represents [DecidableEq κ] [Inhabited Msg]
    (h : Reachable (publisher κ Msg) anyStep s) : ∃ a : Handover Msg, Represents a s := by
  refine h.invariant (I := fun s => ∃ a, Represents a s) ?_ ?_
  · rintro s rfl
    exact ⟨Handover.empty, rfl, rfl⟩
  · rintro s t o s' hr ⟨a, ha⟩ _ hs
    obtain ⟨a', _, ha'⟩ := step_simulates hr hs ha
    exact ⟨a', ha'⟩

end RealtimePublisher
