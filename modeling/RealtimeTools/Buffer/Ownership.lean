import RealtimeTools.Buffer.Concurrent
import RealtimeTools.Interleaving.History

/-!
# The realtime thread owns the slot it reads

The pointer `readFromRT` returns outlives the lock.  It stays safe because writers only touch the
other slot, and only the realtime thread itself swaps the two, when no writer is between its lock and
its unlock.
-/

open Interleaving

namespace RealtimeBuffer.Concurrent

variable {κ ι W : Type} {s s' : State κ ι W} {k : κ} {o : Oracle ι W} {data : ι → W}

/-! ## Versions -/

/-- `n ↦ versions n` tells which write the realtime thread sees after its `n`-th call of
`readFromRT`: each word it reads is a word of that write, which was complete before the call, and it
never goes back to an older write. -/
structure SeesVersions (data : ι → W) (versions : Nat → Nat) (history : List (Event κ ι W)) :
    Prop where
  monotone : Monotone versions
  call : Justified (fun before e => ∀ pointer, e = .readRT pointer →
    (version data before (versions (reads before + 1))).isSome) history
  seen : Justified (fun before e => ∀ i word, e = .saw i word →
    (version data before (versions (reads before))).map (· i) = some word) history

theorem version_concat {history : List (Event κ ι W)} {n : Nat} {v : ι → W} (e : Event κ ι W)
    (h : version data history n = some v) : version data (history ++ [e]) n = some v := by
  unfold version at h ⊢
  have hn : n < (data :: writes history).length := (List.getElem?_eq_some_iff.mp h).1
  rw [writes_concat, ← List.cons_append, List.getElem?_append_left hn]
  exact h

theorem version_wrote {history : List (Event κ ι W)} {v : ι → W} :
    version data (history ++ [.wrote k v]) (writes (history ++ [.wrote k v])).length = some v := by
  simp [version]

/-! ## The invariant -/

def Owns (t : Thread κ) (s : State κ ι W) : Prop := s.mutex = some t

def WriteAt (k : κ) (data : ι → W) (s : State κ ι W) : WritePc ι → Prop
  | .tryLock => True
  | .evaluate => Owns (.client k) s
  | .copy target copied =>
      Owns (.client k) s ∧ target = s.nonRealtimeData ∧ Copied data (s.slots target) copied
  | .storeNew => Owns (.client k) s ∧ s.slots s.nonRealtimeData = data
  | .unlock => Owns (.client k) s ∧ s.slots s.nonRealtimeData = data

def ReadAt (k : κ) (s : State κ ι W) : ReadPc → Prop
  | .lock => True
  | .testNew | .unlock _ => Owns (.client k) s

def ClientPcAt (k : κ) (s : State κ ι W) : ClientPc ι W → Prop
  | .idle => True
  | .write data pc => WriteAt k data s pc
  | .read pc => ReadAt k s pc

def ReaderPcAt (s : State κ ι W) : ReaderPc → Prop
  | .idle | .tryLock => True
  | .testNew ownsLock | .returnPointer ownsLock => ownsLock = true → Owns .worker s
  | .unlock => Owns .worker s

def At : Thread κ → State κ ι W → Prop
  | .worker, s => ReaderPcAt s s.reader
  | .client k, s => ClientPcAt k s (s.client k)

/-- Client `k` is in a write and owns the mutex. -/
def ClientPc.writing : ClientPc ι W → Bool
  | .write _ .tryLock => false
  | .write _ _ => true
  | _ => false

/-- Between the swap and the return of `readFromRT` the pointer of the last call is out of date. -/
def ReaderPc.returning : ReaderPc → Bool
  | .returnPointer _ => true
  | _ => false

structure Shared (data : ι → W) (s : State κ ι W) : Prop where
  distinct : s.realtimeData ≠ s.nonRealtimeData
  pointer : s.reader.returning = false → ∀ p, s.pointer = some p → p = s.realtimeData
  /-- New data are the last write, unless one is on its way. -/
  latest : s.newDataAvailable = true → (∃ k, (s.client k).writing = true) ∨
    version data s.history (writes s.history).length = some (s.slots s.nonRealtimeData)
  /-- The realtime slot holds the version of the last call, or from a swap on a newer one. -/
  view : ∃ versions, SeesVersions data versions s.history ∧ ∃ n, versions (reads s.history) ≤ n ∧
    version data s.history n = some (s.slots s.realtimeData) ∧
      (s.reader.returning = false → n = versions (reads s.history))

/-! ## What one step may do -/

/-- A step of the realtime thread. -/
structure ReaderStep (s s' : State κ ι W) : Prop where
  client : s'.client = s.client
  slots : s'.slots = s.slots
  mutex : MutexStep .worker s.mutex s'.mutex
  pointers : Owns .worker s ∨ s'.nonRealtimeData = s.nonRealtimeData

/-- A step of client `k`. -/
structure ClientStep (k : κ) (s s' : State κ ι W) : Prop where
  others : ∀ j, j ≠ k → s'.client j = s.client j
  reader : s'.reader = s.reader
  pointer : s'.pointer = s.pointer
  realtimeData : s'.realtimeData = s.realtimeData
  nonRealtimeData : s'.nonRealtimeData = s.nonRealtimeData
  mutex : MutexStep (.client k) s.mutex s'.mutex
  slots : s'.slots = s.slots ∨ (Owns (.client k) s ∧
    ∀ p, p ≠ s.nonRealtimeData → s'.slots p = s.slots p)

def Guarantee : Thread κ → State κ ι W → State κ ι W → Prop
  | .worker => ReaderStep
  | .client k => ClientStep k

theorem clientAt_frame {pc : ClientPc ι W} (h : ClientPcAt k s pc)
    (hown : Owns (.client k) s → Owns (.client k) s')
    (hkeep : Owns (.client k) s →
      s'.nonRealtimeData = s.nonRealtimeData ∧ s'.slots = s.slots) : ClientPcAt k s' pc := by
  cases pc with
  | idle => trivial
  | write data pc =>
    cases pc with
    | tryLock => trivial
    | evaluate => exact hown h
    | copy target copied =>
      obtain ⟨ho, htarget, hcopied⟩ := h
      obtain ⟨hpointer, hslots⟩ := hkeep ho
      exact ⟨hown ho, htarget.trans hpointer.symm, by rwa [hslots]⟩
    | storeNew | unlock =>
      obtain ⟨ho, hdata⟩ := h
      obtain ⟨hpointer, hslots⟩ := hkeep ho
      exact ⟨hown ho, by rwa [hslots, hpointer]⟩
  | read pc =>
    cases pc with
    | lock => trivial
    | testNew | unlock pointer => exact hown h

theorem clientAt_frame_reader (h : At (.client k) s) (hs : ReaderStep s s') :
    At (.client k) s' := by
  show ClientPcAt k s' (s'.client k)
  rw [hs.client]
  refine clientAt_frame h (hs.mutex.owner_kept (by simp)) fun ho => ⟨?_, hs.slots⟩
  refine hs.pointers.resolve_left fun hw => ?_
  cases Option.some.inj (hw.symm.trans ho)

theorem clientAt_frame_client {j : κ} (h : At (.client k) s) (hs : ClientStep j s s')
    (hkj : k ≠ j) : At (.client k) s' := by
  show ClientPcAt k s' (s'.client k)
  rw [hs.others k hkj]
  have hne : Thread.client k ≠ Thread.client j := by simpa using hkj
  refine clientAt_frame h (hs.mutex.owner_kept hne) fun ho => ⟨hs.nonRealtimeData, ?_⟩
  refine hs.slots.resolve_right fun hw => ?_
  exact hne (Option.some.inj (ho.symm.trans hw.1))

theorem readerAt_frame (h : At .worker s) (hs : ClientStep k s s') : At .worker s' := by
  have h : ReaderPcAt s s.reader := h
  show ReaderPcAt s' s'.reader
  rw [hs.reader]
  have hown : Owns .worker s → Owns .worker s' := hs.mutex.owner_kept (by simp)
  cases hpc : s.reader with
  | idle | tryLock => trivial
  | testNew owns | returnPointer owns =>
    rw [hpc] at h
    exact fun ho => hown (h ho)
  | unlock =>
    rw [hpc] at h
    exact hown h

/-! ## What stays true -/

/-- A return of `readFromRT`, or a look at a word. -/
def Event.ofReader : Event κ ι W → Bool
  | .readRT _ | .saw _ _ => true
  | _ => false

/-- A step adds nothing to the history that the realtime thread does. -/
def Silent (history history' : List (Event κ ι W)) : Prop :=
  history' = history ∨ ∃ e : Event κ ι W, e.ofReader = false ∧ history' = history ++ [e]

namespace Silent

variable {history history' : List (Event κ ι W)}

theorem reads_eq (hh : Silent history history') : reads history' = reads history := by
  rcases hh with rfl | ⟨e, he, rfl⟩
  · rfl
  · rw [reads_concat]
    cases e <;> first | rfl | cases he

theorem version (hh : Silent history history') {n : Nat} {v : ι → W}
    (h : version data history n = some v) : Concurrent.version data history' n = some v := by
  rcases hh with rfl | ⟨e, _, rfl⟩
  · exact h
  · exact version_concat e h

theorem sees {versions : Nat → Nat} (hh : Silent history history')
    (h : SeesVersions data versions history) : SeesVersions data versions history' := by
  rcases hh with rfl | ⟨e, he, rfl⟩
  · exact h
  · refine ⟨h.monotone, justified_concat.mpr ⟨h.call, ?_⟩, justified_concat.mpr ⟨h.seen, ?_⟩⟩
    · rintro pointer rfl
      cases he
    · rintro i word rfl
      cases he

end Silent

/-- A writer leaves the realtime slot alone. -/
theorem ClientStep.realtime_kept (hs : ClientStep k s s') (hne : s.realtimeData ≠ s.nonRealtimeData) :
    s'.slots s.realtimeData = s.slots s.realtimeData := by
  rcases hs.slots with hslots | ⟨_, hslots⟩
  · rw [hslots]
  · exact hslots _ hne

theorem Shared.clientStep (h : Shared data s) (hs : ClientStep k s s')
    (hh : Silent s.history s'.history)
    (hlatest : s'.newDataAvailable = true → (∃ k, (s'.client k).writing = true) ∨
      version data s'.history (writes s'.history).length = some (s'.slots s'.nonRealtimeData)) :
    Shared data s' where
  distinct := by rw [hs.realtimeData, hs.nonRealtimeData]; exact h.distinct
  pointer := by rw [hs.reader, hs.pointer, hs.realtimeData]; exact h.pointer
  latest := hlatest
  view := by
    obtain ⟨versions, hsees, n, hle, hn, hlast⟩ := h.view
    refine ⟨versions, hh.sees hsees, n, by rwa [hh.reads_eq], ?_, by rwa [hs.reader, hh.reads_eq]⟩
    rw [hs.realtimeData, hs.realtime_kept h.distinct]
    exact hh.version hn

/-! ## Every step keeps its promise -/

abbrev Sound (data : ι → W) (t : Thread κ) (s s' : State κ ι W) : Prop :=
  OwnStep At (Shared data) Guarantee t s s'

/-- The realtime thread goes on and changes nothing but the mutex. -/
theorem reader_move {pc : ReaderPc} {mutex : Mutex (Thread κ)} (hJ : Shared data s)
    (hmutex : MutexStep .worker s.mutex mutex)
    (hret : pc.returning = false → s.reader.returning = false)
    (hat : ReaderPcAt { s with mutex, reader := pc } pc) :
    Sound data .worker s { s with mutex, reader := pc } where
  own := hat
  shared :=
    { distinct := hJ.distinct
      pointer := fun hpc => hJ.pointer (hret hpc)
      latest := hJ.latest
      view := by
        obtain ⟨versions, hsees, n, hle, hn, hlast⟩ := hJ.view
        exact ⟨versions, hsees, n, hle, hn, fun hpc => hlast (hret hpc)⟩ }
  guarantee := ⟨rfl, rfl, hmutex, .inr rfl⟩

/-- The words the realtime thread looks at are words of its version. -/
theorem look_sound {i : ι} {pointer : Slot} (hI : ∀ t, At t s) (hJ : Shared data s)
    (hpc : s.reader = .idle) (hpointer : s.pointer = some pointer) :
    Sound data .worker s (s.record (.saw i (s.slots pointer i))) := by
  obtain ⟨versions, hsees, n, hle, hn, hlast⟩ := hJ.view
  obtain rfl : n = versions (reads s.history) := hlast (by rw [hpc]; rfl)
  obtain rfl : pointer = s.realtimeData := hJ.pointer (by rw [hpc]; rfl) _ hpointer
  have hsees' : SeesVersions data versions (s.history ++ [.saw i (s.slots s.realtimeData i)]) := by
    refine ⟨hsees.monotone, justified_concat.mpr ⟨hsees.call, ?_⟩,
      justified_concat.mpr ⟨hsees.seen, ?_⟩⟩
    · intro p he
      cases he
    · rintro j word he
      obtain ⟨rfl, rfl⟩ : i = j ∧ s.slots s.realtimeData i = word := by simpa using he
      rw [hn]
      rfl
  have hreads : reads (s.history ++ [.saw i (s.slots s.realtimeData i)]) = reads s.history := by
    simp
  refine ⟨hI .worker, ⟨hJ.distinct, hJ.pointer, fun hnew => ?_, versions, hsees',
    versions (reads s.history), ?_, version_concat _ hn, ?_⟩, rfl, rfl, .keep _, .inr rfl⟩
  · refine (hJ.latest hnew).imp id fun hv => ?_
    have hwrites : writes (s.history ++ [.saw i (s.slots s.realtimeData i)]) = writes s.history := by
      simp
    show version data (s.history ++ _) (writes (s.history ++ _)).length = _
    rw [hwrites]
    exact version_concat _ hv
  · exact Nat.le_of_eq (congrArg versions hreads)
  · exact fun _ => (congrArg versions hreads).symm

/-- The swap takes over the last write: with the mutex free of writers it is complete. -/
theorem swap_sound (hI : ∀ t, At t s) (hJ : Shared data s) (hown : Owns .worker s)
    (hnew : s.newDataAvailable = true) :
    Sound data .worker s { s with
      realtimeData := s.nonRealtimeData
      nonRealtimeData := s.realtimeData
      newDataAvailable := false
      reader := .returnPointer true } := by
  have hnobody : ¬ ∃ k, (s.client k).writing = true := by
    rintro ⟨k, hk⟩
    have hat : ClientPcAt k s (s.client k) := hI (.client k)
    have hk' : Owns (.client k) s := by
      cases hc : s.client k with
      | idle | read pc => rw [hc] at hk; cases hk
      | write v pc =>
        rw [hc] at hk hat
        cases pc with
        | tryLock => cases hk
        | evaluate => exact hat
        | copy target copied | storeNew | unlock => exact hat.1
    cases hown.symm.trans hk'
  have hlatest := (hJ.latest hnew).resolve_left hnobody
  obtain ⟨versions, hsees, n, hle, hn, _⟩ := hJ.view
  have hlast : n ≤ (writes s.history).length := by
    have hlt := (List.getElem?_eq_some_iff.mp hn).1
    simpa [Nat.lt_succ_iff] using hlt
  exact
    { own := fun _ => hown
      shared :=
        { distinct := hJ.distinct.symm
          pointer := fun hpc => nomatch hpc
          latest := fun hpc => nomatch hpc
          view := ⟨versions, hsees, _, hle.trans hlast, hlatest, fun hpc => nomatch hpc⟩ }
      guarantee := ⟨rfl, rfl, .keep _, .inl hown⟩ }

/-- The versions of a longer history: the next call sees version `n`. -/
theorem SeesVersions.next {versions : Nat → Nat} {history : List (Event κ ι W)} {n : Nat}
    {pointer : Slot} (h : SeesVersions data versions history) (hle : versions (reads history) ≤ n)
    (hn : (version data history n).isSome) :
    SeesVersions data (fun m => if m ≤ reads history then versions m else n)
      (history ++ [.readRT pointer]) where
  monotone := by
    intro a b hab
    dsimp only
    split_ifs with ha hb hb
    · exact h.monotone hab
    · exact (h.monotone ha).trans hle
    · omega
    · exact Nat.le_refl n
  call := by
    refine justified_concat.mpr ⟨fun before e after hsplit p he => ?_, fun p _ => ?_⟩
    · have hle : reads before + 1 ≤ reads history := by
        rw [hsplit, he]
        simp [reads]
      rw [if_pos hle]
      exact h.call before e after hsplit p he
    · rw [if_neg (by omega)]
      exact hn
  seen := by
    refine justified_concat.mpr ⟨fun before e after hsplit i word he => ?_, fun i word he => ?_⟩
    · have hle : reads before ≤ reads history := by
        rw [hsplit]
        simp [reads]
      rw [if_pos hle]
      exact h.seen before e after hsplit i word he
    · cases he

theorem return_sound {ownsLock : Bool} (hI : ∀ t, At t s) (hJ : Shared data s)
    (hpc : s.reader = .returnPointer ownsLock) :
    Sound data .worker s ({ s with
      pointer := some s.realtimeData
      reader := if ownsLock then .unlock else .idle }.record (.readRT s.realtimeData)) := by
  obtain ⟨versions, hsees, n, hle, hn, _⟩ := hJ.view
  have hnext : (fun m => if m ≤ reads s.history then versions m else n)
      (reads (s.history ++ [.readRT s.realtimeData])) = n := by
    simp
  have hat : ReaderPcAt s s.reader := hI .worker
  rw [hpc] at hat
  refine ⟨?_, ⟨hJ.distinct, ?_, fun hnew => ?_, _, hsees.next hle (by rw [hn]; rfl), n,
    hnext.le, version_concat _ hn, fun _ => hnext.symm⟩, rfl, rfl, .keep _, .inr rfl⟩
  · cases ownsLock with
    | true => exact hat rfl
    | false => trivial
  · intro _ p hp
    exact (Option.some.inj hp).symm
  · refine (hJ.latest hnew).imp id fun hv => ?_
    have hwrites : writes (s.history ++ [.readRT s.realtimeData]) = writes s.history := by simp
    show version data (s.history ++ _) (writes (s.history ++ _)).length = _
    rw [hwrites]
    exact version_concat _ hv

/-- The realtime thread swaps only what no writer is about to change. -/
theorem readFromRT_sound (hI : ∀ t, At t s) (hJ : Shared data s) (h : readFromRT s o = some s') :
    Sound data .worker s s' := by
  have hat : ReaderPcAt s s.reader := hI .worker
  unfold readFromRT at h
  cases hpc : s.reader with
  | idle =>
    simp only [hpc] at h
    cases hword : o.word with
    | none =>
      simp only [hword] at h
      obtain rfl := Option.some.inj h
      exact reader_move hJ (.keep _) (fun _ => by rw [hpc]; rfl) trivial
    | some i =>
      simp only [hword] at h
      obtain ⟨pointer, hpointer, rfl⟩ := Option.map_eq_some_iff.mp h
      exact look_sound hI hJ hpc hpointer
  | tryLock =>
    simp only [hpc] at h
    obtain rfl := Option.some.inj h
    have hret : s.reader.returning = false := by rw [hpc]; rfl
    rcases s.mutex.tryLock_cases .worker o.spuriousFail with ⟨hm, he⟩ | he <;> rw [he]
    · exact reader_move hJ (hm ▸ .acquire) (fun _ => hret) fun _ => rfl
    · exact reader_move hJ (.keep _) (fun _ => hret) fun ho => nomatch ho
  | testNew owns =>
    simp only [hpc] at h
    rw [hpc] at hat
    split at h <;> obtain rfl := Option.some.inj h
    · rename_i hswap
      obtain ⟨rfl, hnew⟩ : owns = true ∧ s.newDataAvailable = true := by simpa using hswap
      exact swap_sound hI hJ (hat rfl) hnew
    · exact reader_move hJ (.keep _) (fun hret => nomatch hret) hat
  | returnPointer owns =>
    simp only [hpc] at h
    obtain rfl := Option.some.inj h
    exact return_sound hI hJ hpc
  | unlock =>
    simp only [hpc] at h
    rw [hpc] at hat
    obtain rfl := Option.some.inj h
    have hown : s.mutex = some .worker := hat
    exact reader_move hJ (hown ▸ .release) (fun _ => by rw [hpc]; rfl) trivial

section Clients

variable [DecidableEq κ]

/-- A client that does not finish a write leaves the last version where it is. -/
theorem latest_kept {pc : ClientPc ι W} (hJ : Shared data s)
    (hclient : s'.client = Function.update s.client k pc)
    (hpc : (s.client k).writing = true → pc.writing = true)
    (hflag : s'.newDataAvailable = s.newDataAvailable)
    (hslot : s'.slots s'.nonRealtimeData = s.slots s.nonRealtimeData)
    (hh : s'.history = s.history ∨ ∃ e : Event κ ι W, e.wrote? = none ∧
      s'.history = s.history ++ [e]) (hnew : s'.newDataAvailable = true) :
    (∃ k, (s'.client k).writing = true) ∨
      version data s'.history (writes s'.history).length =
        some (s'.slots s'.nonRealtimeData) := by
  rw [hclient, hslot]
  refine (hJ.latest (hflag ▸ hnew)).imp
    (exists_update (p := fun pc : ClientPc ι W => pc.writing = true) · hpc) fun hv => ?_
  rcases hh with hh | ⟨e, he, hh⟩
  · rwa [hh]
  · have hwrites : writes s'.history = writes s.history := by
      rw [hh, writes_concat, he, Option.toList_none, List.append_nil]
    rw [hwrites, hh]
    exact version_concat e hv

/-- Client `k` goes on without finishing a write: at most the mutex changes. -/
theorem client_move {pc : ClientPc ι W} {mutex : Mutex (Thread κ)} (hJ : Shared data s)
    (hmutex : MutexStep (.client k) s.mutex mutex)
    (hpc : (s.client k).writing = true → pc.writing = true)
    (hat : ClientPcAt k { s with mutex } pc) :
    Sound data (.client k) s ({ s with mutex }.goto k pc) := by
  have hstep : ClientStep k s ({ s with mutex }.goto k pc) :=
    ⟨fun j hj => Function.update_of_ne hj _ _, rfl, rfl, rfl, rfl, hmutex, .inl rfl⟩
  refine ⟨?_, hJ.clientStep hstep (.inl rfl) (latest_kept hJ rfl hpc rfl rfl (.inl rfl)), hstep⟩
  show ClientPcAt k _ (Function.update s.client k pc k)
  rw [Function.update_self]
  exact clientAt_frame hat id fun _ => ⟨rfl, rfl⟩

/-- The same with an event of a call. -/
theorem client_move_record {pc : ClientPc ι W} {mutex : Mutex (Thread κ)} {e : Event κ ι W}
    (hJ : Shared data s) (hmutex : MutexStep (.client k) s.mutex mutex)
    (hpc : (s.client k).writing = false) (hat : ClientPcAt k { s with mutex } pc)
    (he : e.ofReader = false) (hwrote : e.wrote? = none) :
    Sound data (.client k) s (({ s with mutex }.goto k pc).record e) := by
  have hstep : ClientStep k s (({ s with mutex }.goto k pc).record e) :=
    ⟨fun j hj => Function.update_of_ne hj _ _, rfl, rfl, rfl, rfl, hmutex, .inl rfl⟩
  refine ⟨?_, hJ.clientStep hstep (.inr ⟨e, he, rfl⟩) (latest_kept hJ rfl
    (fun hw => nomatch hpc.symm.trans hw) rfl rfl (.inr ⟨e, hwrote, rfl⟩)), hstep⟩
  show ClientPcAt k _ (Function.update s.client k pc k)
  rw [Function.update_self]
  exact clientAt_frame hat id fun _ => ⟨rfl, rfl⟩

variable [DecidableEq ι] [Fintype ι]

theorem writeFromNonRT_sound {v : ι → W} {pc : WritePc ι} (hat : ClientPcAt k s (s.client k))
    (hJ : Shared data s) (hpc : s.client k = .write v pc)
    (h : writeFromNonRT s k o v pc = some s') : Sound data (.client k) s s' := by
  rw [hpc] at hat
  cases pc with
  | tryLock =>
    have hnot : (s.client k).writing = false := by rw [hpc]; rfl
    rcases s.mutex.tryLock_cases (.client k) o.spuriousFail with ⟨hm, he⟩ | he
    · simp only [writeFromNonRT, he, Option.some.injEq] at h
      subst h
      exact client_move hJ (hm ▸ .acquire) (fun hw => nomatch hnot.symm.trans hw) rfl
    · simp only [writeFromNonRT, he, Option.some.injEq] at h
      subst h
      exact client_move hJ (.keep _) (fun hw => nomatch hnot.symm.trans hw) trivial
  | evaluate =>
    obtain rfl := Option.some.inj h
    exact client_move hJ (.keep _) (fun _ => rfl) ⟨hat, rfl, copied_empty⟩
  | copy target copied =>
    obtain ⟨hown, rfl, hcopied⟩ := hat
    simp only [writeFromNonRT] at h
    cases hword : o.word with
    | some i =>
      simp only [hword] at h
      obtain rfl := Option.some.inj h
      have hstep : ClientStep k s ({ s with
          slots := Function.update s.slots s.nonRealtimeData
            (copyWord v (s.slots s.nonRealtimeData) i) }.goto k
              (.write v (.copy s.nonRealtimeData (insert i copied)))) :=
        ⟨fun j hj => Function.update_of_ne hj _ _, rfl, rfl, rfl, rfl, .keep _,
          .inr ⟨hown, fun p hp => Function.update_of_ne hp _ _⟩⟩
      refine ⟨?_, hJ.clientStep hstep (.inl rfl) fun _ => .inl ⟨k, ?_⟩, hstep⟩
      · show ClientPcAt k _ (Function.update s.client k _ k)
        rw [Function.update_self]
        refine ⟨hown, rfl, ?_⟩
        show Copied v (Function.update s.slots _ _ _) _
        rw [Function.update_self]
        exact hcopied.copyWord i
      · simp [State.goto, ClientPc.writing]
    | none =>
      simp only [hword] at h
      obtain ⟨hall, hnext⟩ := Option.ite_none_right_eq_some.mp h
      obtain rfl := Option.some.inj hnext
      subst hall
      exact client_move hJ (.keep _) (fun _ => rfl) ⟨hown, hcopied.eq⟩
  | storeNew =>
    obtain rfl := Option.some.inj h
    have hstep : ClientStep k s ({ s with newDataAvailable := true }.goto k (.write v .unlock)) :=
      ⟨fun j hj => Function.update_of_ne hj _ _, rfl, rfl, rfl, rfl, .keep _, .inl rfl⟩
    refine ⟨?_, hJ.clientStep hstep (.inl rfl) fun _ => .inl ⟨k, ?_⟩, hstep⟩
    · show ClientPcAt k _ (Function.update s.client k _ k)
      rw [Function.update_self]
      exact hat
    · simp [State.goto, ClientPc.writing]
  | unlock =>
    obtain rfl := Option.some.inj h
    obtain ⟨hown, hdata⟩ := hat
    have hmutex : s.mutex = some (.client k) := hown
    have hstep : ClientStep k s
        (({ s with mutex := none }.goto k .idle).record (.wrote k v)) :=
      ⟨fun j hj => Function.update_of_ne hj _ _, rfl, rfl, rfl, rfl, hmutex ▸ .release, .inl rfl⟩
    refine ⟨?_, hJ.clientStep hstep (.inr ⟨_, rfl, rfl⟩) fun _ => .inr ?_, hstep⟩
    · show ClientPcAt k _ (Function.update s.client k _ k)
      rw [Function.update_self]
      trivial
    · exact version_wrote.trans (congrArg some hdata.symm)

omit [DecidableEq ι] [Fintype ι] in
theorem readFromNonRT_sound {pc : ReadPc} (hat : ClientPcAt k s (s.client k))
    (hJ : Shared data s) (hpc : s.client k = .read pc) (h : readFromNonRT s k pc = some s') :
    Sound data (.client k) s s' := by
  have hnot : (s.client k).writing = false := by rw [hpc]; rfl
  rw [hpc] at hat
  cases pc with
  | lock =>
    obtain ⟨hfree, h⟩ := Option.ite_none_right_eq_some.mp h
    obtain rfl := Option.some.inj h
    exact client_move hJ (hfree ▸ .acquire) (fun hw => nomatch hnot.symm.trans hw) rfl
  | testNew =>
    obtain rfl := Option.some.inj h
    exact client_move hJ (.keep _) (fun hw => nomatch hnot.symm.trans hw) hat
  | unlock pointer =>
    obtain rfl := Option.some.inj h
    have hmutex : s.mutex = some (.client k) := hat
    exact client_move_record hJ (hmutex ▸ .release) hnot trivial rfl rfl

theorem clientStep_sound (hI : ∀ t, At t s) (hJ : Shared data s)
    (h : clientStep s k o = some s') : Sound data (.client k) s s' := by
  have hat : ClientPcAt k s (s.client k) := hI (.client k)
  unfold clientStep at h
  cases hpc : s.client k with
  | idle =>
    simp only [hpc] at h
    obtain rfl := Option.some.inj h
    refine client_move_record hJ (.keep _) (by rw [hpc]; rfl) ?_ rfl rfl
    cases o.call <;> trivial
  | write v pc =>
    simp only [hpc] at h
    exact writeFromNonRT_sound hat hJ hpc h
  | read pc =>
    simp only [hpc] at h
    exact readFromNonRT_sound hat hJ hpc h

theorem step_sound {t : Thread κ} (hI : ∀ t, At t s) (hJ : Shared data s)
    (h : step t o s = some s') : Sound data t s s' := by
  cases t with
  | worker => exact readFromRT_sound hI hJ h
  | client k => exact clientStep_sound hI hJ h

omit [DecidableEq κ] [DecidableEq ι] [Fintype ι] in
theorem shared_initial : Shared data (initial data : State κ ι W) where
  distinct := by simp [initial]
  pointer _ p hp := by cases hp
  latest hnew := by cases hnew
  view := ⟨fun _ => 0, ⟨monotone_const, justified_nil, justified_nil⟩, 0, Nat.le_refl 0, rfl,
    fun _ => rfl⟩

theorem reachable_at (h : Reachable (buffer κ data) anyStep s) : (∀ t, At t s) ∧ Shared data s := by
  refine h.rely_guarantee (I := At) (J := Shared data) (G := Guarantee) ?_ ?_ ?_
  · rintro s rfl
    refine ⟨fun t => ?_, shared_initial⟩
    cases t <;> trivial
  · intro s t o s' _ hI hJ _ hs
    exact step_sound hI hJ hs
  · intro s s' t u htu hI _ _ hs
    cases u with
    | worker =>
      cases t with
      | worker => exact absurd rfl htu
      | client k => exact clientAt_frame_reader (hI _) hs
    | client j =>
      cases t with
      | worker => exact readerAt_frame (hI _) hs
      | client k => exact clientAt_frame_client (hI _) hs (by simpa using htu)

/-- The last `readFromRT` has returned `p`, and the next one has not been called. -/
def Holds (p : Slot) (s : State κ ι W) : Prop :=
  s.pointer = some p ∧ (s.reader = .idle ∨ s.reader = .unlock)

/-- **The realtime thread owns the slot it reads.**  In every run the two pointers differ.  Between
two calls of `readFromRT` the slot of the returned pointer holds a completely written value, and no
step of another thread changes it.  The words the realtime thread sees there are those of one
completed write for each call, complete before the call, and never go back to an older one. -/
theorem realtime_slot_owned (h : Reachable (buffer κ data) anyStep s) :
    s.realtimeData ≠ s.nonRealtimeData ∧
      (∀ p, Holds p s → (∃ n, version data s.history n = some (s.slots p)) ∧
        ∀ k o s', step (.client k) o s = some s' → Holds p s' ∧ s'.slots p = s.slots p) ∧
      ∃ versions, SeesVersions data versions s.history := by
  obtain ⟨hI, hJ⟩ := reachable_at h
  obtain ⟨versions, hsees, n, _, hn, _⟩ := hJ.view
  refine ⟨hJ.distinct, ?_, versions, hsees⟩
  rintro p ⟨hp, hpc⟩
  have hret : s.reader.returning = false := by
    rcases hpc with hpc | hpc <;> rw [hpc] <;> rfl
  obtain rfl := hJ.pointer hret p hp
  refine ⟨⟨n, hn⟩, fun k o s' hs => ?_⟩
  have hstep : ClientStep k s s' := (step_sound hI hJ hs).guarantee
  exact ⟨⟨hstep.pointer.trans hp, by rwa [hstep.reader]⟩, hstep.realtime_kept hJ.distinct⟩

end Clients

/-- A value is written and taken over; then a second write is stopped after one of its two words. -/
def halfWritten : List (Thread Unit × Oracle Bool Nat) :=
  List.replicate 3 (.client (), { call := .write fun _ => 7 }) ++
    [(.client (), { word := some true }), (.client (), { word := some false })] ++
    List.replicate 3 (.client (), { word := none }) ++
    List.replicate 5 (.worker, { word := none }) ++
    List.replicate 3 (.client (), { call := .write fun _ => 9 }) ++
    [(.client (), { word := some true }), (.worker, { word := some true })]

theorem realtime_slot_owned_halfWritten :
    ∃ s : State Unit Bool Nat, Reachable (buffer Unit fun _ => 0) anyStep s ∧
      s.slots .second true = 9 ∧ s.slots .second false = 0 ∧ Holds .first s ∧
      ∃ n, version (fun _ => 0) s.history n = some (s.slots .first) := by
  obtain ⟨s, hs, hp⟩ := exists_reachable_of_exec (buffer Unit fun _ : Bool => 0) anyStep
    halfWritten (initial fun _ => 0)
    (fun s => s.slots .second true = 9 ∧ s.slots .second false = 0 ∧ s.pointer = some .first ∧
      s.reader = .idle) rfl (by decide)
  obtain ⟨hnew, hold, hpointer, hpc⟩ : s.slots .second true = 9 ∧ s.slots .second false = 0 ∧
      s.pointer = some .first ∧ s.reader = .idle := by
    simpa using hp
  have hholds : Holds .first s := ⟨hpointer, .inl hpc⟩
  exact ⟨s, hs, hnew, hold, hholds, ((realtime_slot_owned hs).2.1 .first hholds).1⟩

end RealtimeBuffer.Concurrent
