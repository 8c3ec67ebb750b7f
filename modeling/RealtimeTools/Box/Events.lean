import RealtimeTools.Box.Model
import RealtimeTools.Interleaving.History

/-!
# What a history says about the boxes

The value an atomic register would hold, and who owns its lock, are read off the events alone.  An
event is *legal* if it fits what came before it; the events of one thread form calls, each of which
takes effect as its entry point says.
-/

open Interleaving

namespace RealtimeThreadSafeBox

variable {κ β ι W : Type}

/-! ## Boxes -/

section Boxes

variable [DecidableEq β]

/-- The value of box `b` after an event, if it was `v` before. -/
def Event.leaves (b : β) (v : ι → W) : Event κ β ι W → ι → W
  | .released _ c (.wrote w) => if c = b then w else v
  | _ => v

/-- The value left by the last completed write to `b`, or the initial one. -/
def current (init : β → ι → W) (b : β) (history : List (Event κ β ι W)) : ι → W :=
  history.foldl (fun v e => e.leaves b v) (init b)

/-- Who owns the lock of `b` after an event. -/
def Event.locks (b : β) (m : Mutex κ) : Event κ β ι W → Mutex κ
  | .acquired k c => if c = b then some k else m
  | .released _ c _ => if c = b then none else m
  | _ => m

def holder (b : β) (history : List (Event κ β ι W)) : Mutex κ :=
  history.foldl (fun m e => e.locks b m) none

variable [DecidableEq κ] [DecidableEq ι]

/-- The argument of a callback of `k` on `b` after an event, with what the callback has written. -/
def Event.shows (k : κ) (b : β) (v : ι → W) : Event κ β ι W → ι → W
  | .invoked j c argument => if j = k ∧ c = b then argument else v
  | .put j c i word => if j = k ∧ c = b then Function.update v i word else v
  | _ => v

def argument (init : β → ι → W) (k : κ) (b : β) (history : List (Event κ β ι W)) : ι → W :=
  history.foldl (fun v e => e.shows k b v) (init b)

/-- The event fits what came before it: locks exclude each other, and what is read is the value left
by the last completed write. -/
def Legal (init : β → ι → W) (before : List (Event κ β ι W)) : Event κ β ι W → Prop
  | .acquired _ b => holder b before = none
  | .invoked k b value => holder b before = some k ∧ value = current init b before
  | .looked k b i word => holder b before = some k ∧ word = argument init k b before i
  | .put k b _ _ => holder b before = some k
  | .released k b effect =>
      holder b before = some k ∧ ∀ value, effect = .read value → value = current init b before
  | .called _ _ | .returned _ _ => True

variable {init : β → ι → W} {history : List (Event κ β ι W)} {e : Event κ β ι W} {b : β} {k : κ}

omit [DecidableEq κ] [DecidableEq ι] in
@[simp] theorem current_concat :
    current init b (history ++ [e]) = e.leaves b (current init b history) := by
  simp [current]

omit [DecidableEq κ] [DecidableEq ι] in
@[simp] theorem holder_concat : holder b (history ++ [e]) = e.locks b (holder b history) := by
  simp [holder]

@[simp] theorem argument_concat :
    argument init k b (history ++ [e]) = e.shows k b (argument init k b history) := by
  simp [argument]

end Boxes

/-! ## The order of the operations on a box -/

/-- The value of a register after an operation. -/
def Effect.leaves (v : ι → W) : Effect ι W → ι → W
  | .wrote w => w
  | .read _ | .inspected => v

/-- One operation after the other on a register that holds `v`: a read returns what the last write
before it has left. -/
def AtomicRegister (v : ι → W) : List (Effect ι W) → Prop
  | [] => True
  | effect :: effects =>
      (∀ w, effect = .read w → w = v) ∧ AtomicRegister (effect.leaves v) effects

theorem atomicRegister_concat {v : ι → W} {effects : List (Effect ι W)} {effect : Effect ι W} :
    AtomicRegister v (effects ++ [effect]) ↔
      AtomicRegister v effects ∧
        ∀ w, effect = .read w → w = effects.foldl Effect.leaves v := by
  induction effects generalizing v with
  | nil => simp [AtomicRegister]
  | cons first effects ih => simp [AtomicRegister, ih, and_assoc]

section Order

variable [DecidableEq β]

/-- The effect of a completed operation on `b`. -/
@[simp] def Event.effectOn? (b : β) : Event κ β ι W → Option (Effect ι W)
  | .released _ c effect => if c = b then some effect else none
  | _ => none

/-- The thread that takes the lock of `b`. -/
@[simp] def Event.acquires? (b : β) : Event κ β ι W → Option κ
  | .acquired k c => if c = b then some k else none
  | _ => none

/-- The thread that gives the lock of `b` back. -/
@[simp] def Event.completes? (b : β) : Event κ β ι W → Option κ
  | .released k c _ => if c = b then some k else none
  | _ => none

theorem current_eq_foldl {init : β → ι → W} {b : β} (history : List (Event κ β ι W)) :
    current init b history = (history.filterMap (Event.effectOn? b)).foldl Effect.leaves (init b) := by
  induction history using List.reverseRecOn with
  | nil => rfl
  | append_singleton history e ih =>
    rw [current_concat, List.filterMap_append, List.foldl_append, ← ih]
    cases e with
    | released k c effect =>
      by_cases hcb : c = b
      · cases effect <;> simp [Event.leaves, Effect.leaves, hcb]
      · cases effect <;> simp [Event.leaves, hcb]
    | _ => rfl

variable [DecidableEq κ] [DecidableEq ι] {init : β → ι → W} {history : List (Event κ β ι W)}

/-- In a legal history the operations on a box, in the order of their completion, are those of an
atomic register. -/
theorem atomicRegister_of_legal (h : Justified (Legal init) history) (b : β) :
    AtomicRegister (init b) (history.filterMap (Event.effectOn? b)) := by
  induction history using List.reverseRecOn with
  | nil => trivial
  | append_singleton history e ih =>
    obtain ⟨hhistory, hlegal⟩ := justified_concat.mp h
    rw [filterMap_concat]
    cases e with
    | released k c effect =>
      by_cases hcb : c = b
      · subst hcb
        have hread := hlegal.2
        rw [current_eq_foldl] at hread
        simpa using atomicRegister_concat.mpr ⟨ih hhistory, hread⟩
      · simpa [hcb] using ih hhistory
    | _ => simpa only [Event.effectOn?, Option.toList_none, List.append_nil] using ih hhistory

/-- In a legal history operations complete in the order in which they took the lock. -/
theorem acquires_eq_of_legal (h : Justified (Legal init) history) (b : β) :
    history.filterMap (Event.acquires? b) =
      history.filterMap (Event.completes? b) ++ (holder b history).toList := by
  induction history using List.reverseRecOn with
  | nil => rfl
  | append_singleton history e ih =>
    obtain ⟨hhistory, hlegal⟩ := justified_concat.mp h
    have hold := ih hhistory
    rw [filterMap_concat, filterMap_concat, holder_concat]
    cases e with
    | acquired k c =>
      by_cases hcb : c = b
      · subst hcb
        have hfree : holder c history = none := hlegal
        simp [Event.locks, hold, hfree]
      · simp [Event.locks, hold, hcb]
    | released k c effect =>
      by_cases hcb : c = b
      · subst hcb
        have hown : holder c history = some k := hlegal.1
        simp [Event.locks, hold, hown]
      · simp [Event.locks, hold, hcb]
    | _ => simpa only [Event.acquires?, Event.completes?, Event.locks, Option.toList_none,
        List.append_nil] using hold

end Order

/-! ## Threads -/

/-- How far a call is: what it has done, and what is left of it. -/
inductive Stage (β ι W : Type)
  | idle
  | wants (call : Call β ι W)
  /-- The call owns the lock of `b`. -/
  | inside (b : β) (tries : Bool) (a : Access ι W)
  | running (b : β) (tries : Bool) (a : Access ι W)
  | ownsSource (target source : β) (moving : Bool)
  | ownsBoth (target source : β) (moving : Bool)
  | stored (source : β) (moving : Bool) (value : ι → W)
  | done (result : Result ι W)

/-- What a thread does next in a call. -/
inductive Stage.Next (k : κ) : Stage β ι W → Event κ β ι W → Stage β ι W → Prop
  | call (call : Call β ι W) : Next k .idle (.called k call) (.wants call)
  /-- Nothing else happens in a call that fails. -/
  | fail (b : β) (a : Access ι W) :
      Next k (.wants (.access b true a)) (.returned k a.failed) .idle
  | acquire (b : β) (tries : Bool) (a : Access ι W) :
      Next k (.wants (.access b tries a)) (.acquired k b) (.inside b tries a)
  | store (b : β) (tries : Bool) (value out : ι → W) :
      Next k (.inside b tries (.store value)) (.released k b (.wrote value))
        (.done ((Access.store value).succeeded tries out))
  | load (b : β) (tries : Bool) (value : ι → W) :
      Next k (.inside b tries .load) (.released k b (.read value)) (.done (.value value))
  | moveOut (b : β) (tries : Bool) (left value : ι → W) :
      Next k (.inside b tries .moveOut) (.released k b (.wrote left)) (.done (.value value))
  | invoke (b : β) (tries : Bool) (a : Access ι W) (argument : ι → W) :
      Next k (.inside b tries a) (.invoked k b argument) (.running b tries a)
  | look (b : β) (tries : Bool) (a : Access ι W) (i : ι) (word : W) :
      Next k (.running b tries a) (.looked k b i word) (.running b tries a)
  | put (b : β) (tries : Bool) (i : ι) (word : W) :
      Next k (.running b tries .modify) (.put k b i word) (.running b tries .modify)
  | modified (b : β) (tries : Bool) (value out : ι → W) :
      Next k (.running b tries .modify) (.released k b (.wrote value))
        (.done (Access.modify.succeeded tries out))
  | inspected (b : β) (tries : Bool) (out : ι → W) :
      Next k (.running b tries .inspect) (.released k b .inspected)
        (.done (Access.inspect.succeeded tries out))
  | self (b : β) (moving : Bool) : Next k (.wants (.assign b b moving)) (.returned k .unit) .idle
  | acquireSource (target source : β) (moving : Bool) (hne : source ≠ target) :
      Next k (.wants (.assign target source moving)) (.acquired k source)
        (.ownsSource target source moving)
  | acquireTarget (target source : β) (moving : Bool) :
      Next k (.ownsSource target source moving) (.acquired k target)
        (.ownsBoth target source moving)
  | releaseTarget (target source : β) (moving : Bool) (value : ι → W) (hne : source ≠ target) :
      Next k (.ownsBoth target source moving) (.released k target (.wrote value))
        (.stored source moving value)
  /-- A copy has stored what the source holds. -/
  | copied (source : β) (value : ι → W) :
      Next k (.stored source false value) (.released k source (.read value)) (.done .unit)
  | moved (source : β) (value left : ι → W) :
      Next k (.stored source true value) (.released k source (.wrote left)) (.done .unit)
  | return (result : Result ι W) : Next k (.done result) (.returned k result) .idle

/-- The events of thread `k` are calls, the last of which has come to this stage. -/
inductive MakesCalls (k : κ) : List (Event κ β ι W) → Stage β ι W → Prop
  | nil : MakesCalls k [] .idle
  | concat {events : List (Event κ β ι W)} {stage stage' : Stage β ι W} {e : Event κ β ι W}
      (h : MakesCalls k events stage) (hnext : stage.Next k e stage') :
      MakesCalls k (events ++ [e]) stage'

def Event.client : Event κ β ι W → κ
  | .called k _ | .acquired k _ | .invoked k _ _ | .looked k _ _ _ | .put k _ _ _ | .released k _ _
  | .returned k _ => k

theorem Stage.Next.client {k : κ} {stage stage' : Stage β ι W} {e : Event κ β ι W}
    (h : stage.Next k e stage') : e.client = k := by
  cases h <;> rfl

/-- The events of one thread, in order. -/
def eventsOf [DecidableEq κ] (k : κ) (history : List (Event κ β ι W)) : List (Event κ β ι W) :=
  history.filter fun e => e.client = k

theorem eventsOf_concat [DecidableEq κ] (k : κ) (history : List (Event κ β ι W))
    (e : Event κ β ι W) : eventsOf k (history ++ [e]) =
      eventsOf k history ++ if e.client = k then [e] else [] := by
  unfold eventsOf
  rw [List.filter_append]
  split <;> simp_all

/-- The stage of a thread at a program point. -/
def ClientPc.stage [DecidableEq β] : ClientPc β ι W → Stage β ι W
  | .idle => .idle
  | .access b tries a pc =>
      match pc with
      | .lock => .wants (.access b tries a)
      | .copy _ _ | .invoke => .inside b tries a
      | .callback => .running b tries a
      | .unlock _ =>
          match a with
          | .modify | .inspect => .running b tries a
          | .store _ | .load | .moveOut => .inside b tries a
      | .finish out => .done (a.succeeded tries out)
  | .assign target source moving pc =>
      match pc with
      | .testSelf | .lockSource => .wants (.assign target source moving)
      | .lockTarget => .ownsSource target source moving
      | .copy _ | .unlockTarget => .ownsBoth target source moving
      | .unlockSource value => .stored source moving value
      | .finish => if source = target then .wants (.assign target source moving) else .done .unit

end RealtimeThreadSafeBox
