import SuperqueryNode.Lib.LabelledRun
import SuperqueryNode.Dispatcher.OrderedCommit
import SuperqueryNode.Dispatcher.Queue

namespace SuperqueryNode.Dispatcher
open Unsigned LabelledRun

structure DispatchLimits where
  queueCapacity : Nat
  workers : Nat
  reorderCapacity : Nat
deriving DecidableEq, Repr

def DispatchLimits.new (queueCapacity workers reorderCapacity : Nat) : DispatchLimits :=
  ⟨max queueCapacity 1, max workers 1, max reorderCapacity 1⟩

structure WorkerOutput (P : Type) where
  height : Nat
  processed : P
deriving DecidableEq, Repr

structure TokioDispatcher (P : Type) where
  limits : DispatchLimits
  buffer : OrderedCommitBuffer (WorkerOutput P)

namespace TokioDispatcher
variable {P : Type}

def new (startHeight : Nat) (limits : DispatchLimits) : TokioDispatcher P where
  limits := limits
  buffer := .new startHeight limits.reorderCapacity

def generation (d : TokioDispatcher P) : Nat := d.buffer.generation

def takeCommittable (d : TokioDispatcher P) (generation : Nat) (output : WorkerOutput P) :
    List (WorkerOutput P) × TokioDispatcher P :=
  let r := d.buffer.completeFrom generation output.height output
  (r.1.map Prod.snd, { d with buffer := r.2 })

def resetTo (d : TokioDispatcher P) (height : Nat) : Nat × TokioDispatcher P :=
  let r := d.buffer.resetTo height
  (r.1, { d with buffer := r.2 })

def nextExpected (d : TokioDispatcher P) : Nat := d.buffer.nextExpected

def Only (d : TokioDispatcher P) (p : WorkerOutput P → Prop) : Prop :=
  ∀ (h : Nat) (o : WorkerOutput P), d.buffer.pending[h]? = some o → p o

variable {p : WorkerOutput P → Prop} {d : TokioDispatcher P}

theorem only_new (startHeight : Nat) (limits : DispatchLimits) :
    (new startHeight limits : TokioDispatcher P).Only p := by
  intro h o ho
  simp [new, OrderedCommitBuffer.new] at ho

theorem only_reset (d : TokioDispatcher P) (height : Nat) : (d.resetTo height).2.Only p := by
  intro h o ho
  simp [resetTo, OrderedCommitBuffer.resetTo] at ho

theorem takeCommittable_inert (d : TokioDispatcher P) {generation : Nat} (output : WorkerOutput P)
    (h : generation ≠ d.generation) : d.takeCommittable generation output = ([], d) := by
  rw [takeCommittable]
  rw [d.buffer.completeFrom_inert output (.inl h)]
  rfl

theorem takeCommittable_generation (d : TokioDispatcher P) (generation : Nat)
    (output : WorkerOutput P) :
    (d.takeCommittable generation output).2.generation = d.generation :=
  d.buffer.completeFrom_generation generation output.height output

theorem takeCommittable_only (hd : d.Only p) {output : WorkerOutput P} (ho : p output)
    (generation : Nat) :
    (d.takeCommittable generation output).2.Only p ∧
      ∀ o ∈ (d.takeCommittable generation output).1, p o := by
  have hall := d.buffer.completeFrom_forall hd generation output.height ho
  refine ⟨hall.2, ?_⟩
  intro o hmem
  obtain ⟨q, hq, rfl⟩ := List.mem_map.mp hmem
  exact hall.1 q hq

end TokioDispatcher

structure Stamped (A : Type) where
  resets : Nat
  value : A
deriving DecidableEq, Repr

inductive Worker (B : Type) where
  | idle
  | holding (q : QueuedBlock B)
  | started (generation : Nat) (q : QueuedBlock B)

def Worker.beforeCapture {B : Type} : Worker B → Option (QueuedBlock B)
  | .holding q => some q
  | _ => none

def Worker.afterCapture {B : Type} : Worker B → Option (QueuedBlock B)
  | .started _ q => some q
  | _ => none

structure Dispatch (B P : Type) where
  channel : Channel (Stamped B)
  draining : Option Nat
  dispatcher : TokioDispatcher (Stamped P)
  workers : Nat → Worker (Stamped B)
  resets : Nat
  returned : List (Nat × WorkerOutput (Stamped P))

inductive Event (B P : Type) where
  | send (height : Nat) (block : B)
  | dropSenders
  | recv (worker : Nat)
  | generation (worker : Nat)
  | takeCommittable (worker : Nat) (processed : P)
  | drain
  | drainNext
  | resetTo (height : Nat)

namespace Dispatch
variable {B P : Type}

def start (startHeight : Nat) (limits : DispatchLimits) : Dispatch B P where
  channel := queue limits.queueCapacity
  draining := none
  dispatcher := .new startHeight limits
  workers := fun _ => .idle
  resets := 0
  returned := []

def setWorker (s : Dispatch B P) (i : Nat) (w : Worker (Stamped B)) : Dispatch B P :=
  { s with workers := Function.update s.workers i w }

-- `QueueReceiver::drain` borrows the receiver mutably for its whole loop, so no `recv` falls
-- between two of its turns, while the senders and the dispatcher may still be called.
def step (s : Dispatch B P) : Event B P → Option (Dispatch B P)
  | .send height block =>
    if s.channel.sendersGone then none
    else
      (QueueSender.send s.channel height ⟨s.resets, block⟩).map fun r => { s with channel := r.2 }
  | .dropSenders => some { s with channel := { s.channel with sendersGone := true } }
  | .recv i =>
    match s.draining, s.workers i with
    | none, .idle =>
      (QueueReceiver.recv s.channel).map fun r =>
        match r.1 with
        | some q => { s with channel := r.2 }.setWorker i (.holding q)
        | none => s
    | _, _ => none
  | .generation i =>
    match s.workers i with
    | .holding q => some (s.setWorker i (.started s.dispatcher.generation q))
    | _ => none
  | .takeCommittable i processed =>
    match s.workers i with
    | .started generation q =>
      let r := s.dispatcher.takeCommittable generation ⟨q.height, q.block.resets, processed⟩
      some { s.setWorker i .idle with
        dispatcher := r.2
        returned := s.returned ++ r.1.map fun o => (s.resets, o) }
    | _ => none
  | .drain =>
    match s.draining with
    | none => some { s with draining := some 0 }
    | some _ => none
  | .drainNext =>
    match s.draining, QueueReceiver.tryRecv s.channel with
    | some dropped, some (_, rest) => some { s with channel := rest, draining := some (dropped + 1) }
    | some _, none => some { s with draining := none }
    | none, _ => none
  | .resetTo height =>
    some { s with dispatcher := (s.dispatcher.resetTo height).2, resets := s.resets + 1 }

def KeepsBranches (s : Dispatch B P) : Prop :=
  ∀ r ∈ s.returned, ∀ reset, r.2.processed.resets < reset → r.1 < reset

def CapturesCurrent (s : Dispatch B P) : Event B P → Prop
  | .generation i => ∀ q ∈ (s.workers i).beforeCapture, q.block.resets = s.resets
  | .takeCommittable i _ => ∀ q ∈ (s.workers i).afterCapture,
      q.block.resets % 2 ^ 64 = s.resets % 2 ^ 64 → q.block.resets = s.resets
  | _ => True

instance (s : Dispatch B P) (e : Event B P) : Decidable (CapturesCurrent s e) := by
  cases e <;> unfold CapturesCurrent <;> infer_instance

structure OnBranch (s : Dispatch B P) : Prop where
  generation : s.dispatcher.generation = s.resets % 2 ^ 64
  started : ∀ i g q, s.workers i = .started g q → g = q.block.resets % 2 ^ 64
  held : s.dispatcher.Only fun o => o.processed.resets = s.resets
  returned : ∀ r ∈ s.returned, r.2.processed.resets = r.1

section Steps
variable {s t : Dispatch B P}

theorem OnBranch.keepsBranches (hs : OnBranch s) : KeepsBranches s := by
  intro r hr reset hlt
  rwa [hs.returned r hr] at hlt

theorem onBranch_start (startHeight : Nat) (limits : DispatchLimits) :
    OnBranch (start startHeight limits : Dispatch B P) where
  generation := rfl
  started := by simp [start]
  held := TokioDispatcher.only_new startHeight limits
  returned := by simp [start]

theorem OnBranch.frame (hs : OnBranch s) (hd : t.dispatcher = s.dispatcher)
    (hresets : t.resets = s.resets) (hreturned : t.returned = s.returned)
    (hstarted : ∀ i g q, t.workers i = .started g q → s.workers i = .started g q) :
    OnBranch t where
  generation := by rw [hd, hresets, hs.generation]
  started := fun i g q h => hs.started i g q (hstarted i g q h)
  held := by
    rw [hd, hresets]
    exact hs.held
  returned := by
    rw [hreturned]
    exact hs.returned

theorem started_setWorker {i j g : Nat} {w : Worker (Stamped B)} {q : QueuedBlock (Stamped B)}
    (h : (s.setWorker i w).workers j = .started g q) :
    s.workers j = .started g q ∨ w = .started g q := by
  by_cases hij : j = i
  · subst hij
    right
    simpa [setWorker] using h
  · left
    simpa [setWorker, hij] using h

theorem onBranch_recv (hs : OnBranch s) {i : Nat} (h : s.step (.recv i) = some t) :
    OnBranch t := by
  simp only [step] at h
  split at h
  · obtain ⟨⟨received, rest⟩, _, rfl⟩ := Option.map_eq_some_iff.mp h
    cases received with
    | none => exact hs
    | some q =>
      refine hs.frame rfl rfl rfl fun j g p hj => ?_
      rcases started_setWorker hj with hj | hj
      · exact hj
      · cases hj
  · cases h

theorem onBranch_generation (hs : OnBranch s) {i : Nat}
    (hok : CapturesCurrent s (.generation i)) (h : s.step (.generation i) = some t) :
    OnBranch t := by
  simp only [step] at h
  split at h
  next q hw =>
    cases h
    refine ⟨hs.generation, fun j g p hj => ?_, hs.held, hs.returned⟩
    rcases started_setWorker hj with hj | hj
    · exact hs.started j g p hj
    · cases hj
      rw [hok q (by simp [Worker.beforeCapture, hw])]
      exact hs.generation
  next => cases h

theorem onBranch_takeCommittable (hs : OnBranch s) {i : Nat} {processed : P}
    (hok : CapturesCurrent s (.takeCommittable i processed))
    (h : s.step (.takeCommittable i processed) = some t) : OnBranch t := by
  simp only [step] at h
  split at h
  next generation q hw =>
    cases h
    have hidle : ∀ j g p, (s.setWorker i .idle).workers j = .started g p →
        g = p.block.resets % 2 ^ 64 := by
      intro j g p hj
      rcases started_setWorker hj with hj | hj
      · exact hs.started j g p hj
      · cases hj
    by_cases hgen : generation = s.dispatcher.generation
    · let output : WorkerOutput (Stamped P) := ⟨q.height, q.block.resets, processed⟩
      have hstamp : output.processed.resets = s.resets := by
        apply hok q (by simp [Worker.afterCapture, hw])
        rw [← hs.started i generation q hw, ← hs.generation, hgen]
      obtain ⟨hheld, hout⟩ := TokioDispatcher.takeCommittable_only hs.held hstamp generation
      refine ⟨(s.dispatcher.takeCommittable_generation _ _).trans hs.generation, hidle, hheld, ?_⟩
      intro r hr
      rcases List.mem_append.mp hr with hr | hr
      · exact hs.returned r hr
      · obtain ⟨o, ho, rfl⟩ := List.mem_map.mp hr
        exact hout o ho
    · rw [s.dispatcher.takeCommittable_inert _ hgen]
      refine ⟨hs.generation, hidle, hs.held, ?_⟩
      simpa using hs.returned
  next => cases h

theorem onBranch_resetTo (hs : OnBranch s) (height : Nat) :
    OnBranch { s with
      dispatcher := (s.dispatcher.resetTo height).2, resets := s.resets + 1 } where
  generation := by
    change wrappingAdd 64 s.dispatcher.generation 1 = (s.resets + 1) % 2 ^ 64
    rw [hs.generation, wrappingAdd, Nat.mod_add_mod]
  started := hs.started
  held := s.dispatcher.only_reset height
  returned := hs.returned

theorem onBranch_step (hs : OnBranch s) {e : Event B P} (hok : CapturesCurrent s e)
    (h : s.step e = some t) : OnBranch t := by
  cases e with
  | send height block =>
    simp only [step] at h
    split_ifs at h
    obtain ⟨r, _, rfl⟩ := Option.map_eq_some_iff.mp h
    exact hs.frame rfl rfl rfl fun _ _ _ hj => hj
  | dropSenders =>
    cases h
    exact hs.frame rfl rfl rfl fun _ _ _ hj => hj
  | recv i => exact onBranch_recv hs h
  | generation i => exact onBranch_generation hs hok h
  | takeCommittable i processed => exact onBranch_takeCommittable hs hok h
  | drain =>
    simp only [step] at h
    split at h
    · cases h
      exact hs.frame rfl rfl rfl fun _ _ _ hj => hj
    · cases h
  | drainNext =>
    simp only [step] at h
    split at h
    · cases h
      exact hs.frame rfl rfl rfl fun _ _ _ hj => hj
    · cases h
      exact hs.frame rfl rfl rfl fun _ _ _ hj => hj
    · cases h
  | resetTo height =>
    cases h
    exact onBranch_resetTo hs height

end Steps

theorem run_keeps_branches (startHeight : Nat) (limits : DispatchLimits)
    (events : List (Event B P)) (s : Dispatch B P)
    (hrun : run step (start startHeight limits) events = some s)
    (hok : Guarded step CapturesCurrent (start startHeight limits) events) :
    KeepsBranches s :=
  (run_guarded_invariant (fun _ _ _ hs ho h => onBranch_step hs ho h)
    (onBranch_start startHeight limits) hok hrun).keepsBranches

theorem restarted_work_keeps_branches :
    let events : List (Event Nat Nat) :=
      [.send 100 7, .recv 0, .generation 0, .drain, .drainNext, .resetTo 100, .send 100 8,
        .takeCommittable 0 7, .recv 0, .generation 0, .takeCommittable 0 8]
    ∃ s, run step (start 100 (.new 2 1 1)) events = some s ∧ KeepsBranches s := by
  intro events
  obtain ⟨s, hs⟩ := Option.isSome_iff_exists.mp (by decide :
    (run step (start 100 (.new 2 1 1)) events).isSome = true)
  exact ⟨s, hs, run_keeps_branches 100 (.new 2 1 1) events s hs (by decide)⟩

theorem stale_block_returned_after_reset :
    ∃ s, run step (start 100 (.new 2 1 1) : Dispatch Nat Nat)
        [.send 100 7, .recv 0, .drain, .drainNext, .resetTo 100, .generation 0,
          .takeCommittable 0 7] = some s ∧
      s.returned = [(1, ⟨100, 0, 7⟩)] ∧ ¬KeepsBranches s := by
  refine ⟨_, rfl, ?_, ?_⟩
  · decide
  · intro h
    exact absurd (h (1, ⟨100, 0, 7⟩) (by decide) 1 (by decide)) (by decide)

end Dispatch
end SuperqueryNode.Dispatcher
