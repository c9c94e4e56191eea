/-
Module: RateNet.Lib.Linearization
Layer: Lib
Purpose: Linearizability of a concurrent object. Threads carry out calls on a shared memory in atomic steps.
  One of them is the step at which the call takes effect as an operation of the object; the others are
  silent. The history records invocations, effects and responses in the order they happen. The object is
  linearizable when the effects, taken one after another, are a run of its sequential specification, and
  every thread's part of the history is a sequence of calls that each took effect once, between their
  invocation and their response, and answered with what that effect gave. The rule is forward
  simulation: a relation between the configurations of the threads and the states of the specification
  that silent steps keep and effects follow.
Imports: RateNet.Lib.Interleaving, RateNet.Lib.Runs
Trusted boundary: none
Main exports: Event, committed, Explains, Explains.invariant, Explains.outputs, Calls, Pending, Linearizable, Implementation,
  Place, Place.loc, World, Implementation.program, Simulation, Simulation.reachable, Simulation.linearizable
-/
import RateNet.Lib.Interleaving
import RateNet.Lib.Runs

namespace Linearization

open Interleaving

variable {ι Call Op Out Mem Loc State : Type*}

/-!
### Histories
-/

/-- What a history records of a thread. -/
inductive Event (ι Call Op Out : Type*) where
  | invoke (i : ι) (call : Call)
  /-- The call takes effect, as operation `op`. -/
  | commit (i : ι) (op : Op) (out : Out)
  | respond (i : ι) (out : Out)

def Event.thread : Event ι Call Op Out → ι
  | .invoke i _ | .commit i _ _ | .respond i _ => i

/-- The operation an event makes take effect, with its answer. -/
def Event.effect : Event ι Call Op Out → Option (Op × Out)
  | .commit _ op out => some (op, out)
  | _ => none

/-- The operations that took effect, in order. -/
def committed (history : List (Event ι Call Op Out)) : List (Op × Out) := history.filterMap Event.effect

/-- The part of a history that belongs to one thread. -/
def own [DecidableEq ι] (i : ι) (history : List (Event ι Call Op Out)) : List (Event ι Call Op Out) :=
  history.filter fun event => event.thread = i

theorem own_snoc_self [DecidableEq ι] {i : ι} (history : List (Event ι Call Op Out))
    (event : Event ι Call Op Out) (mine : event.thread = i) :
    own i (history ++ [event]) = own i history ++ [event] := by
  rw [own, List.filter_append, List.filter_singleton, decide_eq_true mine]
  rfl

theorem own_snoc_of_ne [DecidableEq ι] {i : ι} {history : List (Event ι Call Op Out)}
    {event : Event ι Call Op Out} (other : event.thread ≠ i) : own i (history ++ [event]) = own i history := by
  rw [own, List.filter_append, List.filter_singleton, decide_eq_false other]
  exact List.append_nil _

theorem committed_snoc (history : List (Event ι Call Op Out)) (event : Event ι Call Op Out) :
    committed (history ++ [event]) = committed history ++ event.effect.toList := by
  rw [committed, List.filterMap_append]
  cases event with
  | commit i op out => rfl
  | invoke i call => rfl
  | respond i out => rfl

theorem committed_quiet (history : List (Event ι Call Op Out)) {event : Event ι Call Op Out}
    (quiet : event.effect = none) : committed (history ++ [event]) = committed history := by
  rw [committed_snoc, quiet]
  exact List.append_nil _

/-- Operations and answers that the sequential specification allows one after another. -/
inductive Explains (Spec : State → Op → Out → State → Prop) : State → List (Op × Out) → State → Prop where
  | start (s : State) : Explains Spec s [] s
  | next {s s₁ s₂ : State} {effects : List (Op × Out)} {op : Op} {out : Out}
      (run : Explains Spec s effects s₁) (step : Spec s₁ op out s₂) :
      Explains Spec s (effects ++ [(op, out)]) s₂

/-- A property of the effects so far and the state that every allowed effect keeps. -/
theorem Explains.invariant {Spec : State → Op → Out → State → Prop} {s s' : State} {effects : List (Op × Out)}
    (run : Explains Spec s effects s') (Inv : List (Op × Out) → State → Prop) (init : Inv [] s)
    (keep : ∀ {effects s op out s'}, Inv effects s → Spec s op out s' → Inv (effects ++ [(op, out)]) s') :
    Inv effects s' := by
  induction run with
  | start => exact init
  | next _ step inductionHypothesis => exact keep inductionHypothesis step

/-- Where the specification is a function the answers are its outputs. -/
theorem Explains.outputs {Spec : State → Op → Out → State → Prop} {step : State → Op → Out × State}
    (exactly : ∀ {s op out s'}, Spec s op out s' → step s op = (out, s')) {s s' : State}
    {effects : List (Op × Out)} (run : Explains Spec s effects s') :
    effects.map Prod.snd = Runs.outputs step s (effects.map Prod.fst) ∧
      (effects.map Prod.fst).foldl (fun s op => (step s op).2) s = s' := by
  induction run with
  | start => exact ⟨rfl, rfl⟩
  | next _ allowed inductionHypothesis =>
      obtain ⟨answers, after⟩ := inductionHypothesis
      have last := exactly allowed
      rw [List.map_append, List.map_append, Runs.outputs_append, List.foldl_append, after, answers]
      simp only [List.map_cons, List.map_nil, Runs.outputs, List.foldl_cons, List.foldl_nil, last, and_self]

/-- Finished calls of thread `i`: each invoked, then taking effect as an operation it may stand for, then
    answered with what the effect gave. -/
inductive Calls (callOf : Op → Call) (i : ι) : List (Event ι Call Op Out) → Prop where
  | none : Calls callOf i []
  | next {history : List (Event ι Call Op Out)} (calls : Calls callOf i history) (op : Op) (out : Out) :
      Calls callOf i (history ++ [.invoke i (callOf op), .commit i op out, .respond i out])

/-- A call of thread `i` under way. -/
inductive Pending (callOf : Op → Call) (i : ι) : List (Event ι Call Op Out) → Prop where
  | idle : Pending callOf i []
  | invoked (call : Call) : Pending callOf i [.invoke i call]
  | committed (op : Op) (out : Out) : Pending callOf i [.invoke i (callOf op), .commit i op out]

/-- The effects are a run of the specification, and every thread's calls took effect between their
    invocation and their response. -/
structure Linearizable [DecidableEq ι] (Spec : State → Op → Out → State → Prop) (callOf : Op → Call)
    (start : State) (history : List (Event ι Call Op Out)) : Prop where
  explained : ∃ s, Explains Spec start (committed history) s
  threads : ∀ i, ∃ finished pending, own i history = finished ++ pending ∧ Calls callOf i finished ∧
    Pending callOf i pending

/-!
### Implementations
-/

/-- How a thread carries out a call. -/
structure Implementation (ι Call Op Out Mem Loc : Type*) where
  start : Call → Loc
  /-- A step at which nothing takes effect. -/
  Silent : ι → Mem → Loc → Mem → Loc → Prop
  /-- The step at which the call takes effect. -/
  Commit : ι → Mem → Loc → Op → Out → Mem → Loc → Prop
  /-- Nothing is left to do before the response. -/
  Finished : Loc → Prop

/-- Where a thread is. -/
inductive Place (Call Out Loc : Type*) where
  | idle
  /-- The call has not taken effect yet. -/
  | running (call : Call) (loc : Loc)
  | committed (out : Out) (loc : Loc)

/-- Where a call under way is. -/
def Place.loc : Place Call Out Loc → Option Loc
  | .idle => none
  | .running _ loc | .committed _ loc => some loc

/-- The shared memory and the history so far. -/
structure World (ι Call Op Out Mem : Type*) where
  mem : Mem
  history : List (Event ι Call Op Out)

namespace Implementation

variable (impl : Implementation ι Call Op Out Mem Loc)

/-- One step of thread `i`, with what the history records of it. -/
inductive Advance (i : ι) : World ι Call Op Out Mem → Place Call Out Loc → World ι Call Op Out Mem →
    Place Call Out Loc → Prop where
  | invoke (w : World ι Call Op Out Mem) (call : Call) :
      Advance i w .idle { w with history := w.history ++ [.invoke i call] } (.running call (impl.start call))
  | silent {w : World ι Call Op Out Mem} {call : Call} {loc loc' : Loc} {mem' : Mem}
      (step : impl.Silent i w.mem loc mem' loc') :
      Advance i w (.running call loc) { w with mem := mem' } (.running call loc')
  | commit {w : World ι Call Op Out Mem} {call : Call} {loc loc' : Loc} {mem' : Mem} {op : Op} {out : Out}
      (step : impl.Commit i w.mem loc op out mem' loc') :
      Advance i w (.running call loc) { mem := mem', history := w.history ++ [.commit i op out] }
        (.committed out loc')
  | unwind {w : World ι Call Op Out Mem} {out : Out} {loc loc' : Loc} {mem' : Mem}
      (step : impl.Silent i w.mem loc mem' loc') :
      Advance i w (.committed out loc) { w with mem := mem' } (.committed out loc')
  | respond {w : World ι Call Op Out Mem} {out : Out} {loc : Loc} (finished : impl.Finished loc) :
      Advance i w (.committed out loc) { w with history := w.history ++ [.respond i out] } .idle

/-- Any number of threads, each carrying out one call after another. -/
def program : Program ι (World ι Call Op Out Mem) (Place Call Out Loc) := impl.Advance

/-- No thread has a call under way. -/
def initial (mem : Mem) : Config ι (World ι Call Op Out Mem) (Place Call Out Loc) :=
  { mem := { mem, history := [] }, loc := fun _ => .idle }

end Implementation

/-!
### Forward simulation
-/

/-- `Sim` relates the memory and the places of the threads to a state of the specification: silent steps keep
    it, and an effect is answered as the specification allows. -/
structure Simulation [DecidableEq ι] (impl : Implementation ι Call Op Out Mem Loc)
    (Spec : State → Op → Out → State → Prop) (callOf : Op → Call)
    (Sim : Mem → (ι → Place Call Out Loc) → State → Prop) : Prop where
  invoke : ∀ {mem loc s i} (call : Call), Sim mem loc s → loc i = .idle →
    Sim mem (Function.update loc i (.running call (impl.start call))) s
  silent : ∀ {mem mem' loc s i call l l'}, Sim mem loc s → loc i = .running call l →
    impl.Silent i mem l mem' l' → Sim mem' (Function.update loc i (.running call l')) s
  commit : ∀ {mem mem' loc s i call l l' op out}, Sim mem loc s → loc i = .running call l →
    impl.Commit i mem l op out mem' l' → callOf op = call ∧
      ∃ s', Spec s op out s' ∧ Sim mem' (Function.update loc i (.committed out l')) s'
  unwind : ∀ {mem mem' loc s i out l l'}, Sim mem loc s → loc i = .committed out l →
    impl.Silent i mem l mem' l' → Sim mem' (Function.update loc i (.committed out l')) s
  respond : ∀ {mem loc s i out l}, Sim mem loc s → loc i = .committed out l → impl.Finished l →
    Sim mem (Function.update loc i .idle) s

/-- What a thread's part of the history ends with, where the thread is. -/
def Telling (callOf : Op → Call) (i : ι) : Place Call Out Loc → List (Event ι Call Op Out) → Prop
  | .idle, pending => pending = []
  | .running call _, pending => pending = [.invoke i call]
  | .committed out _, pending => ∃ op, pending = [.invoke i (callOf op), .commit i op out]

theorem Telling.pending {callOf : Op → Call} {i : ι} {place : Place Call Out Loc}
    {pending : List (Event ι Call Op Out)} (telling : Telling callOf i place pending) :
    Pending callOf i pending := by
  cases place with
  | idle =>
      obtain rfl : pending = [] := telling
      exact .idle
  | running call loc =>
      obtain rfl : pending = [.invoke i call] := telling
      exact .invoked call
  | committed out loc =>
      obtain ⟨op, rfl⟩ := telling
      exact .committed op out

/-- A thread's part of the history: finished calls, and the one under way. -/
def Tells [DecidableEq ι] (callOf : Op → Call) (history : List (Event ι Call Op Out)) (i : ι)
    (place : Place Call Out Loc) : Prop :=
  ∃ finished pending, own i history = finished ++ pending ∧ Calls callOf i finished ∧
    Telling callOf i place pending

section Rule

variable [DecidableEq ι] {impl : Implementation ι Call Op Out Mem Loc}
  {Spec : State → Op → Out → State → Prop} {callOf : Op → Call}
  {Sim : Mem → (ι → Place Call Out Loc) → State → Prop}

/-- An event of one thread leaves the others' parts as they are. -/
theorem tells_snoc {history : List (Event ι Call Op Out)} {loc : ι → Place Call Out Loc} {i : ι}
    {event : Event ι Call Op Out} {place : Place Call Out Loc} (tells : ∀ j, Tells callOf history j (loc j))
    (mine : event.thread = i) (here : Tells callOf (history ++ [event]) i place) :
    ∀ j, Tells callOf (history ++ [event]) j (Function.update loc i place j) := by
  refine (Function.forall_update_iff loc fun j => Tells callOf (history ++ [event]) j).2 ⟨here, ?_⟩
  intro j other
  obtain ⟨finished, pending, split, calls, telling⟩ := tells j
  refine ⟨finished, pending, ?_, calls, telling⟩
  rw [own_snoc_of_ne (by rw [mine]; exact other.symm), split]

/-- A step without an event leaves every part as it is. -/
theorem tells_still {history : List (Event ι Call Op Out)} {loc : ι → Place Call Out Loc} {i : ι}
    {place : Place Call Out Loc} (tells : ∀ j, Tells callOf history j (loc j))
    (same : ∀ pending, Telling callOf i (loc i) pending → Telling callOf i place pending) :
    ∀ j, Tells callOf history j (Function.update loc i place j) := by
  refine (Function.forall_update_iff loc fun j => Tells callOf history j).2 ⟨?_, fun j _ => tells j⟩
  obtain ⟨finished, pending, split, calls, telling⟩ := tells i
  exact ⟨finished, pending, split, calls, same pending telling⟩

/-- What holds of the history and of the places of the threads: the effects lead the specification to a state
    that is simulated, and every thread tells where it is. -/
def Followed (Spec : State → Op → Out → State → Prop) (callOf : Op → Call)
    (Sim : Mem → (ι → Place Call Out Loc) → State → Prop) (s₀ : State) (w : World ι Call Op Out Mem)
    (loc : ι → Place Call Out Loc) : Prop :=
  (∃ s, Explains Spec s₀ (committed w.history) s ∧ Sim w.mem loc s) ∧ ∀ i, Tells callOf w.history i (loc i)

theorem Simulation.step (simulation : Simulation impl Spec callOf Sim) {s₀ : State}
    {w w' : World ι Call Op Out Mem} {loc : ι → Place Call Out Loc} {i : ι} {place place' : Place Call Out Loc}
    (followed : Followed Spec callOf Sim s₀ w loc) (here : loc i = place)
    (step : impl.Advance i w place w' place') :
    Followed Spec callOf Sim s₀ w' (Function.update loc i place') := by
  obtain ⟨⟨s, explains, sim⟩, tells⟩ := followed
  obtain ⟨finished, pending, split, calls, telling⟩ := tells i
  rw [here] at telling
  cases step with
  | invoke call =>
      obtain rfl : pending = [] := telling
      refine ⟨⟨s, ?_, simulation.invoke call sim here⟩, tells_snoc tells rfl ?_⟩
      · rw [committed_quiet _ rfl]
        exact explains
      · refine ⟨finished, [.invoke i call], ?_, calls, rfl⟩
        rw [own_snoc_self (i := i) _ _ rfl, split, List.append_nil]
  | silent step =>
      refine ⟨⟨s, explains, simulation.silent sim here step⟩, tells_still tells ?_⟩
      rw [here]
      exact fun _ told => told
  | @commit call l l' mem' op out step =>
      obtain ⟨rfl, s', allowed, sim'⟩ := simulation.commit sim here step
      obtain rfl : pending = [.invoke i (callOf op)] := telling
      refine ⟨⟨s', ?_, sim'⟩, tells_snoc tells rfl ?_⟩
      · rw [committed_snoc]
        exact explains.next allowed
      · refine ⟨finished, [.invoke i (callOf op), .commit i op out], ?_, calls, op, rfl⟩
        rw [own_snoc_self (i := i) _ _ rfl, split, List.append_assoc]
        rfl
  | unwind step =>
      refine ⟨⟨s, explains, simulation.unwind sim here step⟩, tells_still tells ?_⟩
      rw [here]
      exact fun _ told => told
  | @respond out l done =>
      obtain ⟨op, rfl⟩ := telling
      refine ⟨⟨s, ?_, simulation.respond sim here done⟩, tells_snoc tells rfl ?_⟩
      · rw [committed_quiet _ rfl]
        exact explains
      · refine ⟨_, [], ?_, calls.next op out, rfl⟩
        rw [own_snoc_self (i := i) _ _ rfl, split, List.append_assoc, List.append_nil]
        rfl

/-- Every reachable configuration simulates the state that its effects lead the specification to. -/
theorem Simulation.reachable (simulation : Simulation impl Spec callOf Sim) {mem : Mem} {s₀ : State}
    (init : Sim mem (fun _ => .idle) s₀) {c : Config ι (World ι Call Op Out Mem) (Place Call Out Loc)}
    (reach : Reachable impl.program (Implementation.initial mem) c) :
    Followed Spec callOf Sim s₀ c.mem c.loc := by
  refine reach.invariant (fun c => Followed Spec callOf Sim s₀ c.mem c.loc) ?_ ?_
  · exact ⟨⟨s₀, .start s₀, init⟩, fun i => ⟨[], [], rfl, .none, rfl⟩⟩
  · intro c i w' place' followed step
    exact simulation.step followed rfl step

/-- A simulated object is linearizable. -/
theorem Simulation.linearizable (simulation : Simulation impl Spec callOf Sim) {mem : Mem} {s₀ : State}
    (init : Sim mem (fun _ => .idle) s₀) {c : Config ι (World ι Call Op Out Mem) (Place Call Out Loc)}
    (reach : Reachable impl.program (Implementation.initial mem) c) :
    Linearizable Spec callOf s₀ c.mem.history := by
  obtain ⟨⟨s, explains, -⟩, tells⟩ := simulation.reachable init reach
  refine ⟨⟨s, explains⟩, fun i => ?_⟩
  obtain ⟨finished, pending, split, calls, telling⟩ := tells i
  exact ⟨finished, pending, split, calls, telling.pending⟩

end Rule

end Linearization
