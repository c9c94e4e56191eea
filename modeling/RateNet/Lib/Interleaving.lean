/-
Module: RateNet.Lib.Interleaving
Layer: Lib
Purpose: Threads over a shared memory. A thread program says what one atomic step of thread `i` may do to
  the memory and to the thread's own location; a configuration is the memory and every thread's
  location; a run picks any enabled thread at each step. The rules are the invariant rule over every
  run, its rely/guarantee form for facts a thread keeps about the memory while others run, the same for
  runs that keep to a condition, and the account of a sum over threads when one of them moves.
Imports: Mathlib.Tactic, Mathlib.Logic.Relation, Mathlib.Algebra.BigOperators.Fin
Trusted boundary: none
Main exports: Program, Config, Step, Reachable, Reachable.invariant, Reachable.locally,
  Reachable.stably, Reachable.viewed, Reachable.solo, Reachable.every_thread, Reachable.schedule, ReachableThrough,
  ReachableThrough.invariant, ReachableThrough.schedule, sum_update_add, sum_update
-/
import Mathlib.Tactic
import Mathlib.Logic.Relation
import Mathlib.Algebra.BigOperators.Fin

namespace Interleaving

variable {ι Mem Loc : Type*}

/-- One atomic step of each thread: the memory and the thread's location before and after. -/
abbrev Program (ι Mem Loc : Type*) := ι → Mem → Loc → Mem → Loc → Prop

/-- The shared memory and where each thread is. -/
structure Config (ι Mem Loc : Type*) where
  mem : Mem
  loc : ι → Loc

section Step

variable [DecidableEq ι] (program : Program ι Mem Loc)

/-- Some thread takes one of its atomic steps. -/
inductive Step : Config ι Mem Loc → Config ι Mem Loc → Prop where
  | thread (c : Config ι Mem Loc) (i : ι) {mem' : Mem} {loc' : Loc}
      (step : program i c.mem (c.loc i) mem' loc') :
      Step c { mem := mem', loc := Function.update c.loc i loc' }

/-- Configurations some interleaving reaches from `start`. -/
def Reachable (start c : Config ι Mem Loc) : Prop := Relation.ReflTransGen (Step program) start c

variable {program}

/-- A property of the start that every step of every thread keeps holds of every reachable
    configuration. -/
theorem Reachable.invariant {start c : Config ι Mem Loc} (reach : Reachable program start c)
    (Inv : Config ι Mem Loc → Prop) (init : Inv start)
    (keep : ∀ (c : Config ι Mem Loc) (i : ι) (mem' : Mem) (loc' : Loc), Inv c →
      program i c.mem (c.loc i) mem' loc' →
        Inv { mem := mem', loc := Function.update c.loc i loc' }) :
    Inv c := by
  induction reach with
  | refl => exact init
  | tail _ step inductionHypothesis =>
      cases step with
      | thread i step => exact keep _ i _ _ inductionHypothesis step

/-- A property of each thread's own location that its own steps keep holds throughout. -/
theorem Reachable.locally {start c : Config ι Mem Loc} (reach : Reachable program start c)
    (Own : ι → Loc → Prop) (init : ∀ i, Own i (start.loc i))
    (keep : ∀ (i : ι) (mem mem' : Mem) (loc loc' : Loc), Own i loc →
      program i mem loc mem' loc' → Own i loc') (i : ι) :
    Own i (c.loc i) := by
  refine reach.invariant (fun c => ∀ i, Own i (c.loc i)) init ?_ i
  intro c i mem' loc' own step
  exact (Function.forall_update_iff c.loc Own).2 ⟨keep i _ _ _ _ (own i) step, fun j _ => own j⟩

/-- Every step keeps the memory good and moves it along `Rely`; what a thread knows about the memory is
    stable along `Rely`, and its own steps renew it. -/
theorem Reachable.stably {start c : Config ι Mem Loc} (reach : Reachable program start c)
    (Good : Mem → Prop) (Rely : Mem → Mem → Prop) (Own : ι → Mem → Loc → Prop)
    (good : Good start.mem) (init : ∀ i, Own i start.mem (start.loc i))
    (keep : ∀ (i : ι) (mem mem' : Mem) (loc loc' : Loc), Good mem → Own i mem loc →
      program i mem loc mem' loc' → Good mem' ∧ Rely mem mem' ∧ Own i mem' loc')
    (stable : ∀ (j : ι) (mem mem' : Mem) (loc : Loc), Own j mem loc → Rely mem mem' →
      Own j mem' loc) :
    Good c.mem ∧ ∀ i, Own i c.mem (c.loc i) := by
  refine reach.invariant (fun c => Good c.mem ∧ ∀ i, Own i c.mem (c.loc i)) ⟨good, init⟩ ?_
  rintro c i mem' loc' ⟨good, own⟩ step
  obtain ⟨good', rely, own'⟩ := keep i _ _ _ _ good (own i) step
  refine ⟨good', (Function.forall_update_iff c.loc fun j => Own j mem').2 ⟨own', ?_⟩⟩
  intro j _
  exact stable j _ _ _ (own j) rely

/-- Where every step is seen, through a view of the memory and of the locations, as a step of another program or
    as none, what an interleaving reaches is seen as what an interleaving of that program reaches. -/
theorem Reachable.viewed {Mem₂ Loc₂ : Type*} {program₂ : Program ι Mem₂ Loc₂} (viewMem : Mem → Mem₂)
    (viewLoc : Loc → Loc₂)
    (seen : ∀ (i : ι) (mem mem' : Mem) (loc loc' : Loc), program i mem loc mem' loc' →
      (viewMem mem' = viewMem mem ∧ viewLoc loc' = viewLoc loc) ∨
        program₂ i (viewMem mem) (viewLoc loc) (viewMem mem') (viewLoc loc'))
    {start c : Config ι Mem Loc} (reach : Reachable program start c) :
    Reachable program₂ { mem := viewMem start.mem, loc := fun i => viewLoc (start.loc i) }
      { mem := viewMem c.mem, loc := fun i => viewLoc (c.loc i) } := by
  induction reach with
  | refl => exact Relation.ReflTransGen.refl
  | @tail before _ _ step inductionHypothesis =>
      cases step with
      | @thread i mem' loc' step =>
          have moved : (fun j => viewLoc (Function.update before.loc i loc' j)) =
              Function.update (fun j => viewLoc (before.loc j)) i (viewLoc loc') :=
            funext fun j => Function.apply_update (fun _ => viewLoc) before.loc i loc' j
          dsimp only
          rw [moved]
          rcases seen i _ _ _ _ step with ⟨sameMem, sameLoc⟩ | moves
          · have still : Function.update (fun j => viewLoc (before.loc j)) i (viewLoc loc') =
                fun j => viewLoc (before.loc j) := Function.update_eq_iff.2 ⟨sameLoc, fun _ _ => rfl⟩
            rw [still, sameMem]
            exact inductionHypothesis
          · exact Relation.ReflTransGen.tail inductionHypothesis (.thread _ i moves)

/-- A thread running by itself is one of the interleavings. -/
theorem Reachable.solo (c : Config ι Mem Loc) (i : ι) {mem' : Mem} {loc' : Loc}
    (run : Relation.ReflTransGen (fun x y : Mem × Loc => program i x.1 x.2 y.1 y.2)
      (c.mem, c.loc i) (mem', loc')) :
    Reachable program c { mem := mem', loc := Function.update c.loc i loc' } := by
  generalize htarget : (mem', loc') = target at run
  induction run generalizing mem' loc' with
  | refl =>
      injection htarget with same_mem same_loc
      subst same_mem same_loc
      rw [Function.update_eq_self]
      exact Relation.ReflTransGen.refl
  | @tail middle _ _ step inductionHypothesis =>
      subst htarget
      have reached := @inductionHypothesis middle.1 middle.2 rfl
      apply Relation.ReflTransGen.tail reached
      have moved : Step program { mem := middle.1, loc := Function.update c.loc i middle.2 }
          { mem := mem', loc := Function.update (Function.update c.loc i middle.2) i loc' } := by
        apply Step.thread
        show program i middle.1 (Function.update c.loc i middle.2 i) mem' loc'
        rw [Function.update_self]
        exact step
      rw [Function.update_idem] at moved
      exact moved

/-- Where each thread can be brought to a place alone, the others waiting meanwhile, some run brings all of
    them there. -/
theorem Reachable.every_thread [Fintype ι] (Good : Config ι Mem Loc → Prop) (There : Loc → Prop)
    (alone : ∀ c i, Good c → ∃ c', Reachable program c c' ∧ Good c' ∧ There (c'.loc i) ∧
      ∀ j ≠ i, c'.loc j = c.loc j) {c : Config ι Mem Loc} (good : Good c) :
    ∃ c', Reachable program c c' ∧ Good c' ∧ ∀ i, There (c'.loc i) := by
  have some_threads : ∀ threads : Finset ι, ∃ c', Reachable program c c' ∧ Good c' ∧
      ∀ i ∈ threads, There (c'.loc i) := by
    intro threads
    induction threads using Finset.induction_on with
    | empty => exact ⟨c, .refl, good, fun _ member => by cases member⟩
    | insert i threads _ inductionHypothesis =>
        obtain ⟨c₁, reach₁, good₁, there₁⟩ := inductionHypothesis
        obtain ⟨c₂, reach₂, good₂, there₂, others⟩ := alone c₁ i good₁
        refine ⟨c₂, reach₁.trans reach₂, good₂, fun j member => ?_⟩
        by_cases same : j = i
        · rw [same]
          exact there₂
        · rw [others j same]
          exact there₁ j (Finset.mem_of_mem_insert_of_ne member same)
  obtain ⟨c', reach, good', there⟩ := some_threads Finset.univ
  exact ⟨c', reach, good', fun i => there i (Finset.mem_univ i)⟩

/-- The run in which the threads of `schedule` take the steps that `next` picks for them, one each. -/
def runSchedule (next : ι → Mem → Loc → Mem × Loc) (schedule : List ι) (c : Config ι Mem Loc) :
    Config ι Mem Loc :=
  schedule.foldl (fun c i =>
    { mem := (next i c.mem (c.loc i)).1, loc := Function.update c.loc i (next i c.mem (c.loc i)).2 }) c

/-- A schedule of steps of the program, or of none where a thread has to wait, is one of the
    interleavings. -/
theorem Reachable.schedule {next : ι → Mem → Loc → Mem × Loc}
    (sound : ∀ i mem loc, next i mem loc = (mem, loc) ∨
      program i mem loc (next i mem loc).1 (next i mem loc).2)
    (schedule : List ι) (c : Config ι Mem Loc) : Reachable program c (runSchedule next schedule c) := by
  induction schedule generalizing c with
  | nil => exact Relation.ReflTransGen.refl
  | cons i rest inductionHypothesis =>
      refine Relation.ReflTransGen.trans ?_ (inductionHypothesis _)
      rcases sound i c.mem (c.loc i) with waits | moves
      · dsimp only
        rw [waits, Function.update_eq_self]
      · exact Relation.ReflTransGen.single (Step.thread c i moves)

/-!
### Runs that keep to a condition
-/

/-- Configurations some interleaving reaches from `start` through configurations that all meet a condition. -/
def ReachableThrough (program : Program ι Mem Loc) (Meets : Config ι Mem Loc → Prop)
    (start c : Config ι Mem Loc) : Prop :=
  Relation.ReflTransGen (fun c c' => Step program c c' ∧ Meets c') start c

variable {Meets : Config ι Mem Loc → Prop}

/-- A property of the start that every step into a configuration that meets the condition keeps. -/
theorem ReachableThrough.invariant {start c : Config ι Mem Loc}
    (reach : ReachableThrough program Meets start c) (Inv : Config ι Mem Loc → Prop) (init : Inv start)
    (keep : ∀ (c : Config ι Mem Loc) (i : ι) (mem' : Mem) (loc' : Loc), Inv c →
      program i c.mem (c.loc i) mem' loc' →
      Meets { mem := mem', loc := Function.update c.loc i loc' } →
        Inv { mem := mem', loc := Function.update c.loc i loc' }) :
    Inv c := by
  induction reach with
  | refl => exact init
  | tail _ step inductionHypothesis =>
      obtain ⟨moved, meets⟩ := step
      cases moved with
      | thread i moved => exact keep _ i _ _ inductionHypothesis moved meets

/-- A schedule whose configurations all meet the condition is one of these runs. -/
theorem ReachableThrough.schedule {next : ι → Mem → Loc → Mem × Loc}
    (sound : ∀ i mem loc, next i mem loc = (mem, loc) ∨
      program i mem loc (next i mem loc).1 (next i mem loc).2)
    {schedule : List ι} {c : Config ι Mem Loc}
    (meets : ∀ k < schedule.length, Meets (runSchedule next (schedule.take (k + 1)) c)) :
    ReachableThrough program Meets c (runSchedule next schedule c) := by
  induction schedule generalizing c with
  | nil => exact Relation.ReflTransGen.refl
  | cons i rest inductionHypothesis =>
      have later : ReachableThrough program Meets (runSchedule next [i] c)
          (runSchedule next rest (runSchedule next [i] c)) :=
        inductionHypothesis fun k inside => meets (k + 1) (Nat.succ_lt_succ inside)
      refine Relation.ReflTransGen.trans ?_ later
      rcases sound i c.mem (c.loc i) with waits | moves
      · have still : runSchedule next [i] c = c := by
          simp only [runSchedule, List.foldl_cons, List.foldl_nil, waits, Function.update_eq_self]
        rw [still]
      · exact Relation.ReflTransGen.single ⟨Step.thread c i moves, meets 0 (Nat.succ_pos _)⟩

end Step

/-- When one thread moves, the total changes by the weights of its old and its new location. -/
theorem sum_update_add [DecidableEq ι] [Fintype ι] (weight : ι → Loc → ℕ) (loc : ι → Loc) (i : ι)
    (loc' : Loc) :
    ∑ j, weight j (Function.update loc i loc' j) + weight i (loc i) = ∑ j, weight j (loc j) + weight i loc' := by
  rw [← Finset.add_sum_erase _ _ (Finset.mem_univ i),
    ← Finset.add_sum_erase (Finset.univ) (fun j => weight j (loc j)) (Finset.mem_univ i)]
  have others : ∑ j ∈ Finset.univ.erase i, weight j (Function.update loc i loc' j) =
      ∑ j ∈ Finset.univ.erase i, weight j (loc j) := by
    refine Finset.sum_congr rfl fun j member => ?_
    rw [Function.update_of_ne (Finset.ne_of_mem_erase member)]
  rw [others, Function.update_self]
  omega

/-- When one thread moves from a location of weight zero, the total grows by the weight of its new
    location. -/
theorem sum_update [DecidableEq ι] [Fintype ι] (weight : ι → Loc → ℕ) (loc : ι → Loc) (i : ι)
    (loc' : Loc) (none_yet : weight i (loc i) = 0) :
    ∑ j, weight j (Function.update loc i loc' j) = ∑ j, weight j (loc j) + weight i loc' := by
  have moved := sum_update_add weight loc i loc'
  omega

end Interleaving
