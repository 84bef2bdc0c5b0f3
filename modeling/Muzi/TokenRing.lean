import Mathlib
import Muzi.Execution

/-!
examples/pingpong/bench.cc: bytes go round a ring of socket pairs. A channel that is
readable takes one byte, and sends one to the next pair as long as `g_writes` lasts. The
loop is quit when every byte that was sent has been read. `EventLoop::quit_` is never
reset: in the later of the 25 rounds `Loop` fails its assert or, without asserts, returns
at once. The ring is modelled without asserts. The counters stay within
`numActive + numWrites`, and are integers here where the source has `int`.
-/

namespace Muzi.TokenRing

open Execution

structure Bench where
  -- the bytes that wait in each pair
  pipes : List Nat
  writes : Int
  reads : Int
  fired : Int
  -- of the loop
  looping : Bool
  quit : Bool
  /-- The rounds that `main` has begun. -/
  rounds : Nat
  /-- The callbacks of all rounds. -/
  served : Nat

/-- `send` to `g_pipes[slot]`; the second socket of a pair is written, the first one read. -/
def send (slot : Nat) (pipes : List Nat) : Option (List Nat) :=
  if slot < 2 * pipes.length then some (pipes.modify (slot / 2) (· + 1)) else none

def widx (numPipes idx : Nat) : Nat :=
  if idx + 1 ≥ numPipes then idx + 1 - numPipes else idx + 1

def pass (idx : Nat) (b : Bench) : Option Bench :=
  if b.writes > 0 then
    (send (2 * widx b.pipes.length idx + 1) b.pipes).map fun pipes =>
      { b with pipes := pipes, writes := b.writes - 1, fired := b.fired + 1 }
  else some b

/-- The end of `readCallback`. `Quit` is called in the loop thread. -/
def testEnd (b : Bench) : Bench :=
  if b.fired = b.reads ∧ b.looping = true then { b with quit := true } else b

/-- The callback of a channel that is readable. -/
def readCallback (b : Bench) (idx : Nat) : Option Bench :=
  match b.pipes[idx]? with
  | some (_ + 1) =>
      (pass idx { b with
        pipes := b.pipes.modify idx (· - 1)
        reads := b.reads + 1
        served := b.served + 1 }).map testEnd
  | _ => none

/-- `runOnce` up to the first test of `quit_` in `Loop`. There is no quotient by zero. -/
def runOnce (numActive : Nat) (numWrites : Int) (b : Bench) : Option Bench :=
  if numActive = 0 then none
  else
    let space := b.pipes.length / numActive * 2
    ((List.range numActive).foldlM (fun pipes i => send (i * space + 1) pipes) b.pipes).map
      fun pipes =>
        { b with
          pipes := pipes, writes := numWrites, reads := 0, fired := numActive, looping := !b.quit,
          rounds := b.rounds + 1 }

inductive Action where
  | runOnce
  | readCallback (idx : Nat)
  -- the test of `quit_` behind an iteration
  | leave

def step (numActive : Nat) (numWrites : Int) (b : Bench) : Action → Option Bench
  | .runOnce =>
      if b.looping = false ∧ b.rounds < 25 then runOnce numActive numWrites b else none
  | .readCallback idx => if b.looping = true then readCallback b idx else none
  | .leave => if b.looping = true ∧ b.quit = true then some { b with looping := false } else none

def setup (numPipes : Nat) : Bench where
  pipes := List.replicate numPipes 0
  writes := 0
  reads := 0
  fired := 0
  looping := false
  quit := false
  rounds := 0
  served := 0

theorem sum_modify {l : List Nat} {k n : Nat} (found : l[k]? = some n) (f : Nat → Nat) :
    (l.modify k f).sum + n = l.sum + f n := by
  induction l generalizing k with
  | nil => cases found
  | cons head rest ih =>
      cases k with
      | zero =>
          cases found
          simp only [List.modify_zero_cons, List.sum_cons]
          omega
      | succ k =>
          have later := ih (k := k) found
          simp only [List.modify_succ_cons, List.sum_cons]
          omega

theorem send_spec {slot : Nat} {pipes : List Nat} (inside : slot < 2 * pipes.length) :
    ∃ after, send slot pipes = some after ∧ after.sum = pipes.sum + 1 ∧
      after.length = pipes.length := by
  have bound : slot / 2 < pipes.length := by omega
  refine ⟨_, if_pos inside, ?_, List.length_modify _ _ _⟩
  have added := sum_modify (List.getElem?_eq_getElem bound) (· + 1)
  omega

section Ring
variable {numActive idx : Nat} {numWrites : Int} {b next : Bench}

structure Round (numActive : Nat) (numWrites : Int) (b : Bench) : Prop where
  looping : b.looping = true
  rounds : b.rounds = 1
  served : (b.served : Int) = b.reads
  flight : (b.pipes.sum : Int) + b.reads = b.fired
  budget : b.fired + b.writes.toNat = numActive + numWrites.toNat
  -- as long as bytes are passed on, there are as many as in the beginning
  passed : 0 < b.writes → b.pipes.sum = numActive
  quits : b.quit = true ↔ b.pipes.sum = 0

/-- All the bytes of the first round are read when it is over, and those of a later one stay. -/
structure Spent (numActive : Nat) (numWrites : Int) (b : Bench) : Prop where
  looping : b.looping = false
  quit : b.quit = true
  served : b.served = numActive + numWrites.toNat
  rounds : 0 < b.rounds
  left : b.pipes.sum = (b.rounds - 1) * numActive

inductive Stage (numActive : Nat) (numWrites : Int) (b : Bench) : Prop
  | fresh (looping : b.looping = false) (quit : b.quit = false) (rounds : b.rounds = 0)
      (served : b.served = 0) (empty : b.pipes.sum = 0)
  | round (round : Round numActive numWrites b)
  | spent (spent : Spent numActive numWrites b)

theorem sends_inside {numPipes count : Nat} (pipes : 0 < numPipes) (bound : count < numActive) :
    count * (numPipes / numActive * 2) + 1 < 2 * numPipes := by
  have whole := Nat.div_mul_le_self numPipes numActive
  have step : (count + 1) * (numPipes / numActive) ≤ numPipes :=
    Nat.le_trans (Nat.mul_le_mul_right _ bound) (by rwa [Nat.mul_comm])
  rw [Nat.succ_mul] at step
  rw [← Nat.mul_assoc]
  rcases Nat.eq_zero_or_pos (numPipes / numActive) with none | some
  · rw [none]
    omega
  · omega

theorem runOnce_spec (numWrites : Int) (some : 0 < b.pipes.length) (active : 0 < numActive) :
    ∃ pipes, pipes.sum = b.pipes.sum + numActive ∧ pipes.length = b.pipes.length ∧
      runOnce numActive numWrites b = .some { b with
        pipes := pipes, writes := numWrites, reads := 0, fired := numActive, looping := !b.quit,
        rounds := b.rounds + 1 } := by
  have sent : ∀ count ≤ numActive, ∃ after, (List.range count).foldlM
      (fun pipes i => send (i * (b.pipes.length / numActive * 2) + 1) pipes) b.pipes = .some after ∧
        after.sum = b.pipes.sum + count ∧ after.length = b.pipes.length := by
    intro count bound
    induction count with
    | zero => exact ⟨_, rfl, rfl, rfl⟩
    | succ count ih =>
        obtain ⟨before, ran, sum, length⟩ := ih (Nat.le_of_succ_le bound)
        have inside := sends_inside some bound
        rw [← length] at inside
        obtain ⟨after, put, more, same⟩ := send_spec inside
        refine ⟨after, ?_, by omega, by omega⟩
        rw [List.range_succ, List.foldlM_append, ran, ← length]
        simpa using put
  obtain ⟨pipes, ran, sum, length⟩ := sent numActive (Nat.le_refl _)
  refine ⟨pipes, sum, length, ?_⟩
  unfold runOnce
  rw [if_neg active.ne']
  dsimp only
  rw [ran]
  rfl

theorem runOnce_stage (some : 0 < b.pipes.length) (active : 0 < numActive)
    (outside : b.looping = false) (stage : Stage numActive numWrites b)
    (ran : runOnce numActive numWrites b = .some next) : Stage numActive numWrites next := by
  obtain ⟨pipes, sum, -, made⟩ := runOnce_spec numWrites some active
  cases made.symm.trans ran
  cases stage with
  | fresh looping quit rounds served empty =>
      refine .round ⟨?_, ?_, ?_, ?_, rfl, fun _ => ?_, ?_⟩
      all_goals dsimp only
      · rw [quit]
        rfl
      · omega
      · omega
      · omega
      · omega
      · rw [quit]
        simp only [Bool.false_eq_true, false_iff]
        omega
  | round round => cases outside.symm.trans round.looping
  | spent spent =>
      refine .spent ⟨?_, spent.quit, spent.served, Nat.succ_pos _, ?_⟩
      all_goals dsimp only
      · rw [spent.quit]
        rfl
      · have rounds := spent.rounds
        rw [sum, spent.left, Nat.add_sub_cancel, ← Nat.succ_mul]
        congr 1
        omega

theorem readCallback_readable (ran : readCallback b idx = some next) :
    ∃ n, b.pipes[idx]? = some (n + 1) := by
  unfold readCallback at ran
  split at ran
  · exact ⟨_, ‹_›⟩
  · cases ran

theorem testEnd_eq {b : Bench} (looping : b.looping = true) (running : b.quit = false) :
    testEnd b = { b with quit := decide (b.fired = b.reads) } := by
  by_cases last : b.fired = b.reads
  · simp [testEnd, looping, last]
  · simp [testEnd, last, ← running]

theorem readCallback_round {n : Nat} (round : Round numActive numWrites b)
    (readable : b.pipes[idx]? = some (n + 1)) :
    ∃ next, readCallback b idx = some next ∧ next.pipes.length = b.pipes.length ∧
      Round numActive numWrites next := by
  obtain ⟨inside, -⟩ := List.getElem?_eq_some_iff.mp readable
  have taken := sum_modify readable (· - 1)
  have length : (b.pipes.modify idx (· - 1)).length = b.pipes.length := List.length_modify _ _ _
  have running : b.quit = false := by
    by_contra quit
    have empty := round.quits.mp (Bool.not_eq_false _ ▸ quit)
    omega
  have served := round.served
  have flight := round.flight
  have budget := round.budget
  by_cases writes : b.writes > 0
  · have slot : 2 * widx (b.pipes.modify idx (· - 1)).length idx + 1 <
        2 * (b.pipes.modify idx (· - 1)).length := by
      rw [length, widx]
      split <;> omega
    obtain ⟨after, sent, sum, same⟩ := send_spec slot
    have passed := round.passed writes
    have made : readCallback b idx = some { b with
        pipes := after, writes := b.writes - 1, reads := b.reads + 1, fired := b.fired + 1,
        quit := decide (b.fired + 1 = b.reads + 1), served := b.served + 1 } := by
      simp only [readCallback, readable, pass, writes, ↓reduceIte, sent, Option.map_some]
      rw [testEnd_eq]
      · exact round.looping
      · exact running
    refine ⟨_, made, same.trans length, round.looping, round.rounds, ?_, ?_, ?_, fun _ => ?_, ?_⟩
    all_goals dsimp only
    · omega
    · omega
    · omega
    · omega
    · rw [decide_eq_true_iff]
      omega
  · have made : readCallback b idx = some { b with
        pipes := b.pipes.modify idx (· - 1), reads := b.reads + 1,
        quit := decide (b.fired = b.reads + 1), served := b.served + 1 } := by
      simp only [readCallback, readable, pass, writes, ↓reduceIte, Option.map_some]
      rw [testEnd_eq]
      · exact round.looping
      · exact running
    refine ⟨_, made, length, round.looping, round.rounds, ?_, ?_, budget,
      fun more => absurd more writes, ?_⟩
    all_goals dsimp only
    · omega
    · omega
    · rw [decide_eq_true_iff]
      omega

theorem Round.quit_iff (round : Round numActive numWrites b) (active : 0 < numActive) :
    b.quit = true ↔ b.served = numActive + numWrites.toNat := by
  have served := round.served
  have flight := round.flight
  have budget := round.budget
  rw [round.quits]
  constructor
  · intro done
    by_cases more : 0 < b.writes
    · have still := round.passed more
      omega
    · omega
  · intro last
    omega

theorem step_stage {numPipes : Nat} {action : Action} (pipes : 0 < numPipes)
    (active : 0 < numActive)
    (inv : b.pipes.length = numPipes ∧ Stage numActive numWrites b)
    (stepped : step numActive numWrites b action = some next) :
    next.pipes.length = numPipes ∧ Stage numActive numWrites next := by
  obtain ⟨length, stage⟩ := inv
  cases action with
  | runOnce =>
      obtain ⟨⟨outside, -⟩, ran⟩ := Option.ite_none_right_eq_some.mp stepped
      have some : 0 < b.pipes.length := length ▸ pipes
      obtain ⟨after, -, same, made⟩ := runOnce_spec numWrites some active
      refine ⟨?_, runOnce_stage some active outside stage ran⟩
      cases made.symm.trans ran
      exact same.trans length
  | readCallback idx =>
      obtain ⟨inside, ran⟩ := Option.ite_none_right_eq_some.mp stepped
      cases stage with
      | fresh looping quit rounds served empty => cases inside.symm.trans looping
      | spent spent => cases inside.symm.trans spent.looping
      | round round =>
          obtain ⟨n, readable⟩ := readCallback_readable ran
          obtain ⟨after, made, same, still⟩ := readCallback_round round readable
          cases made.symm.trans ran
          exact ⟨same.trans length, .round still⟩
  | leave =>
      obtain ⟨⟨inside, quit⟩, made⟩ := Option.ite_none_right_eq_some.mp stepped
      cases made
      cases stage with
      | fresh looping quit rounds served empty => cases inside.symm.trans looping
      | spent spent => cases inside.symm.trans spent.looping
      | round round =>
          refine ⟨length, .spent ⟨rfl, quit, (round.quit_iff active).mp quit, ?_, ?_⟩⟩
          · exact round.rounds.symm ▸ Nat.one_pos
          · rw [round.rounds]
            simpa using round.quits.mp quit

end Ring

def twoRounds : List Action :=
  .runOnce :: [0, 1, 1, 2, 2].map .readCallback ++ [.leave, .runOnce]

end Muzi.TokenRing
