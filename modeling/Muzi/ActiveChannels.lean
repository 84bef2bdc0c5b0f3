import Muzi.DescriptorReuse

/-!
`EventLoop::Loop` walks through `active_channels_`, which are bare pointers that `Poll`
took from the kernel. A handler may have other connections of its loop closed, and a
connection that is destroyed takes its channel with it. The server and its pollers are
those of DescriptorReuse.lean: a channel that was closed may be in the epoll set again, and
none is updated behind its `DestroyConnection`. Each loop has the rest of its walk, and
`touched` notes every channel that `HandleEvent` was called on, with what had become of its
connection. The channels of the acceptor, the timers and the wakeup are not in the walk:
they are there as long as their loop is.
-/

namespace Muzi

structure Touch where
  loop : Nat
  conn : Nat
  up : Bool
  destroyed : Bool
  deriving DecidableEq

structure ActiveChannels where
  base : DescriptorReuse
  -- the part of `active_channels_` the loop has not come to
  active : Nat → List Nat
  -- the one it came to last
  handled : Nat → Option Nat
  touched : List Touch

namespace ActiveChannels

open Execution TcpServer
open EpollPoller (Operation)

inductive Action where
  | base (action : DescriptorReuse.Action)
  -- `Poll` returns
  | poll (i : Nat) (active : List Nat)
  | handleEvent (i : Nat)
  | executeFunctors (i : Nat)

def mayStep : DescriptorReuse.Action → Bool
  | .server (.machine _ (.loop .pollReturn)) | .server (.machine _ (.loop .beginExecute)) => false
  | _ => true

def between (s : TcpServer) (i : Nat) : Bool :=
  !(s.loops i).queueing && (s.frames i).isEmpty &&
    match (s.loops i).phase with
    | .handling => true
    | _ => false

section
variable (fd : Nat → Nat)

/-- `epoll_wait` of loop `i` may return the channel of the connection. -/
def registered (d : DescriptorReuse) (i c : Nat) : Bool :=
  match (d.pollers i).epoll (fd c) with
  | some (_, id) => id == c
  | none => false

def step (a : ActiveChannels) : Action → Option ActiveChannels
  | .base action =>
      if mayStep action then
        (DescriptorReuse.step fd a.base action).map fun base => { a with base := base }
      else none
  | .poll i active =>
      if active.Nodup ∧ active.all (registered fd a.base i) = true then
        (DescriptorReuse.step fd a.base (.server (.machine i (.loop .pollReturn)))).map fun base =>
          { a with
            base := base
            active := Function.update a.active i active
            handled := Function.update a.handled i none }
      else none
  | .handleEvent i =>
      match a.active i with
      | c :: rest =>
          if between a.base.server i then
            some { a with
              active := Function.update a.active i rest
              handled := Function.update a.handled i (some c)
              touched := a.touched ++ [⟨i, c, a.base.server.up c, a.base.server.destroyed c⟩] }
          else none
      | [] => none
  | .executeFunctors i =>
      if a.active i = [] then
        (DescriptorReuse.step fd a.base (.server (.machine i (.loop .beginExecute)))).map
          fun base => { a with base := base }
      else none

def init (start : Start) : ActiveChannels where
  base := .init fd start
  active _ := []
  handled _ := none
  touched := []

end

/-- `HandleClose` runs at most once on a connection. -/
def Asserted (a : ActiveChannels) : Action → Prop
  | .base action => a.base.Asserted action
  | _ => True

instance (a : ActiveChannels) : ∀ action, Decidable (a.Asserted action)
  | .base action => inferInstanceAs (Decidable (a.base.Asserted action))
  | .poll _ _ | .handleEvent _ | .executeFunctors _ => isTrue trivial

section Walk
variable {fd : Nat → Nat} {a next : ActiveChannels} {action : Action} {i c : Nat}

theorem registered_iff {d : DescriptorReuse} :
    registered fd d i c = true ↔ ∃ events, (d.pollers i).epoll (fd c) = some (events, c) := by
  unfold registered
  split
  · rename_i events id found
    simp [found]
  · rename_i none
    simp [none]

inductive Moves (fd : Nat → Nat) (a : ActiveChannels) : Action → ActiveChannels → Prop
  | base {action : DescriptorReuse.Action} {base : DescriptorReuse} (may : mayStep action = true)
      (stepped : DescriptorReuse.step fd a.base action = some base) :
      Moves fd a (.base action) { a with base := base }
  | poll {i : Nat} {active : List Nat} {base : DescriptorReuse} (distinct : active.Nodup)
      (polled : ∀ c ∈ active, registered fd a.base i c = true)
      (stepped : DescriptorReuse.step fd a.base (.server (.machine i (.loop .pollReturn))) =
        some base) :
      Moves fd a (.poll i active)
        { a with
          base := base
          active := Function.update a.active i active
          handled := Function.update a.handled i none }
  | handleEvent {i c : Nat} {rest : List Nat} (active : a.active i = c :: rest)
      (idle : a.base.server.frames i = []) :
      Moves fd a (.handleEvent i)
        { a with
          active := Function.update a.active i rest
          handled := Function.update a.handled i (some c)
          touched := a.touched ++ [⟨i, c, a.base.server.up c, a.base.server.destroyed c⟩] }
  | executeFunctors {i : Nat} {base : DescriptorReuse} (done : a.active i = [])
      (stepped : DescriptorReuse.step fd a.base (.server (.machine i (.loop .beginExecute))) =
        some base) :
      Moves fd a (.executeFunctors i) { a with base := base }

theorem step_moves (stepped : step fd a action = some next) : Moves fd a action next := by
  cases action with
  | base action =>
      obtain ⟨may, moved⟩ := Option.ite_none_right_eq_some.mp stepped
      obtain ⟨base, inner, rfl⟩ := Option.map_eq_some_iff.mp moved
      exact .base may inner
  | poll i active =>
      obtain ⟨⟨distinct, polled⟩, moved⟩ := Option.ite_none_right_eq_some.mp stepped
      obtain ⟨base, inner, rfl⟩ := Option.map_eq_some_iff.mp moved
      exact .poll distinct (List.all_eq_true.mp polled) inner
  | handleEvent i =>
      simp only [step] at stepped
      split at stepped
      · rename_i c rest active
        obtain ⟨between, made⟩ := Option.ite_none_right_eq_some.mp stepped
        cases made
        simp only [ActiveChannels.between, Bool.and_eq_true, List.isEmpty_iff] at between
        exact .handleEvent active between.1.2
      · cases stepped
  | executeFunctors i =>
      obtain ⟨done, moved⟩ := Option.ite_none_right_eq_some.mp stepped
      obtain ⟨base, inner, rfl⟩ := Option.map_eq_some_iff.mp moved
      exact .executeFunctors done inner

theorem mem_rest {j d : Nat} {rest : List Nat} (active : a.active j = d :: rest)
    (member : c ∈ Function.update a.active j rest i) : c ∈ a.active i := by
  by_cases same : i = j
  · subst same
    rw [Function.update_self] at member
    exact active ▸ List.mem_cons_of_mem _ member
  · rwa [Function.update_of_ne same] at member

theorem Moves.created (moved : Moves fd a action next) :
    a.base.server.created ≤ next.base.server.created := by
  cases moved with
  | base _ stepped | poll _ _ stepped | executeFunctors _ stepped =>
      exact DescriptorReuse.step_created stepped
  | handleEvent => exact Nat.le_refl _

structure Walking (fd : Nat → Nat) (a : ActiveChannels) : Prop where
  base : DescriptorReuse.Inv fd a.base
  handling : ∀ i, a.active i ≠ [] → (a.base.server.loops i).phase = .handling
  here : ∀ i, ∀ c ∈ a.active i,
    c < a.base.server.created ∧ (a.base.server.conns c).loop = i

theorem Walking.handles (walking : Walking fd a) (member : c ∈ a.active i) :
    (a.base.server.loops i).phase = .handling :=
  walking.handling i (List.ne_nil_of_mem member)

theorem Walking.registered_inTable (walking : Walking fd a)
    (polled : registered fd a.base i c = true) :
    (a.base.server.conns c).loop = i ∧ a.base.server.inTable c = true := by
  obtain ⟨events, found⟩ := registered_iff.mp polled
  exact (walking.base.tables.epoll found).2

theorem base_owner {action : DescriptorReuse.Action} {d base : DescriptorReuse}
    (stepped : DescriptorReuse.step fd d action = some base) (inside : c < d.server.created) :
    c < base.server.created ∧ (base.server.conns c).loop = (d.server.conns c).loop := by
  cases action with
  | server action => exact (DescriptorReuse.step_server stepped).owner inside
  | update e op =>
      rw [DescriptorReuse.step_update stepped]
      exact ⟨inside, rfl⟩

theorem base_handling {action : DescriptorReuse.Action} {d base : DescriptorReuse}
    (stepped : DescriptorReuse.step fd d action = some base)
    (handling : (d.server.loops i).phase = .handling)
    (other : action ≠ .server (.machine i (.loop .beginExecute))) :
    (base.server.loops i).phase = .handling := by
  cases action with
  | server action =>
      exact (DescriptorReuse.step_server stepped).handling handling
        fun begins => other (by rw [begins])
  | update e op => rwa [DescriptorReuse.step_update stepped]

theorem Walking.owner {action : DescriptorReuse.Action} {base : DescriptorReuse}
    (walking : Walking fd a) (stepped : DescriptorReuse.step fd a.base action = some base)
    (member : c ∈ a.active i) :
    c < base.server.created ∧ (base.server.conns c).loop = i := by
  obtain ⟨inside, own⟩ := walking.here i c member
  exact ⟨(base_owner stepped inside).1, (base_owner stepped inside).2.trans own⟩

theorem Moves.walking (walking : Walking fd a) (few : next.base.server.created < maxConnections)
    (once : a.Asserted action) (moved : Moves fd a action next) : Walking fd next := by
  cases moved with
  | base may stepped =>
      refine ⟨DescriptorReuse.step_inv walking.base few once stepped, fun i busy => ?_,
        fun i c => walking.owner stepped⟩
      refine base_handling stepped (walking.handling i busy) fun begins => ?_
      rw [begins] at may
      cases may
  | poll distinct polled stepped =>
      rename_i j active base
      refine ⟨DescriptorReuse.step_inv walking.base few (by exact trivial) stepped,
        fun i busy => ?_, fun i c member => ?_⟩
      · by_cases same : i = j
        · subst same
          exact (pollReturn_phase (DescriptorReuse.step_server stepped)).2
        · refine base_handling stepped (walking.handling i ?_) fun other => by cases other
          simpa [same] using busy
      · by_cases same : i = j
        · subst same
          simp only [Function.update_self] at member
          obtain ⟨own, table⟩ := walking.registered_inTable (polled c member)
          obtain ⟨stages, server⟩ := walking.base.server
          have owner := base_owner stepped (server.inTable_created table).1
          exact ⟨owner.1, owner.2.trans own⟩
        · simp only [Function.update_of_ne same] at member
          exact walking.owner stepped member
  | handleEvent active idle =>
      refine ⟨walking.base, fun i busy => ?_, fun i c member => ?_⟩
      · obtain ⟨c, member⟩ := List.exists_mem_of_ne_nil _ busy
        exact walking.handles (mem_rest active member)
      · exact walking.here i c (mem_rest active member)
  | executeFunctors done stepped =>
      refine ⟨DescriptorReuse.step_inv walking.base few (by exact trivial) stepped,
        fun i busy => ?_, fun i c => walking.owner stepped⟩
      refine base_handling stepped (walking.handling i busy) fun begins => ?_
      cases begins
      exact busy done

/-- A loop at its channels destroys one of its connections only in the base loop, when the callback
of its `HandleClose` returns. -/
theorem Walking.destroys {action : DescriptorReuse.Action} {base : DescriptorReuse}
    (walking : Walking fd a) (stepped : DescriptorReuse.step fd a.base action = some base)
    (member : c ∈ a.active i) (alive : a.base.server.destroyed c = false)
    (dead : base.server.destroyed c = true) : i = 0 ∧ c ∈ a.base.server.frames i := by
  cases action with
  | update e op =>
      rw [DescriptorReuse.step_update stepped, alive] at dead
      cases dead
  | server action =>
      obtain ⟨stages, server⟩ := walking.base.server
      obtain ⟨inside, own⟩ := walking.here i c member
      obtain ⟨j, noted⟩ := destroyed_iff.mp dead
      rcases (DescriptorReuse.step_server stepped).destroys server noted with
        old | ⟨here, base | ⟨rest, running⟩⟩
      · exact absurd (destroyed_iff.mpr ⟨j, old⟩) (Bool.not_eq_true _ ▸ alive)
      · obtain rfl := own.symm.trans here
        exact base
      · rw [← here, own, walking.handles member] at running
        cases running

theorem Walking.polled_alive {base : DescriptorReuse} (walking : Walking fd a)
    (polled : registered fd a.base i c = true)
    (stepped : DescriptorReuse.step fd a.base (.server (.machine i (.loop .pollReturn))) =
      some base) : base.server.destroyed c = false := by
  obtain ⟨stages, server⟩ := walking.base.server
  have before := (server.inTable_created (walking.registered_inTable polled).2).2
  unfold destroyed at before ⊢
  rwa [(DescriptorReuse.step_server stepped).machine_same.1]

structure PoolAlive (a : ActiveChannels) : Prop where
  active : ∀ i ≠ 0, ∀ c ∈ a.active i, a.base.server.destroyed c = false
  touched : ∀ touch ∈ a.touched, touch.loop ≠ 0 → touch.destroyed = false

theorem PoolAlive.stepped {action : DescriptorReuse.Action} {base : DescriptorReuse}
    (alive : PoolAlive a) (walking : Walking fd a)
    (stepped : DescriptorReuse.step fd a.base action = some base) (pool : i ≠ 0)
    (member : c ∈ a.active i) : base.server.destroyed c = false := by
  rw [Bool.eq_false_iff]
  exact fun dead => pool
    (walking.destroys stepped member (alive.active i pool c member) dead).1

theorem Moves.poolAlive (walking : Walking fd a) (alive : PoolAlive a)
    (moved : Moves fd a action next) : PoolAlive next := by
  cases moved with
  | base may stepped =>
      exact ⟨fun i pool c member => alive.stepped walking stepped pool member, alive.touched⟩
  | poll distinct polled stepped =>
      rename_i j active base
      refine ⟨fun i pool c member => ?_, alive.touched⟩
      by_cases same : i = j
      · subst same
        simp only [Function.update_self] at member
        exact walking.polled_alive (polled c member) stepped
      · simp only [Function.update_of_ne same] at member
        exact alive.stepped walking stepped pool member
  | handleEvent active idle =>
      rename_i j d rest
      refine ⟨fun i pool c member => alive.active i pool c (mem_rest active member),
        fun touch member pool => ?_⟩
      · rcases List.mem_append.mp member with old | new
        · exact alive.touched touch old pool
        · cases List.mem_singleton.mp new
          exact alive.active j pool d (active ▸ List.mem_cons_self)
  | executeFunctors done stepped =>
      exact ⟨fun i pool c member => alive.stepped walking stepped pool member, alive.touched⟩

theorem init_walking (fd : Nat → Nat) (start : Start) : Walking fd (init fd start) where
  base := DescriptorReuse.init_inv fd start
  handling _ busy := absurd rfl busy
  here _ _ member := absurd member List.not_mem_nil

end Walk

/-- In a loop of the pool `active_channels_` has no dangling pointer, whatever the handlers close
and whatever is watched again behind its close: where `HandleClose` runs at most once on a
connection, `HandleEvent` is never called on the channel of one that was destroyed. -/
theorem pool_channels_never_dangle (fd : Nat → Nat) (start : Start) (actions : List Action)
    (final : ActiveChannels) (touch : Touch)
    (ran : run (step fd) (init fd start) actions = some final)
    (few : final.base.server.created < maxConnections)
    (once : Along (step fd) Asserted (init fd start) actions) (touched : touch ∈ final.touched)
    (pool : touch.loop ≠ 0) : touch.destroyed = false := by
  have both := run_invariant_along
    (fun a => a.base.server.created < maxConnections → Walking fd a ∧ PoolAlive a) ?_
    (fun _ => ⟨init_walking fd start, ⟨fun _ _ _ member => absurd member List.not_mem_nil,
      fun _ member => absurd member List.not_mem_nil⟩⟩) once ran few
  · exact both.2.touched touch touched pool
  · intro a action next inv asserted stepped bound
    have moved := step_moves stepped
    obtain ⟨walking, alive⟩ := inv (Nat.lt_of_le_of_lt moved.created bound)
    exact ⟨moved.walking walking bound asserted, moved.poolAlive walking alive⟩

def walk (i : Nat) (actions : List (EventLoop.LoopAction Task)) : List Action :=
  (turn i actions).map fun action => .base (.server action)

/-- Two connections of the one loop of the pool. Reading of the second is stopped, and the handler
of the first closes it: `DisableAll` adds its channel to the epoll set again. The next round finds
it there, before its `DestroyConnection` has run. -/
def closedWatchedAgain : List Action :=
  [walk 0 [.enter, .poll], [.poll 0 [], .base (.server .newConnection),
      .base (.server (.machine 1 (.pushed 0))), .base (.server .newConnection),
      .base (.server (.machine 1 (.pushed 0)))],
    walk 1 [.enter, .poll], [.poll 1 [], .executeFunctors 1], walk 1 [.swap],
    [.base (.server (.runFunctor 1))], walk 1 [.functorReturn], [.base (.server (.runFunctor 1))],
    walk 1 [.functorReturn, .finish, .poll], [.poll 1 [0], .handleEvent 1,
      .base (.update 1 .disableReading), .base (.server (.handleClose 1)),
      .base (.server (.callbackReturn 1)), .base (.server (.machine 0 (.pushed 1))),
      .executeFunctors 1], walk 1 [.swap, .finish, .poll],
    [.poll 1 [1], .handleEvent 1]].flatten

theorem closed_watched_not_destroyed : ∃ final touch,
    run (step (· + 5)) (init (· + 5) (Start.fresh "echo" 1)) closedWatchedAgain = some final ∧
      touch ∈ final.touched ∧ touch.conn = 1 ∧ touch.up = false ∧ touch.destroyed = false := by
  have checked : (run (step (· + 5)) (init (· + 5) (Start.fresh "echo" 1)) closedWatchedAgain).map
      (fun final => (final.base.server.created, final.touched)) =
        some (2, [⟨1, 0, true, false⟩, ⟨1, 1, false, false⟩]) := by decide +kernel
  obtain ⟨final, ran, seen⟩ := Option.map_eq_some_iff.mp checked
  simp only [Prod.mk.injEq] at seen
  obtain ⟨two, touched⟩ := seen
  have second : ⟨1, 1, false, false⟩ ∈ final.touched := by simp [touched]
  have alive := pool_channels_never_dangle (· + 5) (Start.fresh "echo" 1) _ final _ ran
    (by rw [two]; decide) (by decide +kernel) second (by decide)
  exact ⟨final, _, ran, second, rfl, rfl, alive⟩

/-- Two connections of the base loop, which destroys a connection at once: the handler of the
first closes the second. -/
def baseClosesNext : List Action :=
  [walk 0 [.enter, .poll], [.poll 0 [], .base (.server .newConnection),
      .base (.server .newConnection), .executeFunctors 0], walk 0 [.swap, .finish, .poll],
    [.poll 0 [0, 1], .handleEvent 0, .base (.server (.handleClose 1)),
      .base (.server (.callbackReturn 0)), .handleEvent 0]].flatten

-- The pointer dangles: `tied_` is read from a channel that may be gone.
example : (run (step (· + 5)) (init (· + 5) (Start.fresh "echo" 0)) baseClosesNext).map touched =
    some [⟨0, 0, true, false⟩, ⟨0, 1, false, true⟩] := by decide +kernel

/-- In a handler only the connection it belongs to is closed. -/
def closesOwn (a : ActiveChannels) : Action → Bool
  | .base (.server (.handleClose c)) =>
      match (a.base.server.loops (a.base.server.conns c).loop).phase with
      | .handling => a.handled (a.base.server.conns c).loop == some c
      | _ => true
  | _ => true

section Own
variable {fd : Nat → Nat} {a next : ActiveChannels} {action : Action} {i c : Nat}

theorem closesOwn_handled (closes : closesOwn a (.base (.server (.handleClose c))) = true)
    (handling : (a.base.server.loops (a.base.server.conns c).loop).phase = .handling) :
    a.handled (a.base.server.conns c).loop = some c := by
  simpa [closesOwn, handling] using closes

/-- What the loops have before them is not destroyed, and is not about to be. -/
structure AllAlive (a : ActiveChannels) : Prop where
  active : ∀ i, ∀ c ∈ a.active i, a.base.server.destroyed c = false
  distinct : ∀ i, (a.active i).Nodup
  apart : ∀ i c, a.handled i = some c → c ∉ a.active i
  frames : ∀ i, (a.base.server.loops i).phase = .handling →
    ∀ c ∈ a.base.server.frames i, a.handled i = some c
  touched : ∀ touch ∈ a.touched, touch.destroyed = false

theorem AllAlive.stepped {action : DescriptorReuse.Action} {base : DescriptorReuse}
    (alive : AllAlive a) (walking : Walking fd a)
    (stepped : DescriptorReuse.step fd a.base action = some base) (member : c ∈ a.active i) :
    base.server.destroyed c = false := by
  rw [Bool.eq_false_iff]
  intro dead
  obtain ⟨-, frame⟩ := walking.destroys stepped member (alive.active i c member) dead
  exact alive.apart i c (alive.frames i (walking.handles member) c frame) member

theorem AllAlive.framed {action : DescriptorReuse.Action} {base : DescriptorReuse}
    (alive : AllAlive a) (stepped : DescriptorReuse.step fd a.base action = some base)
    (closes : closesOwn a (.base action) = true)
    (handling : (base.server.loops i).phase = .handling) (frame : c ∈ base.server.frames i) :
    a.handled i = some c := by
  cases action with
  | update e op =>
      rw [DescriptorReuse.step_update stepped] at handling frame
      exact alive.frames i handling c frame
  | server action =>
      obtain ⟨before, old | ⟨rfl, rfl⟩⟩ :=
        (DescriptorReuse.step_server stepped).framed handling frame
      · exact alive.frames i before c old
      · exact closesOwn_handled closes before

theorem Moves.allAlive (walking : Walking fd a) (alive : AllAlive a)
    (closes : closesOwn a action = true) (moved : Moves fd a action next) : AllAlive next := by
  cases moved with
  | base may stepped =>
      exact ⟨fun i c member => alive.stepped walking stepped member, alive.distinct, alive.apart,
        fun i handling c frame => alive.framed stepped closes handling frame, alive.touched⟩
  | poll distinct polled stepped =>
      rename_i j active base
      refine ⟨fun i c member => ?_, fun i => ?_, fun i c handled => ?_,
        fun i handling c frame => ?_, alive.touched⟩
      · by_cases same : i = j
        · subst same
          simp only [Function.update_self] at member
          exact walking.polled_alive (polled c member) stepped
        · simp only [Function.update_of_ne same] at member
          exact alive.stepped walking stepped member
      · by_cases same : i = j
        · subst same
          simpa using distinct
        · simpa [same] using alive.distinct i
      · by_cases same : i = j
        · subst same
          simp at handled
        · simp only [Function.update_of_ne same] at handled ⊢
          exact alive.apart i c handled
      · by_cases same : i = j
        · subst same
          have server := DescriptorReuse.step_server stepped
          cases (server.framed handling frame).1.symm.trans (pollReturn_phase server).1
        · simpa [same] using alive.framed stepped rfl handling frame
  | handleEvent active idle =>
      rename_i j d rest
      have split : d ∉ rest ∧ rest.Nodup := List.nodup_cons.mp (active ▸ alive.distinct j)
      have here : d ∈ a.active j := active ▸ List.mem_cons_self
      refine ⟨fun i c member => alive.active i c (mem_rest active member), fun i => ?_,
        fun i c handled => ?_, fun i handling c frame => ?_, fun touch member => ?_⟩
      · by_cases same : i = j
        · subst same
          simpa using split.2
        · simpa [same] using alive.distinct i
      · by_cases same : i = j
        · subst same
          simp only [Function.update_self] at handled ⊢
          cases handled
          exact split.1
        · simp only [Function.update_of_ne same] at handled ⊢
          exact alive.apart i c handled
      · by_cases same : i = j
        · subst same
          rw [idle] at frame
          cases frame
        · simpa [same] using alive.frames i handling c frame
      · rcases List.mem_append.mp member with old | new
        · exact alive.touched touch old
        · cases List.mem_singleton.mp new
          exact alive.active j d here
  | executeFunctors done stepped =>
      exact ⟨fun i c member => alive.stepped walking stepped member, alive.distinct, alive.apart,
        fun i handling c frame => alive.framed stepped rfl handling frame, alive.touched⟩

end Own

/-- When handlers close no connection but their own, no loop calls `HandleEvent` on the channel of
a connection that was destroyed, and the base loop does not either. -/
theorem walk_never_dangles (fd : Nat → Nat) (start : Start) (actions : List Action)
    (final : ActiveChannels) (touch : Touch)
    (ran : run (step fd) (init fd start) actions = some final)
    (few : final.base.server.created < maxConnections)
    (own : Along (step fd) (fun a action => a.Asserted action ∧ closesOwn a action = true)
      (init fd start) actions)
    (touched : touch ∈ final.touched) : touch.destroyed = false := by
  have both := run_invariant_along
    (fun a => a.base.server.created < maxConnections → Walking fd a ∧ AllAlive a) ?_
    (fun _ => ⟨init_walking fd start, ⟨fun _ _ member => absurd member List.not_mem_nil,
      fun _ => List.nodup_nil, fun _ _ _ => List.not_mem_nil,
      fun _ _ _ frame => absurd frame List.not_mem_nil,
      fun _ member => absurd member List.not_mem_nil⟩⟩) own ran few
  · exact both.2.touched touch touched
  · intro a action next inv closes stepped bound
    have moved := step_moves stepped
    obtain ⟨walking, alive⟩ := inv (Nat.lt_of_le_of_lt moved.created bound)
    exact ⟨moved.walking walking bound closes.1, moved.allAlive walking alive closes.2⟩

/-- Two connections of the base loop, both readable: the handler of the first closes its own. -/
def baseClosesOwn : List Action :=
  [walk 0 [.enter, .poll], [.poll 0 [], .base (.server .newConnection),
      .base (.server .newConnection), .executeFunctors 0], walk 0 [.swap, .finish, .poll],
    [.poll 0 [0, 1], .handleEvent 0, .base (.server (.handleClose 0)),
      .base (.server (.callbackReturn 0)), .handleEvent 0]].flatten

theorem first_destroyed_second_alive : ∃ final touch,
    run (step (· + 5)) (init (· + 5) (Start.fresh "echo" 0)) baseClosesOwn = some final ∧
      final.base.server.destroyed 0 = true ∧ touch ∈ final.touched ∧ touch.conn = 1 ∧
      touch.destroyed = false := by
  have checked : (run (step (· + 5)) (init (· + 5) (Start.fresh "echo" 0)) baseClosesOwn).map
      (fun final => (final.base.server.created, final.base.server.destroyed 0, final.touched)) =
        some (2, true, [⟨0, 0, true, false⟩, ⟨0, 1, true, false⟩]) := by decide +kernel
  obtain ⟨final, ran, seen⟩ := Option.map_eq_some_iff.mp checked
  simp only [Prod.mk.injEq] at seen
  obtain ⟨two, gone, touched⟩ := seen
  have second : ⟨0, 1, true, false⟩ ∈ final.touched := by simp [touched]
  have alive := walk_never_dangles (· + 5) (Start.fresh "echo" 0) _ final _ ran
    (by rw [two]; decide) (by decide +kernel) second
  exact ⟨final, _, ran, gone, second, rfl, alive⟩

end ActiveChannels

end Muzi
