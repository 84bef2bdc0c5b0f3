import Muzi.Acceptor

/-!
What `HandleRead` of the acceptor does with descriptors: those that `accept4`
returned, and `dummy_fd_`, which it gives up for a moment when the process has no
descriptor left. `OpenIdleFile` that fails ends the process. A descriptor number
may come again once it was closed, so what happened to the descriptors is told by
the lists of them, in order or up to order, never by number alone.
-/

namespace Muzi.Acceptor

def Answer.descriptor : Answer → Option Int
  | .accepted fd _ => some fd
  | .eMFile _ _ | .eAgain | .eIntr | .eConnAborted | .other => none

def descriptors (answers : List Answer) : List Int := (heard answers).filterMap Answer.descriptor

def shut (a final : Acceptor) : List Int := final.closed.drop a.closed.length

/-- The placeholders given up, each with what was accepted in its place. -/
def givenUp : Int → List Answer → List Int
  | _, [] => []
  | dummy, .eMFile idle reopened :: rest => dummy :: idle :: givenUp reopened rest
  | dummy, _ :: rest => givenUp dummy rest

/-- `dummy_fd_`, and what was closed since it was opened. -/
def settle (callback : Bool) (placeholder : Int × List Int) : Answer → Int × List Int
  | .eMFile _ reopened => (reopened, [])
  | answer =>
      if callback then placeholder
      else (placeholder.1, placeholder.2 ++ (answer.call.map Prod.fst).toList)

/-- The placeholder behind the loop: the descriptor last opened, with what was closed
since. -/
def placeholder (a : Acceptor) (answers : List Answer) : Int × List Int :=
  (heard answers).foldl (settle a.callback) (a.dummyFd, [])

/-- The kernel does not hand out the number of the placeholder while that is open. -/
def KernelFresh : Int → List Answer → Prop
  | _, [] => True
  | dummy, .accepted fd _ :: rest => (fd : Int) ≠ dummy ∧ KernelFresh dummy rest
  | _, .eMFile _ reopened :: rest => KernelFresh reopened rest
  | dummy, _ :: rest => KernelFresh dummy rest

/-- `dummy_fd_` is the placeholder last opened, and was not closed since. -/
def Placed (a final : Acceptor) (answers : List Answer) : Prop :=
  final.dummyFd = (a.placeholder answers).1 ∧ 0 ≤ final.dummyFd ∧
    final.dummyFd ∉ (a.placeholder answers).2

structure Disposed (a final : Acceptor) (answers : List Answer) : Prop where
  real : ∀ connection ∈ a.made final, 0 ≤ connection.fd ∧ connection.fd ∈ descriptors answers
  delivered : a.callback = true →
    (a.made final).map Connection.fd = descriptors answers ∧
      (a.shut final).Perm (givenUp a.dummyFd (heard answers))
  closed : a.callback = false →
    ((a.shut final).filter fun fd => decide (0 ≤ fd)).Perm
      ((descriptors answers ++ givenUp a.dummyFd (heard answers)).filter fun fd => decide (0 ≤ fd))
  placeholder : a.Placed final answers

/-! What the loop closes. -/

section Loop
variable {place : Nat} {a final : Acceptor}

@[simp] theorem accept_closed (peer : SockAddr) : (a.accept place peer).closed = a.closed := rfl

@[simp] theorem accept_callback (peer : SockAddr) :
    (a.accept place peer).callback = a.callback := rfl

@[simp] theorem accept_dummyFd (peer : SockAddr) : (a.accept place peer).dummyFd = a.dummyFd := rfl

@[simp] theorem handOver_callback (fd : Int) : (a.handOver fd place).callback = a.callback := by
  unfold handOver
  split <;> rfl

@[simp] theorem handOver_dummyFd (fd : Int) : (a.handOver fd place).dummyFd = a.dummyFd := by
  unfold handOver
  split <;> rfl

theorem handOver_closed (fd : Int) :
    (a.handOver fd place).closed = a.closed ++ if a.callback then [] else [fd] := by
  unfold handOver
  split
  · rw [List.append_nil]
  · rfl

structure Left (a final : Acceptor) (answers : List Answer) (closed : List Int) : Prop where
  appended : final.closed = a.closed ++ closed
  closes : closed.Perm ((if a.callback then [] else (calls answers).map Prod.fst) ++
    givenUp a.dummyFd (heard answers))
  dummyFd : ∀ since, final.dummyFd =
    ((heard answers).foldl (settle a.callback) (a.dummyFd, since)).1

theorem left_handOver {answer : Answer} {rest : List Answer} {closed : List Int} {next : Acceptor}
    (fd : Int) (goes : answer.ends = false) (called : answer.call.map Prod.fst = some fd)
    (other : ∀ dummy more, givenUp dummy (answer :: more) = givenUp dummy more)
    (settles : ∀ callback known, (settle callback known answer).1 = known.1)
    (callback : next.callback = a.callback) (dummyFd : next.dummyFd = a.dummyFd)
    (appended : next.closed = a.closed ++ if a.callback then [] else [fd])
    (left : Left next final rest closed) :
    ∃ closed, Left a final (answer :: rest) closed := by
  have behind : heard (answer :: rest) = answer :: heard rest := by
    rw [heard, goes]
    rfl
  obtain ⟨call, told, named⟩ := Option.map_eq_some_iff.mp called
  refine ⟨(if a.callback then [] else [fd]) ++ closed, ?_, ?_, ?_⟩
  · rw [left.appended, appended, List.append_assoc]
  · have closes := left.closes
    rw [callback, dummyFd] at closes
    rw [behind, other, calls, behind, List.filterMap_cons_some told, List.map_cons, named]
    revert closes
    cases a.callback with
    | true => exact id
    | false => exact fun closes => closes.cons fd
  · intro since
    rw [behind, List.foldl_cons]
    have known := settles a.callback (a.dummyFd, since)
    have later := left.dummyFd (settle a.callback (a.dummyFd, since) answer).2
    rw [callback, dummyFd] at later
    rw [later]
    congr 2
    exact Prod.ext known.symm rfl

theorem acceptLoop_left {answers : List Answer}
    (ended : acceptLoop place a answers = some final) : ∃ closed, Left a final answers closed := by
  induction answers generalizing a with
  | nil => cases ended
  | cons answer rest ih =>
      cases answer with
      | accepted fd peer =>
          by_cases zero : fd = 0
          · rw [acceptLoop, if_pos zero] at ended
            cases ended
            subst zero
            refine ⟨[], by simp, ?_, ?_⟩
            · simp [calls, heard, Answer.ends, Answer.call, givenUp]
            · intro since
              cases callback : a.callback <;> simp [heard, Answer.ends, settle]
          · rw [acceptLoop, if_neg zero] at ended
            obtain ⟨closed, left⟩ := ih ended
            refine left_handOver fd (by simp [Answer.ends, zero])
              (by simp [Answer.call, zero]) (fun _ _ => rfl) ?_ (by simp) (by simp) ?_ left
            · intro callback known
              cases callback <;> rfl
            · rw [handOver_closed]
              rfl
      | eMFile idle reopened =>
          rw [acceptLoop] at ended
          obtain ⟨closed, left⟩ := ih ended
          refine ⟨a.dummyFd :: idle :: closed, ?_, ?_, ?_⟩
          · rw [left.appended]
            simp
          · have around := (left.closes.cons idle).cons a.dummyFd
            refine around.trans ((List.Perm.cons a.dummyFd ?_).trans List.perm_middle.symm)
            exact List.perm_middle.symm
          · intro since
            exact left.dummyFd []
      | eAgain =>
          cases ended
          refine ⟨[], by simp, ?_, ?_⟩
          · simp [calls, heard, Answer.ends, Answer.call, givenUp]
          · intro since
            cases callback : final.callback <;> simp [heard, Answer.ends, settle]
      | eIntr | eConnAborted =>
          obtain ⟨closed, left⟩ := ih ended
          refine left_handOver (-1) rfl rfl (fun _ _ => rfl) ?_ (by simp) (by simp)
            (handOver_closed _) left
          intro callback known
          cases callback <;> rfl
      | other => cases ended

end Loop

theorem handleRead_shut {a final : Acceptor} {answers : List Answer}
    (ended : a.handleRead answers = some final) :
    (a.shut final).Perm ((if a.callback then [] else (calls answers).map Prod.fst) ++
        givenUp a.dummyFd (heard answers)) ∧
      final.dummyFd = (a.placeholder answers).1 := by
  obtain ⟨closed, left⟩ := acceptLoop_left ended
  constructor
  · rw [shut, left.appended, List.drop_left]
    exact left.closes
  · exact left.dummyFd []

theorem placeholder_open (callback : Bool) (answers : List Answer) (known : Int × List Int)
    (fresh : KernelFresh known.1 answers) (real : 0 ≤ known.1) (unclosed : known.1 ∉ known.2) :
    0 ≤ (answers.foldl (settle callback) known).1 ∧
      (answers.foldl (settle callback) known).1 ∉ (answers.foldl (settle callback) known).2 := by
  induction answers generalizing known with
  | nil => exact ⟨real, unclosed⟩
  | cons answer rest ih =>
      rw [List.foldl_cons]
      cases answer with
      | eMFile idle reopened =>
          exact ih _ fresh (Int.natCast_nonneg reopened) (List.not_mem_nil)
      | accepted fd peer =>
          cases callback with
          | true => exact ih known fresh.2 real unclosed
          | false =>
              refine ih _ fresh.2 real ?_
              by_cases zero : fd = 0
              · simpa [settle, Answer.call, zero] using unclosed
              · simpa [settle, Answer.call, zero, unclosed] using fresh.1.symm
      | eIntr | eConnAborted =>
          cases callback with
          | true => exact ih known fresh real unclosed
          | false =>
              refine ih _ fresh real ?_
              have other : known.1 ≠ -1 := by omega
              simpa [settle, Answer.call, unclosed] using other
      | eAgain | other =>
          cases callback with
          | true => exact ih known fresh real unclosed
          | false => exact ih _ fresh real (by simpa [settle, Answer.call] using unclosed)

/-! Descriptors against calls. -/

/-- A failure that reaches the delivery code. -/
def Answer.fallsThrough : Answer → Bool
  | .eIntr | .eConnAborted => true
  | .accepted _ _ | .eMFile _ _ | .eAgain | .other => false

/-- No descriptor was 0, which ends the loop, and with a callback no `accept4` failed with
`EINTR` or `ECONNABORTED`. -/
def Clean (a : Acceptor) (answers : List Answer) : Prop :=
  ∀ answer ∈ heard answers, answer.descriptor ≠ some 0 ∧
    (a.callback = true → answer.fallsThrough = false)

instance (a : Acceptor) (answers : List Answer) : Decidable (a.Clean answers) :=
  inferInstanceAs (Decidable (∀ answer ∈ heard answers, _))

def Answer.handed (answer : Answer) : Option Int := answer.call.map Prod.fst

theorem calls_fst (answers : List Answer) :
    (calls answers).map Prod.fst = (heard answers).filterMap Answer.handed :=
  List.map_filterMap

theorem Answer.handed_eq_descriptor {answer : Answer} (nonzero : answer.descriptor ≠ some 0)
    (clean : answer.fallsThrough = false) : answer.handed = answer.descriptor := by
  cases answer with
  | accepted fd peer =>
      have other : fd ≠ 0 := by
        intro zero
        exact nonzero (by rw [Answer.descriptor, zero]; rfl)
      simp [Answer.handed, Answer.call, Answer.descriptor, other]
  | eIntr | eConnAborted => cases clean
  | eMFile idle reopened => rfl
  | eAgain | other => rfl

theorem Answer.handed_ne_zero (answer : Answer) : answer.handed ≠ some 0 := by
  cases answer with
  | accepted fd peer =>
      intro zero
      obtain ⟨call, told, same⟩ := Option.map_eq_some_iff.mp zero
      obtain ⟨nonzero, made⟩ := Option.ite_none_left_eq_some.mp told
      cases made
      exact nonzero (Int.ofNat_eq_zero.mp same)
  | eIntr | eConnAborted => decide
  | eMFile idle reopened =>
      intro told
      cases told
  | eAgain | other =>
      intro told
      cases told

theorem zero_not_handed (answers : List Answer) : (0 : Int) ∉ (calls answers).map Prod.fst := by
  rw [calls_fst]
  intro member
  obtain ⟨answer, -, handed⟩ := List.mem_filterMap.mp member
  exact answer.handed_ne_zero handed

theorem descriptor_nonneg {answers : List Answer} {fd : Int} (member : fd ∈ descriptors answers) :
    0 ≤ fd := by
  obtain ⟨answer, -, told⟩ := List.mem_filterMap.mp member
  cases answer with
  | accepted number peer =>
      cases told
      exact Int.natCast_nonneg number
  | eMFile idle reopened => cases told
  | eAgain | eIntr | eConnAborted | other => cases told

theorem handed_iff_clean (answers : List Answer) :
    (calls answers).map Prod.fst = descriptors answers ↔
      ∀ answer ∈ heard answers, answer.descriptor ≠ some 0 ∧ answer.fallsThrough = false := by
  constructor
  · intro same answer member
    constructor
    · intro zero
      apply zero_not_handed answers
      rw [same]
      exact List.mem_filterMap.mpr ⟨answer, member, zero⟩
    · apply Bool.eq_false_iff.mpr
      intro falls
      have negative : (-1 : Int) ∈ descriptors answers := by
        rw [← same, calls_fst]
        refine List.mem_filterMap.mpr ⟨answer, member, ?_⟩
        cases answer <;> first | rfl | cases falls
      exact absurd (descriptor_nonneg negative) (by decide)
  · intro clean
    rw [calls_fst, descriptors]
    exact List.filterMap_congr fun answer member =>
      Answer.handed_eq_descriptor (clean answer member).1 (clean answer member).2

theorem closed_iff_nonzero (answers : List Answer) (around : List Int) :
    (((calls answers).map Prod.fst ++ around).filter fun fd => decide (0 ≤ fd)).Perm
        ((descriptors answers ++ around).filter fun fd => decide (0 ≤ fd)) ↔
      ∀ answer ∈ heard answers, answer.descriptor ≠ some 0 := by
  rw [List.filter_append, List.filter_append, List.perm_append_right_iff]
  constructor
  · intro same answer member zero
    apply zero_not_handed answers
    have returned : (0 : Int) ∈ (descriptors answers).filter fun fd => decide (0 ≤ fd) :=
      List.mem_filter.mpr ⟨List.mem_filterMap.mpr ⟨answer, member, zero⟩, rfl⟩
    exact (List.mem_filter.mp (same.mem_iff.mpr returned)).1
  · intro nonzero
    rw [calls_fst, descriptors, List.filter_filterMap, List.filter_filterMap]
    apply List.Perm.of_eq
    apply List.filterMap_congr
    intro answer member
    by_cases falls : answer.fallsThrough = true
    · cases answer <;> first | rfl | cases falls
    · rw [Answer.handed_eq_descriptor (nonzero answer member) (Bool.eq_false_iff.mpr falls)]

section Disposed
variable {a final : Acceptor} {answers : List Answer} (placed : a.Placed final answers)
include placed

theorem disposed_iff_of_callback (set : a.callback = true)
    (fds : (a.made final).map Connection.fd = (calls answers).map Prod.fst)
    (closes : (a.shut final).Perm (givenUp a.dummyFd (heard answers))) :
    a.Disposed final answers ↔ a.Clean answers := by
  have handed := handed_iff_clean answers
  constructor
  · intro disposed answer member
    have clean := handed.mp (fds.symm.trans (disposed.delivered set).1) answer member
    exact ⟨clean.1, fun _ => clean.2⟩
  · intro clean
    have same := fds.trans (handed.mpr fun answer member =>
      ⟨(clean answer member).1, (clean answer member).2 set⟩)
    refine ⟨?_, fun _ => ⟨same, closes⟩, ?_, placed⟩
    · intro connection member
      have returned : connection.fd ∈ descriptors answers := by
        rw [← same]
        exact List.mem_map_of_mem member
      exact ⟨descriptor_nonneg returned, returned⟩
    · intro unset
      cases set.symm.trans unset

theorem disposed_iff_of_none (unset : a.callback = false) (none : a.made final = [])
    (closes : (a.shut final).Perm
      ((calls answers).map Prod.fst ++ givenUp a.dummyFd (heard answers))) :
    a.Disposed final answers ↔ a.Clean answers := by
  have nonzero := closed_iff_nonzero answers (givenUp a.dummyFd (heard answers))
  have filtered := closes.filter fun fd => decide (0 ≤ fd)
  constructor
  · intro disposed answer member
    refine ⟨nonzero.mp (filtered.symm.trans (disposed.closed unset)) answer member, ?_⟩
    intro set
    cases set.symm.trans unset
  · intro clean
    refine ⟨?_, ?_, fun _ => ?_, placed⟩
    · intro connection member
      rw [none] at member
      cases member
    · intro set
      cases set.symm.trans unset
    · exact filtered.trans (nonzero.mpr fun answer member => (clean answer member).1)

end Disposed

/-- Behind a `HandleRead` every descriptor that `accept4` returned was passed to the callback
once, or closed once when there is none, nothing else was passed, and the placeholder is
open, exactly when no descriptor was 0 and no failure fell through to the callback. -/
theorem descriptors_disposed_iff {a final : Acceptor} (answers : List Answer)
    (ended : a.handleRead answers = some final) (real : 0 ≤ a.dummyFd)
    (fresh : KernelFresh a.dummyFd (heard answers)) :
    a.Disposed final answers ↔ a.Clean answers := by
  obtain ⟨closes, dummyFd⟩ := handleRead_shut ended
  obtain ⟨made, -⟩ := handleRead_left ended
  have fds : (a.made final).map Connection.fd = (a.passed answers).map Prod.fst := by
    rw [made, List.map_map]
    rfl
  unfold passed at fds
  have placed : a.Placed final answers := by
    rw [Placed, dummyFd]
    exact ⟨rfl, placeholder_open a.callback (heard answers) (a.dummyFd, []) fresh real
      List.not_mem_nil⟩
  cases set : a.callback with
  | true =>
      rw [set] at fds closes
      exact disposed_iff_of_callback placed set fds closes
  | false =>
      rw [set] at fds closes
      exact disposed_iff_of_none placed set (List.map_eq_nil_iff.mp fds) closes

/-- Two connections and a batch in which the descriptors ran out in between. -/
theorem descriptors_disposed_iff_exhausted : ∃ final,
    (listening .AF_INET).handleRead
        [.accepted 8 (ipv4 1), .eMFile 3 3, .accepted 9 (ipv4 2), .eAgain] = some final ∧
      ((listening .AF_INET).Disposed final
          [.accepted 8 (ipv4 1), .eMFile 3 3, .accepted 9 (ipv4 2), .eAgain] ↔
        (listening .AF_INET).Clean
          [.accepted 8 (ipv4 1), .eMFile 3 3, .accepted 9 (ipv4 2), .eAgain]) := by
  refine ⟨_, rfl, descriptors_disposed_iff _ rfl (by decide) ?_⟩
  exact ⟨by decide, by decide, trivial⟩

/-- An aborted connection: the callback is invoked with -1. With descriptor 0 free, the socket
that gets it is neither passed on nor closed. -/
theorem descriptors_lost :
    (∃ final, (listening .AF_INET).handleRead [.eConnAborted, .eAgain] = some final ∧
      final.connections = [⟨-1, 0⟩]) ∧
    ∃ final, (listening .AF_INET).handleRead [.accepted 0 (ipv4 1)] = some final ∧
      final.connections = [] ∧ final.closed = [] :=
  ⟨⟨_, rfl, rfl⟩, ⟨_, rfl, rfl, rfl⟩⟩

end Muzi.Acceptor
