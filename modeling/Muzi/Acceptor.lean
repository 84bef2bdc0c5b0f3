import Mathlib.Data.List.Forall2
import Mathlib.Data.List.Induction

/-!
net/acceptor.cc: `HandleRead`, with `socket::Accept` below it and the part of
`TcpServer::NewConnection` above it that keeps the peer's address. An
`AddressPtr` is the place of its object in the order in which the objects were
made, so two pointers to one object are one number. Addresses are the bytes that
the kernel reads and writes. `LOG_FATAL` ends the process.
-/

namespace Muzi

inductive Family where
  | AF_INET
  | AF_INET6
  deriving DecidableEq

namespace Family

/-- `sizeof(sockaddr_in)` and `sizeof(sockaddr_in6)`. -/
def size : Family → Nat
  | .AF_INET => 16
  | .AF_INET6 => 28

/-- `sin_family` in memory. -/
def code : Family → List UInt8
  | .AF_INET => [2, 0]
  | .AF_INET6 => [10, 0]

end Family

structure SockAddr where
  family : Family
  data : List UInt8
  sized : data.length + 2 = family.size
  deriving DecidableEq

/-- The union of `sockaddr_in` and `sockaddr_in6`. -/
structure InetAddress where
  bytes : List UInt8
  sized : bytes.length = 28
  deriving DecidableEq

def sizeofSockaddr : Nat := 16

namespace SockAddr

def bytes (peer : SockAddr) : List UInt8 := peer.family.code ++ peer.data

theorem bytes_length (peer : SockAddr) : peer.bytes.length = peer.family.size := by
  have code : peer.family.code.length = 2 := by cases peer.family <;> rfl
  rw [bytes, List.length_append, code, Nat.add_comm]
  exact peer.sized

theorem sizeofSockaddr_le (peer : SockAddr) : sizeofSockaddr ≤ peer.bytes.length := by
  rw [bytes_length]
  cases peer.family <;> decide

theorem bytes_length_le (peer : SockAddr) : peer.bytes.length ≤ 28 := by
  rw [bytes_length]
  cases peer.family <;> decide

end SockAddr

namespace InetAddress

/-- What `accept4` stores, told that there is room for `addrLen` bytes. -/
def copyOut (addrLen : Nat) (peer : SockAddr) (address : InetAddress) : InetAddress where
  bytes := peer.bytes.take addrLen ++ address.bytes.drop (min addrLen peer.bytes.length)
  sized := by
    have := address.sized
    have := peer.bytes_length_le
    simp only [List.length_append, List.length_take, List.length_drop]
    omega

/-- The object's bytes are the address, as far as its family goes. -/
def Holds (address : InetAddress) (peer : SockAddr) : Prop :=
  address.bytes.take peer.bytes.length = peer.bytes

instance (address : InetAddress) (peer : SockAddr) : Decidable (address.Holds peer) :=
  inferInstanceAs (Decidable (_ = _))

end InetAddress

namespace Acceptor

inductive Answer where
  | accepted (fd : Nat) (peer : SockAddr)
  -- with the answers to the `accept` that follows and to `OpenIdleFile`
  | eMFile (idle : Int) (reopened : Nat)
  | eAgain
  | eIntr
  | eConnAborted
  | other

structure Connection where
  fd : Int
  peerAddr : Nat
  deriving DecidableEq

end Acceptor

structure Acceptor where
  localAddr : InetAddress
  /-- `cb_` is set. -/
  callback : Bool
  dummyFd : Int
  /-- The objects that `Copy` made. -/
  addresses : List InetAddress
  connections : List Acceptor.Connection
  closed : List Int

namespace Acceptor

/-- `socket::Accept` with the object at `place`. -/
def accept (place : Nat) (peer : SockAddr) (a : Acceptor) : Acceptor :=
  { a with addresses := a.addresses.modify place (InetAddress.copyOut sizeofSockaddr peer) }

/-- `cb_(peer_sock, peer_addr)`, or the socket is closed. -/
def handOver (fd : Int) (place : Nat) (a : Acceptor) : Acceptor :=
  if a.callback then { a with connections := a.connections ++ [⟨fd, place⟩] }
  else { a with closed := a.closed ++ [fd] }

/-- The `while` of `HandleRead`; `none` when it does not end with these answers. -/
def acceptLoop (place : Nat) : Acceptor → List Answer → Option Acceptor
  | _, [] => none
  | a, .accepted fd peer :: rest =>
      if fd = 0 then some (a.accept place peer)
      else acceptLoop place ((a.accept place peer).handOver fd place) rest
  | a, .eMFile idle reopened :: rest =>
      acceptLoop place { a with closed := a.closed ++ [a.dummyFd, idle], dummyFd := reopened } rest
  | a, .eAgain :: _ => some a
  -- Neither `EMFILE` nor `EAGAIN`: the callback gets -1.
  | a, .eIntr :: rest => acceptLoop place (a.handOver (-1) place) rest
  | a, .eConnAborted :: rest => acceptLoop place (a.handOver (-1) place) rest
  | _, .other :: _ => none

def handleRead (answers : List Answer) (a : Acceptor) : Option Acceptor :=
  acceptLoop a.addresses.length { a with addresses := a.addresses ++ [a.localAddr] } answers

namespace Answer

def ends : Answer → Bool
  | .accepted fd _ => fd == 0
  | .eAgain | .other => true
  | .eMFile _ _ | .eIntr | .eConnAborted => false

def peer : Answer → Option SockAddr
  | .accepted _ peer => some peer
  | _ => none

def call : Answer → Option (Int × Option SockAddr)
  | .accepted fd peer => if fd = 0 then none else some (fd, some peer)
  | .eIntr | .eConnAborted => some (-1, none)
  | .eMFile _ _ | .eAgain | .other => none

end Answer

def heard : List Answer → List Answer
  | [] => []
  | answer :: rest => if answer.ends then [answer] else answer :: heard rest

def accepts (answers : List Answer) : List SockAddr := (heard answers).filterMap Answer.peer

def calls (answers : List Answer) : List (Int × Option SockAddr) :=
  (heard answers).filterMap Answer.call

section Loop
variable {place : Nat} {a final : Acceptor}

structure Turned (place : Nat) (peers : List SockAddr) (passed : List (Int × Option SockAddr))
    (a final : Acceptor) : Prop where
  callback : final.callback = a.callback
  addresses : final.addresses = a.addresses.modify place fun address =>
    peers.foldl (fun address peer => address.copyOut sizeofSockaddr peer) address
  connections : final.connections = a.connections ++
    if a.callback then passed.map fun call => ⟨call.1, place⟩ else []

theorem turned_none (place : Nat) (a : Acceptor) : Turned place [] [] a a where
  callback := rfl
  addresses := (List.modify_id place a.addresses).symm
  connections := by simp

theorem Turned.trans {middle : Acceptor} {peers more : List SockAddr}
    {passed further : List (Int × Option SockAddr)} (first : Turned place peers passed a middle)
    (later : Turned place more further middle final) :
    Turned place (peers ++ more) (passed ++ further) a final where
  callback := later.callback.trans first.callback
  addresses := by
    rw [later.addresses, first.addresses, List.modify_modify_eq]
    congr 1
    funext address
    simp [List.foldl_append]
  connections := by
    rw [later.connections, first.connections, first.callback]
    split <;> simp

theorem accept_turned (place : Nat) (peer : SockAddr) (a : Acceptor) :
    Turned place [peer] [] a (a.accept place peer) where
  callback := rfl
  addresses := rfl
  connections := by simp [accept]

theorem handOver_turned (place : Nat) (call : Int × Option SockAddr) (a : Acceptor) :
    Turned place [] [call] a (a.handOver call.1 place) := by
  unfold handOver
  split
  · rename_i set
    exact ⟨rfl, (turned_none place a).addresses, by simp [set]⟩
  · rename_i unset
    exact ⟨rfl, (turned_none place a).addresses, by simp [unset]⟩

/-- The loop stores every address it is told into the one object, and hands that
object to every connection. -/
theorem acceptLoop_turned {answers : List Answer}
    (ended : acceptLoop place a answers = some final) :
    Turned place (accepts answers) (calls answers) a final := by
  induction answers generalizing a with
  | nil => cases ended
  | cons answer rest ih =>
      cases answer with
      | accepted fd peer =>
          by_cases zero : fd = 0
          · rw [acceptLoop, if_pos zero] at ended
            cases ended
            have turned := accept_turned place peer a
            simpa [accepts, calls, heard, Answer.ends, Answer.peer, Answer.call, zero] using turned
          · rw [acceptLoop, if_neg zero] at ended
            have turned := ((accept_turned place peer a).trans
              (handOver_turned place (fd, some peer) _)).trans (ih ended)
            simpa [accepts, calls, heard, Answer.ends, Answer.peer, Answer.call, zero] using turned
      | eMFile idle reopened =>
          rw [acceptLoop] at ended
          have turned := ih ended
          exact ⟨turned.callback, turned.addresses, turned.connections⟩
      | eAgain =>
          cases ended
          exact turned_none place final
      | eIntr => exact (handOver_turned place (-1, none) a).trans (ih ended)
      | eConnAborted => exact (handOver_turned place (-1, none) a).trans (ih ended)
      | other => cases ended

end Loop

/-! Who knows its peer. -/

def passed (a : Acceptor) (answers : List Answer) : List (Int × Option SockAddr) :=
  if a.callback then calls answers else []

def made (a final : Acceptor) : List Connection :=
  final.connections.drop a.connections.length

/-- The connection holds the address that the kernel reported for its socket. -/
def KnowsPeer (a : Acceptor) (connection : Connection)
    (call : Int × Option SockAddr) : Prop :=
  connection.fd = call.1 ∧ ∃ peer ∈ call.2, ∃ address ∈ a.addresses[connection.peerAddr]?,
    address.Holds peer

instance (a : Acceptor) (connection : Connection) (call : Int × Option SockAddr) :
    Decidable (a.KnowsPeer connection call) :=
  inferInstanceAs (Decidable (_ ∧ _))

/-- No `accept4` fails other than with `EMFILE` and `EAGAIN`, all peers agree in
the bytes of a `sockaddr`, and the others of an IPv6 address are those of the
listening address. -/
def Alike (a : Acceptor) (answers : List Answer) : Prop :=
  ∀ call ∈ a.passed answers, ∃ peer ∈ call.2,
    (∃ last ∈ (accepts answers).getLast?,
      last.bytes.take sizeofSockaddr = peer.bytes.take sizeofSockaddr) ∧
    (a.localAddr.bytes.take peer.bytes.length).drop sizeofSockaddr =
      peer.bytes.drop sizeofSockaddr

instance (a : Acceptor) (answers : List Answer) : Decidable (a.Alike answers) :=
  inferInstanceAs (Decidable (∀ call ∈ a.passed answers, _))

theorem copyOut_bytes (peer : SockAddr) (address : InetAddress) :
    (address.copyOut sizeofSockaddr peer).bytes =
      peer.bytes.take sizeofSockaddr ++ address.bytes.drop sizeofSockaddr := by
  change peer.bytes.take sizeofSockaddr ++
    address.bytes.drop (min sizeofSockaddr peer.bytes.length) = _
  rw [Nat.min_eq_left peer.sizeofSockaddr_le]

theorem foldl_copyOut_bytes (peers : List SockAddr) (address : InetAddress) :
    (peers.foldl (fun address peer => address.copyOut sizeofSockaddr peer) address).bytes =
      match peers.getLast? with
      | some last => last.bytes.take sizeofSockaddr ++ address.bytes.drop sizeofSockaddr
      | none => address.bytes := by
  induction peers using List.reverseRecOn with
  | nil => rfl
  | append_singleton peers last ih =>
      rw [List.foldl_append, List.getLast?_concat, List.foldl_cons, List.foldl_nil, copyOut_bytes,
        ih]
      have room : ∀ peer : SockAddr, (peer.bytes.take sizeofSockaddr).length = sizeofSockaddr :=
        fun peer => List.length_take_of_le peer.sizeofSockaddr_le
      cases peers.getLast? with
      | none => rfl
      | some before => simp [List.drop_left' (room before)]

/-- The shared object has the first bytes of the last peer, and the rest of the
listening address. -/
theorem holds_iff (peers : List SockAddr) (listen : InetAddress) {peer : SockAddr}
    (member : peer ∈ peers) :
    (peers.foldl (fun address peer => address.copyOut sizeofSockaddr peer) listen).Holds peer ↔
      (∃ last ∈ peers.getLast?,
        last.bytes.take sizeofSockaddr = peer.bytes.take sizeofSockaddr) ∧
      (listen.bytes.take peer.bytes.length).drop sizeofSockaddr =
        peer.bytes.drop sizeofSockaddr := by
  have bytes := foldl_copyOut_bytes peers listen
  obtain ⟨last, found⟩ : ∃ last, peers.getLast? = some last :=
    Option.isSome_iff_exists.mp (List.getLast?_isSome.mpr (List.ne_nil_of_mem member))
  rw [found] at bytes
  have room : (last.bytes.take sizeofSockaddr).length = sizeofSockaddr :=
    List.length_take_of_le last.sizeofSockaddr_le
  have split : peer.bytes = peer.bytes.take sizeofSockaddr ++ peer.bytes.drop sizeofSockaddr :=
    (List.take_append_drop _ _).symm
  have fits := peer.sizeofSockaddr_le
  have shorter : ((listen.bytes.take peer.bytes.length).drop sizeofSockaddr) =
      (listen.bytes.drop sizeofSockaddr).take (peer.bytes.length - sizeofSockaddr) :=
    List.drop_take
  rw [InetAddress.Holds, bytes, List.take_append, room, List.take_take, Nat.min_eq_right fits,
    shorter, found]
  constructor
  · intro holds
    have roomHere : (peer.bytes.take sizeofSockaddr).length = sizeofSockaddr :=
      List.length_take_of_le fits
    obtain ⟨first, rest⟩ := List.append_inj (holds.trans split) (room.trans roomHere.symm)
    exact ⟨⟨last, rfl, first⟩, rest⟩
  · rintro ⟨⟨other, same, first⟩, rest⟩
    cases same
    rw [first, rest, ← split]

theorem call_accepted {answers : List Answer} {call : Int × Option SockAddr} {peer : SockAddr}
    (member : call ∈ calls answers) (told : call.2 = some peer) : peer ∈ accepts answers := by
  obtain ⟨answer, heard, made⟩ := List.mem_filterMap.mp member
  refine List.mem_filterMap.mpr ⟨answer, heard, ?_⟩
  cases answer with
  | accepted fd other =>
      obtain ⟨-, same⟩ := Option.ite_none_left_eq_some.mp made
      cases same
      exact told
  | eIntr | eConnAborted =>
      cases made
      cases told
  | eMFile idle reopened => cases made
  | eAgain | other => cases made

/-- What `HandleRead` leaves: one new object, and every new connection with it. -/
theorem handleRead_left {a final : Acceptor} {answers : List Answer}
    (ended : a.handleRead answers = some final) :
    a.made final = (a.passed answers).map (fun call => ⟨call.1, a.addresses.length⟩) ∧
      final.addresses[a.addresses.length]? = some ((accepts answers).foldl
        (fun address peer => address.copyOut sizeofSockaddr peer) a.localAddr) := by
  have turned := acceptLoop_turned ended
  constructor
  · rw [made, turned.connections, List.drop_left, passed]
    dsimp only
    split <;> simp
  · rw [turned.addresses]
    simp

/-- Behind a `HandleRead` all its connections know their peers exactly when the
peers are alike. -/
theorem peers_known_iff_alike {a final : Acceptor} (answers : List Answer)
    (ended : a.handleRead answers = some final) :
    List.Forall₂ final.KnowsPeer (a.made final) (a.passed answers) ↔ a.Alike answers := by
  obtain ⟨made, shared⟩ := handleRead_left ended
  rw [made, List.forall₂_map_left_iff, List.forall₂_same]
  refine forall_congr' fun call => forall_congr' fun member => ?_
  have called : call ∈ calls answers := by
    unfold passed at member
    split at member
    · exact member
    · cases member
  simp only [KnowsPeer, shared, Option.mem_some_iff, exists_eq_left', true_and]
  refine exists_congr fun peer => and_congr_right fun told => ?_
  exact holds_iff (accepts answers) a.localAddr (call_accepted called told)

def ipv4 (last : UInt8) : SockAddr :=
  ⟨.AF_INET, [3, 232, 10, 0, 0, last, 0, 0, 0, 0, 0, 0, 0, 0], rfl⟩

def ipv6Loopback : SockAddr :=
  ⟨.AF_INET6, [3, 232] ++ List.replicate 19 0 ++ [1] ++ List.replicate 4 0, rfl⟩

def listening (family : Family) : Acceptor where
  localAddr := ⟨family.code ++ [3, 232] ++ List.replicate 24 0, by cases family <;> rfl⟩
  callback := true
  dummyFd := 3
  addresses := []
  connections := []
  closed := []

theorem single_ipv4_knows_peer : ∃ final,
    (listening .AF_INET).handleRead [.accepted 8 (ipv4 1), .eMFile 9 3, .eAgain] = some final ∧
    List.Forall₂ final.KnowsPeer ((listening .AF_INET).made final)
      ((listening .AF_INET).passed [.accepted 8 (ipv4 1), .eMFile 9 3, .eAgain]) :=
  ⟨_, rfl, (peers_known_iff_alike _ rfl).mpr (by decide)⟩

theorem batch_shares_one_peer :
    (∃ final, (listening .AF_INET).handleRead
        [.accepted 8 (ipv4 1), .accepted 9 (ipv4 2), .eAgain] = some final ∧
      final.connections = [⟨8, 0⟩, ⟨9, 0⟩] ∧
      ∃ address, final.addresses = [address] ∧ address.Holds (ipv4 2) ∧
        ¬address.Holds (ipv4 1)) ∧
    ∃ final, (listening .AF_INET6).handleRead [.accepted 8 ipv6Loopback, .eAgain] = some final ∧
      final.connections = [⟨8, 0⟩] ∧
      ∃ address, final.addresses = [address] ∧ ¬address.Holds ipv6Loopback := by
  refine ⟨⟨_, rfl, rfl, _, rfl, ?_, ?_⟩, ⟨_, rfl, rfl, _, rfl, ?_⟩⟩
  · decide
  · decide
  · decide

end Acceptor

end Muzi
