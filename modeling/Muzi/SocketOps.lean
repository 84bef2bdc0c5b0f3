import Muzi.Connector
import Muzi.Storage

/-!
`IsSelfConnect` of net/socket_ops.cc. The names of a socket go through objects of
type `sockaddr`, which are as large as an IPv4 name and smaller than an IPv6 name;
the kernel cuts them off. For IPv6 the source calls `memcpy` where a comparison is
meant: the result is a pointer, never null, and the copy leaves the object.
-/

namespace Muzi.SocketOps

open Storage

inductive SockAddr where
  | inet (port : Vector Byte 2) (addr : Vector Byte 4)
  | inet6 (port : Vector Byte 2) (flowinfo : Vector Byte 4) (addr : Vector Byte 16)
      (scopeId : Vector Byte 4)
  deriving DecidableEq

def afInet : List Byte := [2, 0]
def afInet6 : List Byte := [10, 0]

namespace SockAddr

def family : SockAddr → List Byte
  | .inet _ _ => afInet
  | .inet6 _ _ _ _ => afInet6

def port : SockAddr → Vector Byte 2
  | .inet port _ => port
  | .inet6 port _ _ _ => port

def word : SockAddr → Vector Byte 4
  | .inet _ addr => addr
  | .inet6 _ flowinfo _ _ => flowinfo

def rest : SockAddr → List Byte
  | .inet _ _ => List.replicate 8 0
  | .inet6 _ _ addr scopeId => addr.toList ++ scopeId.toList

def bytes (name : SockAddr) : List Byte :=
  name.family ++ (name.port.toList ++ (name.word.toList ++ name.rest))

/-- The same family, port and whole address. -/
def Same : SockAddr → SockAddr → Prop
  | .inet port addr, .inet port' addr' => port = port' ∧ addr = addr'
  | .inet6 port _ addr _, .inet6 port' _ addr' _ => port = port' ∧ addr = addr'
  | .inet _ _, .inet6 _ _ _ _ | .inet6 _ _ _ _, .inet _ _ => False

end SockAddr

/-- `sizeof(sockaddr)`. -/
def sizeofSockaddr : Nat := 16

/-- `getsockname` and `getpeername`: no more than `addrLen` bytes are written, and none when
the call fails. -/
def getName (answer : Option SockAddr) (addrLen : Nat) (addr : List Byte) : List Byte :=
  match answer with
  | none => addr
  | some name => overwrite addr 0 (name.bytes.take addrLen)

def getLocalAddr (answer : Option SockAddr) : List Byte :=
  getName answer sizeofSockaddr (List.replicate sizeofSockaddr 0)

def getPeerAddr (answer : Option SockAddr) : List Byte :=
  getName answer sizeofSockaddr (List.replicate sizeofSockaddr 0)

structure Frame where
  memory : Memory
  localAddr : Nat
  peerAddr : Nat
  apart : localAddr + sizeofSockaddr ≤ peerAddr ∨ peerAddr + sizeofSockaddr ≤ localAddr

def memcpy (dest src len : Nat) (memory : Memory) : Nat × Memory :=
  (dest, store memory dest (read memory src len))

def Frame.filled (f : Frame) (sockName peerName : Option SockAddr) : Memory :=
  store (store f.memory f.localAddr (getLocalAddr sockName)) f.peerAddr (getPeerAddr peerName)

/-- The result, and the memory behind it. `sin_port` and `sin6_port` are at offset 2,
`sin_addr` at 4 and `sin6_addr` at 8. -/
def isSelfConnect (f : Frame) (sockName peerName : Option SockAddr) : Bool × Memory :=
  let memory := f.filled sockName peerName
  let samePort := read memory (f.localAddr + 2) 2 = read memory (f.peerAddr + 2) 2
  if read memory f.localAddr 2 = afInet then
    (samePort ∧ read memory (f.localAddr + 4) 4 = read memory (f.peerAddr + 4) 4, memory)
  else if read memory f.localAddr 2 = afInet6 then
    if samePort then
      let (pointer, after) := memcpy (f.localAddr + 8) (f.peerAddr + 8) 16 memory
      (pointer = 0, after)
    else (false, memory)
  else (false, memory)

/-! What the objects hold. -/

theorem length_family (name : SockAddr) : name.family.length = 2 := by
  cases name <;> rfl

theorem length_bytes (name : SockAddr) : sizeofSockaddr ≤ name.bytes.length := by
  cases name <;> simp [SockAddr.bytes, SockAddr.family, SockAddr.rest, afInet, afInet6,
    sizeofSockaddr]

theorem getName_some (name : SockAddr) :
    getName (some name) sizeofSockaddr (List.replicate sizeofSockaddr 0) =
      name.bytes.take sizeofSockaddr := by
  have size : (name.bytes.take sizeofSockaddr).length = sizeofSockaddr :=
    List.length_take_of_le (length_bytes name)
  rw [getName, overwrite, size, List.take_zero, List.nil_append, Nat.zero_add,
    List.drop_replicate, Nat.sub_self, List.replicate_zero, List.append_nil]

structure Loaded (memory : Memory) (address : Nat) (name : SockAddr) : Prop where
  family : read memory address 2 = name.family
  port : read memory (address + 2) 2 = name.port.toList
  word : read memory (address + 4) 4 = name.word.toList

theorem loaded_store (memory : Memory) (address : Nat) (name : SockAddr) :
    Loaded (store memory address (name.bytes.take sizeofSockaddr)) address name := by
  have size : (name.bytes.take sizeofSockaddr).length = sizeofSockaddr :=
    List.length_take_of_le (length_bytes name)
  have family := length_family name
  have port : name.port.toList.length = 2 := name.port.length_toList
  have word : name.word.toList.length = 4 := name.word.length_toList
  -- The three fields lie within the sixteen bytes, one behind the other.
  have field (offset len : Nat) (inside : offset + len ≤ sizeofSockaddr) :
      read (store memory address (name.bytes.take sizeofSockaddr)) (address + offset) len =
        (name.bytes.drop offset).take len := by
    rw [read_store_inside _ _ _ (by rw [size]; exact inside), List.drop_take, List.take_take,
      Nat.min_eq_left (Nat.le_sub_of_add_le' inside)]
  constructor
  · have first := field 0 2 (by decide)
    rwa [Nat.add_zero, List.drop_zero, SockAddr.bytes, List.take_left' family] at first
  · rw [field 2 2 (by decide), SockAddr.bytes, List.drop_left' family, List.take_left' port]
  · rw [field 4 4 (by decide), SockAddr.bytes, ← List.append_assoc,
      List.drop_left' (by rw [List.length_append, family, port]), List.take_left' word]

theorem Loaded.store {memory : Memory} {address : Nat} {name : SockAddr}
    (loaded : Loaded memory address name) {other : Nat} {data : List Byte}
    (apart : address + sizeofSockaddr ≤ other ∨ other + data.length ≤ address) :
    Loaded (store memory other data) address name := by
  have kept {offset len : Nat} (inside : offset + len ≤ sizeofSockaddr) :
      read (Storage.store memory other data) (address + offset) len =
        read memory (address + offset) len :=
    read_store_outside memory (by omega)
  constructor
  · exact (kept (by decide : 0 + 2 ≤ sizeofSockaddr)).trans loaded.family
  · exact (kept (by decide)).trans loaded.port
  · exact (kept (by decide)).trans loaded.word

theorem loaded_filled (f : Frame) (sockName peerName : SockAddr) :
    Loaded (f.filled (some sockName) (some peerName)) f.localAddr sockName ∧
      Loaded (f.filled (some sockName) (some peerName)) f.peerAddr peerName := by
  have size : (peerName.bytes.take sizeofSockaddr).length = sizeofSockaddr :=
    List.length_take_of_le (length_bytes peerName)
  rw [Frame.filled, getLocalAddr, getPeerAddr, getName_some, getName_some]
  constructor
  · apply (loaded_store f.memory f.localAddr sockName).store
    rw [size]
    exact f.apart
  · exact loaded_store _ _ _

/-- Only the family of `local_addr` is looked at, and only IPv4 is ever found. -/
theorem isSelfConnect_result (f : Frame) (sockName peerName : SockAddr) :
    (isSelfConnect f (some sockName) (some peerName)).1 = true ↔
      sockName.family = afInet ∧ sockName.port = peerName.port ∧
        sockName.word = peerName.word := by
  have ⟨here, there⟩ := loaded_filled f sockName peerName
  simp only [isSelfConnect, memcpy, here.family, here.port, here.word, there.port, there.word,
    Vector.toList_inj]
  cases sockName with
  | inet port addr => simp [SockAddr.family]
  | inet6 port flowinfo addr scopeId =>
    simp [SockAddr.family, afInet, afInet6]
    split <;> rfl

/-- A connector takes every IPv6 socket without an error, also one connected to itself. -/
theorem handleWrite_inet6 (f : Frame) {sockName : SockAddr} (peerName : SockAddr)
    (inet6 : sockName.family = afInet6) {c : Connector} {id : Nat}
    (connecting : c.state = .kConnecting) (channel : c.channel = some id)
    (callback : c.newConnectionCallback = true) :
    c.handleWrite 0 (isSelfConnect f (some sockName) (some peerName)).1 =
      some ({ c.withdraw id with state := .kConnected }.hand id) := by
  have missed : (isSelfConnect f (some sockName) (some peerName)).1 = false := by
    apply Bool.eq_false_iff.mpr
    intro found
    have inet := ((isSelfConnect_result f sockName peerName).mp found).1
    exact absurd (inet6.symm.trans inet) (by decide)
  simp [Connector.handleWrite, Connector.removeAndResetChannel, connecting, channel, missed,
    callback]

/-- The pairs for which the answer is right. -/
def Told : SockAddr → SockAddr → Prop
  | .inet _ _, .inet _ _ => True
  | .inet6 port _ addr _, .inet6 port' _ addr' _ => ¬ (port = port' ∧ addr = addr')
  | .inet port addr, .inet6 port' flowinfo' _ _ => ¬ (port = port' ∧ addr = flowinfo')
  | .inet6 _ _ _ _, .inet _ _ => True

/-- Between names of one family the answer is wrong exactly for a self-connection of IPv6. -/
theorem selfConnect_exact_iff (f : Frame) (sockName peerName : SockAddr) :
    ((isSelfConnect f (some sockName) (some peerName)).1 = true ↔ sockName.Same peerName) ↔
      Told sockName peerName := by
  rw [isSelfConnect_result]
  cases sockName <;> cases peerName <;>
    simp [SockAddr.family, SockAddr.port, SockAddr.word, SockAddr.Same, Told, afInet, afInet6]

/-- `[::1]:80` connected to itself is not found, and the byte behind `local_addr` is lost. -/
theorem selfConnect_loopback :
    let name : SockAddr := .inet6 #v[0, 80] #v[0, 0, 0, 0]
      #v[0, 0, 0, 0, 0, 0, 0, 0, 0, 0, 0, 0, 0, 0, 0, 1] #v[0, 0, 0, 0]
    let f : Frame := ⟨fun place => UInt8.ofNat place, 100, 200, by decide⟩
    name.Same name ∧ (isSelfConnect f (some name) (some name)).1 = false ∧
      f.memory (f.localAddr + sizeofSockaddr) = 116 ∧
      (isSelfConnect f (some name) (some name)).2 (f.localAddr + sizeofSockaddr) = 216 :=
  ⟨⟨rfl, rfl⟩, by decide +kernel, by decide +kernel, by decide +kernel⟩

end Muzi.SocketOps
