import Mathlib
import McpeLauncher.SinglyLinked

/-! # Addresses of the host and of bionic

The game sees socket addresses and the lists of `getaddrinfo` in the layout of bionic. An address is
a block of bytes, of which only the field with the family differs. -/
namespace LibcShim
open SinglyLinked List

inductive AfFamily where
  | unspec
  | inet
  | inet6
  deriving DecidableEq

inductive SockType where
  | stream
  | dgram
  | raw
  deriving DecidableEq

inductive IpProto where
  | ip
  | tcp
  | udp
  | ipv6
  deriving DecidableEq

def AfFamily.number : AfFamily → Nat
  | .unspec => 0
  | .inet => 2
  | .inet6 => 10

inductive NetworkError where
  | family
  | socktype
  | ipproto
  | sockaddrFromHost
  | sockaddrToHost
  deriving DecidableEq

def NetworkError.what : NetworkError → String
  | .family => "Unknown af_family"
  | .socktype => "Unknown socktype"
  | .ipproto => "Unknown ipproto"
  | .sockaddrFromHost => "Unknown socket family when converting sockaddr from host"
  | .sockaddrToHost => "Unknown socket family when converting sockaddr to host"

abbrev Bytes := Nat → UInt8

/-- The field with the family, within the first two bytes. -/
structure FamilyField where
  limit : Nat
  read : Bytes → Nat
  write : Bytes → Nat → Bytes
  read_write : ∀ bytes n, n < limit → read (write bytes n) = n
  read_congr : ∀ bytes bytes', (∀ i < 2, bytes i = bytes' i) → read bytes = read bytes'

/-- What the headers of the host say. -/
structure Host where
  familyField : FamilyField
  afUnspec : Nat
  afInet : Nat
  afInet6 : Nat
  families_nodup : [afUnspec, afInet, afInet6].Nodup
  families_lt : ∀ n ∈ [afUnspec, afInet, afInet6], n < familyField.limit
  sockStream : Int
  sockDgram : Int
  sockRaw : Int
  ipprotoIp : Int
  ipprotoTcp : Int
  ipprotoUdp : Int
  ipprotoIpv6 : Int
  aiPassive : BitVec 32
  aiCanonname : BitVec 32
  aiNumerichost : BitVec 32

def switch {α : Type} (cases : List (Int × α)) (e : NetworkError) (n : Int) :
    Except NetworkError α :=
  match cases.lookup n with
  | some a => .ok a
  | none => .error e

section Host
variable (host : Host)

def fromHostAiFlags (flags : BitVec 32) : BitVec 32 :=
  (if flags &&& host.aiPassive ≠ 0 then 1 else 0) |||
    (if flags &&& host.aiCanonname ≠ 0 then 2 else 0) |||
    (if flags &&& host.aiNumerichost ≠ 0 then 4 else 0)

def fromHostAfFamily : Int → Except NetworkError AfFamily :=
  switch [(host.afUnspec, .unspec), (host.afInet, .inet), (host.afInet6, .inet6)] .family

def fromHostSocktype : Int → Except NetworkError SockType :=
  switch [(host.sockStream, .stream), (host.sockDgram, .dgram), (host.sockRaw, .raw)] .socktype

def fromHostIpproto : Int → Except NetworkError IpProto :=
  switch [(host.ipprotoIp, .ip), (host.ipprotoTcp, .tcp), (host.ipprotoUdp, .udp),
    (host.ipprotoIpv6, .ipv6)] .ipproto

end Host

/-- A field of `uint16_t` at the start, the lower byte first. -/
def shortField : FamilyField where
  limit := 2 ^ 16
  read bytes := (bytes 0).toNat + 256 * (bytes 1).toNat
  write bytes n := fun i =>
    if i = 0 then UInt8.ofNat n else if i = 1 then UInt8.ofNat (n / 256) else bytes i
  read_write bytes n h := by
    simp only [if_true, one_ne_zero, if_false, UInt8.toNat_ofNat']
    omega
  read_congr bytes bytes' h := by rw [h 0 (by omega), h 1 (by omega)]

def linuxHost : Host where
  familyField := shortField
  afUnspec := 0
  afInet := 2
  afInet6 := 10
  families_nodup := by decide
  families_lt := by decide
  sockStream := 1
  sockDgram := 2
  sockRaw := 3
  ipprotoIp := 0
  ipprotoTcp := 6
  ipprotoUdp := 17
  ipprotoIpv6 := 41
  aiPassive := 1
  aiCanonname := 2
  aiNumerichost := 4

def copyField (src out : Bytes) (offset size : Nat) : Bytes :=
  fun i => if offset ≤ i ∧ i < offset + size then src i else out i

def copyInet (src out : Bytes) : Bytes := copyField src (copyField src out 2 2) 4 4

def copyInet6 (src out : Bytes) : Bytes :=
  copyField src (copyField src (copyField src (copyField src out 2 2) 4 4) 8 16) 24 4

def fromHost (host : Host) (src out : Bytes) : Except NetworkError Bytes :=
  let family := host.familyField.read src
  if family = host.afUnspec then .ok (shortField.write out AfFamily.unspec.number)
  else if family = host.afInet then
    .ok (copyInet src (shortField.write out AfFamily.inet.number))
  else if family = host.afInet6 then
    .ok (copyInet6 src (shortField.write out AfFamily.inet6.number))
  else .error .sockaddrFromHost

def toHost (host : Host) (src out : Bytes) : Except NetworkError Bytes :=
  let family := shortField.read src
  if family = AfFamily.unspec.number then .ok (host.familyField.write out host.afUnspec)
  else if family = AfFamily.inet.number then
    .ok (copyInet src (host.familyField.write out host.afInet))
  else if family = AfFamily.inet6.number then
    .ok (copyInet6 src (host.familyField.write out host.afInet6))
  else .error .sockaddrToHost

def getBionicLen (host : Host) : Option Bytes → Except NetworkError Nat
  | none => .ok 0
  | some addr =>
    let family := host.familyField.read addr
    if family = host.afInet then .ok 16
    else if family = host.afInet6 then .ok 28
    else .error .sockaddrFromHost

theorem copyInet_apply (src out : Bytes) (i : Nat) :
    copyInet src out i = if 2 ≤ i ∧ i < 8 then src i else out i := by
  simp only [copyInet, copyField]
  grind

theorem copyInet6_apply (src out : Bytes) (i : Nat) :
    copyInet6 src out i = if 2 ≤ i ∧ i < 28 then src i else out i := by
  simp only [copyInet6, copyField]
  grind

variable {src addr : Bytes}

theorem write_read_short {out : Bytes} {n : Nat} (h : shortField.read src = n) {i : Nat}
    (hi : i < 2) : shortField.write out n i = src i := by
  have h' : (src 0).toNat + 256 * (src 1).toNat = n := h
  have h0 := (src 0).toNat_lt
  apply UInt8.toNat_inj.mp
  rcases Nat.lt_succ_iff_lt_or_eq.mp hi with h | rfl
  · obtain rfl : i = 0 := by omega
    show (UInt8.ofNat n).toNat = _
    rw [UInt8.toNat_ofNat']
    omega
  · show (UInt8.ofNat (n / 256)).toNat = _
    rw [UInt8.toNat_ofNat']
    have h1 := (src 1).toNat_lt
    omega

section RoundTrip
variable {copy : Bytes → Bytes → Bytes} {size : Nat}
  (hcopy : ∀ src out i, copy src out i = if 2 ≤ i ∧ i < size then src i else out i)
include hcopy

theorem read_copy (field : FamilyField) {n : Nat} (hn : n < field.limit) (src out : Bytes) :
    field.read (copy src (field.write out n)) = n := by
  rw [field.read_congr _ (field.write out n), field.read_write out n hn]
  intro i hi
  rw [hcopy, if_neg (by omega)]

theorem copy_back {n : Nat} (h : shortField.read src = n) (out out' : Bytes) :
    ∀ i < size, copy (copy src out) (shortField.write out' n) i = src i := by
  intro i hi
  rw [hcopy]
  split
  · next hcopied => rw [hcopy, if_pos hcopied]
  · exact write_read_short h (by omega)

theorem round_trip {host : Host} {n m : Nat} (hm : m < host.familyField.limit)
    (h : shortField.read src = n) {out out' : Bytes}
    (hto : toHost host src out = .ok (copy src (host.familyField.write out m)))
    (hfrom : ∀ addr, host.familyField.read addr = m →
      fromHost host addr out' = .ok (copy addr (shortField.write out' n))) :
    ∃ addr addr', toHost host src out = .ok addr ∧ fromHost host addr out' = .ok addr' ∧
      ∀ i < size, addr' i = src i :=
  ⟨_, _, hto, hfrom _ (read_copy hcopy host.familyField hm src out), copy_back hcopy h _ out'⟩

end RoundTrip

theorem inet_round_trip (host : Host) (h : shortField.read src = AfFamily.inet.number)
    (out out' : Bytes) :
    ∃ addr addr', toHost host src out = .ok addr ∧ fromHost host addr out' = .ok addr' ∧
      ∀ i < 8, addr' i = src i := by
  have hnodup := host.families_nodup
  refine round_trip copyInet_apply (host.families_lt host.afInet (by simp)) h ?_
    fun addr hread => ?_
  · rw [toHost, h]
    rfl
  · rw [fromHost, hread, if_neg fun heq => by simp [heq] at hnodup, if_pos rfl]

theorem inet6_round_trip (host : Host) (h : shortField.read src = AfFamily.inet6.number)
    (out out' : Bytes) :
    ∃ addr addr', toHost host src out = .ok addr ∧ fromHost host addr out' = .ok addr' ∧
      ∀ i < 28, addr' i = src i := by
  have hnodup := host.families_nodup
  refine round_trip copyInet6_apply (host.families_lt host.afInet6 (by simp)) h ?_
    fun addr hread => ?_
  · rw [toHost, h]
    rfl
  · rw [fromHost, hread, if_neg fun heq => by simp [heq] at hnodup,
      if_neg fun heq => by simp [heq] at hnodup, if_pos rfl]

structure HostAddrInfo where
  aiFlags : BitVec 32
  aiFamily : Int
  aiSocktype : Int
  aiProtocol : Int
  aiCanonname : Option (List UInt8)
  aiAddr : Option Bytes

/-- `bionic::addrinfo`, without the link. -/
structure BionicAddrInfo where
  aiFlags : BitVec 32
  aiFamily : AfFamily
  aiSocktype : SockType
  aiProtocol : IpProto
  aiAddrlen : Nat
  aiCanonname : Option (List UInt8)
  aiAddr : Option Bytes

/-- The length and the address of a node; `memory` is what the new block for the address holds. -/
def convertAddr (host : Host) (memory : Bytes) (addr? : Option Bytes) :
    Except NetworkError (Nat × Option Bytes) := do
  let aiAddrlen ← getBionicLen host addr?
  match addr? with
  | none => return (aiAddrlen, none)
  | some addr =>
    let aiAddr ← fromHost host addr memory
    return (aiAddrlen, some aiAddr)

/-- The `try` block, up to the link. -/
def convertNode (host : Host) (memory : Bytes) (node : HostAddrInfo) :
    Except NetworkError BionicAddrInfo := do
  let aiFlags := fromHostAiFlags host node.aiFlags
  let aiFamily ← fromHostAfFamily host node.aiFamily
  let aiSocktype ← fromHostSocktype host node.aiSocktype
  let aiProtocol ← fromHostIpproto host node.aiProtocol
  let (aiAddrlen, aiAddr) ← convertAddr host memory node.aiAddr
  let aiCanonname := node.aiCanonname
  return { aiFlags, aiFamily, aiSocktype, aiProtocol, aiAddrlen, aiCanonname, aiAddr }

/-- `from_host_alloc`: the head of the copy, and the memory afterwards. -/
def fromHostAlloc (host : Host) (allocator : Allocator Nat) (memory : Nat → Bytes) :
    List HostAddrInfo → Memory Nat BionicAddrInfo → Option Nat × Memory Nat BionicAddrInfo
  | [], heap => (none, heap)
  | node :: rest, heap =>
    let out := allocator.new heap.live
    let heap := heap.alloc out
    match convertNode host (memory out) node with
    | .ok info =>
      let (next, heap) := fromHostAlloc host allocator memory rest (heap.write out (info, none))
      (some out, heap.setNext out next)
    | .error _ => fromHostAlloc host allocator memory rest (heap.free out)

/-- Everything in the node can be converted. -/
structure Convertible (host : Host) (node : HostAddrInfo) : Prop where
  family : node.aiFamily ∈ [(host.afUnspec : Int), host.afInet, host.afInet6]
  socktype : node.aiSocktype ∈ [host.sockStream, host.sockDgram, host.sockRaw]
  protocol : node.aiProtocol ∈
    [host.ipprotoIp, host.ipprotoTcp, host.ipprotoUdp, host.ipprotoIpv6]
  addr : ∀ addr, node.aiAddr = some addr →
    host.familyField.read addr ∈ [host.afInet, host.afInet6]

instance (host : Host) : DecidablePred (Convertible host) := fun node =>
  decidable_of_iff (_ ∧ _ ∧ _ ∧ ∀ addr ∈ node.aiAddr, _)
    ⟨fun ⟨h1, h2, h3, h4⟩ => ⟨h1, h2, h3, h4⟩, fun h => ⟨h.1, h.2, h.3, h.4⟩⟩

/-- The node of the copy for a node of the host. -/
structure Converts (host : Host) (node : HostAddrInfo) (info : BionicAddrInfo) : Prop where
  flags : info.aiFlags = fromHostAiFlags host node.aiFlags
  family : fromHostAfFamily host node.aiFamily = .ok info.aiFamily
  socktype : fromHostSocktype host node.aiSocktype = .ok info.aiSocktype
  protocol : fromHostIpproto host node.aiProtocol = .ok info.aiProtocol
  addrlen : getBionicLen host node.aiAddr = .ok info.aiAddrlen
  canonname : info.aiCanonname = node.aiCanonname
  addr : Option.Rel (fun addr addr' => ∃ memory, fromHost host addr memory = .ok addr')
    node.aiAddr info.aiAddr

/-- A call succeeds exactly if `known`. -/
def Succeeds {α : Type} (call : Except NetworkError α) (known : Prop) : Prop :=
  (∃ a, call = .ok a ∧ known) ∨ ∃ e, call = .error e ∧ ¬ known

theorem switch_succeeds {α : Type} {cases : List (Int × α)} {e : NetworkError} {n : Int} :
    Succeeds (switch cases e n) (n ∈ cases.map Prod.fst) := by
  rw [switch]
  rcases hlookup : cases.lookup n with _ | a
  · rw [lookup_eq_none_iff] at hlookup
    refine .inr ⟨e, rfl, fun hmem => ?_⟩
    obtain ⟨c, hc, rfl⟩ := mem_map.mp hmem
    exact absurd (hlookup c hc) (by simp)
  · refine .inl ⟨a, rfl, ?_⟩
    obtain ⟨l, r, rfl, -⟩ := lookup_eq_some_iff.mp hlookup
    simp

section Known
variable (host : Host) (n : Int)

theorem fromHostAfFamily_succeeds : Succeeds (fromHostAfFamily host n)
    (n ∈ [(host.afUnspec : Int), host.afInet, host.afInet6]) := switch_succeeds

theorem fromHostSocktype_succeeds : Succeeds (fromHostSocktype host n)
    (n ∈ [host.sockStream, host.sockDgram, host.sockRaw]) := switch_succeeds

theorem fromHostIpproto_succeeds : Succeeds (fromHostIpproto host n)
    (n ∈ [host.ipprotoIp, host.ipprotoTcp, host.ipprotoUdp, host.ipprotoIpv6]) := switch_succeeds

end Known

theorem getBionicLen_succeeds (host : Host) (addr : Bytes) : Succeeds
    (getBionicLen host (some addr)) (host.familyField.read addr ∈ [host.afInet, host.afInet6]) := by
  simp only [Succeeds, getBionicLen, mem_cons, not_mem_nil, or_false]
  split_ifs with h h'
  · simp [h]
  · simp [h']
  · simp [h, h']

theorem fromHost_of_known {host : Host}
    (h : host.familyField.read addr ∈ [host.afInet, host.afInet6]) (memory : Bytes) :
    ∃ addr', fromHost host addr memory = .ok addr' := by
  simp only [mem_cons, not_mem_nil, or_false] at h
  rw [fromHost]
  split_ifs with hunspec hinet hinet6
  · exact ⟨_, rfl⟩
  · exact ⟨_, rfl⟩
  · exact ⟨_, rfl⟩
  · exact absurd (h.resolve_left hinet) hinet6

theorem convertAddr_cases (host : Host) (memory : Bytes) (addr? : Option Bytes) :
    (∃ len addr?', convertAddr host memory addr? = .ok (len, addr?') ∧
      (∀ addr, addr? = some addr → host.familyField.read addr ∈ [host.afInet, host.afInet6]) ∧
      getBionicLen host addr? = .ok len ∧
      Option.Rel (fun addr addr' => ∃ memory, fromHost host addr memory = .ok addr')
        addr? addr?') ∨
    ∃ e, convertAddr host memory addr? = .error e ∧
      ∃ addr, addr? = some addr ∧ host.familyField.read addr ∉ [host.afInet, host.afInet6] := by
  cases addr? with
  | none => exact .inl ⟨0, none, rfl, fun _ h => (by cases h), rfl, .none⟩
  | some addr =>
    rcases getBionicLen_succeeds host addr with ⟨len, hlen, hknown⟩ | ⟨e, hlen, hunknown⟩
    · obtain ⟨addr', haddr⟩ := fromHost_of_known hknown memory
      refine .inl ⟨len, some addr', ?_, ?_, hlen, .some ⟨memory, haddr⟩⟩
      · simp only [convertAddr, hlen, haddr]
        rfl
      · intro other h
        cases h
        exact hknown
    · refine .inr ⟨e, ?_, addr, rfl, hunknown⟩
      simp only [convertAddr, hlen]
      rfl

theorem convertNode_cases (host : Host) (memory : Bytes) (node : HostAddrInfo) :
    (∃ info, convertNode host memory node = .ok info ∧ Convertible host node ∧
      Converts host node info) ∨
    ∃ e, convertNode host memory node = .error e ∧ ¬ Convertible host node := by
  rcases fromHostAfFamily_succeeds host node.aiFamily with ⟨_, hfamily, hf⟩ | ⟨e, hfamily, hnot⟩
  · rcases fromHostSocktype_succeeds host node.aiSocktype with ⟨_, htype, ht⟩ | ⟨e, htype, hnot⟩
    · rcases fromHostIpproto_succeeds host node.aiProtocol with ⟨_, hproto, hp⟩ | ⟨e, hproto, hnot⟩
      · rcases convertAddr_cases host memory node.aiAddr with
          ⟨len, addr', haddr, hknown, hlen, hrel⟩ | ⟨e, haddr, addr, hsome, hunknown⟩
        · refine .inl ⟨⟨_, _, _, _, len, _, addr'⟩, ?_, ⟨hf, ht, hp, hknown⟩,
            ⟨rfl, hfamily, htype, hproto, hlen, rfl, hrel⟩⟩
          simp only [convertNode, hfamily, htype, hproto, haddr]
          rfl
        · refine .inr ⟨e, ?_, fun h => hunknown (h.addr addr hsome)⟩
          simp only [convertNode, hfamily, htype, hproto, haddr]
          rfl
      · exact .inr ⟨e, by simp only [convertNode, hfamily, htype, hproto]; rfl, (hnot ·.protocol)⟩
    · exact .inr ⟨e, by simp only [convertNode, hfamily, htype]; rfl, (hnot ·.socktype)⟩
  · exact .inr ⟨e, by simp only [convertNode, hfamily]; rfl, (hnot ·.family)⟩

theorem fromHostAlloc_built (host : Host) (allocator : Allocator Nat) (memory : Nat → Bytes)
    (nodes : List HostAddrInfo) (heap : Memory Nat BionicAddrInfo) :
    ∃ cells, Built heap (fromHostAlloc host allocator memory nodes heap).2
        (fromHostAlloc host allocator memory nodes heap).1 cells ∧
      List.Forall₂ (Converts host) (nodes.filter (Convertible host ·)) (cells.map Prod.snd) := by
  induction nodes generalizing heap with
  | nil => exact ⟨[], Built.nil heap, .nil⟩
  | cons node rest ih =>
    have hfresh := allocator.fresh heap.live
    rcases convertNode_cases host (memory (allocator.new heap.live)) node with
      ⟨info, hok, hconvertible, hconverts⟩ | ⟨e, herror, hnot⟩
    · obtain ⟨cells, hbuilt, hvalues⟩ := ih
        ((heap.alloc (allocator.new heap.live)).write (allocator.new heap.live) (info, none))
      refine ⟨(allocator.new heap.live, info) :: cells, ?_, ?_⟩
      · simp only [fromHostAlloc, hok]
        exact hbuilt.link hfresh rfl
      · simp only [filter_cons, hconvertible, decide_true, if_true]
        exact .cons hconverts hvalues
    · obtain ⟨cells, hbuilt, hvalues⟩ := ih heap
      refine ⟨cells, ?_, ?_⟩
      · simp only [fromHostAlloc, herror, Memory.free_alloc hfresh]
        exact hbuilt
      · simp only [filter_cons, hnot, decide_false, Bool.false_eq_true, if_false]
        exact hvalues

/-- **The copy is the list of the conversions of the nodes that can be converted**, and all that is
left in memory; an address that goes to the host and back is the same. -/
theorem from_host_alloc_list (host : Host) :
    (∀ (allocator : Allocator Nat) (memory : Nat → Bytes) (nodes : List HostAddrInfo)
        (heap : Memory Nat BionicAddrInfo),
      ∃ cells, Built heap (fromHostAlloc host allocator memory nodes heap).2
          (fromHostAlloc host allocator memory nodes heap).1 cells ∧
        List.Forall₂ (Converts host) (nodes.filter (Convertible host ·)) (cells.map Prod.snd)) ∧
    (∀ src out out' : Bytes, shortField.read src = AfFamily.inet.number →
      ∃ addr addr', toHost host src out = .ok addr ∧ fromHost host addr out' = .ok addr' ∧
        ∀ i < 8, addr' i = src i) ∧
    (∀ src out out' : Bytes, shortField.read src = AfFamily.inet6.number →
      ∃ addr addr', toHost host src out = .ok addr ∧ fromHost host addr out' = .ok addr' ∧
        ∀ i < 28, addr' i = src i) :=
  ⟨fromHostAlloc_built host, fun _ out out' h => inet_round_trip host h out out',
    fun _ out out' h => inet6_round_trip host h out out'⟩

example : ([⟨0, 2, 1, 6, none, some fun i => if i = 0 then 2 else 0⟩,
    ⟨0, 0, 1, 6, none, some fun i => if i = 0 then 1 else 0⟩, ⟨0, 10, 2, 17, none, none⟩].map
      fun node => decide (Convertible linuxHost node)) = [true, false, true] := by
  decide

end LibcShim
