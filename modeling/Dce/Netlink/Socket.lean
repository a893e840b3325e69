import Dce.Netlink.Message

/- What a netlink socket does with a request, `netlink-socket.cc`. -/

namespace Dce.Netlink

inductive SocketErrno
  | NOTERROR
  | ISCONN
  | NOTCONN
  | MSGSIZE
  | AGAIN
  | SHUTDOWN
  | OPNOTSUPP
  | AFNOSUPPORT
  | INVAL
  | BADF
  | NOROUTETOHOST
  | NODEV
  | ADDRNOTAVAIL
  | ADDRINUSE
  deriving DecidableEq

/-- `ErrnoToSimuErrno`, which asserts that it knows the error -/
def errnoToSimuErrno : SocketErrno → Option Int32
  | .ISCONN => some 106
  | .NOTCONN => some 107
  | .MSGSIZE => some 90
  | .AGAIN => some 11
  | .SHUTDOWN => some 108
  | .OPNOTSUPP => some 95
  | .AFNOSUPPORT => some 97
  | .INVAL => some 22
  | .BADF => some 9
  | .NOROUTETOHOST => some 113
  | .NODEV => some 19
  | .ADDRNOTAVAIL => some 99
  | .NOTERROR | .ADDRINUSE => none

structure RouteEntry (A : Type) where
  dest : A
  gateway : A
  interface : UInt32

/-- `Ipv4DceRouting` and `Ipv6StaticRouting`: tables `R` of routes to addresses `A`. -/
structure RoutingTable (A R : Type) where
  getNRoutes : R → Nat
  getRoute : R → Nat → RouteEntry A
  removeRoute : R → Nat → R
  addHostRouteTo : R → A → Option A → UInt32 → UInt32 → R
  addNetworkRouteTo : R → A → UInt32 → Option A → UInt32 → UInt32 → R

/-- Addresses `A` of the simulator: the bytes that they are in an `Address`, the way back, which
asserts that there are enough of them, and the one that a variable starts with. -/
structure Addresses (A : Type) where
  bytes : A → List UInt8
  convertFrom : List UInt8 → Option A
  start : A

/-- The parts of ns-3 that a netlink socket works with. -/
structure Simulator (A₄ A₆ R₄ R₆ : Type) where
  addresses₄ : Addresses A₄
  addresses₆ : Addresses A₆
  routing₄ : RoutingTable A₄ R₄
  routing₆ : RoutingTable A₆ R₆
  isMatch : UInt32 → A₄ → A₄ → Bool
  loopback₆ : A₆
  any₆ : A₆
  isLinkLocal : A₆ → Bool

structure Ipv4InterfaceAddress (A₄ : Type) where
  addr : A₄
  mask : UInt32
  broadcast : A₄

structure Ipv6InterfaceAddress (A₆ : Type) where
  addr : A₆
  prefixLength : UInt8

structure Interface (I : Type) where
  isUp : Bool
  addresses : List I

structure NetDevice where
  address : List UInt8
  broadcast : List UInt8
  mtu : UInt32
  isBroadcast : Bool
  isMulticast : Bool
  interfaceForDevice : Option Nat

/-- A node with its interfaces and routes. It may have no IPv6. -/
structure Node (A₄ A₆ R₄ R₆ : Type) where
  devices : List NetDevice
  ipv4 : List (Interface (Ipv4InterfaceAddress A₄))
  ipv6 : Option (List (Interface (Ipv6InterfaceAddress A₆)))
  routes₄ : R₄
  routes₆ : Option R₆

def afInet : UInt8 := 2
def afInet6 : UInt8 := 10
def afPacket : UInt8 := 17

def msgFRequest : UInt16 := 1
def msgFReplace : UInt16 := 0x100
def msgFCreate : UInt16 := 0x400

def rtADst : UInt16 := 1
def rtASrc : UInt16 := 2
def rtAIif : UInt16 := 3
def rtAOif : UInt16 := 4
def rtAGateway : UInt16 := 5
def rtAPriority : UInt16 := 6

namespace NetlinkAttributeValue

def getAddress : NetlinkAttributeValue → List UInt8
  | address v => v
  | _ => []

def getU32 : NetlinkAttributeValue → UInt32
  | u32 v => v
  | _ => 0

end NetlinkAttributeValue

section

variable {A R : Type} [DecidableEq A]

/-- What the attributes of a route message say. -/
structure RouteAttributes (A : Type) where
  dest : A
  gateway : A
  index : UInt32 := 0
  metric : UInt32 := 0
  attr_flags : List UInt16 := []

/-- One round of the loop over the attributes; the type is an index of `attr_flags`. -/
def RouteAttributes.add (convertFrom : List UInt8 → Option A) (r : RouteAttributes A) (attr : NetlinkAttribute) :
    Option (RouteAttributes A) := do
  if RouteMessage.m_attributeTypes.length ≤ attr.m_type.toNat then none
  let r := { r with attr_flags := attr.m_type :: r.attr_flags }
  if attr.m_type = rtADst then return { r with dest := ← convertFrom attr.m_payload.getAddress }
  else if attr.m_type = rtASrc then
    let _ ← convertFrom attr.m_payload.getAddress
    return r
  else if attr.m_type = rtAOif then return { r with index := attr.m_payload.getU32 }
  else if attr.m_type = rtAGateway then return { r with gateway := ← convertFrom attr.m_payload.getAddress }
  else if attr.m_type = rtAPriority then return { r with metric := attr.m_payload.getU32 }
  else return r

def routeAttributes (start : A) (convertFrom : List UInt8 → Option A) (rtmsg : RouteMessage) :
    Option (RouteAttributes A) :=
  rtmsg.m_attributes.foldlM (RouteAttributes.add convertFrom) { dest := start, gateway := start }

/-- The next hop that `AddHostRouteTo` and `AddNetworkRouteTo` are given. -/
def RouteAttributes.nextHop (r : RouteAttributes A) : Option A :=
  if rtAGateway ∈ r.attr_flags then some r.gateway else none

/-- `for (i = 0; i < GetNRoutes (); i++) if (match) RemoveRoute (i)`: the table, and whether a
route was removed. -/
def removeRoutes (T : RoutingTable A R) (pred : RouteEntry A → Bool) : Nat → Nat → R → R × Bool
  | 0, _, table => (table, false)
  | fuel + 1, i, table =>
    if i < T.getNRoutes table then
      if pred (T.getRoute table i) then ((removeRoutes T pred fuel (i + 1) (T.removeRoute table i)).1, true)
      else removeRoutes T pred fuel (i + 1) table
    else (table, false)

def routes (T : RoutingTable A R) (table : R) : List (RouteEntry A) :=
  (List.range (T.getNRoutes table)).map (T.getRoute table)

/-- The message about a route, in a dump and in the reply to `RTM_GETROUTE`. -/
def routeMessage (bytes : A → List UInt8) (hdr : NetlinkMessageHeader) (family dstLen : UInt8)
    (route : RouteEntry A) : NetlinkMessage :=
  (NetlinkMessage.setHeader {} hdr).setRouteMessage {
    m_family := family
    m_dstLen := dstLen
    m_tableId := 254
    m_flags := 0x200
    m_attributes := [ .of rtADst (.address (bytes route.dest)), .of rtAIif (.u32 route.interface),
      .of rtAOif (.u32 route.interface), .of rtAGateway (.address (bytes route.gateway))] }

/-- `RTM_DELROUTE` -/
def delRoute (T : RoutingTable A R) (r : RouteAttributes A) (table : R) : Except SocketErrno R :=
  if rtADst ∉ r.attr_flags then .error .INVAL
  else
    let (table, delete_flag) :=
      removeRoutes T (fun rt => r.gateway = rt.gateway ∧ r.dest = rt.dest) (T.getNRoutes table) 0 table
    if delete_flag then .ok table else .error .INVAL

/-- `RTM_GETROUTE`: the messages that are sent, one by one. -/
def getRoute (T : RoutingTable A R) (bytes : A → List UInt8) (family : UInt8) (seq : UInt32) (r : RouteAttributes A)
    (table : R) : Except SocketErrno (List (List NetlinkMessage)) :=
  if rtADst ∉ r.attr_flags then .error .INVAL
  else
    let found := (routes T table).filter fun route => r.dest = route.dest
    if found = [] then .error .INVAL
    else .ok (found.map fun route =>
      [routeMessage bytes { m_nlmsgType := rtmNewRoute, m_nlmsgSeq := seq } family 32 route])

end

section

variable {A₄ A₆ R₄ R₆ : Type} [DecidableEq A₄] [DecidableEq A₆] (S : Simulator A₄ A₆ R₄ R₆)

/-- The inner loop of the search for an interface: whether one of the addresses matches the
gateway, where after an earlier match only the first is looked at. -/
def matchesAddress (gateway : A₄) (found : Bool) : List (Ipv4InterfaceAddress A₄) → Bool
  | [] => false
  | a :: addresses =>
    if S.isMatch a.mask a.addr gateway then true
    else if found then false
    else matchesAddress gateway found addresses

/-- The search for an interface to the gateway: the last that matches. -/
def findInterface (gateway : A₄) (ipv4 : List (Interface (Ipv4InterfaceAddress A₄))) : Option UInt32 :=
  ipv4.zipIdx.foldl (fun found (interface, i) =>
    if matchesAddress S gateway found.isSome interface.addresses then some (.ofNat i) else found) none

/-- `RTM_NEWROUTE` of the family `AF_INET`, on a socket that is bound -/
def newRoute₄ (n : Node A₄ A₆ R₄ R₆) (flags : UInt16) (dstlen : UInt8) (r : RouteAttributes A₄) (index : UInt32) :
    Except SocketErrno R₄ :=
  if dstlen = 32 then
    if (routes S.routing₄ n.routes₄).any fun rt => r.dest = rt.dest then
      if flags &&& msgFReplace ≠ 0 then
        let (table, delete_flag) := removeRoutes S.routing₄ (fun rt => r.dest = rt.dest)
          (S.routing₄.getNRoutes n.routes₄) 0 n.routes₄
        if delete_flag then .ok (S.routing₄.addHostRouteTo table r.dest r.nextHop index r.metric) else .error .INVAL
      else .ok (S.routing₄.addHostRouteTo n.routes₄ r.dest r.nextHop index r.metric)
    else if flags &&& msgFCreate ≠ 0 then .ok (S.routing₄.addHostRouteTo n.routes₄ r.dest r.nextHop index r.metric)
    else .ok n.routes₄
  else
    .ok (S.routing₄.addNetworkRouteTo n.routes₄ r.dest (~~~(1 <<< (32 - dstlen.toUInt32)) + 1)
      r.nextHop index r.metric)

/-- What `DoRouteMessage` does with a request of the family `AF_INET`: the routes and what has been
sent, or the error that is set. It stops where it follows `m_ipv4Routing` of a socket that is not bound. -/
def doRoute₄ (bound : Bool) (n : Node A₄ A₆ R₄ R₆) (nlmsg : NetlinkMessage) :
    Option (Except SocketErrno (Node A₄ A₆ R₄ R₆ × List (List NetlinkMessage))) := do
  let type := nlmsg.m_hdr.m_nlmsgType
  let r ← routeAttributes S.addresses₄.start S.addresses₄.convertFrom nlmsg.m_routeTemplate
  if rtADst ∉ r.attr_flags then return .error .INVAL
  else if type = rtmNewRoute then
    match if rtAOif ∈ r.attr_flags then some r.index
      else if rtAGateway ∈ r.attr_flags then findInterface S r.gateway n.ipv4 else none with
    | none => return .error .ADDRNOTAVAIL
    | some index =>
      if bound = false then none
      return do
        let table ← newRoute₄ S n nlmsg.m_hdr.m_nlmsgFlags nlmsg.m_routeTemplate.m_dstLen r index
        return ({ n with routes₄ := table }, [])
  else if bound = false then none
  else if type = rtmDelRoute then
    return do
      let table ← delRoute S.routing₄ r n.routes₄
      return ({ n with routes₄ := table }, [])
  else
    return do
      let sent ← getRoute S.routing₄ S.addresses₄.bytes afInet nlmsg.m_hdr.m_nlmsgSeq r n.routes₄
      return (n, sent)

/-- As `doRoute₄`, for the family `AF_INET6` -/
def doRoute₆ (n : Node A₄ A₆ R₄ R₆) (nlmsg : NetlinkMessage) :
    Option (Except SocketErrno (Node A₄ A₆ R₄ R₆ × List (List NetlinkMessage))) := do
  let type := nlmsg.m_hdr.m_nlmsgType
  let r ← routeAttributes S.addresses₆.start S.addresses₆.convertFrom nlmsg.m_routeTemplate
  if rtADst ∉ r.attr_flags then return .error .INVAL
  else
    let table ← n.routes₆
    if type = rtmNewRoute then
      return .ok ({ n with routes₆ := some (S.routing₆.addNetworkRouteTo table r.dest
        nlmsg.m_routeTemplate.m_dstLen.toUInt32 (some (r.nextHop.getD S.any₆)) r.index r.metric) }, [])
    else if type = rtmDelRoute then
      return do
        let table ← delRoute S.routing₆ r table
        return ({ n with routes₆ := some table }, [])
    else
      return do
        let sent ← getRoute S.routing₆ S.addresses₆.bytes afInet6 nlmsg.m_hdr.m_nlmsgSeq r table
        return (n, sent)

/-- `DoRouteMessage`. Of the other families only a new route is accepted, and nothing is done. -/
def doRouteMessage (bound : Bool) (n : Node A₄ A₆ R₄ R₆) (nlmsg : NetlinkMessage) (family : UInt8) :
    Option (Except SocketErrno (Node A₄ A₆ R₄ R₆ × List (List NetlinkMessage))) := do
  let _ ← n.ipv6
  if family = afInet then doRoute₄ S bound n nlmsg
  else if family = afInet6 then doRoute₆ S n nlmsg
  else
    let r ← routeAttributes () (fun _ => some ()) nlmsg.m_routeTemplate
    if rtADst ∈ r.attr_flags ∧ nlmsg.m_hdr.m_nlmsgType = rtmNewRoute then return .ok (n, [])
    else return .error .INVAL

section

variable (received_seq m_Pid : UInt32) (n : Node A₄ A₆ R₄ R₆)

/-- The bytes of `ss << name << i` -/
def deviceName (name : String) (i : Nat) : List UInt8 := (name ++ toString i).toUTF8.toList

/-- `while (mask) mask = mask << 1`, counting: 32 rounds at most -/
def maskLength : Nat → UInt32 → UInt8
  | 0, _ => 0
  | rounds + 1, mask => if mask = 0 then 0 else maskLength rounds (mask <<< 1) + 1

def addressMessage₄ (i : Nat) (a : Ipv4InterfaceAddress A₄) : NetlinkMessage :=
  (NetlinkMessage.setHeader {} {
    m_nlmsgType := rtmNewAddr, m_nlmsgFlags := msgFMulti, m_nlmsgSeq := received_seq, m_nlmsgPid := m_Pid
  }).setInterfaceAddressMessage {
    m_family := afInet
    m_length := maskLength 32 a.mask
    m_index := .ofNat i
    m_attributes := [
      .of 3 (.string (deviceName "ns3-device " i)), .of 2 (.address (S.addresses₄.bytes a.addr)),
      .of 1 (.address (S.addresses₄.bytes a.addr)), .of 4 (.address (S.addresses₄.bytes a.broadcast))] }

def addressMessage₆ (i : Nat) (a : Ipv6InterfaceAddress A₆) : NetlinkMessage :=
  (NetlinkMessage.setHeader {} {
    m_nlmsgType := rtmNewAddr, m_nlmsgFlags := msgFMulti, m_nlmsgSeq := received_seq, m_nlmsgPid := m_Pid
  }).setInterfaceAddressMessage {
    m_family := afInet6
    m_length := if S.isLinkLocal a.addr then 64 else if a.addr = S.loopback₆ then 128 else a.prefixLength
    m_scope := if S.isLinkLocal a.addr then 253 else 0
    m_index := .ofNat i
    m_attributes := [
      .of 3 (.string (deviceName "ns3-device " i)), .of 2 (.address (S.addresses₆.bytes a.addr)),
      .of 2 (.address (S.addresses₆.bytes a.addr)), .of 1 (.address (S.addresses₆.bytes a.addr))] }

/-- The loop over the IPv4 interfaces: the first address of each that is up. `GetAddress` asserts
that there is one. -/
def ipv4AddressMessages : List (Interface (Ipv4InterfaceAddress A₄) × Nat) → Option (List NetlinkMessage)
  | [] => some []
  | (interface, i) :: rest => do
    if interface.isUp = false then ipv4AddressMessages rest
    else
      let a ← interface.addresses[0]?
      return addressMessage₄ S received_seq m_Pid i a :: (← ipv4AddressMessages rest)

/-- The loop over the IPv6 interfaces: every address of each that is up -/
def ipv6AddressMessages (ipv6 : List (Interface (Ipv6InterfaceAddress A₆))) : List NetlinkMessage :=
  ipv6.zipIdx.flatMap fun (interface, i) =>
    if interface.isUp = false then []
    else interface.addresses.map (addressMessage₆ S received_seq m_Pid i)

def buildInterfaceAddressDumpMessages : Option (List NetlinkMessage) := do
  let first ← ipv4AddressMessages S received_seq m_Pid n.ipv4.zipIdx
  let ipv6 ← n.ipv6
  return first ++ ipv6AddressMessages S received_seq m_Pid ipv6

/-- `BuildInterfaceInfoDumpMessage`, which asserts that the device has an IPv4 interface -/
def buildInterfaceInfoDumpMessage (interface_num : Nat) (dev : NetDevice) : Option NetlinkMessage := do
  let ipv4_link ← dev.interfaceForDevice
  let up := (n.ipv4[ipv4_link]?.map Interface.isUp).getD false
  return (NetlinkMessage.setHeader {} {
    m_nlmsgType := rtmNewLink, m_nlmsgFlags := msgFMulti, m_nlmsgSeq := received_seq, m_nlmsgPid := m_Pid
  }).setInterfaceInfoMessage {
    m_interfaceIndex := .ofNat interface_num
    m_deviceFlags := (if up then 0x40 ||| 1 else 0) ||| (if dev.isBroadcast then 2 else 0) |||
      (if dev.isMulticast then 0x1000 else 0)
    m_changeMask := 0xffffffff
    m_attributes := [
      .of 3 (.string (deviceName "ns3-device" interface_num)), .of 1 (.address dev.address),
      .of 2 (.address dev.broadcast), .of 4 (.u32 dev.mtu), .of 5 (.u32 (.ofNat interface_num))] }

def buildInterfaceInfoDumpMessages : Option (List NetlinkMessage) :=
  n.devices.zipIdx.mapM fun (dev, i) => buildInterfaceInfoDumpMessage received_seq m_Pid n i dev

/-- `BuildRouteDumpMessages`: `bound` says whether `m_ipv4Routing` is set. -/
def buildRouteDumpMessages (bound : Bool) : Option (List NetlinkMessage) :=
  if bound = false then some []
  else do
    let table ← n.routes₆
    let hdr : NetlinkMessageHeader := {
      m_nlmsgType := rtmNewRoute, m_nlmsgFlags := msgFMulti, m_nlmsgSeq := received_seq, m_nlmsgPid := m_Pid }
    return (routes S.routing₄ n.routes₄).map (routeMessage S.addresses₄.bytes hdr afInet 32) ++
      (routes S.routing₆ table).map (routeMessage S.addresses₆.bytes
        { m_nlmsgType := rtmNewRoute, m_nlmsgFlags := msgFMulti, m_nlmsgSeq := 0, m_nlmsgPid := 0 } afInet6 128)

/-- The reply that `DumpNetlinkRouteMessage` sends -/
def dumpNetlinkRouteMessage (bound : Bool) (nlmsg : NetlinkMessage) : Option (List NetlinkMessage) := do
  let seq := nlmsg.m_hdr.m_nlmsgSeq
  let nlmsg_dump ←
    if nlmsg.m_hdr.m_nlmsgType = rtmGetAddr then buildInterfaceAddressDumpMessages S seq m_Pid n
    else if nlmsg.m_hdr.m_nlmsgType = rtmGetLink then buildInterfaceInfoDumpMessages seq m_Pid n
    else buildRouteDumpMessages S seq m_Pid n bound
  return nlmsg_dump ++ [{ m_hdr := {
    m_nlmsgType := msgDone, m_nlmsgFlags := msgFMulti, m_nlmsgSeq := seq, m_nlmsgPid := m_Pid } }]

end

def getFamily (nlmsg : NetlinkMessage) : UInt8 :=
  let type := nlmsg.m_hdr.m_nlmsgType
  if rtmNewAddr ≤ type ∧ type ≤ rtmGetAddr then nlmsg.m_addressTemplate.m_family
  else if rtmNewLink ≤ type ∧ type ≤ rtmSetLink then nlmsg.m_interfaceTemplate.m_family
  else if rtmNewRoute ≤ type ∧ type ≤ rtmGetRoute then nlmsg.m_routeTemplate.m_family
  else if isMessageFlagsDump nlmsg.m_hdr.m_nlmsgFlags then nlmsg.m_genmsg.m_family
  else 0

/-- A request to dump, as `HandleNetlinkRouteMessage` tells it -/
def isDump (nlmsg : NetlinkMessage) : Bool :=
  isMessageTypeGet nlmsg.m_hdr.m_nlmsgType && isMessageFlagsDump nlmsg.m_hdr.m_nlmsgFlags

/-- What `HandleMessage` has done when it returns: its value, the error that it has set if it has,
the node, and the messages that it has sent to the socket itself and to the group. -/
structure Handled (A₄ A₆ R₄ R₆ : Type) where
  code : Int
  errno : Option SocketErrno
  node : Node A₄ A₆ R₄ R₆
  sent : List (List NetlinkMessage)
  broadcasts : List (List NetlinkMessage)

variable (m_Pid : UInt32) (bound : Bool) (n : Node A₄ A₆ R₄ R₆) (nlmsg : NetlinkMessage)

/-- `return code`, and nothing else -/
def Handled.ret (code : Int) : Handled A₄ A₆ R₄ R₆ := ⟨code, none, n, [], []⟩

/-- `m_errno = errno; return -1` -/
def Handled.fail (errno : SocketErrno) : Handled A₄ A₆ R₄ R₆ := ⟨-1, some errno, n, [], []⟩

/-- `DoNetlinkRouteMessage`. For addresses and links there is an assertion that it is not reached. -/
def doNetlinkRouteMessage (family : UInt8) : Option (Handled A₄ A₆ R₄ R₆) :=
  let type := nlmsg.m_hdr.m_nlmsgType
  if type = rtmNewAddr ∨ type = rtmDelAddr then none
  else if type = rtmNewRoute ∨ type = rtmDelRoute ∨ type = rtmGetRoute then do
    match ← doRouteMessage S bound n nlmsg family with
    | .error errno => return .fail n errno
    | .ok (node, sent) => return ⟨0, none, node, sent, [[nlmsg, { m_hdr := {
        m_nlmsgType := msgDone, m_nlmsgFlags := msgFMulti } }]]⟩
  else if type = rtmGetLink ∨ type = rtmSetLink then none
  else some (.fail n .INVAL)

def handleNetlinkRouteMessage : Option (Handled A₄ A₆ R₄ R₆) :=
  if nlmsg.m_hdr.m_nlmsgFlags &&& msgFRequest = 0 then some (.ret n 0)
  else if msgAlign (nlmsg.m_hdr.m_nlmsgLen - 16).toNat < 1 then some (.ret n 0)
  else
    let family := getFamily nlmsg
    if ¬ (family = afInet ∨ family = 0 ∨ family = afPacket ∨ family = afInet6) then none
    else if isDump nlmsg then do
      let reply ← dumpNetlinkRouteMessage S m_Pid n bound nlmsg
      return ⟨-1, none, n, [reply], []⟩
    else doNetlinkRouteMessage S bound n nlmsg family

def handleMessage : Option (Handled A₄ A₆ R₄ R₆) :=
  let type := nlmsg.m_hdr.m_nlmsgType
  if nlmsg.m_hdr.m_nlmsgLen < 16 then some (.fail n .INVAL)
  else if type < rtmNewLink then some (.ret n 0)
  else if type < rtmMax then handleNetlinkRouteMessage S m_Pid bound n nlmsg
  else some (.fail n .INVAL)

/-- The message of `SendAckMessage` -/
def ackMessage (err : Int32) : NetlinkMessage :=
  (NetlinkMessage.setHeader {} {
    m_nlmsgType := msgError, m_nlmsgSeq := nlmsg.m_hdr.m_nlmsgSeq, m_nlmsgPid := nlmsg.m_hdr.m_nlmsgPid
  }).setErrorMessage { m_error := err, m_msg := nlmsg.m_hdr }

/-- A socket with its node, and what it has been sent. -/
structure Kernel (A₄ A₆ R₄ R₆ : Type) where
  m_errno : SocketErrno
  m_Pid : UInt32
  bound : Bool
  node : Node A₄ A₆ R₄ R₆
  sent : List (List NetlinkMessage)
  broadcasts : List (List NetlinkMessage)

/-- A round of the loop over the messages in `SendTo`. -/
def handle (k : Kernel A₄ A₆ R₄ R₆) (nlmsg : NetlinkMessage) : Option (Kernel A₄ A₆ R₄ R₆) := do
  let h ← handleMessage S k.m_Pid k.bound k.node nlmsg
  let k := { k with
    m_errno := h.errno.getD k.m_errno
    node := h.node
    sent := k.sent ++ h.sent
    broadcasts := k.broadcasts ++ h.broadcasts }
  if h.code < 0 then
    if k.m_errno ≠ .NOTERROR then
      let err ← errnoToSimuErrno k.m_errno
      return { k with sent := k.sent ++ [[ackMessage nlmsg (-err)]] }
    else return k
  else if isMessageFlagsAck nlmsg.m_hdr.m_nlmsgFlags then
    return { k with sent := k.sent ++ [[ackMessage nlmsg 0]] }
  else return k

end

end Dce.Netlink
