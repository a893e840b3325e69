import Dce.Netlink.Socket

namespace Dce.Netlink

open NetlinkMessage List Option

/-- What a dump can be about. -/
inductive Object (A₄ A₆ : Type)
  | address₄ (i : Nat) (a : Ipv4InterfaceAddress A₄)
  | address₆ (i : Nat) (a : Ipv6InterfaceAddress A₆)
  | link (i : Nat) (dev : NetDevice)
  | route₄ (route : RouteEntry A₄)
  | route₆ (route : RouteEntry A₆)

/-- A request to dump, as it comes out of the parser. -/
structure DumpRequest where
  nlmsg : NetlinkMessage
  type : nlmsg.m_hdr.m_nlmsgType = rtmGetAddr ∨ nlmsg.m_hdr.m_nlmsgType = rtmGetLink ∨
    nlmsg.m_hdr.m_nlmsgType = rtmGetRoute
  dump : isMessageFlagsDump nlmsg.m_hdr.m_nlmsgFlags = true
  request : nlmsg.m_hdr.m_nlmsgFlags &&& msgFRequest ≠ 0
  length : 16 < nlmsg.m_hdr.m_nlmsgLen

/-- `NS_ASSERT (family == AF_INET || ...)` -/
def KnownFamily (family : UInt8) : Prop := family = afInet ∨ family = 0 ∨ family = afPacket ∨ family = afInet6

instance (family : UInt8) : Decidable (KnownFamily family) :=
  inferInstanceAs (Decidable (family = afInet ∨ family = 0 ∨ family = afPacket ∨ family = afInet6))

section

variable {A₄ A₆ R₄ R₆ : Type} (S : Simulator A₄ A₆ R₄ R₆)

def addressObjects₄ (ipv4 : List (Interface (Ipv4InterfaceAddress A₄) × Nat)) : List (Object A₄ A₆) :=
  ipv4.flatMap fun x => if x.1.isUp = false then [] else x.1.addresses.map (.address₄ x.2)

def addressObjects₆ (ipv6 : List (Interface (Ipv6InterfaceAddress A₆) × Nat)) : List (Object A₄ A₆) :=
  ipv6.flatMap fun x => if x.1.isUp = false then [] else x.1.addresses.map (.address₆ x.2)

def routeObjects (n : Node A₄ A₆ R₄ R₆) : List (Object A₄ A₆) :=
  (routes S.routing₄ n.routes₄).map .route₄ ++ ((n.routes₆.map (routes S.routing₆)).getD []).map .route₆

/-- The objects of a node that a dump is to report: of addresses those of the interfaces that are up. -/
def objects (n : Node A₄ A₆ R₄ R₆) (type : UInt16) : List (Object A₄ A₆) :=
  if type = rtmGetAddr then addressObjects₄ n.ipv4.zipIdx ++ addressObjects₆ (n.ipv6.getD []).zipIdx
  else if type = rtmGetLink then n.devices.zipIdx.map fun x => .link x.2 x.1
  else routeObjects S n

/-- The message is about this object. -/
def Reports (nlmsg : NetlinkMessage) : Object A₄ A₆ → Prop
  | .address₄ i a => nlmsg.m_hdr.m_nlmsgType = rtmNewAddr ∧ nlmsg.m_addressTemplate.m_family = afInet ∧
      nlmsg.m_addressTemplate.m_index = .ofNat i ∧
      .of 2 (.address (S.addresses₄.bytes a.addr)) ∈ nlmsg.m_addressTemplate.m_attributes
  | .address₆ i a => nlmsg.m_hdr.m_nlmsgType = rtmNewAddr ∧ nlmsg.m_addressTemplate.m_family = afInet6 ∧
      nlmsg.m_addressTemplate.m_index = .ofNat i ∧
      .of 2 (.address (S.addresses₆.bytes a.addr)) ∈ nlmsg.m_addressTemplate.m_attributes
  | .link i dev => nlmsg.m_hdr.m_nlmsgType = rtmNewLink ∧ nlmsg.m_interfaceTemplate.m_interfaceIndex = .ofNat i ∧
      .of 1 (.address dev.address) ∈ nlmsg.m_interfaceTemplate.m_attributes
  | .route₄ route => nlmsg.m_hdr.m_nlmsgType = rtmNewRoute ∧ nlmsg.m_routeTemplate.m_family = afInet ∧
      .of rtADst (.address (S.addresses₄.bytes route.dest)) ∈ nlmsg.m_routeTemplate.m_attributes ∧
      .of rtAOif (.u32 route.interface) ∈ nlmsg.m_routeTemplate.m_attributes ∧
      .of rtAGateway (.address (S.addresses₄.bytes route.gateway)) ∈ nlmsg.m_routeTemplate.m_attributes
  | .route₆ route => nlmsg.m_hdr.m_nlmsgType = rtmNewRoute ∧ nlmsg.m_routeTemplate.m_family = afInet6 ∧
      .of rtADst (.address (S.addresses₆.bytes route.dest)) ∈ nlmsg.m_routeTemplate.m_attributes ∧
      .of rtAOif (.u32 route.interface) ∈ nlmsg.m_routeTemplate.m_attributes ∧
      .of rtAGateway (.address (S.addresses₆.bytes route.gateway)) ∈ nlmsg.m_routeTemplate.m_attributes

/-- The message belongs to the reply to a request with this number, sent to this socket. -/
def Stamped (seq m_Pid : UInt32) (nlmsg : NetlinkMessage) : Prop :=
  nlmsg.m_hdr.m_nlmsgSeq = seq ∧ nlmsg.m_hdr.m_nlmsgPid = m_Pid ∧ nlmsg.m_hdr.m_nlmsgFlags &&& msgFMulti ≠ 0

variable (m_Pid : UInt32) (bound : Bool) (n : Node A₄ A₆ R₄ R₆) (r : DumpRequest)

/-- The request is answered by one list, all of it stamped, with one message for each object and
then the one that says that it is done. -/
def Correlated [DecidableEq A₄] [DecidableEq A₆] : Prop :=
  ∃ h body last, handleMessage S m_Pid bound n r.nlmsg = some h ∧ h.sent = [body ++ [last]] ∧
    (∀ nlmsg ∈ body ++ [last], Stamped r.nlmsg.m_hdr.m_nlmsgSeq m_Pid nlmsg) ∧
    last.m_hdr.m_nlmsgType = msgDone ∧ (∀ nlmsg ∈ body, nlmsg.m_hdr.m_nlmsgType ≠ msgDone) ∧
    ∃ reported, reported.Perm (objects S n r.nlmsg.m_hdr.m_nlmsgType) ∧ List.Forall₂ (Reports S) body reported

/-- What the builders can report: one address of each IPv4 interface that is up, devices that have
an IPv4 interface, and IPv6 routes as numbered 0 for socket 0. -/
def Reportable : Prop :=
  KnownFamily (getFamily r.nlmsg) ∧
  (r.nlmsg.m_hdr.m_nlmsgType = rtmGetAddr →
    (∀ interface ∈ n.ipv4, interface.isUp = true → interface.addresses.length = 1) ∧ n.ipv6.isSome = true) ∧
  (r.nlmsg.m_hdr.m_nlmsgType = rtmGetLink → ∀ dev ∈ n.devices, dev.interfaceForDevice.isSome = true) ∧
  (r.nlmsg.m_hdr.m_nlmsgType = rtmGetRoute → if bound = false then routeObjects S n = []
    else ∃ table, n.routes₆ = some table ∧
    (routes S.routing₆ table = [] ∨ r.nlmsg.m_hdr.m_nlmsgSeq = 0 ∧ m_Pid = 0))

variable {S m_Pid bound n r} {seq : UInt32}

variable {nlmsg : NetlinkMessage} {body : List NetlinkMessage} {os : List (Object A₄ A₆)}
  {ipv4 : List (Interface (Ipv4InterfaceAddress A₄) × Nat)}

theorem Reports.type {o : Object A₄ A₆} (reports : Reports S nlmsg o) :
    nlmsg.m_hdr.m_nlmsgType = rtmNewAddr ∨ nlmsg.m_hdr.m_nlmsgType = rtmNewLink ∨
    nlmsg.m_hdr.m_nlmsgType = rtmNewRoute := by
  cases o with
  | address₄ => exact .inl reports.1
  | address₆ => exact .inl reports.1
  | link => exact .inr (.inl reports.1)
  | route₄ => exact .inr (.inr reports.1)
  | route₆ => exact .inr (.inr reports.1)

theorem types_of_reports (pairs : List.Forall₂ (Reports S) body os) :
    ∀ nlmsg ∈ body, nlmsg.m_hdr.m_nlmsgType ≠ msgDone ∧ nlmsg.m_hdr.m_nlmsgType ≠ msgError := by
  induction pairs with
  | nil => exact fun _ mem => nomatch mem
  | cons here _ ih =>
    refine forall_mem_cons.mpr ⟨?_, ih⟩
    rcases here.type with type | type | type <;> rw [type] <;> decide

theorem ipv4_reports (one : ∀ x ∈ ipv4, x.1.isUp = true → x.1.addresses.length = 1) :
    ∃ body, ipv4AddressMessages S seq m_Pid ipv4 = some body ∧ List.Forall₂ (Reports S) body (addressObjects₄ ipv4) ∧
      ∀ nlmsg ∈ body, Stamped seq m_Pid nlmsg := by
  induction ipv4 with
  | nil => exact ⟨[], rfl, .nil, fun _ mem => nomatch mem⟩
  | cons x ipv4 ih =>
    obtain ⟨interface, i⟩ := x
    obtain ⟨here, later⟩ := forall_mem_cons.mp one
    obtain ⟨body, run, pairs, stamped⟩ := ih later
    unfold ipv4AddressMessages addressObjects₄
    rw [flatMap_cons]
    cases up : interface.isUp with
    | false => exact ⟨body, run, pairs, stamped⟩
    | true =>
      obtain ⟨a, one⟩ := length_eq_one_iff.mp (here up)
      refine ⟨addressMessage₄ S seq m_Pid i a :: body, ?_, ?_, ?_⟩
      · have first : interface.addresses[0]? = some a := by rw [show interface.addresses = [a] from one]; rfl
        simp [first, run]
      · rw [one]
        exact .cons ⟨rfl, rfl, rfl, by simp [addressMessage₄, setInterfaceAddressMessage]⟩ pairs
      · exact forall_mem_cons.mpr ⟨⟨rfl, rfl, (by decide : msgFMulti &&& msgFMulti ≠ 0)⟩, stamped⟩

theorem ipv4_length (run : ipv4AddressMessages S seq m_Pid ipv4 = some body) :
    body.length ≤ (addressObjects₄ ipv4 : List (Object A₄ A₆)).length ∧
      ((addressObjects₄ ipv4 : List (Object A₄ A₆)).length ≤ body.length →
        ∀ x ∈ ipv4, x.1.isUp = true → x.1.addresses.length = 1) := by
  induction ipv4 generalizing body with
  | nil =>
    cases run
    exact ⟨le_rfl, fun _ _ mem => nomatch mem⟩
  | cons x ipv4 ih =>
    obtain ⟨interface, i⟩ := x
    unfold ipv4AddressMessages at run
    unfold addressObjects₄
    rw [flatMap_cons, length_append]
    split at run
    next down =>
      obtain ⟨fewer, all⟩ := ih run
      unfold addressObjects₄ at fewer all
      refine ⟨by omega, fun enough => forall_mem_cons.mpr ⟨fun up => ?_, all (by omega)⟩⟩
      exact absurd (down.symm.trans up) (by decide)
    next up =>
      obtain ⟨a, first, run⟩ := bind_eq_some_iff.mp run
      obtain ⟨rest, later, same⟩ := bind_eq_some_iff.mp run
      cases same
      obtain ⟨fewer, all⟩ := ih later
      unfold addressObjects₄ at fewer all
      have some' := (List.getElem?_eq_some_iff.mp first).1
      dsimp only
      rw [if_neg up, length_map, length_cons]
      refine ⟨by omega, fun enough => forall_mem_cons.mpr ⟨fun _ => ?_, all (by omega)⟩⟩
      show interface.addresses.length = 1
      omega

theorem ipv6_reports [DecidableEq A₆] (ipv6 : List (Interface (Ipv6InterfaceAddress A₆))) :
    List.Forall₂ (Reports S) (ipv6AddressMessages S seq m_Pid ipv6) (addressObjects₆ ipv6.zipIdx) ∧
      ∀ nlmsg ∈ ipv6AddressMessages S seq m_Pid ipv6, Stamped seq m_Pid nlmsg := by
  unfold ipv6AddressMessages addressObjects₆
  induction ipv6.zipIdx with
  | nil => exact ⟨.nil, fun _ mem => nomatch mem⟩
  | cons x ipv6 ih =>
    rw [flatMap_cons, flatMap_cons]
    dsimp only
    split
    · exact ih
    · refine ⟨rel_append ?_ ih.1, fun nlmsg mem => ?_⟩
      · rw [forall₂_map_left_iff, forall₂_map_right_iff, forall₂_same]
        exact fun a _ => ⟨rfl, rfl, rfl, by simp [addressMessage₆, setInterfaceAddressMessage]⟩
      · rcases mem_append.mp mem with here | later
        · obtain ⟨a, -, rfl⟩ := mem_map.mp here
          exact ⟨rfl, rfl, (by decide : msgFMulti &&& msgFMulti ≠ 0)⟩
        · exact ih.2 nlmsg later

theorem mapM_eq_some {α β : Type} {f : α → Option β} {xs : List α} {ys : List β} :
    xs.mapM f = some ys ↔ List.Forall₂ (fun x y => f x = some y) xs ys := by
  induction xs generalizing ys with
  | nil =>
    rw [forall₂_nil_left_iff]
    exact ⟨fun same => (some.inj same).symm, fun none => none ▸ rfl⟩
  | cons x xs ih =>
    rw [mapM_cons, forall₂_cons_left_iff]
    constructor
    · intro run
      obtain ⟨y, here, run⟩ := bind_eq_some_iff.mp run
      obtain ⟨ys', later, same⟩ := bind_eq_some_iff.mp run
      exact ⟨y, ys', here, ih.mp later, (some.inj same).symm⟩
    · rintro ⟨y, ys', here, later, rfl⟩
      rw [here, ih.mpr later]
      rfl

theorem link_reports {i : Nat} {dev : NetDevice}
    (run : buildInterfaceInfoDumpMessage seq m_Pid n i dev = some nlmsg) :
    dev.interfaceForDevice.isSome = true ∧ Reports S nlmsg (.link i dev) ∧ Stamped seq m_Pid nlmsg := by
  obtain ⟨ipv4_link, found, same⟩ := bind_eq_some_iff.mp run
  cases same
  exact ⟨by rw [found]; rfl, ⟨rfl, rfl, by simp [setInterfaceInfoMessage]⟩, rfl, rfl,
    (by decide : msgFMulti &&& msgFMulti ≠ 0)⟩

theorem links_report (run : buildInterfaceInfoDumpMessages seq m_Pid n = some body) :
    List.Forall₂ (Reports S) body (n.devices.zipIdx.map fun x => .link x.2 x.1) ∧
      (∀ nlmsg ∈ body, Stamped seq m_Pid nlmsg) ∧ ∀ x ∈ n.devices.zipIdx, x.1.interfaceForDevice.isSome = true := by
  have pairs := mapM_eq_some.mp run
  clear run
  generalize n.devices.zipIdx = devices at pairs ⊢
  induction pairs with
  | nil => exact ⟨.nil, fun _ mem => (nomatch mem), fun _ mem => nomatch mem⟩
  | cons here _ ih =>
    obtain ⟨known, reports, stamped⟩ := link_reports (S := S) here
    exact ⟨.cons reports ih.1, forall_mem_cons.mpr ⟨stamped, ih.2.1⟩, forall_mem_cons.mpr ⟨known, ih.2.2⟩⟩

theorem exists_links (known : ∀ dev ∈ n.devices, dev.interfaceForDevice.isSome = true) :
    ∃ body, buildInterfaceInfoDumpMessages seq m_Pid n = some body := by
  unfold buildInterfaceInfoDumpMessages
  have known : ∀ x ∈ n.devices.zipIdx, x.1.interfaceForDevice.isSome = true := fun x mem =>
    known x.1 (fst_mem_of_mem_zipIdx mem)
  generalize n.devices.zipIdx = devices at known ⊢
  induction devices with
  | nil => exact ⟨[], rfl⟩
  | cons x xs ih =>
    obtain ⟨here, later⟩ := forall_mem_cons.mp known
    obtain ⟨ipv4_link, found⟩ := isSome_iff_exists.mp here
    obtain ⟨body, run⟩ := ih later
    rw [mapM_cons, run]
    dsimp only
    unfold buildInterfaceInfoDumpMessage
    rw [found]
    exact ⟨_, rfl⟩

theorem routes₄_report (hdr : NetlinkMessageHeader) (type : hdr.m_nlmsgType = rtmNewRoute)
    (found : List (RouteEntry A₄)) :
    List.Forall₂ (Reports S) (found.map (routeMessage S.addresses₄.bytes hdr afInet 32)) (found.map .route₄) := by
  rw [forall₂_map_left_iff, forall₂_map_right_iff, forall₂_same]
  exact fun route _ => ⟨type, rfl, by simp [routeMessage, setRouteMessage],
    by simp [routeMessage, setRouteMessage], by simp [routeMessage, setRouteMessage]⟩

theorem routes₆_report (hdr : NetlinkMessageHeader) (type : hdr.m_nlmsgType = rtmNewRoute)
    (found : List (RouteEntry A₆)) :
    List.Forall₂ (Reports S) (found.map (routeMessage S.addresses₆.bytes hdr afInet6 128)) (found.map .route₆) := by
  rw [forall₂_map_left_iff, forall₂_map_right_iff, forall₂_same]
  exact fun route _ => ⟨type, rfl, by simp [routeMessage, setRouteMessage],
    by simp [routeMessage, setRouteMessage], by simp [routeMessage, setRouteMessage]⟩

section

variable [DecidableEq A₆]

/-- What is sent before the message that says that the dump is done. -/
def dumpBody (S : Simulator A₄ A₆ R₄ R₆) (m_Pid : UInt32) (bound : Bool) (n : Node A₄ A₆ R₄ R₆) (type : UInt16)
    (seq : UInt32) : Option (List NetlinkMessage) :=
  if type = rtmGetAddr then buildInterfaceAddressDumpMessages S seq m_Pid n
  else if type = rtmGetLink then buildInterfaceInfoDumpMessages seq m_Pid n
  else buildRouteDumpMessages S seq m_Pid n bound

def doneMessage (m_Pid seq : UInt32) : NetlinkMessage where
  m_hdr := { m_nlmsgType := msgDone, m_nlmsgFlags := msgFMulti, m_nlmsgSeq := seq, m_nlmsgPid := m_Pid }

theorem dumpNetlinkRouteMessage_eq (nlmsg : NetlinkMessage) : dumpNetlinkRouteMessage S m_Pid n bound nlmsg =
      (dumpBody S m_Pid bound n nlmsg.m_hdr.m_nlmsgType nlmsg.m_hdr.m_nlmsgSeq).map
        fun body => body ++ [doneMessage m_Pid nlmsg.m_hdr.m_nlmsgSeq] := by
  unfold dumpNetlinkRouteMessage dumpBody
  split
  · exact map_eq_bind.symm
  · split
    · exact map_eq_bind.symm
    · exact map_eq_bind.symm

variable [DecidableEq A₄]

theorem handleMessage_dump (r : DumpRequest) :
    handleMessage S m_Pid bound n r.nlmsg = if KnownFamily (getFamily r.nlmsg) then
        (dumpNetlinkRouteMessage S m_Pid n bound r.nlmsg).map fun reply => ⟨-1, none, n, [reply], []⟩
      else none := by
  have long := UInt32.lt_iff_toNat_lt.mp r.length
  have bound' := r.nlmsg.m_hdr.m_nlmsgLen.toNat_lt
  simp only [UInt32.reduceToNat] at long
  have whole : ¬ r.nlmsg.m_hdr.m_nlmsgLen < 16 := by
    rw [UInt32.lt_iff_toNat_lt]
    simp only [UInt32.reduceToNat]
    omega
  have payload : ¬ msgAlign (r.nlmsg.m_hdr.m_nlmsgLen - 16).toNat < 1 := by
    rw [UInt32.toNat_sub, msgAlign]
    simp only [UInt32.reduceToNat]
    omega
  have kind : ¬ r.nlmsg.m_hdr.m_nlmsgType < rtmNewLink ∧ r.nlmsg.m_hdr.m_nlmsgType < rtmMax ∧
      isMessageTypeGet r.nlmsg.m_hdr.m_nlmsgType = true := by
    rcases r.type with type | type | type <;> rw [type] <;> decide
  have dump : isDump r.nlmsg = true := by
    unfold isDump
    rw [kind.2.2, r.dump]
    rfl
  unfold handleMessage handleNetlinkRouteMessage
  rw [if_neg whole, if_neg kind.1, if_pos kind.2.1, if_neg r.request, if_neg payload, ite_not, if_pos dump]
  exact if_congr .rfl map_eq_bind.symm rfl

end

/-- A builder has made one stamped message for each of these objects. -/
def Answers (S : Simulator A₄ A₆ R₄ R₆) (m_Pid seq : UInt32) (os : List (Object A₄ A₆))
    (built : Option (List NetlinkMessage)) : Prop :=
  ∃ body, built = some body ∧ (∀ nlmsg ∈ body, Stamped seq m_Pid nlmsg) ∧
    ∃ reported, reported.Perm os ∧ List.Forall₂ (Reports S) body reported

theorem Answers.length (answers : Answers S m_Pid seq os (some body)) : body.length = os.length := by
  obtain ⟨body', same, -, reported, perm, pairs⟩ := answers
  cases same
  rw [pairs.length_eq, perm.length_eq]

theorem addresses_answered [DecidableEq A₆] :
    Answers S m_Pid seq (addressObjects₄ n.ipv4.zipIdx ++ addressObjects₆ (n.ipv6.getD []).zipIdx)
        (buildInterfaceAddressDumpMessages S seq m_Pid n) ↔
      (∀ interface ∈ n.ipv4, interface.isUp = true → interface.addresses.length = 1) ∧ n.ipv6.isSome = true := by
  constructor
  · intro answers
    cases built : buildInterfaceAddressDumpMessages S seq m_Pid n with
    | none =>
      rw [built] at answers
      obtain ⟨body, same, -⟩ := answers
      cases same
    | some body =>
      rw [built] at answers
      have length := answers.length
      obtain ⟨first, run, built⟩ := bind_eq_some_iff.mp built
      obtain ⟨ipv6, here, same⟩ := bind_eq_some_iff.mp built
      cases same
      rw [here] at length ⊢
      have pairs : Forall₂ (Reports S) (ipv6AddressMessages S seq m_Pid ipv6) _ := (ipv6_reports ipv6).1
      have pairs := pairs.length_eq
      rw [length_append, length_append, getD_some] at length
      refine ⟨fun interface mem => ?_, rfl⟩
      obtain ⟨i, at'⟩ := mem_iff_getElem?.mp mem
      exact (ipv4_length run).2 (by omega) (interface, i) (mk_mem_zipIdx_iff_getElem?.mpr at')
  · rintro ⟨one, some'⟩
    obtain ⟨ipv6, here⟩ := isSome_iff_exists.mp some'
    have one' : ∀ x ∈ n.ipv4.zipIdx, x.1.isUp = true → x.1.addresses.length = 1 := fun x mem =>
      one x.1 (fst_mem_of_mem_zipIdx mem)
    obtain ⟨first, run, pairs, stamped⟩ := ipv4_reports (S := S) one'
    obtain ⟨pairs', stamped'⟩ := ipv6_reports (S := S) ipv6
    refine ⟨first ++ ipv6AddressMessages S seq m_Pid ipv6, ?_, forall_mem_append.mpr ⟨stamped, stamped'⟩, _,
      .rfl, ?_⟩
    · unfold buildInterfaceAddressDumpMessages
      rw [run, here]
      rfl
    · rw [here]
      exact rel_append pairs pairs'

theorem links_answered :
    Answers S m_Pid seq (n.devices.zipIdx.map fun x => .link x.2 x.1) (buildInterfaceInfoDumpMessages seq m_Pid n) ↔
      ∀ dev ∈ n.devices, dev.interfaceForDevice.isSome = true := by
  constructor
  · rintro ⟨body, run, -⟩ dev mem
    obtain ⟨i, at'⟩ := mem_iff_getElem?.mp mem
    exact (links_report (S := S) run).2.2 (dev, i) (mk_mem_zipIdx_iff_getElem?.mpr at')
  · intro known
    obtain ⟨body, run⟩ := exists_links known
    obtain ⟨pairs, stamped, -⟩ := links_report (S := S) run
    exact ⟨body, run, stamped, _, .rfl, pairs⟩

theorem routes_answered : Answers S m_Pid seq (routeObjects S n) (buildRouteDumpMessages S seq m_Pid n bound) ↔
      if bound = false then routeObjects S n = []
      else ∃ table, n.routes₆ = some table ∧ (routes S.routing₆ table = [] ∨ seq = 0 ∧ m_Pid = 0) := by
  unfold buildRouteDumpMessages
  split
  · constructor
    · intro answers
      exact length_eq_zero_iff.mp answers.length.symm
    · intro none
      rw [none]
      exact ⟨[], rfl, fun _ mem => (nomatch mem), [], .rfl, .nil⟩
  · have multi : msgFMulti &&& msgFMulti ≠ 0 := by decide
    constructor
    · rintro ⟨body, run, stamped, -⟩
      obtain ⟨table, here, same⟩ := bind_eq_some_iff.mp run
      refine ⟨table, here, or_iff_not_imp_left.mpr fun some' => ?_⟩
      obtain ⟨route, mem⟩ := exists_mem_of_ne_nil _ some'
      cases same
      obtain ⟨zero, kernel, -⟩ := stamped _ (mem_append_right _ (mem_map_of_mem mem))
      exact ⟨zero.symm, kernel.symm⟩
    · rintro ⟨table, here, zero⟩
      unfold routeObjects
      rw [here]
      refine ⟨_, rfl, forall_mem_append.mpr ⟨?_, ?_⟩, _, .rfl, ?_⟩
      · intro nlmsg mem
        obtain ⟨route, -, rfl⟩ := mem_map.mp mem
        exact ⟨rfl, rfl, multi⟩
      · intro nlmsg mem
        obtain ⟨route, listed, rfl⟩ := mem_map.mp mem
        obtain ⟨rfl, rfl⟩ := zero.resolve_left (ne_nil_of_mem listed)
        exact ⟨rfl, rfl, multi⟩
      · exact rel_append (routes₄_report _ rfl _) (routes₆_report _ rfl _)

theorem ipv4_types
    (run : ipv4AddressMessages S seq m_Pid ipv4 = some body) :
    ∀ nlmsg ∈ body, nlmsg.m_hdr.m_nlmsgType = rtmNewAddr := by
  induction ipv4 generalizing body with
  | nil =>
    cases run
    exact fun _ mem => nomatch mem
  | cons x ipv4 ih =>
    unfold ipv4AddressMessages at run
    split at run
    next => exact ih run
    next =>
      obtain ⟨a, -, run⟩ := bind_eq_some_iff.mp run
      obtain ⟨rest, later, same⟩ := bind_eq_some_iff.mp run
      cases same
      exact forall_mem_cons.mpr ⟨rfl, ih later⟩

theorem dumpBody_types [DecidableEq A₆] {type : UInt16}
    (built : dumpBody S m_Pid bound n type seq = some body) :
    ∀ nlmsg ∈ body, nlmsg.m_hdr.m_nlmsgType ≠ msgError := by
  unfold dumpBody at built
  split at built
  · obtain ⟨first, run, built⟩ := bind_eq_some_iff.mp built
    obtain ⟨ipv6, -, same⟩ := bind_eq_some_iff.mp built
    cases same
    refine forall_mem_append.mpr ⟨fun nlmsg mem => ?_, fun nlmsg mem => ?_⟩
    · rw [ipv4_types run nlmsg mem]
      decide
    · exact (types_of_reports (ipv6_reports (S := S) ipv6).1 nlmsg mem).2
  · split at built
    · exact fun nlmsg mem => (types_of_reports (links_report (S := S) built).1 nlmsg mem).2
    · unfold buildRouteDumpMessages at built
      split at built
      · cases built
        exact fun _ mem => nomatch mem
      · obtain ⟨table, -, same⟩ := bind_eq_some_iff.mp built
        cases same
        refine forall_mem_append.mpr ⟨fun nlmsg mem => ?_, fun nlmsg mem => ?_⟩
        · exact (types_of_reports (routes₄_report (S := S) _ rfl _) nlmsg mem).2
        · exact (types_of_reports (routes₆_report (S := S) _ rfl _) nlmsg mem).2

variable [DecidableEq A₄] [DecidableEq A₆]

theorem correlated_iff_answers (r : DumpRequest) : Correlated S m_Pid bound n r ↔ KnownFamily (getFamily r.nlmsg) ∧
      Answers S m_Pid r.nlmsg.m_hdr.m_nlmsgSeq (objects S n r.nlmsg.m_hdr.m_nlmsgType)
        (dumpBody S m_Pid bound n r.nlmsg.m_hdr.m_nlmsgType r.nlmsg.m_hdr.m_nlmsgSeq) := by
  unfold Correlated
  rw [handleMessage_dump, dumpNetlinkRouteMessage_eq]
  constructor
  · rintro ⟨h, body, last, run, sent, stamped, -, -, reported, perm, pairs⟩
    split at run
    next known =>
      obtain ⟨reply, dumped, rfl⟩ := map_eq_some_iff.mp run
      obtain ⟨body', built, rfl⟩ := map_eq_some_iff.mp dumped
      obtain ⟨rfl, -⟩ := append_inj' (singleton_inj.mp sent) rfl
      exact ⟨known, body', built, (forall_mem_append.mp stamped).1, reported, perm, pairs⟩
    next => cases run
  · rintro ⟨known, body, built, stamped, reported, perm, pairs⟩
    rw [if_pos known, built]
    refine ⟨_, body, _, rfl, rfl, forall_mem_append.mpr ⟨stamped, fun nlmsg mem => ?_⟩, rfl,
      fun nlmsg mem => (types_of_reports pairs nlmsg mem).1, reported, perm, pairs⟩
    rw [mem_singleton.mp mem]
    exact ⟨rfl, rfl, (by decide : msgFMulti &&& msgFMulti ≠ 0)⟩

/-- Which requests to dump are answered as they should be. -/
theorem correlated_iff (r : DumpRequest) : Correlated S m_Pid bound n r ↔ Reportable S m_Pid bound n r := by
  rw [correlated_iff_answers]
  refine and_congr_right fun _ => ?_
  unfold objects dumpBody
  have differ : rtmGetLink ≠ rtmGetAddr ∧ rtmGetRoute ≠ rtmGetAddr ∧ rtmGetRoute ≠ rtmGetLink := by decide
  rcases r.type with type | type | type <;> rw [type]
  · rw [if_pos rfl, if_pos rfl, addresses_answered]
    exact ⟨fun all => ⟨fun _ => all, fun other => absurd other.symm differ.1, fun other =>
      absurd other.symm differ.2.1⟩,
      fun all => all.1 rfl⟩
  · rw [if_neg differ.1, if_pos rfl, if_neg differ.1, if_pos rfl, links_answered]
    exact ⟨fun all => ⟨fun other => absurd other differ.1, fun _ => all, fun other => absurd other.symm differ.2.2⟩,
      fun all => all.2.1 rfl⟩
  · exact routes_answered.trans ⟨fun all => ⟨fun other => absurd other differ.2.1, fun other =>
      absurd other differ.2.2,
      fun _ => all⟩, fun all => all.2.2 rfl⟩

end

/-- Routes as a list. -/
def routeList : RoutingTable (List UInt8) (List (RouteEntry (List UInt8))) where
  getNRoutes := List.length
  getRoute table i := table.getD i ⟨[], [], 0⟩
  removeRoute := List.eraseIdx
  addHostRouteTo table dest nextHop interface _ := table ++ [⟨dest, nextHop.getD [], interface⟩]
  addNetworkRouteTo table dest _ nextHop interface _ := table ++ [⟨dest, nextHop.getD [], interface⟩]

def byteAddresses (size : Nat) : Addresses (List UInt8) where
  bytes := id
  convertFrom xs := if xs.length = size then some xs else none
  start := List.replicate size 0

/-- A simulator whose addresses are their bytes. -/
def byteSimulator : Simulator (List UInt8) (List UInt8) (List (RouteEntry (List UInt8)))
    (List (RouteEntry (List UInt8))) where
  addresses₄ := byteAddresses 4
  addresses₆ := byteAddresses 16
  routing₄ := routeList
  routing₆ := routeList
  isMatch mask a b := UInt32.ofNat (Codec.value a.reverse) &&& mask == UInt32.ofNat (Codec.value b.reverse) &&& mask
  loopback₆ := List.replicate 15 0 ++ [1]
  any₆ := List.replicate 16 0
  isLinkLocal a := a.take 8 == [0xfe, 0x80, 0, 0, 0, 0, 0, 0]

/-- A node with the IPv6 route to its loopback address. -/
def loopbackNode : Node (List UInt8) (List UInt8) (List (RouteEntry (List UInt8)))
    (List (RouteEntry (List UInt8))) where
  devices := []
  ipv4 := []
  ipv6 := some []
  routes₄ := []
  routes₆ := some [⟨List.replicate 15 0 ++ [1], List.replicate 16 0, 0⟩]

def getRoutes : DumpRequest where
  nlmsg := { m_hdr := { m_nlmsgLen := 20, m_nlmsgType := rtmGetRoute, m_nlmsgFlags := 0x301, m_nlmsgSeq := 1 } }
  type := .inr (.inr rfl)
  dump := by decide
  request := by decide
  length := by decide

/-- The message about an IPv6 route is numbered 0. -/
theorem not_correlated : ¬ Correlated byteSimulator 1 true loopbackNode getRoutes := by
  intro correlated
  have answers := ((correlated_iff_answers getRoutes).mp correlated).2
  unfold objects dumpBody at answers
  rw [if_neg (by decide), if_neg (by decide), if_neg (by decide), if_neg (by decide)] at answers
  have zero := routes_answered.mp answers
  obtain ⟨table, same, zero⟩ := zero
  cases same
  rcases zero with none | ⟨zero, -⟩
  · cases none
  · exact absurd zero (by decide)

end Dce.Netlink
