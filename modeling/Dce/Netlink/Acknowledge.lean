import Dce.Lib.Machine
import Dce.Netlink.Batching
import Dce.Netlink.Dump

namespace Dce.Netlink

open List Option

/-- The messages of type `NLMSG_ERROR` among what has been sent. -/
def errors (replies : List (List NetlinkMessage)) : List NetlinkMessage :=
  replies.flatten.filter fun nlmsg => nlmsg.m_hdr.m_nlmsgType = msgError

/-- The header of a request that is answered by a dump. -/
def NetlinkMessageHeader.Dumps (hdr : NetlinkMessageHeader) : Prop :=
  (rtmNewLink ≤ hdr.m_nlmsgType ∧ hdr.m_nlmsgType < rtmMax) ∧ hdr.m_nlmsgFlags &&& msgFRequest ≠ 0 ∧
    isMessageTypeGet hdr.m_nlmsgType = true ∧ isMessageFlagsDump hdr.m_nlmsgFlags = true

section

variable {A₄ A₆ R₄ R₆ : Type} (S : Simulator A₄ A₆ R₄ R₆)

/-- The replies that a request is to get. -/
inductive Replies [DecidableEq A₆] (m_Pid : UInt32) (bound : Bool) (n : Node A₄ A₆ R₄ R₆) (nlmsg : NetlinkMessage) :
    Handled A₄ A₆ R₄ R₆ → List (List NetlinkMessage) → Prop
  | succeeds {h} : h.errno = none → 0 ≤ h.code → errors h.sent = [] →
      Replies m_Pid bound n nlmsg h (h.sent ++ if isMessageFlagsAck nlmsg.m_hdr.m_nlmsgFlags
        then [[ackMessage nlmsg 0]] else [])
  | fails {h errno err} : h.errno = some errno → errnoToSimuErrno errno = some err → -err < 0 →
      Replies m_Pid bound n nlmsg h [[ackMessage nlmsg (-err)]]
  | dumps {h reply} : h.errno = none → h.code < 0 → h.sent = [reply] → nlmsg.m_hdr.Dumps →
      dumpNetlinkRouteMessage S m_Pid n bound nlmsg = some reply → errors [reply] = [] →
      Replies m_Pid bound n nlmsg h [reply]

/-- The replies to requests that are handled one after the other, and the node after them. -/
inductive Answered [DecidableEq A₄] [DecidableEq A₆] (m_Pid : UInt32) (bound : Bool) :
    Node A₄ A₆ R₄ R₆ → List NetlinkMessage → Node A₄ A₆ R₄ R₆ → List (List NetlinkMessage) → Prop
  | nil (n) : Answered m_Pid bound n [] n []
  | cons {n nlmsg messages h n' replies later} : handleMessage S m_Pid bound n nlmsg = some h →
      Replies S m_Pid bound n nlmsg h replies → Answered m_Pid bound h.node messages n' later →
      Answered m_Pid bound n (nlmsg :: messages) n' (replies ++ later)

/-- How a request can have been handled. -/
inductive Outcome [DecidableEq A₆] (m_Pid : UInt32) (bound : Bool) (n : Node A₄ A₆ R₄ R₆) (nlmsg : NetlinkMessage) :
    Handled A₄ A₆ R₄ R₆ → Prop
  | done {h} : h.errno = none → h.code = 0 → errors h.sent = [] → Outcome m_Pid bound n nlmsg h
  | failed {errno} : errno ≠ .NOTERROR → Outcome m_Pid bound n nlmsg (.fail n errno)
  | dumped {reply} : nlmsg.m_hdr.Dumps → dumpNetlinkRouteMessage S m_Pid n bound nlmsg = some reply →
      Outcome m_Pid bound n nlmsg ⟨-1, none, n, [reply], []⟩

variable {S} {m_Pid : UInt32} {bound : Bool} {n n₁ n₂ : Node A₄ A₆ R₄ R₆} {nlmsg : NetlinkMessage}
  {h : Handled A₄ A₆ R₄ R₆}

theorem Replies.unique [DecidableEq A₆] {r r' : List (List NetlinkMessage)} (one : Replies S m_Pid bound n nlmsg h r)
    (other : Replies S m_Pid bound n nlmsg h r') : r = r' := by
  cases one with
  | succeeds none done _ =>
    cases other with
    | succeeds => rfl
    | fails some' => cases none.symm.trans some'
    | dumps _ fails => omega
  | fails some' err =>
    cases other with
    | succeeds none => cases none.symm.trans some'
    | fails some'' err' =>
      cases some'.symm.trans some''
      cases err.symm.trans err'
      rfl
    | dumps none => cases none.symm.trans some'
  | dumps none fails sent =>
    cases other with
    | succeeds _ done => omega
    | fails some' => cases none.symm.trans some'
    | dumps _ _ sent' => exact sent.symm.trans sent'

theorem Answered.unique [DecidableEq A₄] [DecidableEq A₆] {messages : List NetlinkMessage}
    {r₁ r₂ : List (List NetlinkMessage)}
    (one : Answered S m_Pid bound n messages n₁ r₁) (other : Answered S m_Pid bound n messages n₂ r₂) :
    n₁ = n₂ ∧ r₁ = r₂ := by
  induction one generalizing r₂ with
  | nil =>
    cases other
    exact ⟨rfl, rfl⟩
  | cons run replies _ ih =>
    cases other with
    | cons run' replies' later =>
      cases run.symm.trans run'
      obtain ⟨rfl, rfl⟩ := ih later
      exact ⟨rfl, by rw [replies.unique replies']⟩

theorem errors_eq_nil {replies : List (List NetlinkMessage)} :
    errors replies = [] ↔ ∀ packet ∈ replies, ∀ nlmsg ∈ packet, nlmsg.m_hdr.m_nlmsgType ≠ msgError := by
  unfold errors
  simp only [filter_eq_nil_iff, mem_flatten, decide_eq_true_iff]
  exact ⟨fun all packet mem nlmsg inside => all nlmsg ⟨packet, mem, inside⟩,
    fun all nlmsg ⟨packet, mem, inside⟩ => all packet mem nlmsg inside⟩

variable {errno : SocketErrno} {result : Except SocketErrno (Node A₄ A₆ R₄ R₆ × List (List NetlinkMessage))}
    {family : UInt8}

theorem errnoToSimuErrno_pos {err : Int32} (known : errnoToSimuErrno errno = some err) : -err < 0 := by
  cases errno <;> cases known <;> decide

/-- What a request for routes comes to: an error is set, or no error message is sent. -/
def Settled : Except SocketErrno (Node A₄ A₆ R₄ R₆ × List (List NetlinkMessage)) → Prop
  | .error errno => errno ≠ .NOTERROR
  | .ok (_, sent) => errors sent = []

theorem Settled.bind {α : Type} {x : Except SocketErrno α} {f : α → Node A₄ A₆ R₄ R₆ × List (List NetlinkMessage)}
    (fails : ∀ errno, x = .error errno → errno = .INVAL) (sends : ∀ a, x = .ok a → errors (f a).2 = []) :
    Settled (do return f (← x)) := by
  cases x with
  | error errno =>
    show errno ≠ .NOTERROR
    rw [fails errno rfl]
    decide
  | ok a => exact sends a rfl

section

variable {A R : Type} [DecidableEq A] {T : RoutingTable A R} {bytes : A → List UInt8} {family : UInt8} {seq : UInt32}
  {r : RouteAttributes A} {table : R} {sent : List (List NetlinkMessage)} {errno : SocketErrno}

theorem getRoute_error (run : getRoute T bytes family seq r table = .error errno) : errno = .INVAL := by
  unfold getRoute at run
  split at run
  · cases run
    rfl
  · dsimp only at run
    split at run <;> cases run
    rfl

theorem getRoute_errors (run : getRoute T bytes family seq r table = .ok sent) : errors sent = [] := by
  unfold getRoute at run
  split at run
  · cases run
  · dsimp only at run
    split at run <;> cases run
    refine errors_eq_nil.mpr fun packet mem nlmsg inside => ?_
    obtain ⟨route, -, rfl⟩ := mem_map.mp mem
    rw [mem_singleton.mp inside]
    exact (by decide : rtmNewRoute ≠ msgError)

theorem delRoute_error (run : delRoute T r table = .error errno) : errno = .INVAL := by
  unfold delRoute at run
  split at run
  · cases run
    rfl
  · dsimp only at run
    split at run <;> cases run
    rfl

end

theorem newRoute₄_error [DecidableEq A₄] {flags : UInt16} {dstlen : UInt8} {r : RouteAttributes A₄} {index : UInt32}
    (run : newRoute₄ S n flags dstlen r index = .error errno) : errno = .INVAL := by
  unfold newRoute₄ at run
  split at run
  · split at run
    · split at run
      · dsimp only at run
        split at run <;> cases run
        rfl
      · cases run
    · split at run <;> cases run
  · cases run

theorem doRoute₄_settled [DecidableEq A₄] (run : doRoute₄ S bound n nlmsg = some result) : Settled result := by
  obtain ⟨r, -, run⟩ := bind_eq_some_iff.mp run
  split at run
  · cases run
    exact (by decide : SocketErrno.INVAL ≠ .NOTERROR)
  · split at run
    · split at run
      · cases run
        exact (by decide : SocketErrno.ADDRNOTAVAIL ≠ .NOTERROR)
      · split at run <;> cases run
        exact .bind (fun _ => newRoute₄_error) fun _ _ => rfl
    · split at run
      · cases run
      · split at run <;> cases run
        · exact .bind (fun _ => delRoute_error) fun _ _ => rfl
        · exact .bind (fun _ => getRoute_error) fun _ => getRoute_errors

theorem doRoute₆_settled [DecidableEq A₆] (run : doRoute₆ S n nlmsg = some result) : Settled result := by
  obtain ⟨r, -, run⟩ := bind_eq_some_iff.mp run
  split at run
  · cases run
    exact (by decide : SocketErrno.INVAL ≠ .NOTERROR)
  · obtain ⟨table, -, run⟩ := bind_eq_some_iff.mp run
    split at run
    · cases run
      exact rfl
    · split at run <;> cases run
      · exact .bind (fun _ => delRoute_error) fun _ _ => rfl
      · exact .bind (fun _ => getRoute_error) fun _ => getRoute_errors

variable [DecidableEq A₆]

theorem dump_errors {reply : List NetlinkMessage}
    (run : dumpNetlinkRouteMessage S m_Pid n bound nlmsg = some reply) :
    errors [reply] = [] := by
  rw [dumpNetlinkRouteMessage_eq] at run
  obtain ⟨body, built, rfl⟩ := map_eq_some_iff.mp run
  refine errors_eq_nil.mpr fun packet mem nlmsg inside => ?_
  rw [mem_singleton.mp mem] at inside
  rcases mem_append.mp inside with inside | last
  · exact dumpBody_types built nlmsg inside
  · rw [mem_singleton.mp last]
    exact (by decide : msgDone ≠ msgError)

variable [DecidableEq A₄]

theorem doRouteMessage_settled (run : doRouteMessage S bound n nlmsg family = some result) : Settled result := by
  obtain ⟨ipv6, -, run⟩ := bind_eq_some_iff.mp run
  split at run
  · exact doRoute₄_settled run
  · split at run
    · exact doRoute₆_settled run
    · obtain ⟨r, -, run⟩ := bind_eq_some_iff.mp run
      split at run <;> cases run
      · exact rfl
      · exact (by decide : SocketErrno.INVAL ≠ .NOTERROR)

theorem doNetlinkRouteMessage_outcome (run : doNetlinkRouteMessage S bound n nlmsg family = some h) :
    Outcome S m_Pid bound n nlmsg h := by
  unfold doNetlinkRouteMessage at run
  dsimp only at run
  split at run
  · cases run
  · split at run
    · obtain ⟨result, did, run⟩ := bind_eq_some_iff.mp run
      have settled := doRouteMessage_settled did
      split at run <;> cases run
      · exact .failed settled
      · exact .done rfl rfl settled
    · split at run <;> cases run
      exact .failed (by decide)

theorem handleMessage_outcome (run : handleMessage S m_Pid bound n nlmsg = some h) :
    Outcome S m_Pid bound n nlmsg h := by
  unfold handleMessage at run
  dsimp only at run
  split at run
  · cases run
    exact .failed (by decide)
  · split at run
    · cases run
      exact .done rfl rfl rfl
    next control =>
      split at run
      next route =>
        unfold handleNetlinkRouteMessage at run
        split at run
        · cases run
          exact .done rfl rfl rfl
        next request =>
          split at run
          · cases run
            exact .done rfl rfl rfl
          · dsimp only at run
            split at run
            · cases run
            · split at run
              next dump =>
                obtain ⟨reply, dumped, same⟩ := bind_eq_some_iff.mp run
                cases same
                obtain ⟨get, flags⟩ := Bool.and_eq_true_iff.mp dump
                exact .dumped ⟨⟨UInt16.not_lt.mp control, route⟩, request, get, flags⟩ dumped
              next => exact doNetlinkRouteMessage_outcome run
      · cases run
        exact .failed (by decide)

theorem handle_replies {k k' : Kernel A₄ A₆ R₄ R₆} (run : handle S k nlmsg = some k')
    (calm : nlmsg.m_hdr.Dumps → k.m_errno = .NOTERROR) :
    ∃ h replies, handleMessage S k.m_Pid k.bound k.node nlmsg = some h ∧
      Replies S k.m_Pid k.bound k.node nlmsg h replies ∧ k'.sent = k.sent ++ replies ∧ k'.node = h.node := by
  obtain ⟨h, handled, run⟩ := bind_eq_some_iff.mp run
  refine ⟨h, ?_⟩
  cases handleMessage_outcome handled with
  | done none code errors =>
    rw [if_neg (by omega)] at run
    refine ⟨_, handled, .succeeds none (by omega) errors, ?_⟩
    split at run <;> cases run
    next ack => exact ⟨by rw [if_pos ack, append_assoc], rfl⟩
    next noAck => exact ⟨by rw [if_neg noAck, append_nil], rfl⟩
  | @failed errno some' =>
    have code : (Handled.fail k.node errno).code < 0 := (by omega : (-1 : Int) < 0)
    rw [if_pos code] at run
    split at run
    next =>
      obtain ⟨err, known, same⟩ := bind_eq_some_iff.mp run
      cases same
      refine ⟨_, handled, .fails rfl known (errnoToSimuErrno_pos known), ?_, rfl⟩
      show k.sent ++ [] ++ _ = _
      rw [append_nil]
    next quiet => exact absurd some' quiet
  | @dumped reply dumps dumped =>
    have code : (Handled.mk (-1) none k.node [reply] []).code < 0 := (by omega : (-1 : Int) < 0)
    rw [if_pos code] at run
    split at run
    next noisy => exact absurd (calm dumps) noisy
    next =>
      cases run
      exact ⟨_, handled, .dumps rfl code rfl dumps dumped (dump_errors dumped), rfl, rfl⟩

end

section

variable {A₄ A₆ R₄ R₆ : Type} [DecidableEq A₄] [DecidableEq A₆] (S : Simulator A₄ A₆ R₄ R₆) (B : Buffer)

/-- A packet that has been sent, with the socket before and after. -/
structure Exchange (A₄ A₆ R₄ R₆ : Type) where
  requests : List TlvMessage
  before : Kernel A₄ A₆ R₄ R₆
  after : Kernel A₄ A₆ R₄ R₆

structure Conversation (A₄ A₆ R₄ R₆ : Type) where
  kernel : Kernel A₄ A₆ R₄ R₆
  log : List (Exchange A₄ A₆ R₄ R₆)

/-- A packet is sent to the kernel, or something else changes the socket or its node: `Bind` and
other calls on the socket, which may set `m_errno`, and the rest of the simulation. -/
inductive Event (A₄ A₆ R₄ R₆ : Type) (B : Buffer)
  | send (d : Datagram B)
  | other (m_errno : SocketErrno) (m_Pid : UInt32) (bound : Bool) (node : Node A₄ A₆ R₄ R₆)

def conversation : Machine (Conversation A₄ A₆ R₄ R₆) (Event A₄ A₆ R₄ R₆ B) where
  init s := s.kernel.m_errno = .NOTERROR ∧ s.kernel.sent = [] ∧ s.log = []
  step s
    | .send d => (sendTo B (handle S) s.kernel d.bytes).map fun k => ⟨k, ⟨d.requests, s.kernel, k⟩ :: s.log⟩
    | .other m_errno m_Pid bound node => some { s with kernel := { s.kernel with m_errno, m_Pid, bound, node } }

/-- The requests of a packet get their replies and nothing else is sent. -/
def Exchange.Lawful (e : Exchange A₄ A₆ R₄ R₆) : Prop :=
  ∃ messages replies, List.Forall₂ (TlvMessage.Parses B) e.requests messages ∧
  e.after.sent = e.before.sent ++ replies ∧
    Answered S e.before.m_Pid e.before.bound e.before.node messages e.after.node replies

/-- All requests get the replies that they should, and equal requests to equal nodes the same. -/
structure Acknowledged (log : List (Exchange A₄ A₆ R₄ R₆)) : Prop where
  lawful : ∀ e ∈ log, e.Lawful S B
  only : ∀ e ∈ log, ∀ e' ∈ log, e.requests = e'.requests → e.before.m_Pid = e'.before.m_Pid →
    e.before.bound = e'.before.bound → e.before.node = e'.before.node → ∃ replies,
      e.after.sent = e.before.sent ++ replies ∧ e'.after.sent = e'.before.sent ++ replies ∧
      e.after.node = e'.after.node

/-- In the runs along `C` the requests are acknowledged. -/
def Acknowledges (C : Conversation A₄ A₆ R₄ R₆ → Event A₄ A₆ R₄ R₆ B → Prop) : Prop :=
  ∀ s, (conversation S B).ReachBy C s → Acknowledged S B s.log

/-- One request at most is sent at a time, and a dump is requested only while no error is set. -/
def Calm : Conversation A₄ A₆ R₄ R₆ → Event A₄ A₆ R₄ R₆ B → Prop
  | s, .send d => d.Single ∧ ∀ m ∈ d.requests, m.hdr.Dumps → s.kernel.m_errno = .NOTERROR
  | _, .other .. => True

variable {S B}

theorem parses_rightUnique : Relator.RightUnique (TlvMessage.Parses B) := by
  rintro m nlmsg nlmsg' ⟨unread, run⟩ ⟨unread', run'⟩
  cases run.symm.trans run'
  rfl

theorem lawful_of_calm {d : Datagram B} {k k' : Kernel A₄ A₆ R₄ R₆} (single : d.Single)
    (calm : ∀ m ∈ d.requests, m.hdr.Dumps → k.m_errno = .NOTERROR) (run : sendTo B (handle S) k d.bytes = some k') :
    (Exchange.mk d.requests k k').Lawful S B := by
  have short := d.short
  obtain ⟨requests, size⟩ := d
  rcases single with rfl | ⟨m, rfl, ⟨nlmsg, parses⟩, long, stops⟩
  · cases run
    exact ⟨[], [], .nil, (append_nil _).symm, .nil _⟩
  · have whole : (Datagram.mk (B := B) [m] size).bytes = m.bytes B := flatten_singleton
    rw [whole, sendTo_alone (short m mem_cons_self) parses stops long] at run
    obtain ⟨h, replies, handled, lawful, sent, node⟩ :=
      handle_replies run fun dumps => calm m mem_cons_self (parses.hdr ▸ dumps)
    refine ⟨[nlmsg], replies ++ [], .cons parses .nil, ?_, .cons handled lawful ?_⟩
    · rw [append_nil]
      exact sent
    · rw [show (Exchange.mk [m] k k').after.node = h.node from node]
      exact .nil _

/-- In the runs where no dump is requested after a failure, every request gets its own replies. -/
theorem acknowledges_of_calm (S : Simulator A₄ A₆ R₄ R₆) (B : Buffer) : Acknowledges S B (Calm B) := by
  intro s reach
  have lawful : ∀ e ∈ s.log, e.Lawful S B := by
    refine reach.invariant (I := fun s => ∀ e ∈ s.log, e.Lawful S B) ?_ ?_
    · intro s first
      rw [first.2.2]
      exact fun e member => nomatch member
    · intro s event t lawful calm step
      cases event with
      | send d =>
        obtain ⟨k, run, rfl⟩ := map_eq_some_iff.mp step
        exact forall_mem_cons.mpr ⟨lawful_of_calm calm.1 calm.2 run, lawful⟩
      | other =>
        cases step
        exact lawful
  refine ⟨lawful, fun e member e' member' requests pid bound node => ?_⟩
  obtain ⟨messages, replies, parses, sent, answered⟩ := lawful e member
  obtain ⟨messages', replies', parses', sent', answered'⟩ := lawful e' member'
  rw [← requests] at parses'
  rw [← pid, ← bound, ← node, ← parses_rightUnique.forall₂ parses parses'] at answered'
  obtain ⟨same, rfl⟩ := answered.unique answered'
  exact ⟨replies, sent, sent', same⟩

end

/-- A request for the neighbours, which are not known here. -/
def getNeigh : TlvMessage where
  hdr := { m_nlmsgLen := 20, m_nlmsgType := 30, m_nlmsgFlags := 1, m_nlmsgSeq := 1 }
  service := [0, 0, 0, 0]
  attributes := []
  hasService := Nat.dvd_refl 4
  tiled := rfl

def alone (m : TlvMessage) (short : (m.hdr.m_nlmsgLen.toNat + 3) / 4 * 4 < 2 ^ 32) : Datagram .littleEndian where
  requests := [m]
  size := by
    show (m.bytes _ ++ []).length < 2 ^ 32
    rw [List.append_nil, TlvMessage.length_bytes]
    exact short

theorem getAddr_parses : getAddr.Parses .littleEndian { m_hdr := getAddr.hdr } := ⟨[], rfl⟩

def bareNode : Node (List UInt8) (List UInt8) (List (RouteEntry (List UInt8))) (List (RouteEntry (List UInt8))) where
  devices := []
  ipv4 := []
  ipv6 := some []
  routes₄ := []
  routes₆ := some []

/-- A socket that has not failed yet, one that has refused `getNeigh`, and the same after `getAddr`. -/
def fresh : Kernel (List UInt8) (List UInt8) (List (RouteEntry (List UInt8))) (List (RouteEntry (List UInt8))) :=
  ⟨.NOTERROR, 1, true, bareNode, [], []⟩

def refused : Kernel (List UInt8) (List UInt8) (List (RouteEntry (List UInt8))) (List (RouteEntry (List UInt8))) :=
  { fresh with m_errno := .INVAL, sent := [[ackMessage { m_hdr := getNeigh.hdr } (-22)]] }

def dumped : Kernel (List UInt8) (List UInt8) (List (RouteEntry (List UInt8))) (List (RouteEntry (List UInt8))) :=
  { refused with sent := refused.sent ++ [[doneMessage 1 1], [ackMessage { m_hdr := getAddr.hdr } (-22)]] }

theorem step_getNeigh : (conversation byteSimulator .littleEndian).step ⟨fresh, []⟩
      (.send (alone getNeigh (by decide))) =
    some ⟨refused, [⟨[getNeigh], fresh, refused⟩]⟩ := by
  have sent : sendTo .littleEndian (handle byteSimulator) fresh (alone getNeigh (by decide)).bytes =
    some refused := rfl
  unfold conversation
  dsimp only
  rfl

theorem step_getAddr : (conversation byteSimulator .littleEndian).step ⟨refused, [⟨[getNeigh], fresh, refused⟩]⟩
    (.send (alone getAddr (by decide))) =
    some ⟨dumped, [⟨[getAddr], refused, dumped⟩, ⟨[getNeigh], fresh, refused⟩]⟩ := by
  have sent : sendTo .littleEndian (handle byteSimulator) refused (alone getAddr (by decide)).bytes =
    some dumped := rfl
  unfold conversation
  dsimp only
  rfl

/-- After a request has failed, a dump that is made gets the error of that request as well. -/
theorem not_acknowledges : ¬ Acknowledges byteSimulator .littleEndian fun _ _ => True := by
  intro all
  have second : (conversation byteSimulator .littleEndian).Reach _ :=
    .next (.next (.start ⟨rfl, rfl, rfl⟩) trivial step_getNeigh) trivial step_getAddr
  obtain ⟨messages, replies, parses, sent, answered⟩ := (all _ second).lawful _ mem_cons_self
  obtain rfl := parses_rightUnique.forall₂ parses (.cons getAddr_parses .nil)
  have two : replies.length = 2 := by
    have lengths := congrArg length sent
    rw [length_append] at lengths
    change 3 = 1 + replies.length at lengths
    omega
  cases answered with
  | cons run lawful later =>
    have handled : handleMessage byteSimulator 1 true bareNode { m_hdr := getAddr.hdr } =
      some ⟨-1, none, bareNode, [[doneMessage 1 1]], []⟩ := rfl
    cases handled.symm.trans run
    cases later
    cases lawful with
    | succeeds _ done => exact absurd done (by decide)
    | fails some' => cases some'
    | dumps => cases two

end Dce.Netlink
