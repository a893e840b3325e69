import Dce.Datagram.Steps

/- Who is connected to whom among the datagram sockets: each connection is known on its two sides. -/

namespace Dce.Datagram

open Coroutine Function List Option

/-- What a socket knows of the others. -/
structure Link where
  m_state : State
  m_peer : Option Nat
  m_myPeers : List Nat
  closed : Bool

section

variable {T β : Type*}

def SocketFd.link (s : SocketFd T β) : Link := ⟨s.m_state, s.m_peer, s.m_myPeers, s.closed⟩

def links (w : W T β) (a : Nat) : Link := (socket a w).link

/-- `s` is CONNECTED to `t`. -/
def ConnectedTo (g : Nat → Link) (s t : Nat) : Prop := (g s).m_state = .CONNECTED ∧ (g s).m_peer = some t

structure PeerGraph (g : Nat → Link) : Prop where
  paired : ∀ s t, ConnectedTo g s t ↔ s ∈ (g t).m_myPeers
  connected : ∀ s, (g s).m_state = .CONNECTED ↔ (g s).m_peer.isSome = true
  live : ∀ s t, ConnectedTo g s t → (g t).m_state = .BINDED ∧ (g t).closed = false
  nodup : ∀ t, (g t).m_myPeers.Nodup

/-- No other socket refers to one that has been closed. -/
def Forgotten (g : Nat → Link) : Prop :=
  ∀ c s, (g c).closed = true → s ≠ c → (g s).m_peer ≠ some c ∧ c ∉ (g s).m_myPeers

/-- What should hold of the peers. -/
def Mutual (w : W T β) : Prop := PeerGraph (links w) ∧ Forgotten (links w)

/-- A closed socket is not connected again. -/
def OpenedOnce (w : W T β) : Act T (Op β) Bool → Prop
  | .call _ (.connect a _) => (socket a w).m_state ≠ .CLOSED
  | _ => True

/-- The graph, with what keeps it: a socket that has been closed is not created or bound again. -/
structure Sound (g : Nat → Link) : Prop extends PeerGraph g where
  ended : ∀ c, (g c).closed = true → (g c).m_state ≠ .CREATED ∧ (g c).m_state ≠ .BINDED

end

section

/-- `a` is connected to the socket `l`. -/
def connecting (g : Nat → Link) (a l : Nat) (s : Nat) : Link :=
  if s = l then { g l with m_myPeers := if a ∈ (g l).m_myPeers then (g l).m_myPeers else (g l).m_myPeers ++ [a] }
  else if s = a then { g a with m_state := .CONNECTED, m_peer := some l }
  else g s

/-- What `RemoveConnected` makes of a socket. -/
def removed (freeOne : Nat) (k : Link) : Link :=
  match k.m_state with
  | .BINDED => { k with m_myPeers := k.m_myPeers.erase freeOne }
  | .CONNECTED => { k with m_peer := none, m_state := .REMOTECLOSED }
  | _ => k

/-- The graph after the end of `a`. -/
def cleared (g : Nat → Link) (a s : Nat) : Link :=
  if s = a then { g a with m_state := .CLOSED, m_peer := none, m_myPeers := [], closed := true }
  else if (g a).m_peer = some s ∨ s ∈ (g a).m_myPeers then removed a (g s)
  else g s

variable {g : Nat → Link} {a l s t : Nat} (sound : Sound g)
include sound

theorem Sound.empty (unbound : (g t).m_state ≠ .BINDED) : (g t).m_myPeers = [] := by
  refine eq_nil_iff_forall_not_mem.mpr fun s listed => ?_
  exact unbound (sound.live s t ((sound.paired s t).mpr listed)).1

theorem Sound.alone (apart : (g s).m_state ≠ .CONNECTED) : (g s).m_peer = none := by
  have none := mt (sound.connected s).mpr apart
  simpa using none

theorem Sound.bound (created : (g a).m_state = .CREATED) : Sound (update g a { g a with m_state := .BINDED }) := by
  have alone := sound.alone (s := a) (by simp [created])
  have opened : (g a).closed = false := by
    cases h : (g a).closed with
    | false => rfl
    | true => exact absurd created (sound.ended a h).1
  have away : ∀ s, ¬ ConnectedTo g s a := fun s joins => by
    have binded := (sound.live s a joins).1
    rw [created] at binded
    cases binded
  have kept : ∀ s t, ConnectedTo (update g a { g a with m_state := .BINDED }) s t ↔
    ConnectedTo g s t := fun s t => by
    unfold ConnectedTo
    by_cases here : s = a
    · subst here
      simp [created]
    · simp [here]
  refine ⟨⟨fun s t => ?_, fun s => ?_, fun s t h => ?_, fun t => ?_⟩, fun c => ?_⟩
  · rw [kept, sound.paired]
    by_cases here : t = a
    · subst here; simp
    · simp [here]
  · by_cases here : s = a
    · subst here; simp [alone]
    · simpa [here] using sound.connected s
  · have before := (kept s t).mp h
    have other : t ≠ a := fun here => away s (here ▸ before)
    simpa [other] using sound.live s t before
  · by_cases here : t = a
    · subst here; simpa using sound.nodup t
    · simpa [here] using sound.nodup t
  · by_cases here : c = a
    · subst here; simp [opened]
    · simpa [here] using sound.ended c

theorem Sound.joined (binded : (g l).m_state = .BINDED) (unbound : (g a).m_state ≠ .BINDED)
    (apart : (g a).m_state ≠ .CONNECTED) : Sound (connecting g a l) := by
  have other : a ≠ l := fun same => unbound (same ▸ binded)
  have absent : a ∉ (g l).m_myPeers := fun listed => apart ((sound.paired a l).mpr listed).1
  have opened : (g l).closed = false := by
    cases h : (g l).closed with
    | false => rfl
    | true => exact absurd binded (sound.ended l h).2
  have atL : connecting g a l l = { g l with m_myPeers := (g l).m_myPeers ++ [a] } := by
    simp [connecting, absent]
  have atA : connecting g a l a = { g a with m_state := .CONNECTED, m_peer := some l } := by
    simp [connecting, other]
  have rest : ∀ s, s ≠ l → s ≠ a → connecting g a l s = g s := fun s here there => by simp [connecting, here, there]
  have states : ∀ s, s ≠ a → (connecting g a l s).m_state = (g s).m_state ∧
    (connecting g a l s).m_peer = (g s).m_peer ∧
      (connecting g a l s).closed = (g s).closed := fun s there => by
    by_cases here : s = l
    · subst here; simp [atL]
    · simp [rest s here there]
  refine ⟨⟨fun s t => ?_, fun s => ?_, fun s t h => ?_, fun t => ?_⟩, fun c => ?_⟩
  · have listed : s ∈ (connecting g a l t).m_myPeers ↔ s ∈ (g t).m_myPeers ∨ (s = a ∧ t = l) := by
      by_cases here : t = l
      · subst here; simp [atL]
      · by_cases there : t = a
        · subst there; simp [atA, here]
        · simp [rest t here there, here]
    rw [listed]
    unfold ConnectedTo
    by_cases there : s = a
    · subst there
      have before : s ∉ (g t).m_myPeers := fun h => apart ((sound.paired s t).mpr h).1
      simp [atA, before, eq_comm]
    · rw [(states s there).1, (states s there).2.1]
      exact (sound.paired s t).trans (by simp [there])
  · by_cases there : s = a
    · subst there; simp [atA]
    · rw [(states s there).1, (states s there).2.1]
      exact sound.connected s
  · unfold ConnectedTo at h
    by_cases there : s = a
    · subst there
      obtain rfl : l = t := by simpa [atA] using h
      simp [atL, binded, opened]
    · rw [(states s there).1, (states s there).2.1] at h
      have before := sound.live s t h
      have this : t ≠ a := fun same => unbound (same ▸ before.1)
      rw [(states t this).1, (states t this).2.2]
      exact before
  · by_cases here : t = l
    · subst here
      rw [atL]
      refine nodup_append.mpr ⟨sound.nodup t, nodup_cons.mpr ⟨not_mem_nil, nodup_nil⟩, ?_⟩
      intro b hb c hc same
      exact absent (mem_singleton.mp hc ▸ same ▸ hb)
    · by_cases there : t = a
      · subst there; simpa [atA] using sound.nodup t
      · simpa [rest t here there] using sound.nodup t
  · by_cases there : c = a
    · subst there; simp [atA]
    · rw [(states c there).1, (states c there).2.2]
      exact sound.ended c

theorem Sound.cleared_to : ConnectedTo (cleared g a) s t ↔ ConnectedTo g s t ∧ s ≠ a ∧ t ≠ a := by
  unfold ConnectedTo cleared
  by_cases here : s = a
  · simp [here]
  · rw [if_neg here]
    split
    next touched =>
      rcases touched with peer | listed
      · have state := (sound.live a s ⟨(sound.connected a).mpr (by simp [peer]), peer⟩).1
        simp [removed, state]
      · obtain ⟨state, peer⟩ := (sound.paired s a).mpr listed
        simp only [removed, state, peer, some.injEq]
        simp only [reduceCtorEq, false_and, true_and, false_iff, not_and, not_not]
        exact fun same _ => same.symm
    next apart =>
      refine ⟨fun joined => ⟨joined, here, fun there => ?_⟩, fun joined => joined.1⟩
      subst there
      exact apart (.inr ((sound.paired s t).mp joined))

theorem Sound.ends : Sound (cleared g a) := by
  have atA : cleared g a a = { g a with m_state := .CLOSED, m_peer := none, m_myPeers := [], closed := true } := by
    simp [cleared]
  have peers : ∀ t, t ≠ a → (cleared g a t).m_myPeers = (g t).m_myPeers.erase a := fun t there => by
    unfold cleared
    rw [if_neg there]
    split
    next touched =>
      rcases touched with peer | listed
      · have state := (sound.live a t ⟨(sound.connected a).mpr (by simp [peer]), peer⟩).1
        simp [removed, state]
      · have state := ((sound.paired t a).mpr listed).1
        have empty := sound.empty (t := t) (by simp [state])
        simp [removed, state, empty]
    next apart =>
      refine (erase_of_not_mem fun listed => apart (.inl ?_)).symm
      exact ((sound.paired a t).mpr listed).2
  have binded : ∀ t, t ≠ a → ((cleared g a t).m_state = .BINDED ↔ (g t).m_state = .BINDED) ∧
      ((cleared g a t).m_state = .CREATED ↔ (g t).m_state = .CREATED) ∧ (cleared g a t).closed = (g t).closed :=
        fun t there => by
    unfold cleared
    rw [if_neg there]
    split
    · unfold removed
      split <;> simp_all
    · simp
  refine ⟨⟨fun s t => ?_, fun s => ?_, fun s t joined => ?_, fun t => ?_⟩, fun c => ?_⟩
  · rw [sound.cleared_to, sound.paired]
    by_cases there : t = a
    · subst there; simp [atA]
    · rw [peers t there, (sound.nodup t).mem_erase_iff]
      simp only [there, ne_eq, not_false_iff, and_true]
      exact And.comm
  · by_cases here : s = a
    · subst here; simp [atA]
    · unfold cleared
      rw [if_neg here]
      split
      · unfold removed
        have before := sound.connected s
        split <;> simp_all
      · exact sound.connected s
  · obtain ⟨before, -, there⟩ := sound.cleared_to.mp joined
    obtain ⟨state, open'⟩ := sound.live s t before
    exact ⟨(binded t there).1.mpr state, (binded t there).2.2.trans open'⟩
  · by_cases there : t = a
    · subst there; simp [atA]
    · rw [peers t there]
      exact (sound.nodup t).erase a
  · by_cases there : c = a
    · subst there; simp [atA]
    · rw [(binded c there).2.2]
      intro closed
      have before := sound.ended c closed
      exact ⟨fun h => before.1 ((binded c there).2.1.mp h), fun h => before.2 ((binded c there).1.mp h)⟩

end

section

variable {T β : Type*} [DecidableEq T] {w v : W T β} {a l s : Nat} {t : T}

section

omit [DecidableEq T]

theorem links_setSocket {s : SocketFd T β} : links (setSocket a s w) = update (links w) a s.link := by
  funext b
  rw [links, socket_setSocket, update_apply]
  split
  · rfl
  · rfl

theorem links_setSocket_same {s : SocketFd T β} (same : s.link = links w a) : links (setSocket a s w) = links w := by
  rw [links_setSocket, same, update_eq_self]

end

theorem links_wakeWaiters {event : LocalStream.PollEvent} : links (wakeWaiters event a w) = links w := by
  funext b
  rw [links, socket_wakeWaiters, links]

theorem through_links : Through t (fun _ => True) fun w v : W T β => links v = links w where
  refl _ := rfl
  trans _ _ _ first second := second.trans first
  errs _ _ := rfl
  returns _ _ := rfl
  wakes _ _ _ := links_wakeWaiters
  forgets _ _ := links_setSocket_same rfl
  sleeps a mask frame last w := by
    funext b
    rw [links, socket_sleepOn]
    have same : links (addWaitQueue t mask a w) = links w := links_setSocket_same rfl
    exact congrFun same b
  receives l buf w := by
    unfold doRecvPacket
    dsimp only
    split
    · rfl
    · split
      · rfl
      · exact links_wakeWaiters.trans (links_setSocket_same rfl)
  takes a count peek w _ := by
    unfold takeData
    split
    · rfl
    · exact links_setSocket_same rfl
  serves _ _ _ := links_setSocket_same rfl

variable {andWakeUp : Bool} {g h : Nat → Link} {path : Binder.Path}

theorem links_hangUp : links (hangUp andWakeUp a w) = links w := by
  unfold hangUp
  split
  · exact links_wakeWaiters
  · rfl

theorem links_removeConnected : links (removeConnected a andWakeUp s w) =
    update (links w) s (removed a (links w s)) := by
  have same : links w s = (socket s w).link := rfl
  unfold removeConnected removed
  rw [same]
  unfold SocketFd.link
  dsimp only
  cases state : (socket s w).m_state with
  | BINDED | CONNECTED => exact links_hangUp.trans links_setSocket
  | CREATED | REMOTECLOSED | CLOSED =>
    dsimp only
    rw [← state]
    exact (update_eq_self s (links w)).symm

theorem links_removeAll {peers : List Nat} (nodup : peers.Nodup) :
    links (peers.foldl (fun w i => removeConnected a andWakeUp i w) w) s =
      if s ∈ peers then removed a (links w s) else links w s := by
  induction peers generalizing w with
  | nil => simp
  | cons p peers ih =>
    obtain ⟨absent, nodup⟩ := nodup_cons.mp nodup
    rw [foldl_cons, ih nodup, links_removeConnected]
    by_cases here : s = p
    · subst here
      simp [absent]
    · simp [here]

theorem links_clearPeer (other : (links w a).m_peer ≠ some a) : links (clearPeer a andWakeUp w) s =
      if s = a then { links w a with m_peer := none }
      else if (links w a).m_peer = some s then removed a (links w s) else links w s := by
  have same : links w a = (socket a w).link := rfl
  rw [same] at other ⊢
  unfold SocketFd.link at other ⊢
  unfold clearPeer
  cases peer : (socket a w).m_peer with
  | none =>
    dsimp only
    split
    next here =>
      subst here
      rw [same, SocketFd.link, peer]
    · simp
  | some p =>
    have away : a ≠ p := fun h => other (h ▸ peer)
    rw [links_removeConnected, links_setSocket, update_of_ne away.symm]
    by_cases here : s = a
    · subst here
      rw [update_of_ne away, update_self, if_pos rfl, SocketFd.link]
    · rw [if_neg here]
      by_cases there : s = p
      · subst there
        rw [update_self, if_pos rfl]
      · rw [update_of_ne there, update_of_ne here, if_neg (fun h => there (some.inj h).symm)]

theorem links_clearMyPeers (nodup : (links w a).m_myPeers.Nodup) (other : a ∉ (links w a).m_myPeers) :
    links (clearMyPeers a andWakeUp w) s = if s = a then { links w a with m_myPeers := [] }
      else if s ∈ (links w a).m_myPeers then removed a (links w s) else links w s := by
  have same : (links w a).m_myPeers = (socket a w).m_myPeers := rfl
  rw [same] at nodup other ⊢
  unfold clearMyPeers
  rw [links_removeAll nodup, links_setSocket]
  by_cases here : s = a
  · subst here
    rw [if_neg other, update_self, if_pos rfl]
    rfl
  · rw [update_of_ne here, if_neg here]

omit [DecidableEq T] in
theorem links_unregister : links (unregister a w) = links w := by
  unfold unregister
  split
  · exact links_setSocket_same rfl
  · rfl

theorem links_clearAll (sound : Sound (links w)) : links (clearAll a andWakeUp w) = cleared (links w) a := by
  funext s
  obtain ⟨first, firstEq⟩ : ∃ first, first = setSocket a { socket a w with m_state := .CLOSED, closed := true } w :=
    ⟨_, rfl⟩
  have atFirst : links first = update (links w) a { links w a with m_state := .CLOSED, closed := true } :=
    firstEq ▸ links_setSocket
  have peerA : (links w a).m_peer ≠ some a := fun h => by
    have connected := (sound.connected a).mpr (by simp [h])
    have binded := (sound.live a a ⟨connected, h⟩).1
    rw [connected] at binded
    cases binded
  have mineA : a ∉ (links w a).m_myPeers := fun h => peerA ((sound.paired a a).mpr h).2
  have onlyOne : ∀ s, (links w a).m_peer = some s → (links w a).m_myPeers = [] := fun s h =>
    sound.empty (by simp [(sound.connected a).mpr (by simp [h])])
  obtain ⟨second, secondEq⟩ : ∃ second, second = clearPeer a andWakeUp first := ⟨_, rfl⟩
  have atSecond : ∀ s, links second s = if s = a
    then { links w a with m_state := .CLOSED, closed := true, m_peer := none }
      else if (links w a).m_peer = some s then removed a (links w s) else links w s := fun s => by
    rw [secondEq, links_clearPeer (by rw [atFirst, update_self]; exact peerA), atFirst, update_self]
    by_cases here : s = a
    · simp [here]
    · simp [here]
  have mine : (links second a).m_myPeers = (links w a).m_myPeers := by rw [atSecond, if_pos rfl]
  have last : links (clearAll a andWakeUp w) = links (clearMyPeers a andWakeUp second) := by
    rw [secondEq, firstEq]
    refine links_hangUp.trans ((links_setSocket_same ?_).trans links_unregister)
    rfl
  rw [last, links_clearMyPeers (mine ▸ sound.nodup a) (mine ▸ mineA), atSecond, atSecond, cleared]
  by_cases here : s = a
  · simp [here]
  · rw [if_neg here, if_neg here, if_neg here]
    by_cases peer : (links w a).m_peer = some s
    · simp [onlyOne s peer]
    · simp [peer]

/-- What an operation makes of the graph, where it may connect the sockets in `P`. -/
inductive Change (P : Nat → Prop) (g : Nat → Link) : (Nat → Link) → Prop
  | same : Change P g g
  | bind (a : Nat) : (g a).m_state = .CREATED → Change P g (update g a { g a with m_state := .BINDED })
  | connect (a l : Nat) : P a → (g a).m_state ≠ .BINDED → (g a).m_state ≠ .CONNECTED → (g l).m_state = .BINDED →
      Change P g (connecting g a l)
  | clear (a : Nat) : Change P g (cleared g a)

/-- The socket that an operation connects. -/
def Op.Connects : Op β → Nat → Prop
  | .connect a _, b => a = b
  | _, _ => False

theorem Change.of_eq {P : Nat → Prop} (same : h = g) : Change P g h := same ▸ .same

theorem change_setSocket {P : Nat → Prop} {s : SocketFd T β} (same : s.link = links w a) (r : Result β) :
    Change P (links w) (links ((setSocket a s w).ret t r)) := .of_eq (links_setSocket_same same)

theorem change_bind {P : Nat → Prop} {unix : Bool} {host : Option Nat} :
    Change P (links w) (links (bind t a unix path host w)) := by
  unfold bind
  dsimp only
  split
  · exact .same
  · split
    · exact .same
    next created =>
      have created : (links w a).m_state = .CREATED := not_not.mp created
      split
      · have bound :=
          links_setSocket (a := a) (w := w) (s := { socket a w with m_state := .BINDED, m_bindPath := some path })
        have change : Change P (links w) _ := .bind a created
        rwa [← show links (setSocket a { socket a w with m_state := .BINDED, m_bindPath := some path } w) =
          update (links w) a { links w a with m_state := .BINDED } from bound] at change
      · exact .same

theorem change_connect : Change (a = ·) (links w) (links (connect t a path w)) := by
  unfold connect
  dsimp only
  split
  case h_1 => exact .same
  case h_2 => exact .same
  case h_3 unbound apart =>
    split
    case h_1 l found =>
      split
      · exact .same
      next binded =>
        have binded : (links w l).m_state = .BINDED := not_not.mp binded
        have other : l ≠ a := fun same => unbound (same ▸ binded)
        have change : Change (a = ·) (links w) _ := .connect a l rfl unbound apart binded
        convert change using 1
        show links (addConnected l a _) = _
        unfold addConnected
        rw [links_setSocket, links_setSocket]
        funext s
        rw [socket_setSocket, if_neg other]
        unfold connecting
        by_cases here : s = l
        · subst here
          rw [update_self, if_pos rfl]
          rfl
        · rw [update_of_ne here, if_neg here]
          by_cases there : s = a
          · subst there
            rfl
          · rw [update_of_ne there, if_neg there]
    case h_2 => exact .same

theorem change_enter (op : Op β) (sound : Sound (links w)) :
    Change op.Connects (links w) (links (enter t op w)) := by
  have cleared : links (clearMoved t w) = links w := rfl
  have through := through_links (β := β) (t := t)
  rw [← cleared] at sound ⊢
  cases op with
  | bind => exact change_bind
  | connect => exact change_connect
  | write => exact .of_eq (through.write _)
  | sendmsg => exact .of_eq (through.sendmsg ..)
  | read => exact .of_eq (through.afterRead (through.read (fun _ => trivial) rfl ..) _)
  | recvmsg => exact .of_eq (through.recvmsg (fun _ => trivial) ..)
  | shutdown a how =>
    unfold enter shutdown
    dsimp only
    split
    · exact .same
    · split
      all_goals
        refine change_setSocket ?_ _
        rfl
  | close a | release a => exact (links_clearAll sound).symm ▸ .clear a
  | unlink path ok =>
    unfold enter unlink
    dsimp only
    split <;> exact .same
  | setfl | setTimeouts =>
    refine change_setSocket ?_ _
    rfl

theorem Change.sound {P : Nat → Prop} (change : Change P g h) (sound : Sound g) : Sound h := by
  cases change with
  | same => exact sound
  | bind a created => exact sound.bound created
  | connect a l _ unbound apart binded => exact sound.joined binded unbound apart
  | clear a => exact sound.ends

/-- The socket that a step connects. -/
def Connects : Act T (Op β) Bool → Nat → Prop
  | .call _ op, a => op.Connects a
  | _, _ => False

theorem links_step {act : Act T (Op β) Bool} (sound : Sound (links w)) (run : (machine T β).step w act = some v) :
    Change (Connects act) (links w) (links v) := by
  rcases Program.step_cases run with ⟨t, op, -, rfl, -, -, rfl⟩ | ⟨t, interrupted, frame, rfl, -, -, -, rfl⟩ | idle
  · exact change_enter op sound
  · exact .of_eq (through_links.resume frame interrupted fun _ _ => trivial)
  · have same : links v = links w := by
      funext a
      rw [links, socket, idle.shared]
      rfl
    exact .of_eq same

theorem sound_of_start (first : (program T β).Start w) : Sound (links w) := by
  have new : Node.New w.shared := first.shared
  have at' : ∀ a, links w a = ⟨.CREATED, none, [], false⟩ := fun a => by rw [links, socket, new.sockets a]; rfl
  refine ⟨⟨fun s t => ?_, fun s => ?_, fun s t joined => ?_, fun t => ?_⟩, fun c closed => ?_⟩
  · simp [ConnectedTo, at']
  · simp [at']
  · simp [ConnectedTo, at'] at joined
  · simp [at']
  · simp [at'] at closed

/-- In every run the two sides of the graph agree. -/
theorem sound_of_reach {C : W T β → Act T (Op β) Bool → Prop} (reach : (machine T β).ReachBy C w) :
    Sound (links w) := by
  refine reach.invariant
    (I := fun w => Sound (links w)) (fun _ first => sound_of_start first) fun s act v sound _ run => ?_
  exact (links_step sound run).sound sound

end

section

variable {T β : Type*} [DecidableEq T] {w v : W T β}

/-- A socket that has been closed is still closed. -/
def StaysClosed (g : Nat → Link) : Prop := ∀ c, (g c).closed = true → (g c).m_state = .CLOSED

variable {g : Nat → Link}

theorem StaysClosed.forgotten (stays : StaysClosed g) (sound : Sound g) : Forgotten g := by
  intro c s closed _
  refine ⟨fun peer => ?_, fun listed => ?_⟩
  · have joined : ConnectedTo g s c := ⟨(sound.connected s).mpr (by simp [peer]), peer⟩
    exact Bool.false_ne_true ((sound.live s c joined).2.symm.trans closed)
  · have connected := ((sound.paired c s).mpr listed).1
    rw [stays c closed] at connected
    cases connected

theorem stays_removed {k : Link} {a : Nat} (stays : k.closed = true → k.m_state = .CLOSED) :
    (removed a k).closed = true → (removed a k).m_state = .CLOSED := by
  unfold removed
  split
  · exact stays
  case h_2 state =>
    intro closed
    cases state.symm.trans (stays closed)
  · exact stays

theorem Change.stays {P : Nat → Prop} {h : Nat → Link} (change : Change P g h)
    (careful : ∀ a, P a → (g a).m_state ≠ .CLOSED)
    (stays : StaysClosed g) : StaysClosed h := by
  intro c
  cases change with
  | same => exact stays c
  | bind a created =>
    by_cases here : c = a
    · subst here
      rw [update_self]
      intro closed
      cases created.symm.trans (stays c closed)
    · rw [update_of_ne here]
      exact stays c
  | connect a l mine _ _ _ =>
    unfold connecting
    split
    next here => exact here ▸ stays c
    · split
      · exact fun closed => absurd (stays a closed) (careful a mine)
      · exact stays c
  | clear a =>
    unfold cleared
    split
    · exact fun _ => rfl
    · split
      · exact stays_removed (stays c)
      · exact stays c

/-- In the runs along `C` the sockets know of each other. -/
def KeepsMutual (T β : Type*) [DecidableEq T] (C : W T β → Act T (Op β) Bool → Prop) : Prop :=
  ∀ w, (machine T β).ReachBy C w → Mutual w

theorem keepsMutual_of_openedOnce (T β : Type*) [DecidableEq T] : KeepsMutual T β OpenedOnce := by
  intro w reach
  have stays : StaysClosed (links w) := by
    refine reach.invariant' (I := fun w => StaysClosed (links w)) (fun w first c closed => ?_)
      fun w act v before stays careful run => ?_
    · have new : Node.New w.shared := first.shared
      rw [links, socket, new.sockets c] at closed
      cases closed
    · refine (links_step (sound_of_reach before) run).stays (fun a mine => ?_) stays
      unfold Connects Op.Connects at mine
      split at mine
      · split at mine
        · exact mine ▸ careful
        · exact mine.elim
      · exact mine.elim
  have sound := sound_of_reach reach
  exact ⟨sound.toPeerGraph, stays.forgotten sound⟩

/-- The two sides agree in all other runs too, and a peer is bound and open. -/
theorem peers_agree {w : W T β} (reach : (machine T β).Reach w) : PeerGraph (links w) :=
  (sound_of_reach reach).toPeerGraph

/-- Two sockets are connected to a third one, and one of them is closed. -/
theorem peers_agree_connected : ∃ w : W Bool Nat, ConnectedTo (links w) 1 0 ∧ (links w 0).m_myPeers = [1] ∧
    (links w 2).m_state = .CLOSED ∧ PeerGraph (links w) := by
  obtain ⟨w, run, connected⟩ : ∃ w, (machine Bool Nat).replay newNode [.dispatch false false,
    .call false (.bind 0 true ['p'] none),
      .call false (.connect 1 ['p']), .call false (.connect 2 ['p']), .call false (.close 2)] = some w ∧
    (ConnectedTo (links w) 1 0 ∧ (links w 0).m_myPeers = [1] ∧ (links w 2).m_state = .CLOSED) :=
      ⟨_, rfl, ⟨rfl, rfl⟩, rfl, rfl⟩
  have reach : (machine Bool Nat).Reach w := (Machine.ReachBy.start newNode_start).replay (fun _ _ => trivial) run
  exact ⟨w, connected.1, connected.2.1, connected.2.2, peers_agree reach⟩

/-- Socket 1 is closed, and connected by a process that has a copy of its descriptor, as `fork` makes one
of each that a thread was still using at the `close`. -/
def reopening : List (Act Bool (Op Nat) Bool) :=
  [.dispatch false false, .call false (.bind 0 true ['p'] none), .call false (.close 1),
    .call false (.connect 1 ['p'])]

theorem not_keepsMutual : ¬ KeepsMutual Bool Nat fun _ _ => True := by
  intro keeps
  obtain ⟨w, run⟩ : ∃ w, (machine Bool Nat).replay newNode reopening = some w := isSome_iff_exists.mp (by decide)
  have reach : (machine Bool Nat).Reach w := (Machine.ReachBy.start newNode_start).replay (fun _ _ => trivial) run
  have seen : ((machine Bool Nat).replay newNode reopening).map (fun w =>
    ((links w 1).closed, (links w 0).m_myPeers)) =
      some (true, [1]) := by decide
  rw [run] at seen
  obtain ⟨closed, listed⟩ := Prod.mk.inj (some.inj seen)
  exact ((keeps w reach).2 1 0 closed (by decide)).2 (by simp [listed])

end

end Dce.Datagram
