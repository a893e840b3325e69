import Dce.Connections.Model

/- What links the sockets of a node, and how an assignment to one of them bears on it. -/

namespace Dce.Connections

open Function

variable {T P : Type*} [DecidableEq T] [DecidableEq P]

abbrev Sockets (T P : Type*) := Nat → Option (LocalStreamSocketFd T P)

/-- The peer of a socket is connected to it, and a connected socket has one. -/
structure Paired (S : Sockets T P) : Prop where
  peer : ∀ s x p, S s = some x → x.m_peer = some p → ∃ y, S p = some y ∧ y.m_state = .CONNECTED ∧ y.m_peer = some s
  joined : ∀ s x, S s = some x → x.m_state = .CONNECTED → x.m_peer ≠ none

/-- Who is in the queue of a listener connects to it, but for the entries of `E`. -/
def Queued (E : Nat → Nat → Prop) (S : Sockets T P) (frame : T → Option Frame) : Prop :=
  ∀ l x, S l = some x → ∀ c ∈ x.m_cnxQueue, E c l ∨
    (∃ y, S c = some y ∧ y.m_state = .CONNECTING) ∧ ∃ t, frame t = some (.connect c l)

/-- The threads that wait at the sockets are those in the wait queues, and are of the same process. -/
structure Waits (S : Sockets T P) (frame : T → Option Frame) (process : T → P) : Prop where
  waits : ∀ t f, frame t = some f → ∃ x, S f.socket = some x ∧ t ∈ x.m_waitQueue ∧ x.process = process t
  waiting : ∀ s x t, S s = some x → t ∈ x.m_waitQueue → ∃ f, frame t = some f ∧ f.socket = s

/-- What can be said of a socket by itself: nobody is in the queue of one that is closed. -/
structure Sane (s : Nat) (x : LocalStreamSocketFd T P) (fresh : Nat) : Prop where
  fresh : s < fresh
  closed : x.m_state = .CLOSED → x.m_cnxQueue = []
  closing : x.m_closing = true → x.m_cnxQueue = [] ∧ (x.m_state = .CLOSED ∨ x.m_state = .ACCEPTING)

variable {E E' : Nat → Nat → Prop} {S : Sockets T P} {frame : T → Option Frame} {process : T → P} {s a : Nat}
  {x x' y : LocalStreamSocketFd T P} {t : T} {f : Frame}

omit [DecidableEq T] [DecidableEq P] in
theorem update_some {o : Option (LocalStreamSocketFd T P)} (there : update S s o a = some y) :
    a = s ∧ o = some y ∨ a ≠ s ∧ S a = some y := by
  by_cases same : a = s
  · subst same
    rw [update_self] at there
    exact .inl ⟨rfl, there⟩
  · rw [update_of_ne same] at there
    exact .inr ⟨same, there⟩

section

omit [DecidableEq T] [DecidableEq P]

variable (pairs : Paired S)
include pairs

theorem Paired.keep (here : S s = some x) (peer : x'.m_peer = x.m_peer)
    (state : x'.m_state = .CONNECTED ↔ x.m_state = .CONNECTED) : Paired (update S s (some x')) := by
  have after : ∀ a z, S a = some z → ∃ z', update S s (some x') a = some z' ∧ z'.m_peer = z.m_peer ∧
      (z.m_state = .CONNECTED → z'.m_state = .CONNECTED) := by
    intro a z there
    by_cases same : a = s
    · subst same
      cases here.symm.trans there
      exact ⟨x', update_self .., peer, state.mpr⟩
    · exact ⟨z, by rw [update_of_ne same, there], rfl, id⟩
  have before : ∀ a z', update S s (some x') a = some z' → ∃ z, S a = some z ∧ z'.m_peer = z.m_peer ∧
      (z'.m_state = .CONNECTED → z.m_state = .CONNECTED) := by
    intro a z' there
    rcases update_some there with ⟨rfl, same⟩ | ⟨-, there⟩
    · cases same
      exact ⟨x, here, peer, state.mp⟩
    · exact ⟨z', there, rfl, id⟩
  refine ⟨fun a z' p there set => ?_, fun a z' there connected => ?_⟩
  · obtain ⟨z, there, same, -⟩ := before a z' there
    obtain ⟨y, partner, connected, back⟩ := pairs.peer a z p there (same ▸ set)
    obtain ⟨y', partner, same, still⟩ := after p y partner
    exact ⟨y', partner, still connected, same.trans back⟩
  · obtain ⟨z, there, same, connected'⟩ := before a z' there
    exact same ▸ pairs.joined a z there (connected' connected)

theorem Paired.clear {o : Option (LocalStreamSocketFd T P)} (apart : ∀ x, S s = some x → x.m_state ≠ .CONNECTED)
    (blank : ∀ x', o = some x' → x'.m_peer = none ∧ x'.m_state ≠ .CONNECTED) : Paired (update S s o) := by
  refine ⟨fun a z p there set => ?_, fun a z there connected => ?_⟩
  · rcases update_some there with ⟨-, same⟩ | ⟨-, there⟩
    · rw [(blank z same).1] at set
      cases set
    · obtain ⟨y, partner, connected, back⟩ := pairs.peer a z p there set
      have ne : p ≠ s := by
        rintro rfl
        exact apart y partner connected
      exact ⟨y, by rw [update_of_ne ne, partner], connected, back⟩
  · rcases update_some there with ⟨-, same⟩ | ⟨-, there⟩
    · exact absurd connected (blank z same).2
    · exact pairs.joined a z there connected

theorem Paired.part {p : Nat} {y' : LocalStreamSocketFd T P} (here : S s = some x)
    (partner : x.m_peer = some p) (peer : x'.m_peer = none) (state : x'.m_state ≠ .CONNECTED)
    (peer' : y'.m_peer = none) (state' : y'.m_state ≠ .CONNECTED) :
    Paired (update (update S p (some y')) s (some x')) := by
  have before : ∀ a z, update (update S p (some y')) s (some x') a = some z →
      z.m_peer = none ∧ z.m_state ≠ .CONNECTED ∨ a ≠ s ∧ a ≠ p ∧ S a = some z := by
    intro a z there
    rcases update_some there with ⟨-, same⟩ | ⟨other, there⟩
    · cases same
      exact .inl ⟨peer, state⟩
    · rcases update_some there with ⟨-, same⟩ | ⟨other', there⟩
      · cases same
        exact .inl ⟨peer', state'⟩
      · exact .inr ⟨other, other', there⟩
  refine ⟨fun a z q there set => ?_, fun a z there connected => ?_⟩
  · rcases before a z there with ⟨nobody, -⟩ | ⟨other, other', there⟩
    · rw [nobody] at set
      cases set
    · obtain ⟨y, found, connected, back⟩ := pairs.peer a z q there set
      refine ⟨y, ?_, connected, back⟩
      have apart : q ≠ s := by
        rintro rfl
        cases here.symm.trans found
        exact other' (Option.some.inj (back.symm.trans partner))
      have apart' : q ≠ p := by
        rintro rfl
        obtain ⟨y₁, found₁, -, back₁⟩ := pairs.peer s x q here partner
        cases found.symm.trans found₁
        exact other (Option.some.inj (back.symm.trans back₁))
      rw [update_of_ne apart, update_of_ne apart', found]
  · rcases before a z there with ⟨-, wrong⟩ | ⟨-, -, there⟩
    · exact absurd connected wrong
    · exact pairs.joined a z there connected

theorem Paired.join {c : Nat} (new : S s = none) (here : S c = some y) (apart : y.m_state ≠ .CONNECTED)
    (peer : x.m_peer = some c) (state : x.m_state = .CONNECTED) (peer' : x'.m_peer = some s)
    (state' : x'.m_state = .CONNECTED) :
    Paired (update (update S s (some x)) c (some x')) := by
  have ne : s ≠ c := by
    rintro rfl
    cases new.symm.trans here
  refine ⟨fun a z p there set => ?_, fun a z there connected => ?_⟩
  · rcases update_some there with ⟨rfl, same⟩ | ⟨other, there⟩
    · cases same
      cases peer'.symm.trans set
      exact ⟨x, by rw [update_of_ne ne, update_self], state, peer⟩
    · rcases update_some there with ⟨rfl, same⟩ | ⟨other', there⟩
      · cases same
        cases peer.symm.trans set
        exact ⟨x', update_self .., state', peer'⟩
      · obtain ⟨y₁, partner, connected, back⟩ := pairs.peer a z p there set
        refine ⟨y₁, ?_, connected, back⟩
        have notC : p ≠ c := by
          rintro rfl
          cases here.symm.trans partner
          exact apart connected
        have notS : p ≠ s := by
          rintro rfl
          cases new.symm.trans partner
        rw [update_of_ne notC, update_of_ne notS, partner]
  · rcases update_some there with ⟨-, same⟩ | ⟨-, there⟩
    · cases same
      rw [peer']
      exact nofun
    · rcases update_some there with ⟨-, same⟩ | ⟨-, there⟩
      · cases same
        rw [peer]
        exact nofun
      · exact pairs.joined a z there connected

end

section

omit [DecidableEq T] [DecidableEq P]

theorem Queued.weaken (queued : Queued E S frame)
    (weaker : ∀ l x, S l = some x → ∀ c ∈ x.m_cnxQueue, E c l → E' c l ∨
      (∃ y, S c = some y ∧ y.m_state = .CONNECTING) ∧
      ∃ t, frame t = some (.connect c l)) : Queued E' S frame := by
  intro l x there c mem
  rcases queued l x there c mem with excepted | right
  · exact weaker l x there c mem excepted
  · exact .inr right

theorem Queued.put {o : Option (LocalStreamSocketFd T P)} (queued : Queued E S frame)
    (queue : ∀ x', o = some x' → ∀ c ∈ x'.m_cnxQueue, ∃ x, S s = some x ∧ c ∈ x.m_cnxQueue)
    (connecting : ∀ x, S s = some x → x.m_state = .CONNECTING → ∀ l y, S l = some y → s ∈ y.m_cnxQueue →
      E s l ∨ ∃ x', o = some x' ∧ x'.m_state = .CONNECTING) : Queued E (update S s o) frame := by
  have after : ∀ l y c, S l = some y → c ∈ y.m_cnxQueue → E c l ∨
      (∃ z, update S s o c = some z ∧ z.m_state = .CONNECTING) ∧ ∃ t, frame t = some (.connect c l) := by
    intro l y c there mem
    rcases queued l y there c mem with excepted | ⟨⟨z, found, state⟩, waits⟩
    · exact .inl excepted
    · by_cases same : c = s
      · subst same
        rcases connecting z found state l y there mem with excepted | ⟨x', here, state⟩
        · exact .inl excepted
        · exact .inr ⟨⟨x', by rw [update_self, here], state⟩, waits⟩
      · exact .inr ⟨⟨z, by rw [update_of_ne same, found], state⟩, waits⟩
  intro l z there c mem
  rcases update_some there with ⟨rfl, same⟩ | ⟨-, there⟩
  · obtain ⟨x, here, mem⟩ := queue z same c mem
    exact after l x c here mem
  · exact after l z c there mem

theorem Queued.enqueue {c : Nat} (queued : Queued (fun _ _ => False) S frame) (here : S s = some x)
    (queue : x'.m_cnxQueue = x.m_cnxQueue ++ [c]) (state : x'.m_state = x.m_state) :
    Queued (fun a b => a = c ∧ b = s) (update S s (some x')) frame := by
  have after : ∀ a, (∃ y, S a = some y ∧ y.m_state = .CONNECTING) →
      ∃ y, update S s (some x') a = some y ∧ y.m_state = .CONNECTING := by
    intro a ⟨y, found, connecting⟩
    by_cases same : a = s
    · subst same
      cases here.symm.trans found
      exact ⟨x', update_self .., state.trans connecting⟩
    · exact ⟨y, (update_of_ne same ..).trans found, connecting⟩
  intro l z there a mem
  rcases update_some there with ⟨rfl, same⟩ | ⟨-, there⟩
  · cases same
    rw [queue, List.mem_append, List.mem_singleton] at mem
    rcases mem with before | rfl
    · exact .inr (((queued l x here a before).resolve_left id).imp_left (after a))
    · exact .inl ⟨rfl, rfl⟩
  · exact .inr (((queued l z there a mem).resolve_left id).imp_left (after a))

end

section

omit [DecidableEq T] [DecidableEq P]

theorem Waits.put (waits : Waits S frame process) (here : S s = some x) (queue : x'.m_waitQueue = x.m_waitQueue)
    (owner : x'.process = x.process) : Waits (update S s (some x')) frame process := by
  refine ⟨fun t f inside => ?_, fun a z t there mem => ?_⟩
  · obtain ⟨y, found, mem, same⟩ := waits.waits t f inside
    by_cases at_s : f.socket = s
    · rw [at_s] at found ⊢
      cases here.symm.trans found
      exact ⟨x', update_self .., queue ▸ mem, owner.trans same⟩
    · exact ⟨y, by rw [update_of_ne at_s, found], mem, same⟩
  · rcases update_some there with ⟨rfl, same⟩ | ⟨-, there⟩
    · cases same
      exact waits.waiting a x t here (queue ▸ mem)
    · exact waits.waiting a z t there mem

theorem Waits.idle {o : Option (LocalStreamSocketFd T P)} (waits : Waits S frame process)
    (nobody : ∀ x, S s = some x → x.m_waitQueue = []) (nobody' : ∀ x', o = some x' → x'.m_waitQueue = []) :
    Waits (update S s o) frame process := by
  refine ⟨fun t f inside => ?_, fun a z t there mem => ?_⟩
  · obtain ⟨y, found, mem, same⟩ := waits.waits t f inside
    have elsewhere : f.socket ≠ s := by
      intro at_s
      rw [at_s] at found
      rw [nobody y found] at mem
      cases mem
    exact ⟨y, by rw [update_of_ne elsewhere, found], mem, same⟩
  · rcases update_some there with ⟨-, same⟩ | ⟨-, there⟩
    · rw [nobody' z same] at mem
      cases mem
    · exact waits.waiting a z t there mem

end

section

omit [DecidableEq P]

theorem Waits.sleep (waits : Waits S frame process) (here : S f.socket = some x) (free : frame t = none)
    (owner : x.process = process t) (queue : x'.m_waitQueue = x.m_waitQueue ++ [t])
    (owner' : x'.process = x.process) :
    Waits (update S f.socket (some x')) (update frame t (some f)) process := by
  refine ⟨fun u g inside => ?_, fun a z u there mem => ?_⟩
  · by_cases same : u = t
    · subst same
      rw [update_self] at inside
      cases inside
      exact ⟨x', update_self .., by simp [queue], owner'.trans owner⟩
    · rw [update_of_ne same] at inside
      obtain ⟨y, found, mem, own⟩ := waits.waits u g inside
      by_cases at_s : g.socket = f.socket
      · rw [at_s] at found ⊢
        cases here.symm.trans found
        exact ⟨x', update_self .., by simp [queue, mem], owner'.trans own⟩
      · exact ⟨y, by rw [update_of_ne at_s, found], mem, own⟩
  · have old : ∀ z, S a = some z → u ∈ z.m_waitQueue → ∃ g, update frame t (some f) u = some g ∧ g.socket = a := by
      intro z there mem
      obtain ⟨g, inside, at_a⟩ := waits.waiting a z u there mem
      have other : u ≠ t := by
        rintro rfl
        cases free.symm.trans inside
      exact ⟨g, by rw [update_of_ne other, inside], at_a⟩
    rcases update_some there with ⟨rfl, same⟩ | ⟨-, there⟩
    · cases same
      rw [queue, List.mem_append, List.mem_singleton] at mem
      rcases mem with before | rfl
      · exact old x here before
      · exact ⟨f, update_self .., rfl⟩
    · exact old z there mem

theorem Waits.awake (waits : Waits S frame process) (here : S f.socket = some x) (inside : frame t = some f)
    (queue : x'.m_waitQueue = x.m_waitQueue.filter (· ≠ t)) (owner : x'.process = x.process) :
    Waits (update S f.socket (some x')) (update frame t none) process := by
  refine ⟨fun u g inside' => ?_, fun a z u there mem => ?_⟩
  · by_cases same : u = t
    · subst same
      rw [update_self] at inside'
      cases inside'
    · rw [update_of_ne same] at inside'
      obtain ⟨y, found, mem, own⟩ := waits.waits u g inside'
      by_cases at_s : g.socket = f.socket
      · rw [at_s] at found ⊢
        cases here.symm.trans found
        exact ⟨x', update_self .., by simp [queue, mem, same], owner.trans own⟩
      · exact ⟨y, by rw [update_of_ne at_s, found], mem, own⟩
  · have old : ∀ z, S a = some z → u ∈ z.m_waitQueue → u ≠ t → ∃ g, update frame t none u = some g ∧
        g.socket = a := by
      intro z there mem other
      obtain ⟨g, inside', at_a⟩ := waits.waiting a z u there mem
      exact ⟨g, by rw [update_of_ne other, inside'], at_a⟩
    rcases update_some there with ⟨rfl, same⟩ | ⟨elsewhere, there⟩
    · cases same
      rw [queue, List.mem_filter, decide_eq_true_eq] at mem
      exact old x here mem.1 mem.2
    · refine old z there mem ?_
      rintro rfl
      obtain ⟨g, again, at_a⟩ := waits.waiting a z u there mem
      cases inside.symm.trans again
      exact elsewhere at_a.symm

theorem Queued.sleep (queued : Queued E S frame) (free : frame t = none) : Queued E S (update frame t (some f)) := by
  intro l x there c mem
  refine (queued l x there c mem).imp_right fun ⟨connecting, u, inside⟩ => ⟨connecting, u, ?_⟩
  have other : u ≠ t := by
    rintro rfl
    cases free.symm.trans inside
  rw [update_of_ne other, inside]

theorem Queued.awake (queued : Queued E S frame) :
    Queued (fun c l => E c l ∨ frame t = some (.connect c l)) S (update frame t none) := by
  intro l x there c mem
  rcases queued l x there c mem with excepted | ⟨connecting, u, inside⟩
  · exact .inl (.inl excepted)
  · by_cases same : u = t
    · exact .inl (.inr (same ▸ inside))
    · exact .inr ⟨connecting, u, by rw [update_of_ne same, inside]⟩

end

/-- What holds of the sockets and threads of a node while nothing has gone wrong, but for the entries of `E`. -/
structure Inv (E : Nat → Nat → Prop) (n : Node T P) : Prop where
  defined : n.undefined = false
  pairs : Paired n.sockets
  queued : Queued E n.sockets fun t => (n.threads t).frame
  waits : Waits n.sockets (fun t => (n.threads t).frame) fun t => (n.threads t).process
  sane : ∀ s x, n.sockets s = some x → Sane s x n.fresh

end Dce.Connections
