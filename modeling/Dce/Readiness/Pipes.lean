import Dce.Readiness.Changes

/- The calls on pipes wake whoever polls an end that they make ready. -/

namespace Dce.Readiness

open Coroutine
open Pipe (pipeCapacity FifoBuffer)

variable {T β : Type*} [DecidableEq T] {t : T} {X Y : File → Prop} {w : W T β} {n n' : Node T β} {a b f p : Nat}
    {events : Events}

theorem length_push {max : Nat} (m_buf : FifoBuffer max β) (buf : List β) :
    m_buf.contents.length ≤ (m_buf.write buf).1.contents.length := by
  rw [(m_buf.write_spec buf).1, Stream.push, List.length_append]
  exact Nat.le_add_right _ _

theorem length_pull {max : Nat} (m_buf : FifoBuffer max β) (count : Nat) :
    (m_buf.read count).1.contents.length ≤ m_buf.contents.length := by
  rw [(m_buf.read_spec count).1, List.length_drop]
  exact Nat.sub_le _ _

section

omit [DecidableEq T]

theorem ready_pipe_setBuf {s : PipeFd β} (same_peer : s.m_peer = (w.shared.pipes f).m_peer)
    (same_side : s.m_readSide = (w.shared.pipes f).m_readSide) {g : File}
    (now : Ready (setPipe f s w).shared g events) :
    Ready w.shared g events ∨
      (g = .pipe f ∧ (w.shared.pipes f).m_buf.contents.length < s.m_buf.contents.length ∧
        Meets POLLIN (pollMask events)) ∨
      ∃ b, g = .pipe b ∧ (w.shared.pipes b).m_peer = some f ∧
        s.m_buf.contents.length < (w.shared.pipes f).m_buf.contents.length ∧ Meets POLLOUT (pollMask events) := by
  have peers : ∀ b, ((setPipe f s w).shared.pipes b).m_peer = (w.shared.pipes b).m_peer := fun b => by
    by_cases same : b = f
    · subst same
      simp [setPipe, same_peer]
    · simp [setPipe, same]
  have sides : ∀ b, ((setPipe f s w).shared.pipes b).m_readSide = (w.shared.pipes b).m_readSide := fun b => by
    by_cases same : b = f
    · subst same
      simp [setPipe, same_side]
    · simp [setPipe, same]
  have bufs : ∀ b, b ≠ f → ((setPipe f s w).shared.pipes b).m_buf = (w.shared.pipes b).m_buf :=
    fun b other => by simp [setPipe, other]
  have own : ((setPipe f s w).shared.pipes f).m_buf = s.m_buf := by simp [setPipe]
  cases g with
  | socket k b => cases k <;> exact .inl now
  | timer b => exact absurd now not_ready_timer
  | pipe b =>
    rw [ready_pipe, peers, sides] at now
    rcases now with ⟨⟨side, some⟩, input⟩ | ⟨⟨side, p, peer, room⟩, output⟩ | hup
    · by_cases same : b = f
      · subst same
        by_cases before : 0 < (w.shared.pipes b).m_buf.contents.length
        · exact .inl (ready_pipe.mpr (.inl ⟨⟨side, before⟩, input⟩))
        · rw [own] at some
          exact .inr (.inl ⟨rfl, by omega, input⟩)
      · rw [bufs b same] at some
        exact .inl (ready_pipe.mpr (.inl ⟨⟨side, some⟩, input⟩))
    · by_cases same : p = f
      · subst same
        by_cases before : (w.shared.pipes p).m_buf.contents.length < pipeCapacity
        · exact .inl (ready_pipe.mpr (.inr (.inl ⟨⟨side, p, peer, before⟩, output⟩)))
        · rw [own] at room
          exact .inr (.inr ⟨b, rfl, peer, by omega, output⟩)
      · rw [bufs p same] at room
        exact .inl (ready_pipe.mpr (.inr (.inl ⟨⟨side, p, peer, room⟩, output⟩)))
    · exact .inl (ready_pipe.mpr (.inr (.inr hup)))

theorem linked_setPipe {s : PipeFd β} (linked : Linked w.shared) (peer : s.m_peer = (w.shared.pipes f).m_peer)
    (side : s.m_readSide = (w.shared.pipes f).m_readSide) : Linked (setPipe f s w).shared := by
  refine linked.congr (fun b => ?_) rfl rfl rfl
  by_cases same : b = f
  · subst same
    simp [setPipe, peer, side]
  · simp [setPipe, same]

theorem During.setPipe {s : PipeFd β} (during : During t X w) (peer : s.m_peer = (w.shared.pipes f).m_peer)
    (side : s.m_readSide = (w.shared.pipes f).m_readSide) (buf : s.m_buf = (w.shared.pipes f).m_buf) :
    During t X (setPipe f s w) := by
  refine during.change rfl (linked_setPipe during.linked peer side) (fun _ _ _ _ _ held => ⟨held.state, held.single⟩)
    fun g events settled now => ⟨settled, ?_⟩
  rcases ready_pipe_setBuf peer side now with before | ⟨-, more, -⟩ | ⟨b, -, -, less, -⟩
  · exact before
  · rw [buf] at more
    exact absurd more (lt_irrefl _)
  · rw [buf] at less
    exact absurd less (lt_irrefl _)

end

variable (during : During t Settled w)
include during

theorem During.pipeWriteLoop (f p : Nat) (buf : List β) : After t (pipeWriteLoop t f p buf w) := by
  unfold Readiness.pipeWriteLoop
  dsimp only
  split
  · let s : PipeFd β := { w.shared.pipes p with m_buf := ((w.shared.pipes p).m_buf.write buf).1 }
    have wrote : During t Settled (wakeWaiters POLLIN (.pipe p) (Readiness.setPipe p s w)) := by
      refine during.changeWake rfl (linked_setPipe during.linked rfl rfl) (fun _ _ _ _ _ held =>
        ⟨held.state, held.single⟩)
        fun g events settled now => ?_
      rcases ready_pipe_setBuf (s := s) rfl rfl now with before | ⟨rfl, -, input⟩ | ⟨b, -, -, less, -⟩
      · exact .inr ⟨settled, before⟩
      · exact .inl ⟨rfl, input⟩
      · exact absurd less (not_lt.mpr (length_push _ buf))
    exact (wrote.wake POLLOUT (.pipe f)).ret _
  · split
    · exact during.ret _
    · split
      · exact (during.wake POLLOUT (.pipe f)).fails _
      · exact during.sleepOn _ _ (show Frame.Plain (.pipeWrite f p buf) from trivial) none

theorem During.pipeWrite (f : Nat) (buf : List β) : After t (pipeWrite t f buf w) := by
  unfold Readiness.pipeWrite
  dsimp only
  split
  · split
    · exact during.fails _
    · exact during.pipeWriteLoop f _ buf
  · exact during.fails _

theorem During.pipeWriteOn (f p : Nat) (buf : List β) (interrupted : Bool) :
    After t (pipeWriteOn t f p buf interrupted w) := by
  have removed := during.removeWaitQueue (.pipe p)
  unfold Readiness.pipeWriteOn
  split
  · exact (removed.wake POLLOUT (.pipe f)).fails _
  · exact removed.pipeWriteLoop f p buf

theorem During.pipeReadLoop (f count : Nat) : After t (pipeReadLoop t f count w) := by
  unfold Readiness.pipeReadLoop
  dsimp only
  split
  · -- the room that the read makes is seen at the other side, which is the peer
    let s : PipeFd β := { w.shared.pipes f with m_buf := ((w.shared.pipes f).m_buf.read count).1 }
    have read : ∀ g events, Ready (Readiness.setPipe f s w).shared g events → Ready w.shared g events ∨
          ∃ p, (w.shared.pipes f).m_peer = some p ∧ g = .pipe p ∧ Meets POLLOUT (pollMask events) := by
      intro g events now
      rcases ready_pipe_setBuf (s := s) rfl rfl now with before | ⟨-, more, -⟩ | ⟨b, rfl, peer, -, output⟩
      · exact .inl before
      · exact absurd more (not_lt.mpr (length_pull _ count))
      · exact .inr ⟨b, (during.linked.paired b f peer).1, rfl, output⟩
    have linked := linked_setPipe (f := f) (s := s) during.linked rfl rfl
    split
    next p peer =>
      have woken : During t Settled (wakeWaiters POLLOUT (.pipe p) (Readiness.setPipe f s w)) := by
        refine during.changeWake rfl linked (fun _ _ _ _ _ held =>
          ⟨held.state, held.single⟩) fun g events settled now => ?_
        rcases read g events now with before | ⟨q, there, rfl, output⟩
        · exact .inr ⟨settled, before⟩
        · cases peer.symm.trans there
          exact .inl ⟨rfl, output⟩
      exact (woken.wake POLLOUT (.pipe f)).ret _
    next peer =>
      have quiet : During t Settled (Readiness.setPipe f s w) := by
        refine during.change rfl linked (fun _ _ _ _ _ held => ⟨held.state, held.single⟩) fun g events settled now =>
          ⟨settled, ?_⟩
        rcases read g events now with before | ⟨p, there, -⟩
        · exact before
        · exact absurd (peer.symm.trans there) (Option.some_ne_none p).symm
      exact (quiet.wake POLLOUT (.pipe f)).ret _
  · split
    · exact during.fails _
    · split
      · exact during.fails _
      · exact during.sleepOn _ _ (show Frame.Plain (.pipeRead f count) from trivial) none

theorem During.pipeRead (f count : Nat) : After t (pipeRead t f count w) := by
  unfold Readiness.pipeRead
  split
  · exact during.pipeReadLoop f count
  · exact during.fails _

theorem During.pipeReadOn (f count : Nat) (interrupted : Bool) : After t (pipeReadOn t f count interrupted w) := by
  have removed := during.removeWaitQueue (.pipe f)
  unfold Readiness.pipeReadOn
  split
  · exact removed.fails _
  · exact removed.pipeReadLoop f count

theorem During.pipeClose (f : Nat) : After t (pipeClose t f w) := by
  unfold Readiness.pipeClose
  split
  · exact during.fails _
  next p peer =>
    obtain ⟨back, side⟩ := during.linked.paired f p peer
    have other : p ≠ f := by
      rintro rfl
      exact absurd side (by simp)
    have unset : ((Readiness.setPipe f { w.shared.pipes f with m_peer := none } w).shared.pipes p).m_peer =
        some f := by
      simp [Readiness.setPipe, other, back]
    simp only [unset]
    let v := Readiness.setErr t .EBADF (Readiness.setPipe p { w.shared.pipes p with m_peer := none }
      (Readiness.setPipe f { w.shared.pipes f with m_peer := none } w))
    -- both sides are hung up, and the waiters of both are still to be woken
    have pipes : ∀ b, v.shared.pipes b =
        { w.shared.pipes b with m_peer := if b = f ∨ b = p then none else (w.shared.pipes b).m_peer } := fun b => by
      by_cases at_p : b = p
      · subst at_p
        simp [v, Readiness.setErr, Readiness.setPipe]
      · by_cases at_f : b = f
        · subst at_f
          simp [v, Readiness.setErr, Readiness.setPipe, at_p]
        · simp [v, Readiness.setErr, Readiness.setPipe, at_p, at_f]
    have sides : ∀ b, (v.shared.pipes b).m_readSide = (w.shared.pipes b).m_readSide := fun b => by rw [pipes b]
    have bufs : ∀ b, (v.shared.pipes b).m_buf = (w.shared.pipes b).m_buf := fun b => by rw [pipes b]
    have peers : ∀ b, b ≠ f → b ≠ p → (v.shared.pipes b).m_peer = (w.shared.pipes b).m_peer :=
      fun b not_f not_p => by
      rw [pipes b]
      exact if_neg (not_or.mpr ⟨not_f, not_p⟩)
    have hung_up : ∀ b, b = f ∨ b = p → (v.shared.pipes b).m_peer = none := fun b here => by
      rw [pipes b]
      exact if_pos here
    have kept : ∀ b q, (v.shared.pipes b).m_peer = some q → b ≠ f ∧ b ≠ p ∧ (w.shared.pipes b).m_peer = some q := by
      intro b q there
      have away : ¬ (b = f ∨ b = p) :=
        fun here => absurd ((hung_up b here).symm.trans there) (Option.some_ne_none q).symm
      obtain ⟨not_f, not_p⟩ := not_or.mp away
      exact ⟨not_f, not_p, (peers b not_f not_p).symm.trans there⟩
    have linked : Linked v.shared := by
      refine ⟨fun b q there => ?_, during.linked.joined, during.linked.emptied, during.linked.queued,
        during.linked.unmade,
        during.linked.member, during.linked.connected, during.linked.bound⟩
      obtain ⟨not_f, not_p, before⟩ := kept b q there
      obtain ⟨its_peer, its_side⟩ := during.linked.paired b q before
      have q_not_f : q ≠ f := by
        rintro rfl
        exact not_p (Option.some.inj (its_peer.symm.trans peer))
      have q_not_p : q ≠ p := by
        rintro rfl
        exact not_f (Option.some.inj (its_peer.symm.trans back))
      rw [peers q q_not_f q_not_p, sides, sides]
      exact ⟨its_peer, its_side⟩
    have hung : During t (fun g => (Settled g ∨ g = .pipe f) ∨ g = .pipe p) v := by
      refine during.change (n := v.shared) rfl linked
        (fun _ _ _ _ _ held => ⟨held.state, held.single⟩) fun g events away now => ⟨id, ?_⟩
      cases g with
      | socket k b => cases k <;> exact now
      | timer b => exact absurd now not_ready_timer
      | pipe b =>
        obtain ⟨not_f, not_p⟩ := not_or.mp away
        have b_not_f : b ≠ f := fun here => not_f (.inr (congrArg File.pipe here))
        have b_not_p : b ≠ p := fun here => not_p (congrArg File.pipe here)
        rw [ready_pipe, peers b b_not_f b_not_p, sides] at now
        simp only [bufs] at now
        exact ready_pipe.mpr now
    have same : ((Readiness.setPipe f { w.shared.pipes f with m_peer := none } w).shared.pipes p) =
        w.shared.pipes p := by
      simp [Readiness.setPipe, other]
    rw [same]
    exact hung.wakeHup.wakeHup.ret _

end Dce.Readiness
