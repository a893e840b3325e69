import Dce.UnixStream.Model

/- The connections that come to a listening socket, `ConnectionRequest`, `ConnectionCreated` and `Accept`. -/

namespace Dce.UnixStream

/-- Connections go by numbers, in the order of their requests. The last fields are not in the source: how many
requests were let in; those whose handshake is under way; all that were created, and all that were returned, in
order. `aborted` says that the assertion has failed. -/
structure Listener where
  m_connectionQueue : List Nat
  m_backlog : Int
  admitted : Nat
  flying : List Nat
  created : List Nat
  returned : List Nat
  aborted : Bool

namespace Listener

/-- `ConnectionRequest` says whether there is room. -/
def ConnectionRequest (s : Listener) : Bool := s.m_connectionQueue.length < s.m_backlog

def ConnectionCreated (sock : Nat) (s : Listener) : Listener :=
  if s.m_connectionQueue.length < s.m_backlog then
    { s with
      m_connectionQueue := s.m_connectionQueue ++ [sock]
      flying := s.flying.erase sock
      created := s.created ++ [sock] }
  else { s with aborted := true }

/-- `Accept` after its wait; `fd` is what `UtilsAllocateFd` gives. There is no descriptor where it fails or waits. -/
def Accept (fd : Option Nat) (s : Listener) : Option Nat × Listener :=
  match s.m_connectionQueue, fd with
  | [], _ | _, none => (none, s)
  | sock :: rest, some fd => (some fd, { s with m_connectionQueue := rest, returned := s.returned ++ [sock] })

/-- A socket that has begun to listen. -/
def start (backlog : Int) : Listener := ⟨[], backlog, 0, [], [], [], false⟩

end Listener

open Listener (ConnectionRequest ConnectionCreated Accept)

inductive Arrival
  | request
  | created (sock : Nat)
  | accept (fd : Option Nat)

/-- Handshakes end in any order. -/
def arrive (s : Listener) : Arrival → Option Listener
  | .request =>
    some (if ConnectionRequest s then { s with admitted := s.admitted + 1, flying := s.admitted :: s.flying } else s)
  | .created sock => if sock ∈ s.flying then some (ConnectionCreated sock s) else none
  | .accept fd => some (Accept fd s).2

def listening : Machine Listener Arrival where
  init s := ∃ backlog : Int, 1 ≤ backlog ∧ s = .start backlog
  step s a := if s.aborted then none else arrive s a

/-- The queue is not longer than the backlog, and no assertion has failed. What was created was returned in that
order or is queued, and nothing was created twice. -/
structure Listener.Served (s : Listener) : Prop where
  bounded : s.m_connectionQueue.length ≤ s.m_backlog
  alive : s.aborted = false
  order : s.created = s.returned ++ s.m_connectionQueue
  once : s.created.Nodup

/-- After the step all is served, and an `Accept` that fails takes nothing. -/
def Serves (s : Listener) (a : Arrival) : Prop :=
  (∀ t, listening.step s a = some t → t.Served) ∧ ∀ fd, a = .accept fd → (Accept fd s).1 = none → (Accept fd s).2 = s

/-- The handshakes that have ended and were not accepted are fewer than the backlog when another one ends. -/
def Spare (s : Listener) : Arrival → Prop
  | .created _ => (s.created.length : Int) - s.returned.length < s.m_backlog
  | _ => True

section

variable {s t : Listener} {a : Arrival} {sock : Nat} {fd : Option Nat}

/-- The accept of the whole socket takes as many off the queue. -/
theorem accept_counts {T : Type*} [DecidableEq T] {t : T} {w : World T}
    (same : w.m_connectionQueue = s.m_connectionQueue.length) :
    (accept t fd w).1.m_connectionQueue = (Accept fd s).2.m_connectionQueue.length := by
  unfold accept Accept
  cases queue : s.m_connectionQueue with
  | nil =>
    rw [if_pos (by rw [same, queue]; rfl)]
    split <;> simp [fail, wait, same]
  | cons sock rest =>
    cases fd <;> simp [fail, same, queue]

/-- What is kept of the numbers: those under way and those that were created are different, and were let in. -/
structure Numbered (s : Listener) : Prop where
  served : s.Served
  apart : (s.flying ++ s.created).Nodup
  below : ∀ sock ∈ s.flying ++ s.created, sock < s.admitted

theorem waiting_length (served : s.Served) : (s.created.length : Int) - s.returned.length =
    s.m_connectionQueue.length := by
  rw [served.order, List.length_append]
  omega

theorem Numbered.created (numbered : Numbered s) (inside : sock ∈ s.flying)
    (room : (s.m_connectionQueue.length : Int) < s.m_backlog) :
    Numbered (ConnectionCreated sock s) := by
  obtain ⟨⟨bounded, alive, order, once⟩, apart, below⟩ := numbered
  have moved : (s.flying.erase sock ++ (s.created ++ [sock])).Perm (s.flying ++ s.created) := by
    rw [← List.append_assoc]
    exact (List.perm_append_singleton ..).trans ((List.perm_cons_erase inside).symm.append_right s.created)
  rw [ConnectionCreated, if_pos room]
  refine ⟨⟨?_, alive, ?_, ?_⟩, moved.nodup_iff.mpr apart, fun n mem => below n (moved.mem_iff.mp mem)⟩
  · simp only [List.length_append, List.length_singleton]
    omega
  · rw [order, List.append_assoc]
  · exact (List.nodup_append.mp (moved.nodup_iff.mpr apart)).2.1

theorem Numbered.request (numbered : Numbered s) :
    Numbered { s with admitted := s.admitted + 1, flying := s.admitted :: s.flying } := by
  obtain ⟨served, apart, below⟩ := numbered
  refine ⟨⟨served.bounded, served.alive, served.order, served.once⟩, List.nodup_cons.mpr ⟨fun again => ?_, apart⟩,
    fun n mem => ?_⟩
  · exact lt_irrefl _ (below _ again)
  · rcases List.mem_cons.mp mem with rfl | old
    · exact Nat.lt_succ_self _
    · exact (below n old).trans (Nat.lt_succ_self _)

theorem Numbered.accept (numbered : Numbered s) : Numbered (Accept fd s).2 := by
  obtain ⟨⟨bounded, alive, order, once⟩, apart, below⟩ := numbered
  fun_cases Accept fd s with
  | case1 | case2 => exact ⟨⟨bounded, alive, order, once⟩, apart, below⟩
  | case3 sock rest fd queue =>
    refine ⟨⟨?_, alive, ?_, once⟩, apart, below⟩
    · rw [queue, List.length_cons] at bounded
      dsimp only
      omega
    · rw [order, queue, List.append_assoc]
      rfl

theorem accept_fails (failed : (Accept fd s).1 = none) : (Accept fd s).2 = s := by
  fun_cases Accept fd s with
  | case1 | case2 => rfl
  | case3 _ _ _ queue => simp [Accept, queue] at failed

theorem serves_iff (numbered : Numbered s) (step : listening.step s a = some t) :
    (Serves s a ↔ Spare s a) ∧ (Spare s a → Numbered t) := by
  have run : arrive s a = some t := by simpa [listening, numbered.served.alive] using step
  have serves (next : Numbered t) : Serves s a := by
    refine ⟨fun u again => ?_, fun fd _ => accept_fails⟩
    cases step.symm.trans again
    exact next.served
  cases a with
  | request =>
    have next : Numbered t := by
      cases run
      split
      · exact numbered.request
      · exact numbered
    exact ⟨iff_of_true (serves next) trivial, fun _ => next⟩
  | accept fd =>
    have next : Numbered t := by
      cases run
      exact numbered.accept
    exact ⟨iff_of_true (serves next) trivial, fun _ => next⟩
  | created sock =>
    obtain ⟨inside, rfl⟩ : sock ∈ s.flying ∧ ConnectionCreated sock s = t := by simpa [arrive] using run
    have same : Spare s (.created sock) ↔ (s.m_connectionQueue.length : Int) < s.m_backlog := by
      rw [Spare, waiting_length numbered.served]
    rw [same]
    refine ⟨⟨fun good => ?_, fun room => serves (numbered.created inside room)⟩, numbered.created inside⟩
    by_contra full
    have alive := (good.1 _ step).alive
    rw [ConnectionCreated, if_neg full] at alive
    exact Bool.noConfusion alive

end

/-- All connections of a run are served, and no assertion fails, exactly if the handshakes end with room to spare. -/
theorem backlog_kept_iff (s : Listener) (k : Machine.Verdict)
    (reach : (listening.judged Spare Serves).Reach (s, k)) :
    k.good ↔ k.careful := by
  refine Machine.judged_iff Numbered (fun s first => ?_) (fun s a t sound run => serves_iff sound run) reach
  obtain ⟨backlog, positive, rfl⟩ := first
  exact ⟨⟨by simp [Listener.start]; omega, rfl, rfl, .nil⟩, .nil, nofun⟩

/-- With a backlog of one, two requests are let in, and one of them is created. -/
def crowded : Listener := ⟨[0], 1, 2, [1], [0], [], false⟩

theorem crowded_reach : listening.ReachBy Spare crowded := by
  have first : listening.ReachBy Spare ⟨[], 1, 0, [], [], [], false⟩ := .start ⟨1, le_rfl, rfl⟩
  have one := first.next (a := Arrival.request) trivial rfl
  have both := one.next (a := Arrival.request) trivial rfl
  exact both.next (a := Arrival.created 0) Int.one_pos rfl

theorem backlog_kept_crowded : ∃ k, (listening.judged Spare Serves).Reach (crowded, k) ∧ k.good := by
  obtain ⟨k, judged, careful⟩ := crowded_reach.judged
  exact ⟨k, judged, (backlog_kept_iff _ _ judged).mpr careful⟩

/-- The other one finds the queue full. -/
theorem not_backlog_kept : ¬ ∀ s k, (listening.judged Spare Serves).Reach (s, k) → k.good := by
  intro all
  have good : Serves crowded (.created 1) := Machine.good_of_judged all crowded_reach.reach rfl
  exact absurd (good.1 _ rfl).alive (by decide)

end Dce.UnixStream
