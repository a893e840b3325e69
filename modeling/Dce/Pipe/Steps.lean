import Dce.Pipe.Model

namespace Dce.Pipe

open Coroutine

variable {T β : Type*}

/-- What the code that `t` runs can do to the threads and the ends: none gets its peer back. -/
structure Goes (t : T) (s v : W T β) : Prop extends World.Moves t s v where
  peers : ∀ e, (v.shared.ends e).peer = true → (s.shared.ends e).peer = true

theorem Goes.refl (t : T) (s : W T β) : Goes t s s := ⟨.refl t s, fun _ => id⟩

variable {s : W T β} {p : Process T β}

theorem Goes.trans {t : T} {v x : W T β} (first : Goes t s v) (second : Goes t v x) : Goes t s x :=
  ⟨first.toMoves.trans second.toMoves, fun e peer => first.peers e (second.peers e peer)⟩

theorem Goes.after {t : T} {v : W T β} (rest : Goes t (setPipe p s) v)
    (peers : ∀ e, (p.ends e).peer = true → (s.shared.ends e).peer = true) : Goes t s v :=
  have changed : World.Moves t s (Pipe.setPipe p s) := .of_eq rfl rfl rfl
  ⟨changed.trans rest.toMoves, fun e peer => peers e (rest.peers e peer)⟩

theorem Goes.setPipe (t : T) (peers : ∀ e, (p.ends e).peer = true → (s.shared.ends e).peer = true) :
    Goes t s (setPipe p s) :=
  ⟨.of_eq rfl rfl rfl, peers⟩

theorem spares_setPipe (t : T) (p : Process T β) (s : W T β) : World.Spares t s (setPipe p s) :=
  have moves : World.Moves t s (setPipe p s) := .of_eq rfl rfl rfl
  moves.toSpares

@[simp] theorem dropFile_peer (fu : FileUsage T) (p : Process T β) (e : End) :
    ((dropFile fu p).ends e).peer = (p.ends e).peer := by
  by_cases same : e = fu.file
  · subst same; simp [dropFile, setEnd]
  · simp [dropFile, setEnd, same]

theorem setEnd_peer {e other : End} {pipe : PipeFd} (peer : ((setEnd e pipe p).ends other).peer = true)
    (kept : pipe.peer = true → (p.ends e).peer = true) : (p.ends other).peer = true := by
  by_cases same : other = e
  · subst same
    exact kept (by simpa [setEnd] using peer)
  · simpa [setEnd, same] using peer

theorem forget_peer (fu : FileUsage T) (p : Process T β) (e : End) :
    ((forget fu p).ends e).peer = (p.ends e).peer := by
  unfold forget
  split
  · exact dropFile_peer fu p e
  · rfl

theorem doSignal_ends (t : T) (p : Process T β) : (doSignal t p).ends = p.ends := by
  unfold doSignal
  split <;> rfl

variable [DecidableEq T] {s : W T β} {t u : T} {fd : Nat} {r : Result β}

theorem Goes.ret (s : W T β) (t : T) (r : Result β) : Goes t s (s.ret t r) := ⟨.ret s t r, fun _ => id⟩

theorem Goes.wake (s : W T β) (t u : T) : Goes t s (s.wake u) :=
  ⟨.wake s t u, fun e peer => by simpa using peer⟩

theorem Goes.sleep (s : W T β) (t : T) (frame : Frame β) : Goes t s (s.sleep t frame) :=
  ⟨.sleep s t frame, fun _ => id⟩

theorem decUsage_peer (e : End) : ((decUsage t fd p).ends e).peer = (p.ends e).peer := by
  unfold decUsage
  split
  · rfl
  · dsimp only
    split
    · exact dropFile_peer _ p e
    · rfl

theorem finish_goes : Goes t s (finish t fd r s) :=
  .after (.ret _ _ _) fun e peer => (decUsage_peer e).symm.trans peer

theorem crash_goes : Goes t s (crash t s) := .after (.ret _ _ _) fun _ peer => peer

theorem wakeWaiters_goes (event : PollEvent) : Goes t s (wakeWaiters event s) :=
  ⟨.wakeAll _ _ _, fun e peer => by simpa [wakeWaiters] using peer⟩

theorem sendSignal_goes : Goes t s (sendSignal s) := by
  unfold sendSignal
  dsimp only
  split
  · exact .setPipe t fun _ peer => peer
  · exact .after (.wake _ t _) fun _ peer => peer

theorem doRecvPacket_goes (buf : List β) : Goes t s (doRecvPacket t fd buf s) := by
  unfold doRecvPacket
  dsimp only
  split
  · exact .after ((wakeWaiters_goes _).trans finish_goes) fun _ peer => peer
  · split
    · exact crash_goes
    · split
      · exact finish_goes
      · exact .after (.sleep _ _ _) fun _ peer => peer

theorem pipeWrite_goes (e : End) (buf : List β) : Goes t s (pipeWrite t fd e buf s) := by
  unfold pipeWrite
  dsimp only
  split
  · split
    · exact finish_goes
    · split
      · exact doRecvPacket_goes buf
      · exact crash_goes
  · exact sendSignal_goes.trans (.after finish_goes fun e peer => doSignal_ends t _ ▸ peer)

theorem readLoop_goes (count : Nat) : Goes t s (readLoop t fd count s) := by
  unfold readLoop
  dsimp only
  split
  · split
    · exact crash_goes
    · exact .after ((wakeWaiters_goes _).trans finish_goes) fun _ peer => peer
  · split
    · exact finish_goes
    · split
      · exact finish_goes
      · exact .after (.sleep _ _ _) fun _ peer => peer

theorem pipeRead_goes (e : End) (count : Nat) : Goes t s (pipeRead t fd e count s) := by
  unfold pipeRead
  split
  · exact finish_goes
  · exact readLoop_goes count

theorem openedFdMethod_goes {method : End → W T β → W T β}
    (goes : ∀ e s, Goes t s (method e s)) : Goes t s (openedFdMethod t fd method s) := by
  unfold openedFdMethod
  split
  · exact .ret _ _ _
  · split
    · exact .ret _ _ _
    · exact .after (goes _ _) fun _ peer => peer

theorem pipeClose_goes (e : End) : Goes t s (pipeClose e s).1 := by
  unfold pipeClose
  dsimp only
  split
  · split
    · split
      · exact .after (wakeWaiters_goes _) fun _ peer => setEnd_peer (setEnd_peer peer nofun) nofun
      · exact .setPipe t fun _ peer => setEnd_peer (setEnd_peer peer nofun) nofun
    · exact .setPipe t fun _ peer => setEnd_peer peer nofun
  · exact .refl _ _

theorem closeLast_goes (e : End) : Goes t s (closeLast e s).1 := by
  unfold closeLast
  split
  · exact pipeClose_goes e
  · exact .refl _ _

theorem dceClose_goes : Goes t s (dceClose t fd s) := by
  unfold dceClose
  split
  · exact .ret _ _ _
  · exact (closeLast_goes _).trans (.after (.ret _ _ _) fun e peer => (forget_peer _ _ e).symm.trans peer)

theorem dceDup_goes : Goes t s (dceDup t fd s) := by
  unfold dceDup
  split
  · exact .ret _ _ _
  · split
    · exact .ret _ _ _
    · split
      · exact .ret _ _ _
      · exact .after (.ret _ _ _) fun _ peer => setEnd_peer peer id

theorem enter_goes (op : Op β) : Goes t s (enter t op s) := by
  cases op with
  | write fd buf => exact openedFdMethod_goes fun e _ => pipeWrite_goes e buf
  | read fd count => exact openedFdMethod_goes fun e _ => pipeRead_goes e count
  | close fd => exact dceClose_goes
  | dup fd => exact dceDup_goes
  | setfl fd nonblock =>
    exact openedFdMethod_goes fun e s => .after finish_goes fun _ peer => setEnd_peer peer id

theorem afterWait_goes (frame : Frame β) : Goes t s (afterWait t frame s) := by
  cases frame with
  | write fd buf =>
    unfold afterWait
    dsimp only
    split
    · exact .after (.after finish_goes fun e peer => doSignal_ends t _ ▸ peer) fun _ peer => peer
    · exact .after (doRecvPacket_goes buf) fun _ peer => peer
  | read fd count =>
    unfold afterWait
    dsimp only
    split
    · exact .after (.after finish_goes fun e peer => doSignal_ends t _ ▸ peer) fun _ peer => peer
    · exact .after (readLoop_goes count) fun _ peer => peer

theorem resume_goes (frame : Frame β) (e : Unit) : Goes t s (resume t frame e s) := by
  unfold resume
  dsimp only
  split
  · exact .after (afterWait_goes frame) fun e peer => doSignal_ends t _ ▸ peer
  · exact .after crash_goes fun e peer => doSignal_ends t _ ▸ peer

theorem program_cooperative (T β : Type*) [DecidableEq T] : (program T β).Cooperative where
  enter _ op _ := (enter_goes op).toMoves
  resume _ frame e _ := (resume_goes frame e).toMoves

theorem wakeWaiters_wakes {event : PollEvent} {mask : List PollEvent}
    (listed : (⟨u, mask⟩ : WaitQueueEntry T) ∈ s.shared.waitQueue) (event_mem : event ∈ mask) :
    (wakeWaiters event s).status u ≠ .blocked := by
  intro asleep
  have absent := ((s.wakeAll_status_blocked u _).mp asleep).1
  exact absent (List.mem_map.mpr ⟨⟨u, mask⟩, List.mem_filter.mpr ⟨listed, by simpa using event_mem⟩, rfl⟩)

@[simp] theorem wakeWaiters_shared (event : PollEvent) : (wakeWaiters event s).shared = s.shared :=
  s.wakeAll_shared _

@[simp] theorem wakeWaiters_place (event : PollEvent) : (wakeWaiters event s).place = s.place :=
  s.wakeAll_place _

/-- The end of a call changes the descriptors only. -/
structure SameStream (p q : Process T β) : Prop where
  buf : q.buf = p.buf
  waitQueue : q.waitQueue = p.waitQueue
  pending : q.pending = p.pending
  fault : q.fault = p.fault
  accepted : q.accepted = p.accepted
  delivered : q.delivered = p.delivered

theorem decUsage_same (p : Process T β) : SameStream p (decUsage t fd p) := by
  unfold decUsage
  split
  · exact ⟨rfl, rfl, rfl, rfl, rfl, rfl⟩
  · dsimp only
    split <;> exact ⟨rfl, rfl, rfl, rfl, rfl, rfl⟩

theorem finish_same : SameStream s.shared (finish t fd r s).shared := decUsage_same s.shared

theorem finish_place : (finish t fd r s).place t = .own (some r) := by
  simp [finish]

omit [DecidableEq T] in
theorem findFd_mem {fu : FileUsage T} (found : findFd fd p = some fu) : fu ∈ p.openFiles ∧ fu.fd = fd :=
  ⟨List.mem_of_find?_eq_some found, by simpa using List.find?_some found⟩

end Dce.Pipe
