import Dce.Pipe.Steps

/- The bytes of a pipe while both of its ends stay open. -/

namespace Dce.Pipe

open Coroutine List

variable {T β : Type*} [DecidableEq T]

/-- The calls of a run in which no end is closed and every count is positive. -/
def BothOpen (_ : W T β) : Act T (Op β) Unit → Prop
  | .call _ (.write _ buf) => buf ≠ []
  | .call _ (.read _ count) => 0 < count
  | .call _ (.close _) => False
  | _ => True

/-- What the pipe owes its readers and writers in a state: what was accepted and is not yet
delivered is in the buffer. -/
structure Streams (s : W T β) : Prop where
  order : s.shared.delivered <+: s.shared.accepted
  lossless : s.shared.accepted = s.shared.delivered ++ s.shared.buf.contents
  readers : ∀ t fd count, s.place t = .inside (.read fd count) → s.status t = .blocked →
    s.shared.buf.contents = []
  writers : ∀ t fd buf, s.place t = .inside (.write fd buf) → s.status t = .blocked →
    s.shared.buf.contents.length = pipeCapacity

/-- What holds of the pipe while both ends stay open. -/
structure Flows (p : Process T β) : Prop where
  peer : ∀ e, (p.ends e).peer = true
  alive : ∀ e, (p.ends e).alive = true
  stays : ∀ fu ∈ p.openFiles, fu.closing = false
  quiet : p.pending = false
  flow : Stream.Conserved p.accepted p.delivered p.buf.contents

/-- A thread in a wait is on the list with the mask of its side, and sleeps there only
while the buffer is full, for a writer, or empty, for a reader. -/
structure Waits (s : W T β) (u : T) : Prop where
  write : ∀ fd buf, s.place u = .inside (.write fd buf) → buf ≠ [] ∧ ⟨u, writerMask⟩ ∈ s.shared.waitQueue ∧
    (s.status u = .blocked → s.shared.buf.contents.length = pipeCapacity)
  read : ∀ fd count, s.place u = .inside (.read fd count) → 0 < count ∧
    ⟨u, readerMask⟩ ∈ s.shared.waitQueue ∧ (s.status u = .blocked → s.shared.buf.contents = [])

/-- The invariant at a point where `t` runs: `t` itself need not be on the list. -/
structure Running (t : T) (s : W T β) : Prop where
  flows : Flows s.shared
  others : ∀ u, u ≠ t → Waits s u

structure Inv (s : W T β) : Prop where
  flows : Flows s.shared
  waits : ∀ u, Waits s u

variable {s v : W T β} {t u : T} {fd : Nat}

omit [DecidableEq T] in
theorem Waits.of_own (own : ∃ r, s.place u = .own r) : Waits s u := by
  obtain ⟨r, place⟩ := own
  exact ⟨fun fd buf inside => by simp [place] at inside, fun fd count inside => by simp [place] at inside⟩

variable {p : Process T β} {buf : List β} {count : Nat}

theorem Flows.decUsage (flows : Flows p) : Flows (decUsage t fd p) := by
  have same : SameStream p (Pipe.decUsage t fd p) := decUsage_same p
  have rest : (Pipe.decUsage t fd p).ends = p.ends ∧
      ∀ fu ∈ (Pipe.decUsage t fd p).openFiles, fu.closing = false := by
    unfold Pipe.decUsage
    split
    · exact ⟨rfl, flows.stays⟩
    next fu found =>
      have stays := flows.stays fu (findFd_mem found).1
      rw [if_neg (by simp [stays])]
      refine ⟨rfl, fun other mem => ?_⟩
      obtain ⟨old, inside, rfl⟩ := mem_map.mp mem
      split
      · exact stays
      · exact flows.stays old inside
  refine ⟨fun e => by rw [rest.1]; exact flows.peer e, fun e => by rw [rest.1]; exact flows.alive e,
    rest.2, by rw [same.pending]; exact flows.quiet, ?_⟩
  rw [same.accepted, same.delivered, same.buf]
  exact flows.flow

section

variable (running : Running t s)
include running

theorem Running.finish (r : Result β) : Inv (finish t fd r s) := by
  have same : SameStream s.shared (Pipe.finish t fd r s).shared := finish_same
  refine ⟨running.flows.decUsage, fun u => ?_⟩
  by_cases mine : u = t
  · subst mine
    exact .of_own ⟨_, finish_place⟩
  · have waits := running.others u mine
    have place : (Pipe.finish t fd r s).place u = s.place u := (finish_goes (t := t)).place u mine
    refine ⟨fun fd buf inside => ?_, fun fd count inside => ?_⟩
    · rw [place] at inside
      rw [same.waitQueue, same.buf]
      exact waits.write fd buf inside
    · rw [place] at inside
      rw [same.waitQueue, same.buf]
      exact waits.read fd count inside

theorem Running.ret (r : Result β) : Inv (s.ret t r) := by
  refine ⟨running.flows, fun u => ?_⟩
  by_cases mine : u = t
  · subst mine
    exact .of_own ⟨some r, by simp⟩
  · have waits := running.others u mine
    have place : (s.ret t r).place u = s.place u := by simp [mine]
    exact ⟨fun fd buf inside => waits.write fd buf (place ▸ inside), fun fd count inside =>
      waits.read fd count (place ▸ inside)⟩

theorem Running.accept (buf : List β) (some : 0 < (s.shared.buf.write buf).2) :
    Running t (wakeWaiters .POLLIN (setPipe { s.shared with
      buf := (s.shared.buf.write buf).1
      accepted := s.shared.accepted ++ buf.take (s.shared.buf.write buf).2 } s)) := by
  obtain ⟨contents, count⟩ := s.shared.buf.write_spec buf
  have taken : buf.take (s.shared.buf.write buf).2 = buf.take (pipeCapacity - s.shared.buf.contents.length) := by
    rw [count]
    by_cases all : buf.length ≤ pipeCapacity - s.shared.buf.contents.length
    · rw [Nat.min_eq_left all, take_length, take_of_length_le all]
    · rw [Nat.min_eq_right (by omega)]
  have flows : Flows { s.shared with
      buf := (s.shared.buf.write buf).1
      accepted := s.shared.accepted ++ buf.take (s.shared.buf.write buf).2 } := by
    refine ⟨running.flows.peer, running.flows.alive, running.flows.stays, running.flows.quiet, ?_⟩
    rw [contents, taken]
    exact running.flows.flow.push _
  refine ⟨by rw [wakeWaiters_shared]; exact flows, fun u other =>
    ⟨fun fd data inside => ?_, fun fd count inside => ?_⟩⟩
  · rw [wakeWaiters_place] at inside
    obtain ⟨some, listed, full⟩ := (running.others u other).write fd data inside
    refine ⟨some, by rw [wakeWaiters_shared]; exact listed, fun asleep => ?_⟩
    have before : s.status u = .blocked := ((setPipe _ s).wakeAll_status_blocked u _ |>.mp asleep).2
    have wasFull := full before
    omega
  · rw [wakeWaiters_place] at inside
    obtain ⟨positive, listed, -⟩ := (running.others u other).read fd count inside
    exact ⟨positive, by rw [wakeWaiters_shared]; exact listed, fun asleep =>
      absurd asleep (wakeWaiters_wakes listed (by decide : PollEvent.POLLIN ∈ readerMask))⟩

theorem Running.deliver (count : Nat) (some : 0 < (s.shared.buf.read count).2.length) :
    Running t (wakeWaiters .POLLOUT (setPipe { s.shared with
      buf := (s.shared.buf.read count).1
      delivered := s.shared.delivered ++ (s.shared.buf.read count).2 } s)) := by
  obtain ⟨contents, data⟩ := s.shared.buf.read_spec count
  have flows : Flows { s.shared with
      buf := (s.shared.buf.read count).1
      delivered := s.shared.delivered ++ (s.shared.buf.read count).2 } := by
    refine ⟨running.flows.peer, running.flows.alive, running.flows.stays, running.flows.quiet, ?_⟩
    rw [contents, data]
    exact running.flows.flow.pop count
  refine ⟨by rw [wakeWaiters_shared]; exact flows, fun u other => ⟨fun fd buf inside => ?_, fun fd n inside => ?_⟩⟩
  · rw [wakeWaiters_place] at inside
    obtain ⟨some, listed, -⟩ := (running.others u other).write fd buf inside
    exact ⟨some, by rw [wakeWaiters_shared]; exact listed, fun asleep =>
      absurd asleep (wakeWaiters_wakes listed (by decide : PollEvent.POLLOUT ∈ writerMask))⟩
  · rw [wakeWaiters_place] at inside
    obtain ⟨positive, listed, empty⟩ := (running.others u other).read fd n inside
    refine ⟨positive, by rw [wakeWaiters_shared]; exact listed, fun asleep => ?_⟩
    have before : s.status u = .blocked := ((setPipe _ s).wakeAll_status_blocked u _ |>.mp asleep).2
    rw [data, empty before] at some
    simp at some

theorem Running.sleep (frame : Frame β) (mask : List PollEvent)
    (write : ∀ fd buf, frame = .write fd buf → buf ≠ [] ∧ mask = writerMask ∧
      s.shared.buf.contents.length = pipeCapacity)
    (read : ∀ fd count, frame = .read fd count → 0 < count ∧ mask = readerMask ∧ s.shared.buf.contents = []) :
    Inv ((setPipe (addWaitQueue t mask s.shared) s).sleep t frame) := by
  have flows := running.flows
  refine ⟨⟨flows.peer, flows.alive, flows.stays, flows.quiet, flows.flow⟩, fun u => ?_⟩
  by_cases mine : u = t
  · subst mine
    have here : ((setPipe (addWaitQueue u mask s.shared) s).sleep u frame).place u = .inside frame := by
      simp
    have listed : (⟨u, mask⟩ : WaitQueueEntry T) ∈ (addWaitQueue u mask s.shared).waitQueue := by
      simp [addWaitQueue]
    refine ⟨fun fd buf inside => ?_, fun fd count inside => ?_⟩
    · obtain ⟨some, rfl, full⟩ := write fd buf (by simpa using here.symm.trans inside)
      exact ⟨some, listed, fun _ => full⟩
    · obtain ⟨positive, rfl, empty⟩ := read fd count (by simpa using here.symm.trans inside)
      exact ⟨positive, listed, fun _ => empty⟩
  · have waits := running.others u mine
    have place : ((setPipe (addWaitQueue t mask s.shared) s).sleep t frame).place u = s.place u := by
      simp [mine]
    have status : ((setPipe (addWaitQueue t mask s.shared) s).sleep t frame).status u = s.status u := by
      simp [mine]
    refine ⟨fun fd buf inside => ?_, fun fd count inside => ?_⟩
    · obtain ⟨some, listed, full⟩ := waits.write fd buf (place ▸ inside)
      exact ⟨some, mem_append_left _ listed, fun asleep => full (status ▸ asleep)⟩
    · obtain ⟨positive, listed, empty⟩ := waits.read fd count (place ▸ inside)
      exact ⟨positive, mem_append_left _ listed, fun asleep => empty (status ▸ asleep)⟩

theorem Running.doRecvPacket (some : buf ≠ []) : Inv (doRecvPacket t fd buf s) := by
  unfold Pipe.doRecvPacket
  dsimp only
  split
  next taken => exact (running.accept buf taken).finish _
  · rw [if_neg (by simp [running.flows.peer, running.flows.alive])]
    split
    · exact running.finish _
    · refine running.sleep _ _ (fun fd' buf' same => ?_) (fun fd' count same => by cases same)
      cases same
      have spec := (s.shared.buf.write_spec buf).2
      have bound := s.shared.buf.contents_length_le
      have positive := length_pos_iff.mpr some
      exact ⟨some, rfl, by omega⟩

theorem Running.readLoop (positive : 0 < count) : Inv (readLoop t fd count s) := by
  unfold Pipe.readLoop
  dsimp only
  split
  next some =>
    rw [if_neg (by simp [running.flows.alive])]
    exact (running.deliver count some).finish _
  next none =>
    rw [if_neg (by simp [running.flows.peer])]
    split
    · exact running.finish _
    · refine running.sleep _ _ (fun fd' buf same => by cases same) (fun fd' count' same => ?_)
      cases same
      have spec := (s.shared.buf.read_spec count).2
      rw [spec, length_take] at none
      exact ⟨positive, rfl, eq_nil_of_length_eq_zero (by omega)⟩

theorem Running.pipeWrite (e : End) (some : buf ≠ []) : Inv (pipeWrite t fd e buf s) := by
  unfold Pipe.pipeWrite
  rw [if_pos (running.flows.peer e)]
  cases e with
  | read => exact running.finish _
  | write =>
    rw [if_pos (running.flows.alive .read)]
    exact running.doRecvPacket some

theorem Running.pipeRead (e : End) (positive : 0 < count) : Inv (pipeRead t fd e count s) := by
  cases e with
  | read => exact running.readLoop positive
  | write => exact running.finish _

omit [DecidableEq T] in
theorem Running.setPipe (flows : Flows p) (buf : p.buf = s.shared.buf)
    (queue : ∀ entry ∈ s.shared.waitQueue, entry.thread ≠ t → entry ∈ p.waitQueue) :
    Running t (setPipe p s) := by
  refine ⟨flows, fun u other => ⟨fun fd data inside => ?_, fun fd count inside => ?_⟩⟩
  · obtain ⟨some, listed, full⟩ := (running.others u other).write fd data inside
    exact ⟨some, queue _ listed other, fun asleep => by rw [setPipe_shared, buf]; exact full asleep⟩
  · obtain ⟨positive, listed, empty⟩ := (running.others u other).read fd count inside
    exact ⟨positive, queue _ listed other, fun asleep => by rw [setPipe_shared, buf]; exact empty asleep⟩

omit running in
omit [DecidableEq T] in
theorem Flows.setEnd (flows : Flows p) (e : End) {pipe : PipeFd}
    (peer : pipe.peer = true) (alive : pipe.alive = true) : Flows (setEnd e pipe p) := by
  refine ⟨fun other => ?_, fun other => ?_, flows.stays, flows.quiet, flows.flow⟩
  · by_cases same : other = e
    · subst same; simpa [Pipe.setEnd] using peer
    · simpa [Pipe.setEnd, same] using flows.peer other
  · by_cases same : other = e
    · subst same; simpa [Pipe.setEnd] using alive
    · simpa [Pipe.setEnd, same] using flows.alive other

theorem Running.setStatusFlags (e : End) (nonblock : Bool) : Inv (setStatusFlags t fd nonblock e s) := by
  have flows : Flows (setEnd e { s.shared.ends e with nonblock := nonblock } s.shared) :=
    running.flows.setEnd e (running.flows.peer e) (running.flows.alive e)
  exact (running.setPipe flows rfl fun _ mem _ => mem).finish _

theorem Running.openedFdMethod {method : End → W T β → W T β}
    (keeps : ∀ e s, Running t s → Inv (method e s)) : Inv (openedFdMethod t fd method s) := by
  unfold Pipe.openedFdMethod
  split
  · exact running.ret _
  · split
    · exact running.ret _
    · refine keeps _ _ (running.setPipe ⟨running.flows.peer, running.flows.alive, fun fu mem => ?_,
        running.flows.quiet, running.flows.flow⟩ rfl fun _ mem _ => mem)
      obtain ⟨old, inside, rfl⟩ := mem_map.mp mem
      split <;> exact running.flows.stays old inside

theorem Running.dceDup : Inv (dceDup t fd s) := by
  unfold Pipe.dceDup
  split
  · exact running.ret _
  next fu found =>
    split
    · exact running.ret _
    · split
      · exact running.ret _
      next new free =>
        have flows : Flows { s.shared with openFiles := s.shared.openFiles ++ [⟨new, fu.file, [], false⟩] } := by
          refine ⟨running.flows.peer, running.flows.alive, fun other mem => ?_, running.flows.quiet,
            running.flows.flow⟩
          rcases mem_append.mp mem with old | last
          · exact running.flows.stays other old
          · rw [mem_singleton.mp last]
        have counted : Flows (setEnd fu.file { s.shared.ends fu.file with
          fdCount := (s.shared.ends fu.file).fdCount + 1 } _) :=
          flows.setEnd fu.file (running.flows.peer fu.file) (running.flows.alive fu.file)
        exact (running.setPipe counted rfl fun _ mem _ => mem).ret (.fd new)

end

theorem Inv.enter {op : Op β} (inv : Inv s) (open_ : BothOpen s (.call t op)) : Inv (enter t op s) := by
  have running : Running t s := ⟨inv.flows, fun u _ => inv.waits u⟩
  cases op with
  | write fd buf => exact running.openedFdMethod fun e _ here => here.pipeWrite e open_
  | read fd count => exact running.openedFdMethod fun e _ here => here.pipeRead e open_
  | close fd => exact open_.elim
  | dup fd => exact running.dceDup
  | setfl fd nonblock => exact running.openedFdMethod fun e _ here => here.setStatusFlags e nonblock

section

omit [DecidableEq T]

theorem Flows.doSignal (flows : Flows p) : Flows (doSignal t p) := by
  unfold Pipe.doSignal
  split
  · exact ⟨flows.peer, flows.alive, flows.stays, rfl, flows.flow⟩
  · exact flows

theorem doSignal_buf (p : Process T β) : (doSignal t p).buf = p.buf ∧ (doSignal t p).waitQueue = p.waitQueue := by
  unfold doSignal
  split <;> exact ⟨rfl, rfl⟩

end

theorem Inv.resume {frame : Frame β} (inv : Inv s) (e : Unit) (inside : s.place t = .inside frame) :
    Inv (resume t frame e (s.give t)) := by
  have given : Running t (s.give t) := by
    refine ⟨inv.flows, fun u other => ⟨fun fd buf here => ?_, fun fd count here => ?_⟩⟩
    · obtain ⟨some, listed, full⟩ := (inv.waits u).write fd buf here
      exact ⟨some, listed, fun asleep => full (by simpa [other] using asleep)⟩
    · obtain ⟨positive, listed, empty⟩ := (inv.waits u).read fd count here
      exact ⟨positive, listed, fun asleep => empty (by simpa [other] using asleep)⟩
  obtain ⟨same, queue⟩ := doSignal_buf (t := t) (s.give t).shared
  have eaten : Running t (eatSignal t (s.give t)) :=
    given.setPipe given.flows.doSignal same fun _ mem _ => by rw [queue]; exact mem
  have left : Running t (setPipe (removeWaitQueue t (eatSignal t (s.give t)).shared) (eatSignal t (s.give t))) := by
    have flows := eaten.flows
    exact eaten.setPipe ⟨flows.peer, flows.alive, flows.stays, flows.quiet, flows.flow⟩ rfl
      fun entry mem other => mem_filter.mpr ⟨mem, by simpa using other⟩
  have quiet : (removeWaitQueue t (eatSignal t (s.give t)).shared).pending = false := left.flows.quiet
  unfold Pipe.resume
  rw [if_pos (eaten.flows.alive .read)]
  cases frame with
  | write fd buf =>
    unfold afterWait
    dsimp only
    rw [if_neg (by simp [quiet])]
    exact left.doRecvPacket ((inv.waits t).write fd buf inside).1
  | read fd count =>
    unfold afterWait
    dsimp only
    rw [if_neg (by simp [quiet])]
    exact left.readLoop ((inv.waits t).read fd count inside).1

omit [DecidableEq T] in
theorem Inv.idle (inv : Inv s) (idle : Program.Idle s v) : Inv v := by
  have awake : ∀ u k, v.place u = .inside k → v.status u = .blocked → s.status u = .blocked := by
    intro u k inside asleep
    rcases idle.asleep u asleep with before | ⟨r, own⟩
    · exact before
    · rw [idle.place, own] at inside
      cases inside
  refine ⟨idle.shared ▸ inv.flows, fun u => ⟨fun fd buf inside => ?_, fun fd count inside => ?_⟩⟩
  · obtain ⟨some, listed, full⟩ := (inv.waits u).write fd buf (idle.place ▸ inside)
    rw [idle.shared]
    exact ⟨some, listed, fun asleep => full (awake u _ inside asleep)⟩
  · obtain ⟨positive, listed, empty⟩ := (inv.waits u).read fd count (idle.place ▸ inside)
    rw [idle.shared]
    exact ⟨positive, listed, fun asleep => empty (awake u _ inside asleep)⟩

theorem inv_of_reach (reach : (machine T β).ReachBy BothOpen s) : Inv s := by
  refine reach.invariant (I := Inv) (fun s first => ?_) fun s a v inv open_ run => ?_
  · have fresh : Process.Fresh s.shared := first.shared
    refine ⟨⟨fun e => by rw [fresh.ends], fun e => by rw [fresh.ends], fun fu mem => ?_,
      fresh.pending, ?_⟩, fun u => .of_own ⟨none, first.own u⟩⟩
    · obtain ⟨fdRead, fdWrite, -, files⟩ := fresh.openFiles
      rw [files] at mem
      rcases mem_cons.mp mem with rfl | last
      · rfl
      · rw [mem_singleton.mp last]
    · rw [fresh.accepted, fresh.delivered, fresh.buf]
      exact .nil
  · rcases Program.step_cases run with
      ⟨t, op, r, rfl, -, -, rfl⟩ | ⟨t, e, frame, rfl, -, -, inside, rfl⟩ | idle
    · exact inv.enter open_
    · exact inv.resume e inside
    · exact inv.idle idle

/-- Two threads and a new pipe, with its ends at 3 and 4. -/
def newPipe : W Bool Nat where
  current := none
  status _ := .active
  place _ := .own none
  now := 0
  wakeAt _ := none
  shared :=
    { ends := fun _ => ⟨true, true, false, 1⟩
      buf := .new pipeCapacity Nat
      waitQueue := []
      openFiles := [⟨3, .read, [], false⟩, ⟨4, .write, [], false⟩]
      threads := [false, true]
      pending := false
      handled := false
      masked := fun _ => false
      fault := false
      accepted := []
      delivered := [] }

theorem newPipe_start : (machine Bool Nat).init newPipe where
  main := rfl
  ready _ := .inl rfl
  own _ := rfl
  shared := ⟨fun _ => rfl, rfl, rfl, ⟨3, 4, by decide, rfl⟩, rfl, rfl, rfl, rfl⟩

theorem doRecvPacket_taken {t : T} {fd : Nat} {buf : List β} {s : W T β} (taken : 0 < (s.shared.buf.write buf).2) :
    doRecvPacket t fd buf s = finish t fd (.count (s.shared.buf.write buf).2)
    (wakeWaiters .POLLIN (setPipe { s.shared with
        buf := (s.shared.buf.write buf).1
        accepted := s.shared.accepted ++ buf.take (s.shared.buf.write buf).2 } s)) := by
  unfold doRecvPacket
  dsimp only
  rw [if_pos taken]

def threeBytes : FifoBuffer pipeCapacity Nat := ⟨[1, 2, 3], 0, minAlloc, by decide, by decide, by decide⟩

end Dce.Pipe
