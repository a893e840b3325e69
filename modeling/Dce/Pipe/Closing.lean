import Dce.Pipe.Descriptors
import Dce.Pipe.Stream

/- Closing an end of a pipe under the threads that wait on it. -/

namespace Dce.Pipe

open Coroutine List

variable {T β : Type*}

/-- What a thread in the wait of `Write` finds when control is back with it. -/
structure WriterFinds (t : T) (buf : List β) (p : Process T β) : Prop where
  reader : (p.ends .read).alive = true
  room : ¬ Linked p → buf ≠ [] ∧ p.buf.contents.length < pipeCapacity ∧ (doSignal t p).pending = false

/-- Among the descriptors of its end `fu` is the only one that is not closing. -/
def OnlyOpen (fu : FileUsage T) (p : Process T β) : Prop :=
  fu.closing = false ∧ ∀ other ∈ p.openFiles, other.file = fu.file → other.closing = false → other.fd = fu.fd

/-- The steps of a run in which no writer meets the end that was closed under it, and
the last open descriptor of an end is closed only when it is the last one of all. -/
def Careful (s : W T β) : Act T (Op β) Unit → Prop
  | .dispatch t _ => ∀ fd buf, s.place t = .inside (.write fd buf) → WriterFinds t buf s.shared
  | .call _ (.close fd) => ∀ fu, findFd fd s.shared = some fu → (s.shared.ends fu.file).peer = true →
      OnlyOpen fu s.shared → (s.shared.ends fu.file).fdCount = 1
  | _ => True

/-- Both ends lose their peers. -/
def unlink (e : End) (p : Process T β) : Process T β :=
  setEnd e.other { p.ends e.other with peer := false } (setEnd e { p.ends e with peer := false } p)

def Frame.fd : Frame β → Nat
  | .write fd _ => fd
  | .read fd _ => fd

def Frame.side : Frame β → End
  | .write _ _ => .write
  | .read _ _ => .read

def Frame.mask : Frame β → List PollEvent
  | .write _ _ => writerMask
  | .read _ _ => readerMask

theorem Frame.hangup_mem_mask (frame : Frame β) : .POLLHUP ∈ frame.mask := by
  cases frame <;> simp [mask, writerMask, readerMask]

/-- A thread that waits is a user of its descriptor, and sleeps only while the ends are
linked, on the list of the read end. -/
def Held (s : W T β) (u : T) : Prop :=
  ∀ frame, s.place u = .inside frame → Uses s.shared u frame.fd frame.side ∧
    (s.status u = .blocked → Linked s.shared ∧ ⟨u, frame.mask⟩ ∈ s.shared.waitQueue)

/-- The invariant at a point where `t` runs. -/
structure Working (t : T) (s : W T β) : Prop where
  files : Files s.shared
  others : ∀ u, u ≠ t → Held s u

structure Tended (s : W T β) : Prop where
  files : Files s.shared
  held : ∀ u, Held s u

variable {s v : W T β} {t u : T} {fd : Nat} {e : End}

theorem Held.of_own (own : ∃ r, s.place u = .own r) : Held s u := by
  obtain ⟨r, place⟩ := own
  intro frame inside
  rw [place] at inside
  cases inside

theorem Working.step (working : Working t s) (spares : World.Spares t s v)
    (ends : v.shared.ends = s.shared.ends) (opened : v.shared.openFiles = s.shared.openFiles)
    (fault : v.shared.fault = s.shared.fault)
    (queue : ∀ entry ∈ s.shared.waitQueue, entry.thread ≠ t → entry ∈ v.shared.waitQueue) :
    Working t v := by
  refine ⟨working.files.of_same ends opened fault, fun u other frame inside => ?_⟩
  obtain ⟨uses, asleep⟩ := working.others u other frame (spares.place u other ▸ inside)
  refine ⟨by rw [Uses, opened]; exact uses, fun blocked => ?_⟩
  obtain ⟨linked, listed⟩ := asleep (spares.asleep u other blocked)
  exact ⟨by rw [Linked, ends]; exact linked, queue _ listed other⟩

theorem Working.ret [DecidableEq T] (working : Working t s) (r : Result β) : Tended (s.ret t r) := by
  refine ⟨working.files, fun u => ?_⟩
  by_cases mine : u = t
  · subst mine
    exact .of_own ⟨some r, by simp⟩
  · intro frame inside
    exact working.others u mine frame (by simpa [mine] using inside)

variable {p : Process T β} {buf : List β}

theorem Working.setPipe (working : Working t s) (files : Files p)
    (uses : ∀ u fd e, u ≠ t → Uses s.shared u fd e → Uses p u fd e)
    (linked : (p.ends .read).peer = (s.shared.ends .read).peer)
    (queue : p.waitQueue = s.shared.waitQueue) : Working t (setPipe p s) := by
  refine ⟨files, fun u other frame inside => ?_⟩
  obtain ⟨held, asleep⟩ := working.others u other frame inside
  refine ⟨uses u _ _ other held, fun blocked => ?_⟩
  obtain ⟨before, listed⟩ := asleep blocked
  exact ⟨linked.trans before, by rw [setPipe_shared, queue]; exact listed⟩

theorem Working.setBuf (working : Working t s) (buf : FifoBuffer pipeCapacity β) (accepted delivered : List β) :
    Working t (Pipe.setPipe { s.shared with
      buf := buf, accepted := accepted, delivered := delivered } s) :=
  working.setPipe (working.files.of_same rfl rfl rfl) (fun _ _ _ _ uses => uses) rfl rfl

variable [DecidableEq T]

section

variable (working : Working t s)
include working

theorem Working.wakeWaiters (event : PollEvent) : Working t (wakeWaiters event s) :=
  working.step (wakeWaiters_goes event).toSpares (by simp) (by simp) (by simp)
    (by rw [wakeWaiters_shared]; exact fun _ mem _ => mem)

theorem Working.finish (r : Result β) : Tended (finish t fd r s) := by
  have same : SameStream s.shared (decUsage t fd s.shared) := decUsage_same s.shared
  refine (working.setPipe working.files.decUsage (fun u fd e other uses => ?_)
    (decUsage_peer .read) same.waitQueue).ret r
  exact uses.decUsage working.files.toCounted other

theorem Working.sleep (frame : Frame β) (uses : Uses s.shared t frame.fd frame.side) (linked : Linked s.shared) :
    Tended ((Pipe.setPipe (addWaitQueue t frame.mask s.shared) s).sleep t frame) := by
  refine ⟨working.files.of_same rfl rfl rfl, fun u => ?_⟩
  by_cases mine : u = t
  · subst mine
    intro other inside
    cases (show frame = other by simpa using inside)
    exact ⟨uses, fun _ => ⟨linked, by simp [addWaitQueue]⟩⟩
  · intro other inside
    obtain ⟨held, asleep⟩ := working.others u mine other (by simpa [mine] using inside)
    refine ⟨held, fun blocked => ?_⟩
    obtain ⟨before, listed⟩ := asleep (by simpa [mine] using blocked)
    exact ⟨before, mem_append_left _ listed⟩

omit working in
/-- With room in the buffer `DoRecvPacket` looks at no link. -/
theorem write_pos_iff (b : FifoBuffer pipeCapacity β) (buf : List β) :
    0 < (b.write buf).2 ↔ buf ≠ [] ∧ b.contents.length < pipeCapacity := by
  rw [(b.write_spec buf).2, ← length_pos_iff]
  omega

theorem Working.doRecvPacket (uses : Uses s.shared t fd .write)
    (finds : ¬ Linked s.shared → 0 < (s.shared.buf.write buf).2) : Tended (doRecvPacket t fd buf s) := by
  unfold Pipe.doRecvPacket
  dsimp only
  split
  · exact ((working.setBuf _ _ _).wakeWaiters .POLLIN).finish _
  next full =>
    have linked : Linked s.shared := by
      by_contra unlinked
      exact full (finds unlinked)
    have writer := uses.alive working.files.toCounted
    rw [if_neg (by simp [writer, show (s.shared.ends .read).peer = true from linked])]
    split
    · exact working.finish _
    · exact working.sleep (.write fd buf) uses linked

theorem Working.readLoop {count : Nat} (uses : Uses s.shared t fd .read) : Tended (readLoop t fd count s) := by
  unfold Pipe.readLoop
  dsimp only
  split
  · rw [if_neg fun both => both.2 (working.files.alive_of_linked both.1 .write)]
    exact ((working.setBuf _ _ _).wakeWaiters .POLLOUT).finish _
  · split
    · exact working.finish _
    next linked =>
      split
      · exact working.finish _
      · exact working.sleep (.read fd count) uses (by simpa [Linked] using linked)

omit working in
omit [DecidableEq T] in
theorem doSignal_same (p : Process T β) : (doSignal t p).ends = p.ends ∧
    (doSignal t p).openFiles = p.openFiles ∧ (doSignal t p).fault = p.fault ∧
    (doSignal t p).waitQueue = p.waitQueue := by
  unfold doSignal
  split <;> exact ⟨rfl, rfl, rfl, rfl⟩

omit [DecidableEq T] in
theorem Working.eatSignal : Working t (eatSignal t s) := by
  obtain ⟨ends, opened, fault, queue⟩ := doSignal_same (t := t) s.shared
  exact working.step (spares_setPipe t _ s) ends opened fault fun _ mem _ => by
    rw [Pipe.eatSignal, setPipe_shared, queue]; exact mem

omit working in
theorem sendSignal_shared : (sendSignal s).shared = { s.shared with pending := true } := by
  unfold sendSignal
  dsimp only
  split
  · rfl
  · simp

theorem Working.pipeWrite (buf : List β) (uses : Uses s.shared t fd e) : Tended (pipeWrite t fd e buf s) := by
  unfold Pipe.pipeWrite
  dsimp only
  split
  next peer =>
    have linked := (working.files.linked_iff e).mp peer
    cases e with
    | read => exact working.finish _
    | write =>
      rw [if_pos (working.files.alive_of_linked linked .read)]
      exact working.doRecvPacket uses fun unlinked => absurd linked unlinked
  next =>
    have signalled : Working t (sendSignal s) := working.step sendSignal_goes.toSpares
      (by rw [sendSignal_shared]) (by rw [sendSignal_shared]) (by rw [sendSignal_shared])
      (by rw [sendSignal_shared]; exact fun _ mem _ => mem)
    exact signalled.eatSignal.finish _

theorem Working.pipeRead (count : Nat) (uses : Uses s.shared t fd e) : Tended (pipeRead t fd e count s) := by
  cases e with
  | read => exact working.readLoop uses
  | write => exact working.finish _

theorem Working.setStatusFlags (nonblock : Bool) : Tended (setStatusFlags t fd nonblock e s) := by
  have files : Files (setEnd e { s.shared.ends e with nonblock := nonblock } s.shared) :=
    working.files.setEnd e rfl rfl rfl
  refine (working.setPipe files (fun u fd e _ uses => uses) ?_ rfl).finish _
  cases e <;> rfl

theorem Working.openedFdMethod {method : End → W T β → W T β}
    (keeps : ∀ e s, Working t s → Uses s.shared t fd e → Tended (method e s)) :
    Tended (openedFdMethod t fd method s) := by
  unfold Pipe.openedFdMethod
  split
  · exact working.ret _
  next fu found =>
    split
    · exact working.ret _
    · obtain ⟨mem, rfl⟩ := findFd_mem found
      have files : Files (mapFd fu.fd (fun fu => { fu with users := t :: fu.users }) s.shared) :=
        working.files.mapFd (fun _ _ _ => ⟨rfl, rfl⟩) fun _ _ _ _ stays => .inl stays
      refine keeps _ _ (working.setPipe files (fun u fd e _ uses => ?_) rfl rfl) ?_
      · exact uses.mapFd fun _ _ _ user => ⟨rfl, rfl, mem_cons_of_mem t user⟩
      · exact ⟨{ fu with users := t :: fu.users }, mem_map.mpr ⟨fu, mem, if_pos rfl⟩, rfl, rfl, mem_cons_self⟩

omit working in
omit [DecidableEq T] in
theorem allocateFd_free {new : Nat} (free : allocateFd p = some new) : ∀ fu ∈ p.openFiles, fu.fd ≠ new := by
  have every := find?_some free
  simpa using every

theorem Working.dceDup : Tended (dceDup t fd s) := by
  unfold Pipe.dceDup
  split
  · exact working.ret _
  next fu found =>
    split
    · exact working.ret _
    · split
      · exact working.ret _
      next new free =>
        obtain ⟨mem, rfl⟩ := findFd_mem found
        have files := working.files.dup (allocateFd_free free) fu.file (working.files.alive_of_mem mem)
        refine (working.setPipe files (fun u fd e _ uses => ?_) ?_ rfl).ret _
        · obtain ⟨other, inside, rest⟩ := uses
          exact ⟨other, mem_append_left _ inside, rest⟩
        · cases fu.file <;> rfl

omit [DecidableEq T] in
theorem Working.forget {fu : FileUsage T} (mem : fu ∈ s.shared.openFiles)
    (still : Linked s.shared → ∃ other ∈ s.shared.openFiles, other.fd ≠ fu.fd ∧ other.file = fu.file ∧
      other.closing = false) : Working t (Pipe.setPipe (forget fu s.shared) s) := by
  unfold Pipe.forget
  split
  next unused =>
    refine working.setPipe (working.files.dropFile ⟨fu, mem, rfl, rfl⟩ still) (fun u fd e _ uses => ?_)
      (dropFile_peer fu _ .read) rfl
    refine uses.dropFile fun same => ?_
    obtain ⟨old, inside, same', -, user⟩ := uses
    rw [working.files.unique mem inside (same'.trans same), unused] at user
    cases user
  next =>
    refine working.setPipe (working.files.mapFd (fun _ _ _ => ⟨rfl, rfl⟩) fun linked old inside same _ => .inr ?_)
      (fun u fd e _ uses => uses.mapFd fun _ _ _ user => ⟨rfl, rfl, user⟩) rfl rfl
    rw [working.files.unique mem inside same]
    exact still linked

end

section

omit [DecidableEq T]

theorem unlink_ends (e other : End) (p : Process T β) :
    (unlink e p).ends other = { p.ends other with peer := false } := by
  cases e <;> cases other <;> rfl

theorem unlink_unlinked (e : End) (p : Process T β) : ¬ Linked (unlink e p) := by
  rw [Linked, unlink_ends]
  simp

theorem Files.unlink (files : Files p) (e : End) : Files (unlink e p) where
  nodup := files.nodup
  count other := by rw [unlink_ends]; exact files.count other
  alive other := by rw [unlink_ends]; exact files.alive other
  symm := by rw [unlink_ends, unlink_ends]
  opened linked := absurd linked (unlink_unlinked e p)
  safe := files.safe

end

theorem pipeClose_linked (files : Files s.shared) (linked : Linked s.shared) (e : End) :
    pipeClose e s = (wakeWaiters .POLLHUP (setPipe (unlink e s.shared) s), .success) := by
  have peer := (files.linked_iff e).mpr linked
  have peer' := (files.linked_iff e.other).mpr linked
  have alive := files.alive_of_linked linked e.other
  unfold pipeClose
  rw [if_pos peer]
  cases e with
  | read =>
    have alive : (s.shared.ends .write).alive = true := alive
    simp [unlink, setEnd, End.other, alive]
  | write =>
    have alive : (s.shared.ends .read).alive = true := alive
    have peer' : (s.shared.ends .read).peer = true := peer'
    simp [unlink, setEnd, End.other, alive, peer']

theorem closeLast_unlinked (files : Files s.shared) (unlinked : ¬ Linked s.shared)
    (e : End) : (closeLast e s).1 = s := by
  unfold closeLast
  split
  · unfold pipeClose
    rw [if_neg fun peer => unlinked ((files.linked_iff e).mp peer)]
  · rfl

theorem Working.unlink (working : Working t s) (e : End) :
    Working t (Pipe.wakeWaiters .POLLHUP (Pipe.setPipe (unlink e s.shared) s)) := by
  refine ⟨by rw [wakeWaiters_shared]; exact working.files.unlink e, fun u other frame inside => ?_⟩
  rw [wakeWaiters_place] at inside
  obtain ⟨uses, asleep⟩ := working.others u other frame inside
  refine ⟨by rw [wakeWaiters_shared]; exact uses, fun blocked => ?_⟩
  have before := ((Pipe.setPipe _ s).wakeAll_status_blocked u _ |>.mp blocked).2
  exact absurd blocked (wakeWaiters_wakes (asleep before).2 frame.hangup_mem_mask)

theorem Working.dceClose (working : Working t s)
    (careful : ∀ fu, findFd fd s.shared = some fu → (s.shared.ends fu.file).peer = true →
      OnlyOpen fu s.shared → (s.shared.ends fu.file).fdCount = 1) : Tended (dceClose t fd s) := by
  unfold Pipe.dceClose
  split
  · exact working.ret _
  next fu found =>
    obtain ⟨mem, rfl⟩ := findFd_mem found
    dsimp only
    by_cases linked : Linked s.shared
    · by_cases last : (s.shared.ends fu.file).fdCount = 1
      · rw [closeLast, if_pos last, pipeClose_linked working.files linked]
        have inside : fu ∈ (Pipe.wakeWaiters .POLLHUP
          (Pipe.setPipe (Pipe.unlink fu.file s.shared) s)).shared.openFiles := by
          rw [wakeWaiters_shared]
          exact mem
        refine ((working.unlink fu.file).forget inside fun still => ?_).ret _
        rw [wakeWaiters_shared] at still
        exact absurd still (unlink_unlinked fu.file s.shared)
      · rw [closeLast, if_neg last]
        refine (working.forget mem fun _ => ?_).ret _
        cases closing : fu.closing with
        | true =>
          obtain ⟨other, inside, file, stays⟩ := working.files.opened linked fu.file
          refine ⟨other, inside, fun same => ?_, file, stays⟩
          rw [working.files.unique mem inside same, closing] at stays
          cases stays
        | false =>
          by_contra none
          push Not at none
          have only : OnlyOpen fu s.shared := by
            refine ⟨closing, fun other inside file stays => ?_⟩
            by_contra away
            exact none other inside away file stays
          exact last (careful fu found ((working.files.linked_iff fu.file).mpr linked) only)
    · rw [closeLast_unlinked working.files linked]
      exact (working.forget mem fun still => absurd still linked).ret _

section

variable (tended : Tended s)
include tended

omit [DecidableEq T] in
theorem Tended.working (t : T) : Working t s :=
  ⟨tended.files, fun u _ => tended.held u⟩

theorem Tended.enter {op : Op β} (careful : Careful s (.call t op)) : Tended (enter t op s) := by
  have working := tended.working t
  cases op with
  | write fd buf => exact working.openedFdMethod fun e _ here uses => here.pipeWrite buf uses
  | read fd count => exact working.openedFdMethod fun e _ here uses => here.pipeRead count uses
  | close fd => exact working.dceClose careful
  | dup fd => exact working.dceDup
  | setfl fd nonblock => exact working.openedFdMethod fun e _ here _ => here.setStatusFlags nonblock

theorem Tended.resume {frame : Frame β} (e : Unit) (inside : s.place t = .inside frame)
    (careful : Careful s (.dispatch t e)) : Tended (resume t frame e (s.give t)) := by
  obtain ⟨ends, opened, fault, queue⟩ := doSignal_same (t := t) (s.give t).shared
  have given : Working t (s.give t) :=
    (tended.working t).step (.give s t) rfl rfl rfl fun _ mem _ => mem
  have eaten : Working t (eatSignal t (s.give t)) := given.eatSignal
  have left : Working t (setPipe (removeWaitQueue t (eatSignal t (s.give t)).shared) (eatSignal t (s.give t))) :=
    eaten.step (spares_setPipe t _ _) rfl rfl rfl fun entry mem other =>
      mem_filter.mpr ⟨mem, by simpa using other⟩
  have uses : Uses (eatSignal t (s.give t)).shared t frame.fd frame.side := by
    rw [Uses, eatSignal, setPipe_shared, opened]
    exact (tended.held t frame inside).1
  unfold Pipe.resume
  cases frame with
  | write fd buf =>
    have finds : WriterFinds t buf s.shared := careful fd buf inside
    have alive : ((eatSignal t (s.give t)).shared.ends .read).alive = true := by
      rw [eatSignal, setPipe_shared, ends]
      exact finds.reader
    rw [if_pos alive]
    unfold afterWait
    dsimp only
    split
    · exact left.eatSignal.finish _
    · refine left.doRecvPacket uses fun unlinked => (write_pos_iff _ buf).mpr ?_
      have before : ¬ Linked s.shared := fun linked => unlinked (by
        rw [setPipe_shared, removeWaitQueue, eatSignal, setPipe_shared, ends]
        exact linked)
      obtain ⟨some, room, -⟩ := finds.room before
      refine ⟨some, ?_⟩
      rw [setPipe_shared, removeWaitQueue, eatSignal, setPipe_shared, (doSignal_buf _).1]
      exact room
  | read fd count =>
    have alive : ((eatSignal t (s.give t)).shared.ends .read).alive = true :=
      uses.alive eaten.files.toCounted
    rw [if_pos alive]
    unfold afterWait
    dsimp only
    split
    · exact left.eatSignal.finish _
    · exact left.readLoop uses

omit [DecidableEq T] in
theorem Tended.idle (idle : Program.Idle s v) : Tended v := by
  refine ⟨idle.shared ▸ tended.files, fun u frame inside => ?_⟩
  rw [idle.place] at inside
  obtain ⟨uses, asleep⟩ := tended.held u frame inside
  rw [idle.shared]
  refine ⟨uses, fun blocked => asleep ?_⟩
  rcases idle.asleep u blocked with before | ⟨r, own⟩
  · exact before
  · rw [own] at inside
    cases inside

end

omit [DecidableEq T] in
theorem Process.Fresh.files (fresh : p.Fresh) : Files p := by
  obtain ⟨fdRead, fdWrite, different, opened⟩ := fresh.openFiles
  refine ⟨⟨?_, fun e => ?_, fun e => ?_⟩, ?_, fun _ e => ?_, fresh.fault⟩
  · simpa [opened] using different
  · rw [fresh.ends, opened]
    cases e <;> rfl
  · simp [fresh.ends]
  · rw [fresh.ends, fresh.ends]
  · rw [opened]
    cases e with
    | read => exact ⟨_, mem_cons_self, rfl, rfl⟩
    | write => exact ⟨_, mem_cons_of_mem _ mem_cons_self, rfl, rfl⟩

theorem tended_of_reach (reach : (machine T β).ReachBy Careful s) : Tended s := by
  refine reach.invariant (I := Tended) (fun s first => ?_) fun s a v tended careful run => ?_
  · have fresh : Process.Fresh s.shared := first.shared
    exact ⟨fresh.files, fun u => .of_own ⟨none, first.own u⟩⟩
  · rcases Program.step_cases run with
      ⟨t, op, r, rfl, -, -, rfl⟩ | ⟨t, e, frame, rfl, -, -, inside, rfl⟩ | idle
    · exact tended.enter careful
    · exact tended.resume e inside careful
    · exact tended.idle idle

theorem unlinked_of_step {a : Act T (Op β) Unit} (unlinked : ¬ Linked s.shared)
    (run : (machine T β).step s a = some v) : ¬ Linked v.shared := by
  intro linked
  rcases Program.step_cases run with
    ⟨t, op, r, rfl, -, -, rfl⟩ | ⟨t, e, frame, rfl, -, -, -, rfl⟩ | idle
  · exact unlinked ((enter_goes (s := s) op).peers .read linked)
  · exact unlinked ((resume_goes (s := s.give t) frame e).peers .read linked)
  · exact unlinked (idle.shared ▸ linked)

theorem resume_write_unlinked (e : Unit) (finds : WriterFinds t buf s.shared)
    (unlinked : ¬ Linked s.shared) : ∃ k, 0 < k ∧
      (resume t (.write fd buf) e (s.give t)).place t = .own (some (.count k)) := by
  obtain ⟨ends, -⟩ := doSignal_same (t := t) (s.give t).shared
  obtain ⟨some, room, quiet⟩ := finds.room unlinked
  have alive : ((eatSignal t (s.give t)).shared.ends .read).alive = true := by
    rw [eatSignal, setPipe_shared, ends]
    exact finds.reader
  have pending : ¬ (setPipe (removeWaitQueue t (eatSignal t (s.give t)).shared)
      (eatSignal t (s.give t))).shared.pending = true := by
    simpa [removeWaitQueue, eatSignal] using quiet
  have taken : 0 < ((setPipe (removeWaitQueue t (eatSignal t (s.give t)).shared)
      (eatSignal t (s.give t))).shared.buf.write buf).2 := by
    rw [write_pos_iff, setPipe_shared, removeWaitQueue, eatSignal, setPipe_shared, (doSignal_buf _).1]
    exact ⟨some, room⟩
  unfold Pipe.resume
  rw [if_pos alive]
  unfold afterWait
  dsimp only
  rw [if_neg pending]
  unfold Pipe.doRecvPacket
  dsimp only
  rw [if_pos taken]
  exact ⟨_, taken, finish_place⟩

/-- Along the runs of `C` no step of a pipe meets an end without its peer or after its
time; and a writer asleep on a full buffer when the read end is closed wakes, and returns
with EPIPE or with what it wrote when control is back with it. -/
structure ReleasesWriters (T β : Type*) [DecidableEq T] (C : W T β → Act T (Op β) Unit → Prop) : Prop where
  safe : ∀ s, (machine T β).ReachBy C s → s.shared.fault = false
  released : ∀ s v x t fd buf closer fu, (machine T β).ReachBy C s → s.place t = .inside (.write fd buf) →
    s.status t = .blocked →
    s.shared.buf.contents.length = pipeCapacity →
    findFd fu.fd s.shared = some fu → fu.file = .read → C s (.call closer (.close fu.fd)) →
    (machine T β).step s (.call closer (.close fu.fd)) = some v → Linked s.shared → ¬ Linked v.shared →
    (machine T β).Path C v x → x.place t = .inside (.write fd buf) →
      x.Runnable t ∧ ∀ e y, C x (.dispatch t e) → (machine T β).step x (.dispatch t e) = some y →
        y.place t = .own (some (.failed .EPIPE)) ∨ ∃ k, 0 < k ∧ y.place t = .own (some (.count k))

theorem releasesWriters_of_careful (T β : Type*) [DecidableEq T] : ReleasesWriters T β Careful where
  safe s reach := (tended_of_reach reach).files.safe
  released s v x t fd buf closer fu reach _ _ _ _ _ careful close _ unlinked path inside := by
    have later : (machine T β).ReachBy Careful x := path.reachBy (.next reach careful close)
    have apart : ¬ Linked x.shared :=
      path.keeps (I := fun x => ¬ Linked x.shared) (fun _ _ _ here _ run => unlinked_of_step here run) unlinked
    have held := (tended_of_reach later).held t _ inside
    refine ⟨⟨fun asleep => apart (held.2 asleep).1,
      (program_cooperative T β).inside_alive later inside⟩, fun e y finds run => .inr ?_⟩
    cases Program.step_resume inside run
    exact resume_write_unlinked e (finds fd buf inside) apart

theorem doRecvPacket_full (full : s.shared.buf.contents.length = pipeCapacity)
    (linked : Linked s.shared) (alive : (s.shared.ends .write).alive = true)
    (blocking : (s.shared.ends .write).nonblock = false) :
    doRecvPacket t fd buf s = (setPipe (addWaitQueue t writerMask s.shared) s).sleep t (.write fd buf) := by
  have none : ¬ 0 < (s.shared.buf.write buf).2 := by
    rw [write_pos_iff]
    omega
  have links : ¬ (¬ (s.shared.ends .read).peer = true ∨ ¬ (s.shared.ends .write).alive = true) := by
    rw [Linked] at linked
    simp [linked, alive]
  unfold doRecvPacket
  dsimp only
  rw [if_neg none, if_neg links, if_neg (by simp [blocking])]

/-- A write that fills the pipe. -/
def filling : FifoBuffer pipeCapacity Nat × Nat :=
  (FifoBuffer.new pipeCapacity Nat).write (List.replicate pipeCapacity 0)

theorem filling_length : filling.1.contents.length = pipeCapacity := by
  rw [filling, (FifoBuffer.write_spec _ _).1, Stream.push, FifoBuffer.contents, FifoBuffer.new,
    drop_nil, nil_append, length_nil, Nat.sub_zero, length_take,
    length_replicate, Nat.min_self]

theorem filling_pos : 0 < filling.2 := by
  rw [filling, (FifoBuffer.write_spec _ _).2, length_replicate]
  decide

/-- The first thread has filled the pipe. -/
def filled : W Bool Nat :=
  { newPipe.give false with
    place := Function.update newPipe.place false (.own (some (.count filling.2)))
    shared := { newPipe.shared with
      buf := filling.1, accepted := (List.replicate pipeCapacity 0).take filling.2 } }

theorem filled_reach : (machine Bool Nat).Reach filled := by
  have opened : (machine Bool Nat).Reach (newPipe.give false) :=
    .next (a := .dispatch false ()) (.start newPipe_start) trivial rfl
  let busy : W Bool Nat := setPipe { newPipe.shared with
    openFiles := [⟨3, .read, [], false⟩, ⟨4, .write, [false], false⟩] } (newPipe.give false)
  have wrote : enter false (.write 4 (replicate pipeCapacity 0)) (newPipe.give false) = filled :=
    (doRecvPacket_taken (s := busy) filling_pos).trans rfl
  exact .next (a := .call false (.write 4 (replicate pipeCapacity 0))) opened trivial (congrArg some wrote)

/-- It sleeps on its next write. -/
def writerAsleep : W Bool Nat :=
  (setPipe { filled.shared with
    openFiles := [⟨3, .read, [], false⟩, ⟨4, .write, [false], false⟩]
    waitQueue := [⟨false, writerMask⟩] } filled).sleep false (.write 4 [1])

theorem writerAsleep_reach : (machine Bool Nat).Reach writerAsleep := by
  let busy : W Bool Nat := setPipe { filled.shared with
    openFiles := [⟨3, .read, [], false⟩, ⟨4, .write, [false], false⟩] } filled
  have sleeps : enter false (.write 4 [1]) filled = writerAsleep :=
    (doRecvPacket_full (s := busy) filling_length rfl rfl rfl).trans rfl
  exact .next (a := .call false (.write 4 [1])) filled_reach trivial (congrArg some sleeps)

/-- The second thread closes the read end, and the writer goes on with what is left of it. -/
theorem not_releasesWriters : ¬ ReleasesWriters Bool Nat fun _ _ => True := by
  intro releases
  have closed : (machine Bool Nat).Reach (enter true (.close 3) (writerAsleep.give true)) :=
    .next (a := .call true (.close 3)) (.next (a := .dispatch true ()) writerAsleep_reach trivial rfl) trivial rfl
  let resumed :=
    (machine Bool Nat).replay (enter true (.close 3) (writerAsleep.give true)) [.yield true, .dispatch false ()]
  have faulty : resumed.map (fun s => s.shared.fault) = some true := rfl
  obtain ⟨s, run, fault⟩ := Option.map_eq_some_iff.mp faulty
  have safe := releases.safe s (closed.replay (fun _ _ => trivial) run)
  rw [safe] at fault
  cases fault

end Dce.Pipe
