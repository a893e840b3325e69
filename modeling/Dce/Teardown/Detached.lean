import Dce.Lib.Nested
import Dce.Teardown.Model

/- The calls on the stacks of the threads and the pointers that refer to them, over whole runs. -/

namespace Dce.Teardown

open Function Option

/-- The process of the thread was deleted, or its program was replaced. -/
def Gone (t : Nat) (s : State) : Prop := ∃ r, s.threads t = some r ∧ r.torn = true

/-- No file that some process has refers to a thread that is gone. -/
structure Detached (s : State) : Prop where
  entry : ∀ f, s.Open f → ∀ e ∈ queue f s, ∀ t, s.m_waitTask e.point = some t → ¬ Gone t s
  waiter : ∀ f, s.Open f → ∀ t, (s.files f).m_waiter = some t → ¬ Gone t s

/-- The threads that the file wakes up, by its queue or as a timer. -/
def woken (f : Nat) (s : State) : List Nat :=
  (queue f s).filterMap (fun e => s.m_waitTask e.point) ++ (s.files f).m_waiter.toList

def Frame.asWait : Frame → Option (Nat × Nat)
  | .entry f wq => some (f, wq)
  | _ => none

def Frame.asPoll : Frame → Option Nat
  | .table id => some id
  | _ => none

/-- The wait point of the call. -/
def Frame.point : Frame → Option Nat
  | .entry _ wq => some wq
  | .table id => some id
  | _ => none

/-- Of each thread, the wait at a file and the poll that it began last, or took up again. -/
abbrev Begun := Nat → Option Nat × Option Nat

def noted (s : State) (a : Label) (b : Begun) : Begun :=
  match a with
  | .io t _ => update b t (some s.fresh, (b t).2)
  | .poll t _ => update b t ((b t).1, some s.fresh)
  | .again t =>
    match waiting t s with
    | some (_, .entry _ wq) => update b t (some wq, (b t).2)
    | some (_, .table table) => update b t ((b t).1, some table)
    | _ => b
  | _ => b

/-- The threads of the process that wait at a file that survives are in its list, each of them began no other such
wait since, and none of them reads a timer. -/
structure Careful (survives : Nat → Prop) (p : Nat) (s : State) (b : Begun) : Prop where
  wait : ∀ t r, s.threads t = some r → r.process = p → r.torn = false → ∀ f wq, .entry f wq ∈ r.frames →
    s.m_waitTask wq = some t → survives f → t ∈ (s.processes p).getD [] ∧ (b t).1 = some wq
  poll : ∀ t r, s.threads t = some r → r.process = p → r.torn = false → ∀ table, .table table ∈ r.frames →
    s.m_waitTask table = some t → (∃ x ∈ s.entries table, survives x.1) →
    t ∈ (s.processes p).getD [] ∧ (b t).2 = some table
  timer : ∀ t r, s.threads t = some r → r.process = p → r.torn = false → ∀ f, .timer f ∈ r.frames →
    (s.files f).m_waiter = some t → ¬ survives f

/-- Another process has a descriptor of the file. -/
def Shared (p f : Nat) (s : State) : Prop := ∃ q, q ≠ p ∧ (q, f) ∈ s.openFiles

/-- What is asked of a step: that the deletion of a process finds all its threads with a single wait. -/
def CarefulStep (s : State) (b : Begun) : Label → Prop
  | .threadExit t _ => ∀ r, running t s = some r → s.processes r.process = some [t] →
    Careful (fun f => Shared r.process f s) r.process s b
  | .exit t => ∀ r, running t s = some r → Careful (fun f => Shared r.process f s) r.process s b
  | .stop p => Careful (fun f => Shared p f s) p s b
  | .execve t => ∀ r, running t s = some r → Careful (fun f => s.Open f) r.process s b
  | _ => True

/-- The machine with the begun waits beside it. -/
abbrev noting : Machine (State × Begun) Label := machine.ledgered (fun _ => (none, none)) noted

variable {s s' : State} {b b' : Begun} {f g t p point wq table : Nat} {r q : Thread}

/-- The stack of a thread. -/
structure Stacked (s : State) (last : Option Nat × Option Nat) (r : Thread) : Prop where
  below : ∀ frame ∈ r.frames, ∀ point, frame.point = some point → point < s.fresh
  entries : ∀ f wq, .entry f wq ∈ r.frames → s.entries wq = [(f, wq)]
  ioWait : Nested.Recorded Prod.snd last.1 r.ioWait (r.frames.filterMap Frame.asWait)
  pollTable : Nested.Recorded id last.2 r.pollTable (r.frames.filterMap Frame.asPoll)

structure Sound (s : State) (b : Begun) : Prop where
  small : ∀ t r, s.threads t = some r → t < s.fresh
  begun : ∀ t, s.threads t = none → b t = (none, none)
  listed : ∀ p l, s.processes p = some l → ∀ t ∈ l, ∃ r, s.threads t = some r ∧ r.process = p
  stacked : ∀ t r, s.threads t = some r → r.torn = false → Stacked s (b t) r
  used : ∀ point t, s.m_waitTask point = some t → point < s.fresh
  linked : ∀ f e, e ∈ queue f s → e.point < s.fresh ∧ (f, e.id) ∈ s.entries e.point
  held : ∀ point t, s.m_waitTask point = some t →
    ∃ r, s.threads t = some r ∧ (r.torn = false → ∃ frame ∈ r.frames, frame.point = some point)
  timers : ∀ f t, (s.files f).m_waiter = some t → ∃ r, s.threads t = some r ∧ (r.torn = false → .timer f ∈ r.frames)
  detached : Detached s

theorem mem_asWait : (f, wq) ∈ r.frames.filterMap Frame.asWait ↔ .entry f wq ∈ r.frames := by
  rw [List.mem_filterMap]
  constructor
  · rintro ⟨frame, inside, is⟩
    cases frame <;> simp only [Frame.asWait, reduceCtorEq] at is
    obtain ⟨rfl, rfl⟩ := is
    exact inside
  · exact fun inside => ⟨_, inside, rfl⟩

theorem mem_asPoll : table ∈ r.frames.filterMap Frame.asPoll ↔ .table table ∈ r.frames := by
  rw [List.mem_filterMap]
  constructor
  · rintro ⟨frame, inside, is⟩
    cases frame <;> simp only [Frame.asPoll, some.injEq, reduceCtorEq] at is
    obtain rfl := is
    exact inside
  · exact fun inside => ⟨_, inside, rfl⟩

theorem Stacked.mono {last : Option Nat × Option Nat} (here : Stacked s last r) (later : s.fresh ≤ s'.fresh)
    (same : ∀ point, point < s.fresh → s'.entries point = s.entries point) : Stacked s' last r where
  below frame inside point is := (here.below frame inside point is).trans_le later
  entries f wq inside := (same wq (here.below _ inside wq rfl)).trans (here.entries f wq inside)
  ioWait := here.ioWait
  pollTable := here.pollTable

theorem Stacked.copy {last : Option Nat × Option Nat} (here : Stacked s last r) :
    Stacked s (none, none) (newThread p r.frames) where
  below := here.below
  entries := here.entries
  ioWait := .first here.ioWait.nodup
  pollTable := .first here.pollTable.nodup

section

theorem gone_setThread (found : s.threads t = some r) (torn : q.torn = r.torn) : Gone g (s.setThread t q) ↔
    Gone g s := by
  by_cases same : g = t
  · subst same
    have there : (s.setThread g q).threads g = some q := update_self ..
    simp [Gone, there, found, torn]
  · have there : (s.setThread t q).threads g = s.threads g := update_of_ne same _ _
    simp [Gone, there]

variable (sound : Sound s b)
include sound

theorem Sound.setThread (found : s.threads t = some r) (process : q.process = r.process)
    (torn : q.torn = r.torn) (others : ∀ j, j ≠ t → b' j = b j) (stack : r.torn = false → Stacked s (b' t) q)
    (points : r.torn = false → ∀ point, s.m_waitTask point = some t → ∃ frame ∈ q.frames, frame.point = some point)
    (timers : r.torn = false → ∀ f, (s.files f).m_waiter = some t → .timer f ∈ q.frames) :
    Sound (s.setThread t q) b' := by
  have here : (s.setThread t q).threads t = some q := update_self ..
  have other : ∀ j, j ≠ t → (s.setThread t q).threads j = s.threads j := fun j ne => update_of_ne ne _ _
  refine ⟨fun j x has => ?_, fun j has => ?_, fun p l has j inside => ?_, fun j x has alive => ?_,
    sound.used, sound.linked,
    fun point j waits => ?_, fun f j waits => ?_, ⟨fun f hopen e inside j waits gone => ?_,
      fun f hopen j waits gone => ?_⟩⟩
  · by_cases same : j = t
    · exact same ▸ sound.small t r found
    · exact sound.small j x ((other j same).symm.trans has)
  · by_cases same : j = t
    · rw [same, here] at has
      cases has
    · exact (others j same).trans (sound.begun j ((other j same).symm.trans has))
  · obtain ⟨x, there, is⟩ := sound.listed p l has j inside
    by_cases same : j = t
    · subst same
      cases found.symm.trans there
      exact ⟨q, here, process.trans is⟩
    · exact ⟨x, (other j same).trans there, is⟩
  · by_cases same : j = t
    · subst same
      cases here.symm.trans has
      exact (stack (torn ▸ alive)).mono le_rfl fun _ _ => rfl
    · rw [others j same]
      exact (sound.stacked j x ((other j same).symm.trans has) alive).mono le_rfl fun _ _ => rfl
  · obtain ⟨x, there, frames⟩ := sound.held point j waits
    by_cases same : j = t
    · subst same
      exact ⟨q, here, fun alive => points (torn ▸ alive) point waits⟩
    · exact ⟨x, (other j same).trans there, frames⟩
  · obtain ⟨x, there, frames⟩ := sound.timers f j waits
    by_cases same : j = t
    · subst same
      exact ⟨q, here, fun alive => timers (torn ▸ alive) f waits⟩
    · exact ⟨x, (other j same).trans there, frames⟩
  · exact sound.detached.entry f hopen e inside j waits ((gone_setThread found torn).mp gone)
  · exact sound.detached.waiter f hopen j waits ((gone_setThread found torn).mp gone)

theorem Sound.clearWaitTask (point : Nat) : Sound (s.setWaitTask point none) b := by
  have before : ∀ other j, (s.setWaitTask point none).m_waitTask other = some j → s.m_waitTask other = some j := by
    intro other j waits
    by_cases same : other = point
    · subst same
      exact absurd ((update_self ..).symm.trans waits) (some_ne_none j).symm
    · exact (update_of_ne same _ _).symm.trans waits
  exact ⟨sound.small, sound.begun, sound.listed, fun j x has alive =>
    (sound.stacked j x has alive).mono le_rfl fun _ _ => rfl,
    fun other j waits => sound.used other j (before other j waits), sound.linked,
    fun other j waits => sound.held other j (before other j waits), sound.timers,
    ⟨fun f hopen e inside j waits => sound.detached.entry f hopen e inside j (before _ j waits),
      sound.detached.waiter⟩⟩

theorem Sound.setWaitTask {frame : Frame} (found : s.threads t = some r) (alive : r.torn = false)
    (inside : frame ∈ r.frames) (is : frame.point = some point) : Sound (s.setWaitTask point (some t)) b := by
  have before : ∀ other j, (s.setWaitTask point (some t)).m_waitTask other = some j →
      s.m_waitTask other = some j ∨ other = point ∧ j = t := by
    intro other j waits
    by_cases same : other = point
    · subst same
      have there : (s.setWaitTask other (some t)).m_waitTask other = some t := update_self ..
      exact .inr ⟨rfl, (some.inj (there.symm.trans waits)).symm⟩
    · exact .inl ((update_of_ne same _ _).symm.trans waits)
  have standing : ¬ Gone t s := by
    rintro ⟨x, there, torn⟩
    cases found.symm.trans there
    exact absurd (torn.symm.trans alive) (Bool.noConfusion)
  refine ⟨sound.small, sound.begun, sound.listed, fun j x has alive =>
    (sound.stacked j x has alive).mono le_rfl fun _ _ => rfl,
    fun other j waits => ?_, sound.linked, fun other j waits => ?_, sound.timers,
    ⟨fun f hopen e queued j waits => ?_, sound.detached.waiter⟩⟩
  · rcases before other j waits with old | ⟨rfl, rfl⟩
    · exact sound.used other j old
    · exact (sound.stacked j r found alive).below frame inside other is
  · rcases before other j waits with old | ⟨rfl, rfl⟩
    · exact sound.held other j old
    · exact ⟨r, found, fun _ => ⟨frame, inside, is⟩⟩
  · rcases before e.point j waits with old | ⟨-, rfl⟩
    · exact sound.detached.entry f hopen e queued j old
    · exact standing

theorem Sound.shrink (less : Shrinks s s') : Sound s' b := by
  have gone : ∀ j, Gone j s' ↔ Gone j s := fun j => by simp only [Gone, less.threads]
  have opened : ∀ f, s'.Open f ↔ s.Open f := fun f => by simp only [State.Open, less.openFiles]
  refine ⟨fun j x has => ?_, fun j has => ?_, fun p l has j inside => ?_, fun j x has alive => ?_,
    fun point j waits => ?_,
    fun f e inside => ?_, fun point j waits => ?_, fun f j waits => ?_,
    ⟨fun f hopen e inside j waits => ?_, fun f hopen j waits => ?_⟩⟩
  · exact less.fresh ▸ sound.small j x (less.threads ▸ has)
  · exact sound.begun j (less.threads ▸ has)
  · rw [less.threads]
    exact sound.listed p l (less.processes ▸ has) j inside
  · exact (sound.stacked j x (less.threads ▸ has) alive).mono less.fresh.ge fun point _ =>
      congrFun less.entries point
  · exact less.fresh ▸ sound.used point j (less.m_waitTask ▸ waits)
  · rw [less.fresh, less.entries]
    exact sound.linked f e (less.queue f e inside)
  · rw [less.threads]
    exact sound.held point j (less.m_waitTask ▸ waits)
  · rw [less.threads]
    exact sound.timers f j ((less.m_waiter f).symm.trans waits)
  · rw [gone]
    exact sound.detached.entry f ((opened f).mp hopen) e (less.queue f e inside) j (less.m_waitTask ▸ waits)
  · rw [gone]
    exact sound.detached.waiter f ((opened f).mp hopen) j ((less.m_waiter f).symm.trans waits)

theorem Sound.idle : s.m_waitTask s.fresh = none := by
  cases there : s.m_waitTask s.fresh with
  | none => rfl
  | some j => exact absurd (sound.used s.fresh j there) (lt_irrefl _)

theorem Sound.allocate (l : List (Nat × Nat)) : Sound { s.setEntries s.fresh l with fresh := s.fresh + 1 } b := by
  have old : ∀ point, point < s.fresh → (s.setEntries s.fresh l).entries point = s.entries point :=
    fun point below => update_of_ne below.ne _ _
  exact ⟨fun j x has => (sound.small j x has).trans (Nat.lt_succ_self _), sound.begun, sound.listed,
    fun j x has alive => (sound.stacked j x has alive).mono (Nat.le_succ _) old,
    fun point j waits => (sound.used point j waits).trans (Nat.lt_succ_self _),
    fun f e inside => ⟨(sound.linked f e inside).1.trans (Nat.lt_succ_self _),
      old _ (sound.linked f e inside).1 ▸ (sound.linked f e inside).2⟩,
    sound.held, sound.timers, ⟨sound.detached.entry, sound.detached.waiter⟩⟩

theorem Sound.add {e : QueueEntry} (below : e.point < s.fresh) (linked : (f, e.id) ∈ s.entries e.point)
    (standing : ∀ j, s.m_waitTask e.point = some j → ¬ Gone j s) : Sound (AddWaitQueue f e s) b := by
  have waiter : ∀ g, ((AddWaitQueue f e s).files g).m_waiter = (s.files g).m_waiter := fun g => by
    by_cases same : g = f
    · subst same
      simp [AddWaitQueue, State.setFile]
    · simp [AddWaitQueue, State.setFile, same]
  refine ⟨sound.small, sound.begun, sound.listed, fun j x has alive =>
    (sound.stacked j x has alive).mono le_rfl fun _ _ => rfl,
    sound.used, fun g x inside => ?_, sound.held, fun g j waits => sound.timers g j ((waiter g).symm.trans waits),
    ⟨fun g hopen x inside j waits => ?_, fun g hopen j waits =>
      sound.detached.waiter g hopen j ((waiter g).symm.trans waits)⟩⟩
  · rcases mem_queue_add.mp inside with before | ⟨rfl, rfl⟩
    · exact sound.linked g x before
    · exact ⟨below, linked⟩
  · rcases mem_queue_add.mp inside with before | ⟨rfl, rfl⟩
    · exact sound.detached.entry g hopen x before j waits
    · exact standing j waits

theorem Sound.registers (more : Registers table s s') (below : table < s.fresh) (idle : s.m_waitTask table = none)
    (unused : ∀ j x, s.threads j = some x → x.torn = false → ∀ frame ∈ x.frames, frame.point ≠ some table) :
    Sound s' b := by
  have gone : ∀ j, Gone j s' ↔ Gone j s := fun j => by simp only [Gone, more.threads]
  have opened : ∀ f, s'.Open f ↔ s.Open f := fun f => by simp only [State.Open, more.openFiles]
  refine ⟨fun j x has => ?_, fun j has => ?_, fun p l has j inside => ?_, fun j x has alive => ?_,
    fun point j waits => ?_,
    fun f e inside => ?_, fun point j waits => ?_, fun f j waits => ?_,
    ⟨fun f hopen e inside j waits => ?_, fun f hopen j waits => ?_⟩⟩
  · exact (sound.small j x (more.threads ▸ has)).trans_le more.fresh
  · exact sound.begun j (more.threads ▸ has)
  · rw [more.threads]
    exact sound.listed p l (more.processes ▸ has) j inside
  · rw [more.threads] at has
    have before := sound.stacked j x has alive
    refine ⟨fun frame inside point is => (before.below frame inside point is).trans_le more.fresh,
      fun f wq inside => ?_,
      before.ioWait, before.pollTable⟩
    have other : wq ≠ table := fun same => unused j x has alive _ inside (congrArg some same)
    exact (more.entries wq other).trans (before.entries f wq inside)
  · exact (sound.used point j (more.m_waitTask ▸ waits)).trans_le more.fresh
  · rcases more.queue f e inside with before | ⟨is, mem⟩
    · obtain ⟨low, mem⟩ := sound.linked f e before
      refine ⟨low.trans_le more.fresh, ?_⟩
      by_cases same : e.point = table
      · rw [same] at mem ⊢
        exact more.grows _ mem
      · rw [more.entries _ same]
        exact mem
    · exact is ▸ ⟨below.trans_le more.fresh, mem⟩
  · rw [more.threads]
    exact sound.held point j (more.m_waitTask ▸ waits)
  · rw [more.threads]
    exact sound.timers f j ((more.m_waiter f).symm.trans waits)
  · rw [gone]
    rw [more.m_waitTask] at waits
    rcases more.queue f e inside with before | ⟨is, -⟩
    · exact sound.detached.entry f ((opened f).mp hopen) e before j waits
    · rw [is, idle] at waits
      cases waits
  · rw [gone]
    exact sound.detached.waiter f ((opened f).mp hopen) j ((more.m_waiter f).symm.trans waits)

theorem Sound.clearWaiter (f : Nat) : Sound (s.setFile f { s.files f with m_waiter := none }) b := by
  have queued : ∀ g, queue g (s.setFile f { s.files f with m_waiter := none }) = queue g s := fun g => by
    by_cases same : g = f
    · subst same
      simp [queue, State.setFile]
    · simp [queue, State.setFile, same]
  have before : ∀ g j, ((s.setFile f { s.files f with m_waiter := none }).files g).m_waiter = some j →
      (s.files g).m_waiter = some j := by
    intro g j waits
    by_cases same : g = f
    · subst same
      simp [State.setFile] at waits
    · simpa [State.setFile, same] using waits
  exact ⟨sound.small, sound.begun, sound.listed, fun j x has alive =>
    (sound.stacked j x has alive).mono le_rfl fun _ _ => rfl,
    sound.used, fun g e inside => sound.linked g e (queued g ▸ inside), sound.held,
    fun g j waits => sound.timers g j (before g j waits),
    ⟨fun g hopen e inside => sound.detached.entry g hopen e (queued g ▸ inside),
      fun g hopen j waits => sound.detached.waiter g hopen j (before g j waits)⟩⟩

theorem Sound.setWaiter (found : s.threads t = some r) (alive : r.torn = false)
    (inside : .timer f ∈ r.frames) : Sound (s.setFile f { s.files f with m_waiter := some t }) b := by
  have queued : ∀ g, queue g (s.setFile f { s.files f with m_waiter := some t }) = queue g s := fun g => by
    by_cases same : g = f
    · subst same
      simp [queue, State.setFile]
    · simp [queue, State.setFile, same]
  have before : ∀ g j, ((s.setFile f { s.files f with m_waiter := some t }).files g).m_waiter = some j →
      (s.files g).m_waiter = some j ∨ g = f ∧ j = t := by
    intro g j waits
    by_cases same : g = f
    · subst same
      simp [State.setFile] at waits
      exact .inr ⟨rfl, waits.symm⟩
    · exact .inl (by simpa [State.setFile, same] using waits)
  refine ⟨sound.small, sound.begun, sound.listed, fun j x has alive =>
    (sound.stacked j x has alive).mono le_rfl fun _ _ => rfl,
    sound.used, fun g e inside => sound.linked g e (queued g ▸ inside), sound.held, fun g j waits => ?_,
    ⟨fun g hopen e inside => sound.detached.entry g hopen e (queued g ▸ inside), fun g hopen j waits => ?_⟩⟩
  · rcases before g j waits with old | ⟨rfl, rfl⟩
    · exact sound.timers g j old
    · exact ⟨r, found, fun _ => inside⟩
  · rcases before g j waits with old | ⟨-, rfl⟩
    · exact sound.detached.waiter g hopen j old
    · rintro ⟨x, there, torn⟩
      cases found.symm.trans there
      exact absurd (torn.symm.trans alive) (Bool.noConfusion)

end

end Dce.Teardown
