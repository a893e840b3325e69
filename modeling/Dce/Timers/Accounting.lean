import Dce.Lib.Coroutine

/- The descriptor of a timer with the threads that use it, as `unix-timer-fd.cc` runs it. The times that the program
gives and gets are those of the simulator. -/

namespace Dce.Timers

open Coroutine

structure Itimerspec where
  it_interval : Nat
  it_value : Nat
  deriving DecidableEq, Repr

/-- `m_timer` is the time for which `TimerExpired` is scheduled. -/
structure UnixTimerFd (T : Type*) where
  m_period : Nat
  /-- `uint64_t` -/
  m_skipped : Nat
  m_timer : Option Nat
  m_waiter : Option T

inductive Op
  | read (count : Nat)
  | settime (new_value : Itimerspec) (old_value : Bool)
  | gettime
  | close
  deriving DecidableEq, Repr

/-- `EINVAL` is the only error; a read that succeeds leaves the counter in its buffer. -/
inductive Result
  | failed
  | counter (n : Nat)
  | settime (old_value : Option Itimerspec)
  | gettime (cur_value : Itimerspec)
  | closed
  deriving DecidableEq, Repr

/-- Where a thread can lose control: the `Wait` of a read. -/
inductive Frame
  | reading
  deriving DecidableEq, Repr

abbrev W (T : Type*) := World T Frame Result (UnixTimerFd T)

variable {T : Type*} [DecidableEq T]

def setFd (fd : UnixTimerFd T) (w : W T) : W T := { w with shared := fd }

/-- `m_waiter->process->manager->Wakeup (m_waiter)`, where there is one. -/
def wakeWaiter (w : W T) : W T :=
  match w.shared.m_waiter with
  | some t => w.wake t
  | none => w

def Close (t : T) (w : W T) : W T := (wakeWaiter (setFd { w.shared with m_timer := none } w)).ret t .closed

def Read (t : T) (count : Nat) (w : W T) : W T :=
  if count < 8 then w.ret t .failed
  else if 0 < w.shared.m_skipped then (setFd { w.shared with m_skipped := 0 } w).ret t (.counter w.shared.m_skipped)
  else (setFd { w.shared with m_waiter := some t } w).sleep t .reading

/-- `Read` after its `Wait`. -/
def readOn (t : T) (w : W T) : W T :=
  (setFd { w.shared with m_waiter := none, m_skipped := 0 } w).ret t (.counter w.shared.m_skipped)

def curValue (w : W T) : Itimerspec where
  it_interval := w.shared.m_period
  it_value :=
    match w.shared.m_timer with
    | some ts => ts - w.now
    | none => 0

def Gettime (t : T) (w : W T) : W T := w.ret t (.gettime (curValue w))

/-- `ExecOnMain` comes back at once: no event and no other task runs before. -/
def Settime (t : T) (new_value : Itimerspec) (old_value : Bool) (w : W T) : W T :=
  (setFd { w.shared with
      m_skipped := 0
      m_period := new_value.it_interval
      m_timer := if new_value.it_value = 0 then none else some (w.now + new_value.it_value) } w).ret t
    (.settime (if old_value then some (curValue w) else none))

def TimerExpired (w : W T) : W T :=
  wakeWaiter (setFd { w.shared with
      m_timer := if w.shared.m_period = 0 then none else some (w.now + w.shared.m_period)
      m_skipped := (w.shared.m_skipped + 1) % 2 ^ 64 } w)

def enter (t : T) (op : Op) (w : W T) : W T :=
  match op with
  | .read count => Read t count w
  | .settime new_value old_value => Settime t new_value old_value w
  | .gettime => Gettime t w
  | .close => Close t w

def resume (t : T) (frame : Frame) (_ : Unit) (w : W T) : W T :=
  match frame with
  | .reading => readOn t w

def program (T : Type*) [DecidableEq T] : Program T Frame Result (UnixTimerFd T) Op Unit where
  start fd := fd.m_period = 0 ∧ fd.m_skipped = 0 ∧ fd.m_timer = none ∧ fd.m_waiter = none
  enter := enter
  resume := resume

/-- What the threads do, and the event of the timer. -/
inductive Label (T : Type*)
  | thread (a : Act T Op Unit)
  | TimerExpired
  deriving DecidableEq, Repr

/-- No sleep here has a limit, and time does not pass the event of the timer. -/
def step (w : W T) : Label T → Option (W T)
  | .thread (.expire _) => none
  | .thread .tick => if w.shared.m_timer = some w.now then none else (program T).step w .tick
  | .thread a => (program T).step w a
  | .TimerExpired => if w.current = none ∧ w.shared.m_timer = some w.now then some (TimerExpired w) else none

def machine (T : Type*) [DecidableEq T] : Machine (W T) (Label T) where
  init := (program T).Start
  step := step

end Dce.Timers

/- What the reads of a timer's descriptor return, counted since its last `Settime`. -/

namespace Dce.Timers

open Coroutine

variable {T : Type*} [DecidableEq T] {w v : W T} {t u : T} {a : Label T}

/-- Of the time since the last `Settime`: how often the timer has expired, and the sum of what the reads have
returned. -/
structure Ledger where
  expirations : Nat
  sum : Nat

/-- The counter with which a thread has come back from a read. -/
def counterOf : Place Frame Result → Option Nat
  | .own (some (.counter n)) => some n
  | _ => none

/-- The counter of the read that returns in this step. -/
def returned (w : W T) : Label T → Option Nat
  | .thread (.call t op) => counterOf ((enter t op w).place t)
  | .thread (.dispatch t e) =>
    match w.place t with
    | .inside frame => counterOf ((resume t frame e (w.give t)).place t)
    | .own _ => none
  | _ => none

def note (w : W T) (a : Label T) (k : Ledger) : Ledger :=
  match a with
  | .thread (.call _ (.settime ..)) => ⟨0, 0⟩
  | .TimerExpired => { k with expirations := k.expirations + 1 }
  | a => { k with sum := k.sum + (returned w a).getD 0 }

/-- The machine with its ledger. -/
def accounted (T : Type*) [DecidableEq T] : Machine (W T × Ledger) (Label T) := (machine T).ledgered ⟨0, 0⟩ note

/-- A thread waits in a read, or was woken in it and has not come back. -/
def Reading (w : W T) : Prop := ∃ t, w.place t = .inside .reading

/-- What goes well: no read is called while another is under way, no `Settime` comes between the wake of a reader and
its return, a reader is woken by the timer alone, and the count of what is pending does not wrap. -/
def Careful (w : W T) : Label T → Prop
  | .thread (.call _ (.read count)) => 8 ≤ count → ¬ Reading w
  | .thread (.call _ (.settime ..)) => Reading w → w.shared.m_skipped = 0
  | .thread (.call _ .close) => Reading w → 0 < w.shared.m_skipped
  | .thread (.wake t) => w.place t ≠ .inside .reading
  | .TimerExpired => w.shared.m_skipped + 1 < 2 ^ 64
  | _ => True

/-- A reader is the one that is remembered, and has been woken if something is pending and only then. -/
def Waits (w : W T) : Prop :=
  ∀ t, w.place t = .inside .reading → w.shared.m_waiter = some t ∧ (w.status t = .blocked ↔ w.shared.m_skipped = 0)

/-- The reads and what is pending account for the expirations; a read that returns has something to count; and no
reader is blocked while something is pending. -/
structure Accounts (p : W T × Ledger) : Prop where
  total : p.2.sum + p.1.shared.m_skipped = p.2.expirations
  counts : ∀ a v n, (machine T).step p.1 a = some v → returned p.1 a = some n → 1 ≤ n
  woken : 0 < p.1.shared.m_skipped → ∀ t, p.1.place t = .inside .reading → p.1.status t ≠ .blocked

section

variable (fd : UnixTimerFd T)

omit [DecidableEq T] in
@[simp] theorem setFd_place (w : W T) : (setFd fd w).place = w.place := rfl
omit [DecidableEq T] in
@[simp] theorem setFd_status (w : W T) : (setFd fd w).status = w.status := rfl
omit [DecidableEq T] in
@[simp] theorem setFd_shared (w : W T) : (setFd fd w).shared = fd := rfl

end

@[simp] theorem wakeWaiter_place : (wakeWaiter w).place = w.place := by
  unfold wakeWaiter
  split
  · exact World.wake_place ..
  · rfl

@[simp] theorem wakeWaiter_shared : (wakeWaiter w).shared = w.shared := by
  unfold wakeWaiter
  split
  · exact World.wake_shared ..
  · rfl

theorem wakeWaiter_status : (wakeWaiter w).status u = .blocked ↔ w.shared.m_waiter ≠ some u ∧
    w.status u = .blocked := by
  unfold wakeWaiter
  split
  next t known =>
    rw [World.wake_status_blocked, known, ne_eq, ne_eq, Option.some.injEq, eq_comm]
  next none' => simp [none']

/-- A step of no operation: nothing returns, and the readers stay as they are but for a wake. -/
structure Apart (w : W T) (a : Label T) (v : W T) : Prop where
  shared : v.shared = w.shared
  place : v.place = w.place
  noted : ∀ k, note w a k = k
  returned : returned w a = none
  reader : ∀ t, w.place t = .inside .reading → a ≠ .thread (.wake t) →
    (v.status t = .blocked ↔ w.status t = .blocked)

/-- What a step is, of the operations and of all else. -/
inductive Kind (w : W T) : Label T → W T → Prop
  | call (t : T) (op : Op) : (∃ r, w.place t = .own r) → Kind w (.thread (.call t op)) (enter t op w)
  | back (t : T) (e : Unit) : w.place t = .inside .reading → w.status t = .active →
      Kind w (.thread (.dispatch t e)) (readOn t (w.give t))
  | expired : Kind w .TimerExpired (TimerExpired w)
  | apart {a : Label T} {v : W T} : Apart w a v → Kind w a v

theorem apart_of_idle {a : Act T Op Unit} (run : (program T).step w a = some v) (call : ∀ t op, a ≠ .call t op)
    (back : ∀ t e, a = .dispatch t e → w.place t ≠ .inside .reading) (unlimited : ∀ t, a ≠ .expire t) :
    Apart w (.thread a) v := by
  have silent : returned w (.thread a) = none := by
    cases a with
    | call t op => exact absurd rfl (call t op)
    | dispatch t e =>
      simp only [returned]
      cases place : w.place t with
      | own r => rfl
      | inside frame =>
        exact absurd place (back t e rfl)
    | _ => rfl
  have noted : ∀ k, note w (.thread a) k = k := fun k => by
    cases a with
    | call t op => exact absurd rfl (call t op)
    | _ =>
      unfold note
      simp only
      rw [silent]
      rfl
  rcases Program.step_kinds run with ⟨t, op, r, same, -⟩ | ⟨t, e, frame, same, -, -, inside, -⟩ | ⟨idle, asleep⟩
  · exact absurd same (call t op)
  · exact absurd inside (back t e same)
  · refine ⟨idle.shared, idle.place, noted, silent, fun t inside spared => ⟨fun blocked => ?_, fun blocked => ?_⟩⟩
    · rcases idle.asleep t blocked with before | ⟨r, own⟩
      · exact before
      · rw [inside] at own
        cases own
    · rcases asleep t .reading inside blocked with still | woken | expired
      · exact still
      · exact absurd (congrArg Label.thread woken) spared
      · exact absurd expired (unlimited t)

theorem step_kind (run : step w a = some v) : Kind w a v := by
  cases a with
  | TimerExpired =>
    simp only [step] at run
    split at run
    · cases run
      exact .expired
    · cases run
  | thread a =>
    cases a with
    | call t op =>
      obtain ⟨own, -, rfl⟩ := Program.step_call run
      exact .call t op own
    | dispatch t e =>
      by_cases inside : w.place t = .inside .reading
      · obtain rfl := Program.step_resume inside run
        refine .back t e inside ?_
        change (if _ then _ else _) = _ at run
        split at run
        next ready => exact ready.2
        next => cases run
      · exact .apart (apart_of_idle run nofun (fun u e' same => by cases same; exact inside) nofun)
    | expire t => cases run
    | tick =>
      simp only [step] at run
      split at run
      · cases run
      · exact .apart (apart_of_idle run nofun nofun nofun)
    | yield t | park t | exit t | wake t => exact .apart (apart_of_idle run nofun nofun nofun)

@[simp] theorem Read_short {count : Nat} (short : count < 8) : Read t count w = w.ret t .failed := if_pos short

theorem Read_pending {count : Nat} (enough : ¬ count < 8) (pending : 0 < w.shared.m_skipped) :
    Read t count w = (setFd { w.shared with m_skipped := 0 } w).ret t (.counter w.shared.m_skipped) :=
  (if_neg enough).trans (if_pos pending)

theorem Read_waits {count : Nat} (enough : ¬ count < 8) (nothing : ¬ 0 < w.shared.m_skipped) :
    Read t count w = (setFd { w.shared with m_waiter := some t } w).sleep t .reading :=
  (if_neg enough).trans (if_neg nothing)

theorem total_step {k : Ledger} (total : k.sum + w.shared.m_skipped = k.expirations)
    (unwrapped : a = .TimerExpired → w.shared.m_skipped + 1 < 2 ^ 64) (run : step w a = some v) :
    (note w a k).sum + v.shared.m_skipped = (note w a k).expirations := by
  cases step_kind run with
  | call t op =>
    cases op with
    | read count =>
      by_cases short : count < 8
      · simpa [note, returned, enter, Read_short short, counterOf] using total
      · by_cases pending : 0 < w.shared.m_skipped
        · simpa [note, returned, enter, Read_pending short pending, counterOf] using total
        · simpa [note, returned, enter, Read_waits short pending, counterOf] using total
    | settime new_value old_value => rfl
    | gettime => simpa [note, returned, enter, Gettime, counterOf] using total
    | close => simpa [note, returned, enter, Close, counterOf] using total
  | back t e inside => simpa [note, returned, inside, resume, readOn, counterOf] using total
  | expired =>
    have bound := unwrapped rfl
    have wrapped : (w.shared.m_skipped + 1) % 2 ^ 64 = w.shared.m_skipped + 1 := Nat.mod_eq_of_lt bound
    simp only [note, TimerExpired, wakeWaiter_shared, setFd_shared]
    omega
  | apart apart =>
    rw [apart.noted, apart.shared]
    exact total

theorem Waits.ret {r : Result} (waits : ∀ u, u ≠ t → w.place u = .inside .reading →
      w.shared.m_waiter = some u ∧ (w.status u = .blocked ↔ w.shared.m_skipped = 0)) : Waits (w.ret t r) := by
  intro u reading
  by_cases same : u = t
  · simp [same] at reading
  · exact waits u same (by simpa [same] using reading)

theorem Waits.enter {op : Op} (waits : Waits w) (careful : Careful w (.thread (.call t op)))
    (own : ∃ r, w.place t = .own r) :
    Waits (enter t op w) := by
  cases op with
  | read count =>
    by_cases short : count < 8
    · simp only [Timers.enter, Read_short short]
      exact Waits.ret fun u _ => waits u
    · have nobody : ¬ Reading w := careful (by omega)
      by_cases pending : 0 < w.shared.m_skipped
      · simp only [Timers.enter, Read_pending short pending]
        exact Waits.ret fun u _ reading => absurd ⟨u, reading⟩ nobody
      · simp only [Timers.enter, Read_waits short pending]
        intro u reading
        by_cases same : u = t
        · subst same
          simp only [World.sleep_shared, setFd_shared, World.sleep_status, Function.update_self, true_iff, true_and]
          omega
        · exact absurd ⟨u, by simpa [same] using reading⟩ nobody
  | settime new_value old_value =>
    refine Waits.ret fun u _ reading => ?_
    have nothing : w.shared.m_skipped = 0 := careful ⟨u, reading⟩
    obtain ⟨known, asleep⟩ := waits u reading
    exact ⟨known, asleep.trans (by simp [nothing])⟩
  | gettime => exact Waits.ret fun u _ => waits u
  | close =>
    refine Waits.ret fun u _ reading => ?_
    have inside : w.place u = .inside .reading := by simpa using reading
    have pending : 0 < w.shared.m_skipped := careful ⟨u, inside⟩
    obtain ⟨known, asleep⟩ := waits u inside
    refine ⟨by simpa using known, ?_⟩
    simp [wakeWaiter_status, known]
    omega

theorem Waits.step (waits : Waits w) (careful : Careful w a) (run : Timers.step w a = some v) : Waits v := by
  cases step_kind run with
  | call t op own => exact waits.enter careful own
  | back t e inside =>
    intro u reading
    by_cases same : u = t
    · simp [readOn, same] at reading
    · have there : w.place u = .inside .reading := by simpa [readOn, same] using reading
      have known := (waits u there).1.symm.trans (waits t inside).1
      exact absurd (Option.some.inj known) same
  | expired =>
    intro u reading
    have inside : w.place u = .inside .reading := by simpa [TimerExpired] using reading
    obtain ⟨known, -⟩ := waits u inside
    have bound : w.shared.m_skipped + 1 < 2 ^ 64 := careful
    refine ⟨by simpa [TimerExpired] using known, ?_⟩
    have awake : ¬ (TimerExpired w).status u = .blocked := by
      rw [TimerExpired, wakeWaiter_status]
      exact fun both => both.1 known
    have pending : (TimerExpired w).shared.m_skipped ≠ 0 := by
      rw [TimerExpired, wakeWaiter_shared]
      simp only [setFd_shared]
      omega
    exact iff_of_false awake pending
  | apart apart =>
    intro u reading
    rw [apart.place] at reading
    rw [apart.shared, apart.reader u reading fun woken => ?_]
    · exact waits u reading
    · rw [woken] at careful
      exact careful reading

theorem counts_of_waits {n : Nat} (waits : Waits w) (run : step w a = some v)
    (back : returned w a = some n) : 1 ≤ n := by
  cases step_kind run with
  | call t op =>
    cases op with
    | read count =>
      by_cases short : count < 8
      · simp [returned, enter, Read_short short, counterOf] at back
      · by_cases pending : 0 < w.shared.m_skipped
        · have counter : w.shared.m_skipped = n := by simpa [returned, enter, Read_pending short pending,
            counterOf] using back
          omega
        · simp [returned, enter, Read_waits short pending, counterOf] at back
    | settime | gettime => simp [returned, enter, Settime, Gettime, counterOf] at back
    | close => simp [returned, enter, Close, counterOf] at back
  | back t e inside active =>
    have counter : w.shared.m_skipped = n := by simpa [returned, inside, resume, readOn, counterOf] using back
    have awake : w.status t ≠ .blocked := by simp [active]
    have pending : w.shared.m_skipped ≠ 0 := fun nothing => awake ((waits t inside).2.mpr nothing)
    omega
  | expired => simp [returned] at back
  | apart apart =>
    rw [apart.returned] at back
    cases back

/-- In the careful runs the reads of a timer's descriptor account for its expirations. -/
theorem accounts_of_careful (p : W T × Ledger) (reach : (accounted T).ReachBy (fun p a => Careful p.1 a) p) :
    Accounts p := by
  have both : p.2.sum + p.1.shared.m_skipped = p.2.expirations ∧ Waits p.1 := by
    refine reach.invariant (I := fun p => p.2.sum + p.1.shared.m_skipped = p.2.expirations ∧
      Waits p.1) (fun p first => ?_)
      fun p a q ⟨total, waits⟩ careful run => ?_
    · obtain ⟨start, none'⟩ := first
      rw [none']
      refine ⟨by simp [start.shared.2.1], fun t inside => ?_⟩
      rw [start.own t] at inside
      cases inside
    · obtain ⟨step, noted⟩ := Machine.ledgered_step run
      rw [noted]
      refine ⟨total_step total (fun same => ?_) step, waits.step careful step⟩
      rw [same] at careful
      exact careful
  obtain ⟨total, waits⟩ := both
  refine ⟨total, fun a v n run back => counts_of_waits waits run back, fun pending t inside asleep => ?_⟩
  have nothing := (waits t inside).2.mp asleep
  omega

/-- Two threads and a timer that is not set. -/
def start : W Bool × Ledger :=
  (⟨none, fun _ => .active, fun _ => .own none, 0, fun _ => none, ⟨0, 0, none, none⟩⟩, ⟨0, 0⟩)

theorem start_init : (accounted Bool).init start :=
  ⟨⟨rfl, fun _ => .inl rfl, fun _ => rfl, rfl, rfl, rfl, rfl⟩, rfl⟩

/-- The timer is set to expire at each tick, and a thread waits for it. -/
def setAndRead : List (Label Bool) :=
  [.thread (.dispatch false ()), .thread (.call false (.settime ⟨1, 1⟩ false)), .thread (.call false (.read 8))]

def woken : W Bool × Ledger :=
  ((accounted Bool).replay start (setAndRead ++ [.thread .tick, .TimerExpired])).getD start

theorem accounts_woken : Accounts woken := by
  refine accounts_of_careful woken (Machine.ReachBy.start start_init |>.next
    (a := .thread (.dispatch false ())) trivial rfl
    |>.next (a := .thread (.call false (.settime ⟨1, 1⟩ false))) ?_ rfl
    |>.next (a := .thread (.call false (.read 8))) ?_ rfl
    |>.next (a := .thread .tick) trivial rfl |>.next (a := .TimerExpired) (by unfold Careful; decide) rfl)
  · rintro ⟨u, inside⟩
    cases inside
  · rintro - ⟨u, inside⟩
    cases u <;> cases inside

/-- The second reader is remembered in place of the first, and is woken alone. -/
def stranded : W Bool × Ledger :=
  ((accounted Bool).replay start (setAndRead ++ [.thread (.dispatch true ()), .thread (.call true (.read 8)),
    .thread .tick,
    .TimerExpired, .thread (.dispatch true ()), .thread (.yield true), .thread .tick, .TimerExpired])).getD start

/-- Another read takes the count for which the first reader was woken. -/
def robbed : W Bool × Ledger :=
  ((accounted Bool).replay start (setAndRead ++ [.thread .tick, .TimerExpired, .thread (.dispatch true ()),
    .thread (.call true (.read 8)), .thread (.yield true)])).getD start

theorem not_accounts :
    ((accounted Bool).Reach stranded ∧ 0 < stranded.1.shared.m_skipped ∧ stranded.1.place false = .inside .reading ∧
      stranded.1.status false = .blocked) ∧
    (accounted Bool).Reach robbed ∧ returned robbed.1 (.thread (.dispatch false ())) = some 0 ∧
      ∃ v, step robbed.1 (.thread (.dispatch false ())) = some v := by
  have first : (accounted Bool).replay start (setAndRead ++
    [.thread (.dispatch true ()), .thread (.call true (.read 8)),
      .thread .tick, .TimerExpired, .thread (.dispatch true ()), .thread (.yield true), .thread .tick,
      .TimerExpired]) =
      some stranded := rfl
  have second : (accounted Bool).replay start (setAndRead ++
    [.thread .tick, .TimerExpired, .thread (.dispatch true ()),
      .thread (.call true (.read 8)), .thread (.yield true)]) = some robbed := rfl
  exact ⟨⟨(Machine.ReachBy.start start_init).replay (fun _ _ => trivial) first, by decide, rfl, rfl⟩,
    (Machine.ReachBy.start start_init).replay (fun _ _ => trivial) second, rfl, _, rfl⟩

end Dce.Timers
