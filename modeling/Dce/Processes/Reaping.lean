import Dce.Processes.Family

/- Who knows of a process that has ended, and until when. -/

namespace Dce.Processes

open List Option

/-- The process that the label ends. -/
def Label.ended : Label → Option Nat
  | .exit pid _ _ => some pid
  | .stop pid => some pid
  | _ => none

/-- The exit value that the process has afterwards. -/
def Label.exitValue (p : Process) : Label → BitVec 32
  | .exit _ _ status => exitCode status p.exitValue
  | _ => p.exitValue

section

variable {β : Type} {s s' : DceManager β} {pid : Nat} {p : Process}

/-- Who waits and for what, in a call of `dce_waitpid` or where one goes on. -/
def asks (s : DceManager β) : Label → Option (Nat × Waiter)
  | .waitpid caller _ pid status _ => some (caller, ⟨pid, status, false⟩)
  | .resume caller tid _ => do
    let thread ← s.thread caller tid
    let waiter ← thread.childWaiter
    pure (caller, waiter)
  | _ => none

/-- The call names no process group, asks for nothing but ended children, and is not interrupted. -/
def Supported : Label → Prop
  | .waitpid _ _ pid _ options => options &&& WUNTRACED = 0 ∧ options &&& WCONTINUED = 0 ∧ (pid = -1 ∨ 0 < pid)
  | .resume _ _ interrupted => interrupted = false
  | _ => True

/-- What a call that is not supported fails with. -/
def Label.refusal : Label → WaitErrno
  | .resume _ _ _ => .EINTR
  | _ => .EINVAL

/-- The call waits for children that run. -/
def Label.hangs : Label → Bool
  | .waitpid _ _ _ _ options => options &&& WNOHANG = 0
  | _ => true

def Lives (s : DceManager β) (pid : Nat) : Prop := ∃ p, s.m_processes pid = some p ∧ p.loaded = true

/-- What a call gives for the children that there are. -/
structure Answers (s : DceManager β) (caller : Nat) (waiter : Waiter) (hang : Bool) (outcome : Outcome) : Prop where
  child : (∃ z status, outcome = .child z status) ↔ ∃ z c, Child s caller waiter.pid z c ∧ c.loaded = false
  waits : outcome = (if hang then .sleeps else .zero) ↔ Waits s caller waiter
  echild : outcome = .failed .ECHILD ↔ ¬ ∃ c q, Child s caller waiter.pid c q

/-- What should hold of one step. -/
structure Reaps (s : DceManager β) (label : Label) (s' : DceManager β) (outcome : Outcome) : Prop where
  /-- A zombie stays as it is until its parent is told of it or ends. -/
  zombies : ∀ z c, s.m_processes z = some c → c.loaded = false →
    (s'.m_processes z = some c ∧ ∀ status, outcome ≠ .child z status) ∨
    (s'.m_processes z = none ∧ ((∃ status, outcome = .child z status) ∨ label.ended = some c.ppid))
  told : ∀ z status, outcome = .child z status → ∃ c caller waiter, s.m_processes z = some c ∧ c.loaded = false ∧
    asks s label = some (caller, waiter) ∧ c.ppid = caller ∧ (waiter.pid = -1 ∨ waiter.pid = z) ∧
    status = (if waiter.status then some c.exitValue else none) ∧ s'.m_processes z = none
  ended : ∀ pid p, label.ended = some pid → s.m_processes pid = some p → p.loaded = true →
    (Lives s p.ppid → Lives s' p.ppid ∧
      ∃ c, s'.m_processes pid = some c ∧ c.loaded = false ∧ c.ppid = p.ppid ∧ c.exitValue = label.exitValue p) ∧
    (¬ Lives s p.ppid → s'.m_processes pid = none)
  /-- The caller is told of a child when one has ended, waits when there are only others, and fails when there is
  none. -/
  answer : ∀ caller waiter, asks s label = some (caller, waiter) → Supported label →
    Answers s caller waiter label.hangs outcome
  refused : ∀ caller waiter, asks s label = some (caller, waiter) → ¬ Supported label →
    outcome = .failed label.refusal

/-- What a turn of the loop of `dce_waitpid` comes to. -/
inductive Turn (s : DceManager β) (parent tid : Nat) (waiter : Waiter) (hang : Bool) (p : Process) :
    DceManager β → Outcome → Prop
  | reaps {s' : DceManager β} {z : Nat} {c : Process} (reaped : Reaped parent z p c s s')
      (wanted : waiter.pid = -1 ∨ waiter.pid = z) :
      Turn s parent tid waiter hang p s' (.child z (if waiter.status then some c.exitValue else none))
  | sleeps (waits : Waits s parent waiter) (hhang : hang = true) :
      Turn s parent tid waiter hang p
      (s.set parent (some (setWaiter tid (some ⟨waiter.pid, waiter.status, false⟩) p))) .sleeps
  | returns (waits : Waits s parent waiter) (hhang : hang = false) : Turn s parent tid waiter hang p s .zero
  | fails (alone : ¬ ∃ c q, Child s parent waiter.pid c q) : Turn s parent tid waiter hang p s (.failed .ECHILD)

variable {parent tid : Nat} {hang : Bool} {outcome : Outcome} {waiter : Waiter} {label : Label}

theorem waitTurn_turn (family : Family s) (hp : s.m_processes parent = some p) (tid : Nat)
    (waiter : Waiter) (hang : Bool) : ∃ s' outcome, waitTurn parent tid waiter.pid waiter.status hang s =
    some (s', outcome) ∧
        Turn s parent tid waiter hang p s' outcome := by
  have hchild : ∀ c q, Child s parent waiter.pid c q ↔ c ∈ p.children.sort ∧ Wanted s waiter.pid c q := by
    intro c q
    constructor
    · rintro ⟨hq, hppid, hmatch⟩
      obtain ⟨hpid, hlower⟩ := family.pids c q hq
      have hparent := (family.pids parent p hp).2
      obtain ⟨-, p', hp', -, hmem⟩ := family.parent c q hq (hppid.symm ▸ hparent)
      rw [hppid] at hp'
      obtain rfl := some.inj (hp'.symm.trans hp)
      exact ⟨(Finset.mem_sort _).mpr hmem, hlower, hq, hpid.symm ▸ hmatch⟩
    · rintro ⟨hmem, -, hq, hmatch⟩
      obtain ⟨q', hq', hppid⟩ := family.children parent p hp c ((Finset.mem_sort _).mp hmem)
      obtain rfl := some.inj (hq'.symm.trans hq)
      exact ⟨hq, hppid, (family.pids c q' hq).1 ▸ hmatch⟩
  rw [waitTurn, hp, bind_eq_bind, bind_some]
  cases hseek : seek s waiter.pid p.children.sort 0 with
  | inl c =>
    obtain ⟨z, hz, wanted, hloaded⟩ := seek_zombie hseek
    obtain ⟨hc, hppid, hmatch⟩ := (hchild z c).mpr ⟨hz, wanted⟩
    have hpid := (family.pids z c hc).1
    refine ⟨_, _, rfl, ?_⟩
    rw [hpid]
    exact .reaps ⟨hp, hc, hppid, hloaded, rfl⟩ hmatch
  | inr count =>
    obtain ⟨-, hall, hiff⟩ := seek_count hseek
    dsimp only
    split
    · refine ⟨_, _, rfl, .fails ?_⟩
      rintro ⟨c, q, hcq⟩
      obtain ⟨hmem, wanted⟩ := (hchild c q).mp hcq
      have hpos := hiff.mpr ⟨c, hmem, q, wanted⟩
      omega
    · have waits : Waits s parent waiter := by
        obtain ⟨c, hmem, q, wanted⟩ := hiff.mp (by omega)
        refine ⟨⟨c, q, (hchild c q).mpr ⟨hmem, wanted⟩⟩, fun d r hdr => ?_⟩
        obtain ⟨hmem', wanted'⟩ := (hchild d r).mp hdr
        exact hall d hmem' r wanted'
      split
      next hhang => exact ⟨_, _, rfl, .sleeps waits hhang⟩
      next hhang => exact ⟨_, _, rfl, .returns waits (by simpa using hhang)⟩

theorem Waits.loaded (waits : Waits s parent waiter) : ¬ ∃ z c, Child s parent waiter.pid z c ∧
    c.loaded = false := by
  rintro ⟨z, c, child, unloaded⟩
  rw [waits.2 z c child] at unloaded
  cases unloaded

theorem Turn.answers (turn : Turn s parent tid waiter hang p s' outcome) : Answers s parent waiter hang outcome := by
  cases turn with
  | @reaps s' z c reaped wanted =>
    have zombie : ∃ z c, Child s parent waiter.pid z c ∧ c.loaded = false :=
      ⟨z, c, ⟨reaped.zombie, reaped.parent, wanted⟩, reaped.unloaded⟩
    refine ⟨iff_of_true ⟨z, _, rfl⟩ zombie, iff_of_false ?_ fun waits => waits.loaded zombie,
      iff_of_false nofun fun alone => ?_⟩
    · cases hang <;> simp
    · exact alone ⟨z, c, reaped.zombie, reaped.parent, wanted⟩
  | sleeps waits hhang =>
    exact ⟨iff_of_false nofun waits.loaded, iff_of_true (by rw [if_pos hhang]) waits, iff_of_false nofun fun alone =>
      alone waits.1⟩
  | returns waits hhang =>
    refine ⟨iff_of_false nofun waits.loaded, iff_of_true ?_ waits, iff_of_false nofun fun alone => alone waits.1⟩
    rw [hhang, if_neg Bool.false_ne_true]
  | fails alone =>
    refine ⟨iff_of_false nofun fun ⟨z, c, child, _⟩ => alone ⟨z, c, child⟩, iff_of_false ?_ fun waits =>
      alone waits.1,
      iff_of_true rfl alone⟩
    cases hang <;> simp

theorem rethreads_set (hp : s.m_processes pid = some p) (hloaded : p.loaded = true) {threads : List Thread}
    (waits : ∀ thread ∈ threads, ∀ waiter ∈ thread.childWaiter, waiter.woken = false → Waits s pid waiter) :
    Rethreads pid p s (s.set pid (some { p with threads := threads })) :=
  ⟨hp, hloaded, threads, p.exitValue, rfl, waits⟩

theorem rethreads_setWaiter (family : Family s) (hp : s.m_processes pid = some p) (hloaded : p.loaded = true)
    (tid : Nat) (waiter : Option Waiter) (waits : ∀ w ∈ waiter, w.woken = false → Waits s pid w) :
    Rethreads pid p s (s.set pid (some (setWaiter tid waiter p))) := by
  refine rethreads_set hp hloaded fun thread hthread w hw hwoken => ?_
  obtain ⟨old, hold, rfl⟩ := mem_map.mp hthread
  split at hw
  · exact waits w hw hwoken
  · exact family.asleep pid p hp old hold w hw hwoken

theorem Turn.family (family : Family s) (hp : s.m_processes parent = some p) (hloaded : p.loaded = true)
    (turn : Turn s parent tid waiter hang p s' outcome) : Family s' := by
  cases turn with
  | reaps reaped => exact reaped.family family
  | sleeps waits =>
    refine (rethreads_setWaiter family hp hloaded _ _ fun w hw _ => ?_).family family
    cases hw
    exact waits
  | returns => exact family
  | fails => exact family

/-- A zombie stays as it is. -/
def Keeps (s s' : DceManager β) : Prop :=
  ∀ z c, s.m_processes z = some c → c.loaded = false → s'.m_processes z = some c

theorem Rethreads.keeps (rethreads : Rethreads pid p s s') : Keeps s s' := by
  intro z c hz hunloaded
  obtain ⟨threads, value, hprocesses, -⟩ := rethreads.change
  have hne : z ≠ pid := by
    rintro rfl
    cases rethreads.present.symm.trans hz
    rw [rethreads.loaded] at hunloaded
    cases hunloaded
  rw [hprocesses, Function.update_of_ne hne]
  exact hz

theorem Born.keeps {child : Nat} {c : Process} (born : Born child c s s') (family : Family s) : Keeps s s' := by
  intro z q hz hunloaded
  obtain ⟨q', hq', -, -, -, -, -, -, hsame⟩ := born.forth hz
  rw [hq']
  refine congrArg some (hsame ?_)
  rintro rfl
  rcases born.change with ⟨hzero, -⟩ | ⟨o, -, ho, hloaded, -⟩
  · have hlower := (family.pids _ q hz).2
    omega
  · cases ho.symm.trans hz
    rw [hloaded] at hunloaded
    cases hunloaded

theorem Keeps.reaps (keeps : Keeps s s') (quiet : ∀ z status, outcome ≠ .child z status)
    (idle : ∀ pid p, label.ended = some pid → s.m_processes pid ≠ some p) (asked : asks s label = none) :
    Reaps s label s' outcome where
  zombies z c hz hunloaded := .inl ⟨keeps z c hz hunloaded, quiet z⟩
  told z status houtcome := absurd houtcome (quiet z status)
  ended pid p hended hp _ := absurd hp (idle pid p hended)
  answer _ _ hasks _ := nomatch (asked.symm.trans hasks)
  refused _ _ hasks _ := nomatch (asked.symm.trans hasks)

/-- The children that a process has are the same, and so are those that have ended. -/
theorem Rethreads.answers (rethreads : Rethreads pid p s s') (answers : Answers s' parent waiter hang outcome) :
    Answers s parent waiter hang outcome := by
  have forth : ∀ {c q}, Child s parent waiter.pid c q → ∃ q', Child s' parent waiter.pid c q' ∧
      q'.loaded = q.loaded := by
    rintro c q ⟨there, hppid, wanted⟩
    obtain ⟨q', there', hppid', -, loaded⟩ := rethreads.forth there
    exact ⟨q', ⟨there', hppid'.trans hppid, wanted⟩, loaded⟩
  have back : ∀ {c q}, Child s' parent waiter.pid c q → ∃ q', Child s parent waiter.pid c q' ∧
      q'.loaded = q.loaded := by
    rintro c q ⟨there, hppid, wanted⟩
    obtain ⟨q', there', -, hppid', -, loaded, -⟩ := rethreads.back there
    exact ⟨q', ⟨there', hppid'.symm.trans hppid, wanted⟩, loaded.symm⟩
  have children : (∃ c q, Child s parent waiter.pid c q) ↔ ∃ c q, Child s' parent waiter.pid c q :=
    ⟨fun ⟨c, _, child⟩ => ⟨c, (forth child).imp fun _ => And.left⟩, fun ⟨c, _, child⟩ =>
      ⟨c, (back child).imp fun _ => And.left⟩⟩
  refine ⟨answers.child.trans ⟨?_, ?_⟩, answers.waits.trans (and_congr children.symm ⟨?_, ?_⟩),
    answers.echild.trans ?_⟩
  · rintro ⟨z, c, child, unloaded⟩
    obtain ⟨c', child', same⟩ := back child
    exact ⟨z, c', child', same.trans unloaded⟩
  · rintro ⟨z, c, child, unloaded⟩
    obtain ⟨c', child', same⟩ := forth child
    exact ⟨z, c', child', same.trans unloaded⟩
  · intro running c q child
    obtain ⟨q', child', same⟩ := forth child
    exact same.symm.trans (running c q' child')
  · intro running c q child
    obtain ⟨q', child', same⟩ := back child
    exact same.symm.trans (running c q' child')
  · exact not_congr children.symm

theorem Ends.reaps (family : Family s) (hp : s.m_processes pid = some p)
    (hended : label.ended = some pid) (asked : asks s label = none) (quiet : ∀ z status, outcome ≠ .child z status)
    (zombie : p.loaded = false → label.exitValue p = p.exitValue)
    (ends : Ends pid { p with exitValue := label.exitValue p } s s') : Reaps s label s' outcome where
  zombies z c hz hunloaded := by
    by_cases hzp : z = pid
    · rw [hzp] at hz ⊢
      obtain rfl := some.inj (hz.symm.trans hp)
      obtain ⟨hlower, hthreads, hchildren⟩ := family.ended pid c hp hunloaded
      refine .inl ⟨?_, quiet pid⟩
      rw [ends.self, ended, if_pos hlower, zombie hunloaded, ← hthreads, ← hchildren, ← hunloaded]
    · by_cases hmem : z ∈ p.children
      · refine .inr ⟨?_, .inr ?_⟩
        · rw [ends.others z hzp, if_pos hmem, hz, bind_some, orphaned, hunloaded]
          rfl
        · obtain ⟨q, hq, hppid⟩ := family.children pid p hp z hmem
          obtain rfl := some.inj (hq.symm.trans hz)
          rw [hended, hppid]
      · refine .inl ⟨?_, quiet z⟩
        rw [ends.others z hzp, if_neg hmem, hz, map_some]
        split
        case isFalse => rfl
        case isTrue hparent =>
          have hnone := (family.ended z c hz hunloaded).2.1
          rw [WakeupChildWaiters, hnone, map_nil, ← hnone]
  told z status houtcome := absurd houtcome (quiet z status)
  ended x q hx hq hloaded := by
    obtain rfl := some.inj (hended.symm.trans hx)
    obtain rfl := some.inj (hq.symm.trans hp)
    refine ⟨?_, fun alone => ?_⟩
    · rintro ⟨parent, hparent, hlives⟩
      have hlower := (family.pids _ parent hparent).2
      have hself := ends.self
      rw [Processes.ended, if_pos hlower] at hself
      refine ⟨?_, _, hself, rfl, rfl, rfl⟩
      have hdiffer := (family.parent pid q hp hlower).1
      obtain ⟨parent', hparent'⟩ := ends.forth hdiffer hparent fun _ => hlives
      obtain ⟨o, ho, -, -, hsame, -⟩ := ends.back hdiffer hparent'
      obtain rfl := some.inj (ho.symm.trans hparent)
      exact ⟨parent', hparent', hsame.trans hlives⟩
    · rw [ends.self, Processes.ended, if_neg]
      intro hlower
      obtain ⟨-, parent, hparent, hlives, -⟩ := family.parent pid q hp hlower
      exact alone ⟨parent, hparent, hlives⟩
  answer _ _ hasks _ := nomatch (asked.symm.trans hasks)
  refused _ _ hasks _ := nomatch (asked.symm.trans hasks)

theorem Turn.keeps {t : DceManager β} (family : Family t) (hp : t.m_processes parent = some p)
    (hloaded : p.loaded = true)
    (zombies : ∀ z c, c.loaded = false → (s.m_processes z = some c ↔ t.m_processes z = some c))
    (children : ∀ answer : Outcome, Answers t parent waiter label.hangs answer →
      Answers s parent waiter label.hangs answer)
    (hasks : asks s label = some (parent, waiter)) (supported : Supported label) (endless : label.ended = none)
    (turn : Turn t parent tid waiter label.hangs p s' outcome) : Reaps s label s' outcome := by
  have keeps : Keeps t s' → ∀ z c, s.m_processes z = some c → c.loaded = false → s'.m_processes z = some c :=
    fun keeps z c hz hunloaded => keeps z c ((zombies z c hunloaded).mp hz) hunloaded
  have idle : ∀ x q, label.ended = some x → s.m_processes x = some q → q.loaded = true →
      (Lives s q.ppid → Lives s' q.ppid ∧ ∃ c, s'.m_processes x = some c ∧ c.loaded = false ∧ c.ppid = q.ppid ∧
        c.exitValue = label.exitValue q) ∧ (¬ Lives s q.ppid → s'.m_processes x = none) :=
    fun x q hended => absurd (endless.symm.trans hended) nofun
  have answer : ∀ caller w, asks s label = some (caller, w) → Supported label →
      Answers s caller w label.hangs outcome := by
    intro caller w hw _
    obtain ⟨rfl, rfl⟩ := Prod.mk.inj (some.inj (hasks.symm.trans hw))
    exact children outcome turn.answers
  have refused : ∀ caller w, asks s label = some (caller, w) → ¬ Supported label → outcome = .failed label.refusal :=
    fun _ _ _ unsupported => absurd supported unsupported
  cases turn with
  | @reaps s' z c reaped wanted =>
    have hgone : s'.m_processes z = none := by
      rw [reaped.change, Function.update_self]
    refine ⟨fun x q hx hunloaded => ?_, fun x status houtcome => ?_, idle, answer, refused⟩
    · have hxt := (zombies x q hunloaded).mp hx
      by_cases hxz : x = z
      · rw [hxz]
        exact .inr ⟨hgone, .inl ⟨_, rfl⟩⟩
      · have hxp : x ≠ parent := by
          rintro rfl
          cases hxt.symm.trans hp
          rw [hloaded] at hunloaded
          cases hunloaded
        refine .inl ⟨?_, fun status houtcome => hxz (Outcome.child.inj houtcome).1.symm⟩
        rw [reaped.change, Function.update_of_ne hxz, Function.update_of_ne hxp]
        exact hxt
    · obtain ⟨rfl, rfl⟩ := Outcome.child.inj houtcome
      exact ⟨c, parent, waiter, (zombies z c reaped.unloaded).mpr reaped.zombie, reaped.unloaded, hasks,
        reaped.parent,
        wanted, rfl, hgone⟩
  | sleeps waits =>
    have asleep : ∀ w ∈ some (Waiter.mk waiter.pid waiter.status false), w.woken = false → Waits t parent w := by
      rintro w hw -
      cases hw
      exact waits
    refine ⟨fun z c hz hunloaded => .inl ⟨keeps ?_ z c hz hunloaded, fun _ => by simp⟩, fun z status h =>
      absurd h nofun,
      idle, answer, refused⟩
    exact (rethreads_setWaiter family hp hloaded _ _ asleep).keeps
  | returns =>
    exact ⟨fun z c hz hunloaded => .inl ⟨keeps (fun _ _ hz _ => hz) z c hz hunloaded, fun _ => by simp⟩,
      fun z status h => absurd h nofun, idle, answer, refused⟩
  | fails =>
    exact ⟨fun z c hz hunloaded => .inl ⟨keeps (fun _ _ hz _ => hz) z c hz hunloaded, fun _ => by simp⟩,
      fun z status h => absurd h nofun, idle, answer, refused⟩

theorem Family.loaded_of_thread (family : Family s) {thread : Thread} (hthread : s.thread pid tid = some thread) :
    ∃ p, s.m_processes pid = some p ∧ p.loaded = true ∧ thread ∈ p.threads := by
  rw [DceManager.thread, bind_eq_bind, bind_eq_some_iff] at hthread
  obtain ⟨p, hp, hfind⟩ := hthread
  have hmem := mem_of_find?_eq_some hfind
  refine ⟨p, hp, ?_, hmem⟩
  by_contra hunloaded
  rw [(family.ended pid p hp (by simpa using hunloaded)).2.1] at hmem
  cases hmem

theorem Family.loaded_of_runs (family : Family s) (runs : Runs pid tid s) :
    ∃ p, s.m_processes pid = some p ∧ p.loaded = true := by
  obtain ⟨thread, hthread, -⟩ := runs
  obtain ⟨p, hp, hloaded, -⟩ := family.loaded_of_thread hthread
  exact ⟨p, hp, hloaded⟩

end

section

variable {β : Type} {s s' : DceManager β} {pid tid : Nat} {outcome : Outcome}

variable {p : Process} {label : Label}

theorem Ends.of_set (value : BitVec 32) (hp : s.m_processes pid = some p) (hloaded : p.loaded = true)
    (family : Family s) (type : ProcessEndCause) :
    ∃ s', DeleteProcess pid type (s.set pid (some { p with exitValue := value })) = some s' ∧ Family s' ∧
      Ends pid { p with exitValue := value } s s' := by
  have rethreads : Rethreads pid p s (s.set pid (some { p with exitValue := value })) :=
    ⟨hp, hloaded, p.threads, value, rfl, family.asleep pid p hp⟩
  have hfamily := rethreads.family family
  obtain ⟨s', hdelete, ends⟩ := DeleteProcess_ends hfamily (set_self _) type
  refine ⟨s', hdelete, ends.family (set_self _) hfamily, ends.self, fun x hx => ?_⟩
  rw [ends.others x hx, set_other hx]

section

variable (family : Family s)
include family

theorem start_reaps {name : String} {nodeId : Nat} {uid euid gid egid : UInt32}
    (hrespond : respond s (.start name nodeId uid euid gid egid) = some (s', outcome)) :
    Family s' ∧ Reaps s (.start name nodeId uid euid gid egid) s' outcome := by
  rw [respond, map_eq_some_iff] at hrespond
  obtain ⟨⟨child, t⟩, hstart, heq⟩ := hrespond
  obtain ⟨rfl, rfl⟩ := Prod.mk.inj heq
  rw [Start, bind_eq_bind, bind_eq_some_iff] at hstart
  obtain ⟨⟨pid, s₁⟩, halloc, hrest⟩ := hstart
  obtain ⟨process, hcreate, hrest⟩ := bind_eq_some_iff.mp hrest
  obtain ⟨rfl, rfl⟩ := Prod.mk.inj (some.inj hrest)
  obtain ⟨hlower, -, hnone, hprocesses, -⟩ := AllocatePid_some halloc
  obtain ⟨first, -, hprocess⟩ := CreateThread_some hcreate
  have hthreads : process.threads = [⟨first, ∅, none⟩] := congrArg Process.threads hprocess
  have born : Born pid process s (s₁.set pid (some process)) := {
    absent := hnone
    pid := ⟨congrArg Process.pid hprocess, hlower⟩
    loaded := congrArg Process.loaded hprocess
    children := congrArg Process.children hprocess
    threads := by simp [hthreads]
    change := .inl ⟨congrArg Process.ppid hprocess, by rw [← hprocesses]; rfl⟩ }
  exact ⟨born.family family, (born.keeps family).reaps (by rintro _ _ ⟨⟩) (fun _ _ h =>
    absurd h (by simp [Label.ended])) rfl⟩

omit family in
theorem Rethreads.reaps (rethreads : Rethreads pid p s s') (family : Family s)
    (endless : label.ended = none) (asked : asks s label = none) : Family s' ∧ Reaps s label s' .done :=
  ⟨rethreads.family family, rethreads.keeps.reaps (by simp) (fun x q h => nomatch (endless.symm.trans h)) asked⟩

theorem create_reaps (hrespond : respond s (.create pid) = some (s', outcome)) :
    Family s' ∧ Reaps s (.create pid) s' outcome := by
  rw [respond, bind_eq_bind, bind_eq_some_iff] at hrespond
  obtain ⟨p, hp, hrest⟩ := hrespond
  obtain ⟨more, hcreate, hrest⟩ := bind_eq_some_iff.mp hrest
  split at hrest
  case isFalse => cases hrest
  case isTrue hloaded =>
    obtain ⟨rfl, rfl⟩ := Prod.mk.inj (some.inj hrest)
    obtain ⟨new, -, rfl⟩ := CreateThread_some hcreate
    refine (rethreads_set hp hloaded fun thread hthread w hw hwoken => ?_).reaps family rfl rfl
    rcases mem_append.mp hthread with hold | hnew
    · exact family.asleep pid p hp thread hold w hw hwoken
    · obtain rfl := mem_singleton.mp hnew
      cases hw

theorem leave_reaps (hrespond : respond s (.leave pid tid) = some (s', outcome)) :
    Family s' ∧ Reaps s (.leave pid tid) s' outcome := by
  rw [respond, bind_eq_bind, bind_eq_some_iff] at hrespond
  obtain ⟨p, hp, hrest⟩ := hrespond
  split at hrest
  case isFalse => cases hrest
  case isTrue hboth =>
    obtain ⟨rfl, rfl⟩ := Prod.mk.inj (some.inj hrest)
    obtain ⟨q, hq, hloaded⟩ := family.loaded_of_runs hboth.1
    obtain rfl := some.inj (hq.symm.trans hp)
    refine (rethreads_set hp hloaded fun thread hthread w hw hwoken => ?_).reaps family rfl rfl
    exact family.asleep pid q hp thread (mem_of_mem_eraseP hthread) w hw hwoken

theorem fork_reaps (hrespond : respond s (.fork pid tid) = some (s', outcome)) :
    Family s' ∧ Reaps s (.fork pid tid) s' outcome := by
  rw [respond] at hrespond
  split at hrespond
  case isFalse => cases hrespond
  case isTrue runs =>
    obtain ⟨⟨child, t⟩, hclone, heq⟩ := map_eq_some_iff.mp hrespond
    obtain ⟨rfl, rfl⟩ := Prod.mk.inj heq
    obtain ⟨p, hp, hloaded⟩ := family.loaded_of_runs runs
    obtain ⟨hpid, hparent⟩ := family.pids pid p hp
    obtain ⟨first, hlower, -, hnone, -, -, hprocesses⟩ := Clone_some hp hclone
    generalize hclone' : ({ Process.new with
      name := p.name
      ppid := p.pid
      pgid := p.pgid
      pid := child
      signalHandlers := SetDefaultSigHandler []
      nextMid := p.nextMid
      nextSid := p.nextSid
      nextCid := p.nextCid
      cwd := p.cwd
      loaded := true
      threads := [⟨first, ∅, none⟩] } : Process) = c at hprocesses
    have hthreads : c.threads = [⟨first, ∅, none⟩] := congrArg Process.threads hclone'.symm
    have hppid : c.ppid = pid := (congrArg Process.ppid hclone'.symm).trans hpid
    have born : Born child c s t := {
      absent := hnone
      pid := ⟨congrArg Process.pid hclone'.symm, hlower⟩
      loaded := congrArg Process.loaded hclone'.symm
      children := congrArg Process.children hclone'.symm
      threads := by simp [hthreads]
      change := .inr ⟨p, hppid ▸ hparent, hppid ▸ hp, hloaded, hppid ▸ hprocesses⟩ }
    exact ⟨born.family family, (born.keeps family).reaps (by rintro _ _ ⟨⟩) (fun _ _ h =>
      absurd h (by simp [Label.ended])) rfl⟩

theorem exit_reaps {status : BitVec 32} (hrespond : respond s (.exit pid tid status) = some (s', outcome)) :
    Family s' ∧ Reaps s (.exit pid tid status) s' outcome := by
  rw [respond] at hrespond
  split at hrespond
  case isFalse => cases hrespond
  case isTrue runs =>
    obtain ⟨t, hexit, heq⟩ := map_eq_some_iff.mp hrespond
    obtain ⟨rfl, rfl⟩ := Prod.mk.inj heq
    obtain ⟨p, hp, hloaded⟩ := family.loaded_of_runs runs
    rw [dce_exit, hp, bind_eq_bind] at hexit
    obtain ⟨t', hdelete, hfamily, ends⟩ := Ends.of_set (exitCode status p.exitValue) hp hloaded family .PEC_EXIT
    cases hdelete.symm.trans hexit
    refine ⟨hfamily, Ends.reaps family hp rfl rfl (by rintro _ _ ⟨⟩) (fun hunloaded => ?_) ends⟩
    rw [hloaded] at hunloaded
    cases hunloaded

theorem stop_reaps (hrespond : respond s (.stop pid) = some (s', outcome)) :
    Family s' ∧ Reaps s (.stop pid) s' outcome := by
  rw [respond, map_eq_some_iff] at hrespond
  obtain ⟨t, hstop, heq⟩ := hrespond
  obtain ⟨rfl, rfl⟩ := Prod.mk.inj heq
  rw [Stop] at hstop
  split at hstop
  next hnone =>
    cases hstop
    have absent : ∀ x q, (Label.stop pid).ended = some x → s.m_processes x ≠ some q := by
      rintro x q hx hq
      cases hx
      rw [hq] at hnone
      cases hnone
    have keeps : Keeps s s := fun _ _ hz _ => hz
    exact ⟨family, keeps.reaps (by rintro _ _ ⟨⟩) absent rfl⟩
  next hsome =>
    obtain ⟨p, hp⟩ : ∃ p, s.m_processes pid = some p :=
      ne_none_iff_exists'.mp fun hnone => hsome (by rw [hnone]; rfl)
    obtain ⟨t', hdelete, ends⟩ := DeleteProcess_ends family hp .PEC_NS3_STOP
    cases hdelete.symm.trans hstop
    exact ⟨ends.family hp family, Ends.reaps family hp rfl rfl (by rintro _ _ ⟨⟩) (fun _ => rfl) ends⟩

theorem wakeup_reaps (hrespond : respond s (.wakeup pid tid) = some (s', outcome)) :
    Family s' ∧ Reaps s (.wakeup pid tid) s' outcome := by
  rw [respond, bind_eq_bind, bind_eq_some_iff] at hrespond
  obtain ⟨p, hp, hrest⟩ := hrespond
  obtain ⟨thread, hthread, hrest⟩ := bind_eq_some_iff.mp hrest
  obtain ⟨waiter, -, hrest⟩ := bind_eq_some_iff.mp hrest
  obtain ⟨rfl, rfl⟩ := Prod.mk.inj (some.inj hrest)
  obtain ⟨q, hq, hloaded, -⟩ := family.loaded_of_thread hthread
  cases hq.symm.trans hp
  refine (rethreads_setWaiter family hp hloaded _ _ fun w hw hwoken => ?_).reaps family rfl rfl
  cases hw
  cases hwoken

theorem waitpid_reaps {argument : Int} {status : Bool} {options : BitVec 32}
    (hrespond : respond s (.waitpid pid tid argument status options) = some (s', outcome)) :
    Family s' ∧ Reaps s (.waitpid pid tid argument status options) s' outcome := by
  rw [respond] at hrespond
  split at hrespond
  case isFalse => exact absurd hrespond (by rintro ⟨⟩)
  case isTrue runs =>
    -- a refused call
    have refused : ¬ Supported (.waitpid pid tid argument status options) → (s', outcome) = (s, .failed .EINVAL) →
        Family s' ∧ Reaps s (.waitpid pid tid argument status options) s' outcome := by
      intro unsupported heq
      obtain ⟨rfl, rfl⟩ := Prod.mk.inj heq
      exact ⟨family, fun z c hz _ => .inl ⟨hz, by simp⟩, fun z _ h => absurd h (by rintro ⟨⟩),
        fun x q h => absurd h (by simp [Label.ended]), fun _ _ _ supported => absurd supported unsupported,
        fun _ _ _ _ => rfl⟩
    rw [dce_waitpid] at hrespond
    split at hrespond
    case isTrue hoptions =>
      refine refused (fun supported => ?_) (some.inj hrespond).symm
      rcases hoptions with h | h
      · exact h supported.1
      · exact h supported.2.1
    case isFalse hoptions =>
      split at hrespond
      case isTrue hgroup =>
        refine refused (fun supported => ?_) (some.inj hrespond).symm
        have hargument := supported.2.2
        omega
      case isFalse hgroup =>
        obtain ⟨p, hp, hloaded⟩ := family.loaded_of_runs runs
        obtain ⟨t, o, hturn, turn⟩ := waitTurn_turn family hp tid ⟨argument, status, false⟩ (options &&& WNOHANG = 0)
        obtain ⟨rfl, rfl⟩ := Prod.mk.inj (some.inj (hturn.symm.trans hrespond))
        obtain ⟨untraced, continued⟩ := not_or.mp hoptions
        have supported : Supported (.waitpid pid tid argument status options) :=
          ⟨not_not.mp untraced, not_not.mp continued, by omega⟩
        exact ⟨turn.family family hp hloaded,
          turn.keeps family hp hloaded (fun _ _ _ => .rfl) (fun _ answers => answers) rfl supported rfl⟩

theorem resume_reaps {interrupted : Bool} (hrespond : respond s (.resume pid tid interrupted) = some (s', outcome)) :
    Family s' ∧ Reaps s (.resume pid tid interrupted) s' outcome := by
  rw [respond, bind_eq_bind, bind_eq_some_iff] at hrespond
  obtain ⟨thread, hthread, hrest⟩ := hrespond
  obtain ⟨waiter, hwaiter, hrest⟩ := bind_eq_some_iff.mp hrest
  have hasks : asks s (.resume pid tid interrupted) = some (pid, waiter) := by
    rw [asks, hthread, bind_eq_bind, bind_some, hwaiter]
    rfl
  obtain ⟨p, hp, hloaded, -⟩ := family.loaded_of_thread hthread
  have rethreads := rethreads_setWaiter family hp hloaded tid none (by rintro _ ⟨⟩)
  have zombies : ∀ z c, c.loaded = false →
      (s.m_processes z = some c ↔ (s.set pid (some (setWaiter tid none p))).m_processes z = some c) := by
    intro z c hunloaded
    refine ⟨fun hz => rethreads.keeps z c hz hunloaded, fun hz => ?_⟩
    obtain ⟨q, hq, -, -, -, hsame, hother⟩ := rethreads.back hz
    have hne : z ≠ pid := by
      rintro rfl
      cases hq.symm.trans hp
      rw [hsame, hloaded] at hunloaded
      cases hunloaded
    exact hq.trans (congrArg some (hother hne).symm)
  split at hrest
  case isFalse => exact absurd hrest (by rintro ⟨⟩)
  case isTrue =>
    rw [resumeWait, hp, bind_eq_bind] at hrest
    split at hrest
    case isTrue hinterrupted =>
      obtain ⟨rfl, rfl⟩ := Prod.mk.inj (some.inj hrest)
      refine ⟨rethreads.family family, fun z c hz hunloaded => .inl ⟨rethreads.keeps z c hz hunloaded, by simp⟩,
        fun z _ h => absurd h (by rintro ⟨⟩), fun x q h => absurd h (by simp [Label.ended]),
        fun _ _ _ supported => ?_,
        fun _ _ _ _ => rfl⟩
      have honest : interrupted = false := supported
      rw [honest] at hinterrupted
      cases hinterrupted
    case isFalse hinterrupted =>
      have supported : Supported (.resume pid tid interrupted) := Bool.eq_false_iff.mpr hinterrupted
      have hfamily := rethreads.family family
      have hself : (s.set pid (some (setWaiter tid none p))).m_processes pid = some (setWaiter tid none p) :=
        set_self _
      obtain ⟨t, o, hturn, turn⟩ := waitTurn_turn hfamily hself tid waiter true
      obtain ⟨rfl, rfl⟩ := Prod.mk.inj (some.inj (hturn.symm.trans hrest))
      exact ⟨turn.family hfamily hself hloaded,
        turn.keeps hfamily hself hloaded zombies (fun _ answers => rethreads.answers answers) hasks supported rfl⟩

theorem respond_reaps (hrespond : respond s label = some (s', outcome)) : Family s' ∧ Reaps s label s' outcome := by
  cases label with
  | start => exact start_reaps family hrespond
  | create => exact create_reaps family hrespond
  | leave => exact leave_reaps family hrespond
  | fork => exact fork_reaps family hrespond
  | exit => exact exit_reaps family hrespond
  | stop => exact stop_reaps family hrespond
  | waitpid => exact waitpid_reaps family hrespond
  | wakeup => exact wakeup_reaps family hrespond
  | resume => exact resume_reaps family hrespond

end

theorem Family.of_reach (reach : (machine β).Reach s) : Family s := by
  refine reach.invariant (fun s start => ?_) fun s label t family _ hstep => ?_
  · have hnone : ∀ x q, s.m_processes x ≠ some q := fun x q hq => absurd ((congrFun start x).symm.trans hq) nofun
    exact ⟨fun x q hq => absurd hq (hnone x q), fun x q hq => absurd hq (hnone x q), fun x q hq =>
      absurd hq (hnone x q),
      fun x q hq => absurd hq (hnone x q), fun x q hq => absurd hq (hnone x q)⟩
  · obtain ⟨⟨t', outcome⟩, hrespond, rfl⟩ := map_eq_some_iff.mp hstep
    exact (respond_reaps family hrespond).1

/-- The calls that must not fail an assertion. -/
def Answered (s : DceManager β) : Label → Prop
  | .exit pid tid _ => Runs pid tid s
  | .stop _ => True
  | .waitpid caller tid _ _ _ => Runs caller tid s
  | .resume caller tid _ => ∃ thread ∈ s.thread caller tid, ∃ waiter ∈ thread.childWaiter, waiter.woken = true
  | _ => False

theorem answered (family : Family s) (hanswered : Answered s label) : ∃ t o, respond s label = some (t, o) := by
  cases label with
  | exit pid tid status =>
    have runs : Runs pid tid s := hanswered
    obtain ⟨p, hp, hloaded⟩ := family.loaded_of_runs runs
    obtain ⟨t, hdelete, -⟩ := Ends.of_set (exitCode status p.exitValue) hp hloaded family .PEC_EXIT
    refine ⟨t, .done, ?_⟩
    rw [respond, if_pos runs, dce_exit, hp, bind_eq_bind, bind_some, hdelete]
    rfl
  | stop pid =>
    cases hp : s.m_processes pid with
    | none => exact ⟨s, .done, by rw [respond, Stop, hp]; rfl⟩
    | some p =>
      obtain ⟨t, hdelete, -⟩ := DeleteProcess_ends family hp .PEC_NS3_STOP
      refine ⟨t, .done, ?_⟩
      rw [respond, Stop, hp, hdelete]
      rfl
  | waitpid caller tid argument status options =>
    have runs : Runs caller tid s := hanswered
    rw [respond, if_pos runs, dce_waitpid]
    split
    · exact ⟨_, _, rfl⟩
    · split
      · exact ⟨_, _, rfl⟩
      · obtain ⟨p, hp, -⟩ := family.loaded_of_runs runs
        obtain ⟨t, o, hturn, -⟩ := waitTurn_turn family hp tid ⟨argument, status, false⟩ (options &&& WNOHANG = 0)
        exact ⟨t, o, hturn⟩
  | resume caller tid interrupted =>
    obtain ⟨thread, hthread, waiter, hwaiter, hwoken⟩ := hanswered
    obtain ⟨p, hp, hloaded, -⟩ := family.loaded_of_thread hthread
    rw [respond, hthread, bind_eq_bind, bind_some, hwaiter, bind_eq_bind, bind_some,
      if_pos hwoken, resumeWait, hp, bind_eq_bind, bind_some]
    split
    · exact ⟨_, _, rfl⟩
    · have hfamily := (rethreads_setWaiter family hp hloaded tid none (by rintro _ ⟨⟩)).family family
      obtain ⟨t, o, hturn, -⟩ := waitTurn_turn hfamily (set_self _) tid waiter true
      exact ⟨t, o, hturn⟩
  | start => exact hanswered.elim
  | create => exact hanswered.elim
  | leave => exact hanswered.elim
  | fork => exact hanswered.elim
  | wakeup => exact hanswered.elim

/-- What should hold of a state that is reached. -/
structure Accounted (s : DceManager β) : Prop where
  distinct : ∀ x y p q, s.m_processes x = some p → s.m_processes y = some q → p.pid = q.pid → x = y
  reaps : ∀ label s' outcome, respond s label = some (s', outcome) → Reaps s label s' outcome
  answered : ∀ label, Answered s label → ∃ s' outcome, respond s label = some (s', outcome)
  /-- Who sleeps and was not woken has a child to wait for, and none that has ended. -/
  asleep : ∀ pid p, s.m_processes pid = some p → ∀ thread ∈ p.threads, ∀ waiter ∈ thread.childWaiter,
    waiter.woken = false → Waits s pid waiter

theorem accounted_of_reach (reach : (machine β).Reach s) : Accounted s := by
  have family := Family.of_reach reach
  refine ⟨fun x y p q hp hq hsame => ?_, fun label t o hrespond => (respond_reaps family hrespond).2,
    fun label hanswered => answered family hanswered, family.asleep⟩
  rw [← (family.pids x p hp).1, ← (family.pids y q hq).1, hsame]

/-- In every state the children of a process are those whose parent it is, and who has ended is kept for a parent
that runs. -/
theorem children_iff_ppid (reach : (machine β).Reach s) {pid : Nat} {p : Process}
    (known : s.m_processes pid = some p) :
    (∀ c, c ∈ p.children ↔ ∃ q, s.m_processes c = some q ∧ q.ppid = pid) ∧
    (p.loaded = false → p.threads = [] ∧ p.children = ∅ ∧
      ∃ q, s.m_processes p.ppid = some q ∧ q.loaded = true ∧ pid ∈ q.children) := by
  have family := Family.of_reach reach
  refine ⟨fun c => ⟨family.children pid p known c, ?_⟩, fun unloaded => ?_⟩
  · rintro ⟨q, there, rfl⟩
    obtain ⟨-, p', known', -, listed⟩ := family.parent c q there (family.pids _ p known).2
    cases known.symm.trans known'
    exact listed
  · obtain ⟨above, threads, children⟩ := family.ended pid p known unloaded
    exact ⟨threads, children, (family.parent pid p known above).2⟩

end

/-- What is left of the child when it has ended with 7. -/
def zombie : Process := { childProcess with exitValue := 0x700, threads := [], loaded := false }

def childEnded : DceManager Bool :=
  ⟨Function.update (Function.update (fun _ => none) 2 (some parentProcess)) 3 (some zombie), 4,
    closeFiles 3 forked.files .PEC_EXIT⟩

theorem exit_forked : dce_exit 3 7 forked = some childEnded := by
  have there : forked.m_processes 3 = some childProcess := rfl
  rw [dce_exit, there, bind_eq_bind, bind_some, DeleteProcess, set_self, bind_eq_bind, bind_some]
  have none : ({ childProcess with exitValue := exitCode 7 childProcess.exitValue } : Process).children.sort = [] :=
    Finset.sort_empty _
  dsimp only
  rw [none, foldl_nil, unload, set_self, bind_eq_bind, bind_some]
  refine congrArg (fun m => some (⟨m, 4, closeFiles 3 forked.files .PEC_EXIT⟩ : DceManager Bool))
    (funext fun pid => ?_)
  by_cases first : pid = 2
  · subst first
    rfl
  · by_cases second : pid = 3
    · subst second
      rfl
    · simp [DceManager.set, forked, oneProcess, first, second, show childProcess.ppid = 2 from rfl]

theorem reach_childEnded : (machine Bool).Reach childEnded := by
  have hrespond : respond forked (.exit 3 0 7) = some (done childEnded) := by
    rw [respond, if_pos ⟨_, rfl, rfl⟩, exit_forked, map_some]
  exact .next (a := .exit 3 0 7) reach_forked trivial (step_of_respond hrespond)

theorem children_iff_ppid_ended : (3 ∈ parentProcess.children ↔
      ∃ q, childEnded.m_processes 3 = some q ∧ q.ppid = 2) ∧
    zombie.threads = [] ∧ zombie.children = ∅ ∧ ∃ q, childEnded.m_processes 2 = some q ∧ q.loaded = true ∧
    3 ∈ q.children := by
  have parent : childEnded.m_processes 2 = some parentProcess := rfl
  have child : childEnded.m_processes 3 = some zombie := rfl
  exact ⟨(children_iff_ppid reach_childEnded parent).1 3, (children_iff_ppid reach_childEnded child).2 rfl⟩

/-- The parent is told of the child when it asks. -/
theorem accounted_ended : Accounted childEnded ∧ ∃ s, respond childEnded (.waitpid 2 0 (-1) true 0) =
    some (s, .child 3 (some 0x700)) ∧ s.m_processes 3 = none := by
  have accounted := accounted_of_reach reach_childEnded
  obtain ⟨s, outcome, hrespond⟩ := accounted.answered (.waitpid 2 0 (-1) true 0) ⟨_, rfl, rfl⟩
  have reaps := accounted.reaps _ s outcome hrespond
  have supported : Supported (.waitpid 2 0 (-1) true 0) := ⟨by decide, by decide, .inl rfl⟩
  obtain ⟨z, status, rfl⟩ := (reaps.answer 2 _ rfl supported).child.mpr ⟨3, zombie, ⟨rfl, rfl, .inl rfl⟩, rfl⟩
  obtain ⟨c, _, _, known, unloaded, asked, -, -, hstatus, gone⟩ := reaps.told z status rfl
  cases asked
  rcases update_some known with ⟨rfl, rfl⟩ | ⟨-, known⟩
  · have told : status = some 0x700 := hstatus
    exact ⟨accounted, s, told ▸ hrespond, gone⟩
  · rcases update_some known with ⟨-, rfl⟩ | ⟨-, known⟩
    · cases unloaded
    · cases known

/-- The process has no child, and asks for those of its group. -/
theorem group_fails_otherwise : ¬ ∀ (s s' : DceManager Bool) caller tid argument status options outcome,
    (machine Bool).Reach s → respond s (.waitpid caller tid argument status options) = some (s', outcome) →
    (outcome = .failed .ECHILD ↔ ¬ ∃ c q, Child s caller argument c q) := by
  intro h
  have hrespond : respond oneProcess (.waitpid 2 0 0 false 0) = some (oneProcess, .failed .EINVAL) := rfl
  refine absurd ((h _ _ _ _ _ _ _ _ reach_oneProcess hrespond).mpr ?_) (by decide)
  rintro ⟨c, q, hq, hppid, -⟩
  have hprocesses : oneProcess.m_processes = Function.update (fun _ => none) 2 (some firstProcess) := rfl
  rw [hprocesses] at hq
  rcases update_some hq with ⟨-, rfl⟩ | ⟨-, hnone⟩
  · exact absurd hppid (by decide)
  · cases hnone

end Dce.Processes
