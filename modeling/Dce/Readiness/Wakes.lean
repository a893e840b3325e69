import Dce.Readiness.Changes
import Dce.Readiness.Partings
import Dce.Readiness.Pipes
import Dce.Readiness.Streams

/- What a round of a poll finds, and what a poll that waits is registered for. -/

namespace Dce.Readiness

open Coroutine List

variable {T β : Type*} {t : T} {X : File → Prop} {w v : W T β} {n n' : Node T β} {fds : List (File × Events)}

/-- What a round finds at one place of the array. -/
def found (n : Node T β) (x : File × Events) : Events := if Open n x.1 then poll n x.1 &&& pollMask x.2 else 0

/-- Nothing that is open is ready. -/
theorem not_ready_of_found {x : File × Events} (nothing : found n x = 0)
    (opened : Open n x.1) : ¬ Ready n x.1 x.2 := by
  rw [found, if_pos opened] at nothing
  exact fun ready => ready nothing

/-- A round changes the wait queues alone, in which the entries stay. -/
structure Rounds (w v : W T β) : Prop where
  files : ∃ queues, v = { w with shared := { w.shared with m_waitQueueList := queues } }
  entries : ∀ f entry, entry ∈ w.shared.m_waitQueueList f → entry ∈ v.shared.m_waitQueueList f

theorem Rounds.refl (w : W T β) : Rounds w w := ⟨⟨w.shared.m_waitQueueList, rfl⟩, fun _ _ => id⟩

theorem Rounds.trans {x : W T β} (first : Rounds w v) (second : Rounds v x) : Rounds w x := by
  obtain ⟨queues, rfl⟩ := first.files
  obtain ⟨queues', rfl⟩ := second.files
  exact ⟨⟨queues', rfl⟩, fun f entry inside => second.entries f entry (first.entries f entry inside)⟩

section

variable (rounds : Rounds w v)
include rounds

theorem Rounds.found (x : File × Events) : found v.shared x = found w.shared x := by
  obtain ⟨queues, rfl⟩ := rounds.files
  rcases x with ⟨_ | ⟨_ | _, _⟩ | _, _⟩ <;> rfl

theorem Rounds.opened {f : File} : Open v.shared f ↔ Open w.shared f := by
  obtain ⟨queues, rfl⟩ := rounds.files
  cases f <;> rfl

theorem Rounds.during (during : During t X w) : During t X v := by
  obtain ⟨queues, rfl⟩ := rounds.files
  exact during.own ⟨rfl, rfl, rfl, rfl, rfl⟩ (fun _ _ => rfl) (fun _ _ => id) fun u _ f m => rounds.entries f ⟨u, m⟩

theorem Rounds.ready {f : File} {events : Events} : Ready v.shared f events ↔ Ready w.shared f events := by
  obtain ⟨queues, rfl⟩ := rounds.files
  exact SameFiles.ready ⟨rfl, rfl, rfl, rfl, rfl⟩

end

theorem Rounds.addWaitQueue (t : T) (mask : Events) (f : File) (w : W T β) : Rounds w (addWaitQueue t mask f w) ∧
    ⟨t, mask⟩ ∈ (addWaitQueue t mask f w).shared.m_waitQueueList f := by
  have queue : (Readiness.addWaitQueue t mask f w).shared.m_waitQueueList f = w.shared.m_waitQueueList f ++
      [⟨t, mask⟩] :=
    Function.update_self ..
  refine ⟨⟨⟨_, rfl⟩, fun g entry inside => ?_⟩, queue ▸ mem_append_right _ mem_cons_self⟩
  by_cases same : g = f
  · subst same
    exact queue ▸ mem_append_left _ inside
  · have queue : (Readiness.addWaitQueue t mask f w).shared.m_waitQueueList g = w.shared.m_waitQueueList g :=
      Function.update_of_ne same _ _
    exact queue ▸ inside

/-- A round finds what is there; one that finds nothing in an array of open descriptors is registered with all of
them. -/
theorem pollRound_spec (t : T) (table : Bool) (fds : List (File × Events)) (w : W T β) :
    Rounds w (pollRound t table fds w).1 ∧ (pollRound t table fds w).2 = fds.map (found w.shared) ∧
      (table = true → (∀ x ∈ fds, Open w.shared x.1 ∧ found w.shared x = 0) →
        ∀ x ∈ fds, ⟨t, pollMask x.2⟩ ∈ (pollRound t table fds w).1.shared.m_waitQueueList x.1) := by
  induction fds generalizing table w with
  | nil => exact ⟨.refl w, rfl, fun _ _ => nofun⟩
  | cons x fds ih =>
    obtain ⟨f, events⟩ := x
    unfold pollRound
    by_cases opened : Open w.shared f
    · rw [if_pos opened]
      dsimp only
      obtain ⟨first, entry⟩ : Rounds w (if table then addWaitQueue t (pollMask events) f w else w) ∧ (table = true →
          ⟨t, pollMask events⟩ ∈ (if table then addWaitQueue t (pollMask events) f w
            else w).shared.m_waitQueueList f) := by
        cases table with
        | true => exact ⟨(Rounds.addWaitQueue t _ f w).1, fun _ => (Rounds.addWaitQueue t _ f w).2⟩
        | false => exact ⟨.refl w, nofun⟩
      generalize (if table then addWaitQueue t (pollMask events) f w else w) = v at first entry
      have mask : poll v.shared f &&& pollMask events = found w.shared (f, events) := by
        rw [← first.found, found, if_pos (first.opened.mpr opened)]
      rw [mask]
      obtain ⟨second, masks, registered⟩ := ih (table && found w.shared (f, events) = 0) v
      refine ⟨first.trans second, ?_, fun registers none x inside => ?_⟩
      · rw [masks]
        exact congrArg _ (map_congr_left fun x _ => first.found x)
      · have nothing : found w.shared (f, events) = 0 := (none _ mem_cons_self).2
        rcases mem_cons.mp inside with rfl | inside
        · exact second.entries f _ (entry registers)
        · refine registered (by simp [registers, nothing]) (fun y mem => ?_) x inside
          obtain ⟨open_, zero⟩ := none y (mem_cons_of_mem _ mem)
          exact ⟨first.opened.mpr open_, (first.found y).trans zero⟩
    · rw [if_neg opened]
      dsimp only
      obtain ⟨rounds, masks, -⟩ := ih table w
      refine ⟨rounds, ?_, fun _ none => absurd (none _ mem_cons_self).1 opened⟩
      rw [masks, map_cons, found, if_neg opened]

section

variable [DecidableEq T]

theorem During.freeWait (during : During t X w) (fds : List (File × Events)) : During t X (freeWait t fds w) := by
  induction fds generalizing w with
  | nil => exact during
  | cons x fds ih => exact ih (during.removeWaitQueue x.1)

/-- Nothing that is open is ready. -/
def Quiet (n : Node T β) (fds : List (File × Events)) : Prop := ∀ x ∈ fds, Open n x.1 → ¬ Ready n x.1 x.2

variable (during : During t Settled w)
include during

theorem During.pollReturn (fds : List (File × Events)) (revents : List Events) :
    After t (pollReturn t fds revents w) := (during.freeWait fds).ret _

theorem During.afterRound (fds : List (File × Events)) (endtime : Option Nat) (rounds : Rounds w v)
    (sleeps : (∀ x ∈ fds, found w.shared x = 0) → (∀ e, endtime = some e → w.now < e) →
      ∀ x ∈ fds, ⟨t, pollMask x.2⟩ ∈ v.shared.m_waitQueueList x.1 ∧ ¬ Ready w.shared x.1 x.2) :
    After t (afterRound t fds endtime (v, fds.map (found w.shared))) := by
  have after := rounds.during during
  unfold Readiness.afterRound
  split
  · exact after.pollReturn fds _
  next none =>
    have nothing : ∀ x ∈ fds, found w.shared x = 0 := by
      intro x inside
      have zero : (fds.map (found w.shared)).countP (· ≠ 0) = 0 := Nat.le_zero.mp (not_lt.mp none)
      have plain := countP_eq_zero.mp zero (found w.shared x) (mem_map_of_mem inside)
      simpa using plain
    have now : v.now = w.now := by
      obtain ⟨queues, rfl⟩ := rounds.files
      rfl
    split
    · have fine := sleeps nothing (by rintro _ ⟨⟩)
      refine after.sleep ⟨fun x inside => (fine x inside).1, fun _ x inside => ?_⟩
      exact fun ready => (fine x inside).2 (rounds.ready.mp ready)
    · split
      next early =>
        have fine := sleeps nothing fun e' same => by
          cases same
          exact now ▸ early
        refine after.sleepUntil ⟨fun x inside => (fine x inside).1, fun _ x inside => ?_⟩
        exact fun ready => (fine x inside).2 (rounds.ready.mp ready)
      · exact after.pollReturn fds _

omit during in
omit [DecidableEq T] in
theorem quiet_of_found (nothing : ∀ x ∈ fds, found n x = 0) : Quiet n fds := fun x inside opened =>
  not_ready_of_found (nothing x inside) opened

theorem During.dcePoll (fds : List (File × Events)) (timeout : Int)
    (opened : timeout ≠ 0 → Quiet w.shared fds → ∀ x ∈ fds, Open w.shared x.1) :
    After t (dcePoll t fds timeout w) := by
  unfold Readiness.dcePoll
  split
  · exact ((pollRound_spec t false fds w).1.during during).pollReturn fds _
  next waits =>
    obtain ⟨rounds, masks, registered⟩ := pollRound_spec t true fds w
    have sleeps : ∀ endtime, After t (Readiness.afterRound t fds endtime (pollRound t true fds w)) := by
      intro endtime
      have whole := during.afterRound fds endtime rounds fun nothing _ x inside => by
        have quiet := quiet_of_found nothing
        have there := opened waits quiet
        exact ⟨registered rfl (fun y mem => ⟨there y mem, nothing y mem⟩) x inside, quiet x inside (there x inside)⟩
      rwa [← masks] at whole
    exact sleeps _

/-- A poll that is back, and may go to sleep again: no descriptor that was closed meanwhile is ready then. -/
theorem During.pollOn (endtime : Option Nat)
    (registered : ∀ x ∈ fds, ⟨t, pollMask x.2⟩ ∈ w.shared.m_waitQueueList x.1)
    (closed : Quiet w.shared fds → (∀ e, endtime = some e → w.now < e) →
      ∀ x ∈ fds, ¬ Open w.shared x.1 → ¬ Ready w.shared x.1 x.2) : After t (pollOn t fds endtime w) := by
  obtain ⟨rounds, masks, -⟩ := pollRound_spec t false fds w
  have whole := during.afterRound fds endtime rounds fun nothing early x inside => by
    have quiet := quiet_of_found nothing
    refine ⟨rounds.entries _ _ (registered x inside), ?_⟩
    by_cases opened : Open w.shared x.1
    · exact quiet x inside opened
    · exact closed quiet early x inside opened
  rwa [← masks] at whole

end

end Dce.Readiness

/- No poll sleeps while one of its files is ready, in the runs in which no call makes a file ready behind the back of
those that poll it. -/

namespace Dce.Readiness

open Coroutine List
open Binder (Path)
open LocalStream (How)

variable {T β : Type*}

/-- No thread sleeps in a poll one of whose files is ready. -/
def Awake (w : W T β) : Prop :=
  ∀ t, w.status t = .blocked → ∀ fds endtime, w.place t = .inside (.poll fds endtime) →
  ∀ x ∈ fds, ¬ Ready w.shared x.1 x.2

/-- In the runs along `C` no poll sleeps for what has come. -/
def PollsAwake (T β : Type*) [DecidableEq T] (C : W T β → Act T (Op β) Answer → Prop) : Prop :=
  ∀ w, (machine T β).ReachBy C w → Awake w

/-- A poll that waits is one of open descriptors, and is back in its wait only if none of those that were closed
meanwhile is ready; a socket that connects is not connected, and nobody accepts from it; nobody polls a stream socket
that is closed before it waits for a connection or has one; and no read from a full datagram socket makes room that a
sender polls for. -/
def Careful (w : W T β) (act : Act T (Op β) Answer) : Prop :=
  match act with
  | .call _ (.poll fds timeout) => timeout ≠ 0 → Quiet w.shared fds → ∀ x ∈ fds, Open w.shared x.1
  | .call _ (.connect (.socket .stream a) path) => Waits w.shared a path →
      (w.shared.streams a).m_state ≠ .CONNECTED ∧ ∀ u last, w.place u ≠ .inside (.accept a last)
  | .call _ (.close (.socket .stream a)) =>
      (w.shared.streams a).m_state = .CREATED ∨ (w.shared.streams a).m_state = .BINDED ∨
      (w.shared.streams a).m_state = .LISTENING →
        ∀ u events, ¬ Polls w u (.socket .stream a) events
  | .call _ (.read (.socket .datagram a) count) => Frees w.shared a count → NoneWaits w a
  | .call _ (.recv a count _ peek) => peek = false → Frees w.shared a count → NoneWaits w a
  | .dispatch t _ =>
    match w.place t with
    | .inside (.poll fds endtime) => Quiet w.shared fds → (∀ e, endtime = some e → w.now < e) →
        ∀ x ∈ fds, ¬ Open w.shared x.1 → ¬ Ready w.shared x.1 x.2
    | .inside (.recv a count peek _) => peek = false → Frees w.shared a count → NoneWaits w a
    | _ => True
  | _ => True

variable [DecidableEq T] {t : T} {X : File → Prop} {w v : W T β} {f : File} {a : Nat}

theorem During.wakeWaiter (during : During t X w) (s : UnixTimerFd T) : During t X (wakeWaiter s w) := by
  unfold Readiness.wakeWaiter
  split
  · exact during.wakeOne _
  · exact during

theorem During.readTimer (during : During t Settled w) (a count : Nat) : After t (readTimer t a count w) := by
  unfold Readiness.readTimer
  dsimp only
  split
  · exact during.fails _
  · split
    · exact (during.setTimer a _).ret _
    · exact (during.setTimer a _).sleep trivial

theorem During.timerExpired (during : During t X w) (a : Nat) : During t X (timerExpired a w) :=
  (during.setTimer a _).wakeWaiter _

section

omit [DecidableEq T] in
theorem After.setClosing (after : After t w) (f : File) : After t (setClosing f w) := by
  have same : SameFiles w.shared (Readiness.setClosing f w).shared := ⟨rfl, rfl, rfl, rfl, rfl⟩
  refine ⟨after.during.own same (fun _ _ => rfl) (fun _ _ => id) fun _ _ _ _ => id, fun frame here => ?_⟩
  have kept := after.kept frame here
  cases frame with
  | poll fds endtime => exact ⟨kept.1, fun sleeps x inside ready => kept.2 sleeps x inside (same.ready.mp ready)⟩
  | accept a last => exact same.acceptor kept
  | _ => trivial

variable (during : During t Settled w)
include during

theorem During.callBind (opened : Open w.shared f) (unix : Bool) (path : Path) (host : Option Nat) :
    After t (callBind t unix path host w f) := by
  unfold Readiness.callBind
  split
  · exact during.streamBind opened.1 unix path host
  · exact during.datagramBind _ unix path host
  · exact during.fails _

theorem During.callListen (opened : Open w.shared f) : After t (callListen t w f) := by
  unfold Readiness.callListen
  split
  · exact during.streamListen opened.1
  · exact during.fails _
  · exact during.fails _

theorem During.callAccept (noFd : Bool) (f : File) : After t (callAccept t noFd w f) := by
  unfold Readiness.callAccept
  split
  · exact during.accept _ noFd
  · exact during.fails _
  · exact during.fails _

theorem During.callShutdown (how : How) (f : File) : After t (callShutdown t how w f) := by
  unfold Readiness.callShutdown
  split
  · exact during.streamShutdown _ how
  · exact during.datagramShutdown _ how
  · exact during.fails _

theorem During.callWrite (buf : List β) (f : File) : After t (callWrite t buf w f) := by
  unfold Readiness.callWrite
  split
  · exact during.pipeWrite _ buf
  · exact during.write _ buf
  · exact during.datagramWrite _ buf
  · exact during.fails _

theorem During.callSetfl (nonblock : Bool) (f : File) : After t (callSetfl t nonblock w f) := by
  refine match f with
    | .pipe a => ?_
    | .socket k a => ?_
    | .timer a => during.ret _
  · exact (during.setPipe (f := a) (s := { w.shared.pipes a with nonblock := nonblock }) rfl rfl rfl).ret _
  · exact (during.setSocket (k := k) (a := a) (s := { w.shared.sockets k a with nonblock := nonblock }) rfl).ret _

end

section

variable (sound : Sound w)
include sound

theorem Sound.connect {path : Path} (f : File) (careful : Careful w (.call t (.connect f path)))
    (opened : Open w.shared f) : After t (callConnect t path w f) := by
  have during := sound.during t
  unfold Readiness.callConnect
  split
  · refine during.streamConnect opened path fun waits => ?_
    obtain ⟨apart, nobody⟩ := careful waits
    exact ⟨apart, fun u _ => nobody u⟩
  · exact during.datagramConnect _ path
  · exact during.fails _

theorem Sound.read {count : Nat} (f : File) (careful : Careful w (.call t (.read f count))) :
    After t (callRead t count w f) := by
  have during := sound.during t
  unfold Readiness.callRead
  split
  · exact during.pipeRead _ count
  · exact during.read _ count
  · exact during.recvLoop _ count false false none fun _ => careful
  · exact during.readTimer _ count

theorem Sound.close (f : File) (careful : Careful w (.call t (.close f))) (made : Made w.shared f) :
    After t (closeFile t w f) := by
  have during := sound.during t
  unfold Readiness.closeFile
  split
  · exact during.pipeClose _
  · split
    next closes =>
      refine (during.streamClose made closes fun early u _ => careful early u).ret _
    · exact during.ret _
  · exact (during.datagramClose _).ret _
  · exact (during.wakeWaiter _).ret _

theorem Sound.enter {op : Op β} (careful : Careful w (.call t op)) : Sound (enter t op w) := by
  have during := sound.during t
  unfold Readiness.enter
  split
  next finds =>
    refine After.sound (t := t) ?_
    cases op with
    | poll fds timeout => exact during.dcePoll fds timeout careful
    | write f buf => exact during.callWrite buf f
    | read f count => exact sound.read f careful
    | recv a count noWait peek => exact during.recvLoop a count noWait peek none careful
    | send a name iovs dontwait => exact during.sendmsg a name iovs dontwait
    | bind f unix path host => exact during.callBind (finds f mem_cons_self) unix path host
    | listen f => exact during.callListen (finds f mem_cons_self)
    | connect f path => exact sound.connect f careful (finds f mem_cons_self)
    | accept f noFd => exact during.callAccept noFd f
    | shutdown f how => exact during.callShutdown how f
    | close f => exact (sound.close f careful finds).setClosing f
    | unlink path ok =>
      unfold Readiness.call
      dsimp only
      split
      · exact (during.setBinder path none).ret _
      · exact during.ret _
    | setfl f nonblock => exact during.callSetfl nonblock f
    | setTimeouts k a send recv =>
      exact (during.setSocket (k := k) (a := a)
        (s := { w.shared.sockets k a with m_sendTimeout := send, m_recvTimeout := recv }) rfl).ret _
    | settime a => exact (during.setTimer a _).ret _
    | expired a => exact (during.timerExpired a).ret _
  · exact (during.fails _).sound

theorem Sound.resume {frame : Frame β} {e : Answer} (inside : w.place t = .inside frame)
    (careful : Careful w (.dispatch t e)) : Sound (resume t frame e (w.give t)) := by
  have kept := sound.kept t frame inside
  have during : During t Settled (w.give t) := (sound.during t).own (.refl _) (fun _ _ => rfl)
    (fun u other sleeps => (Function.update_of_ne other _ _).symm.trans sleeps) fun _ _ _ _ => id
  unfold Careful at careful
  simp only [inside] at careful
  refine After.sound (t := t) ?_
  cases frame with
  | poll fds endtime => exact during.pollOn endtime kept.1 careful
  | pipeWrite f p buf => exact during.pipeWriteOn f p buf e.interrupted
  | pipeRead f count => exact during.pipeReadOn f count e.interrupted
  | write a tot rest last => exact during.writeOn a tot rest last e.interrupted
  | read a filled rest last => exact during.readOn a filled rest last e.interrupted
  | accept a last => exact during.acceptOn kept last e
  | connect a l last => exact during.connectOn a l
  | send a l iovs retval last => exact during.sendOn a l iovs retval last e.interrupted
  | recv a count peek last =>
    refine during.recvOn a count peek last e.interrupted fun whole frees b sends u events polls => ?_
    refine careful whole frees b sends u events ⟨?_, polls.watches⟩
    by_cases same : u = t
    · have running : (w.give t).status t = .running := Function.update_self ..
      rw [same] at polls
      cases running.symm.trans polls.asleep
    · exact (Function.update_of_ne same _ _).symm.trans polls.asleep
  | readTimer a count => exact (during.setTimer a _).ret _

omit [DecidableEq T] in
theorem Sound.idle (idle : Program.Idle w v) : Sound v := by
  refine ⟨idle.shared ▸ sound.linked, fun u frame here => ?_⟩
  rw [idle.place] at here
  have kept := sound.kept u frame here
  cases frame with
  | poll fds endtime =>
    refine ⟨idle.shared ▸ kept.1, fun sleeps => ?_⟩
    have before : w.status u = .blocked := by
      rcases idle.asleep u sleeps with asleep | ⟨r, own⟩
      · exact asleep
      · cases own.symm.trans here
    exact idle.shared ▸ kept.2 before
  | accept a last =>
    have held : Acceptor w.shared a := kept
    exact show Acceptor v.shared a from idle.shared ▸ held
  | _ => trivial

end

theorem sound_of_start (first : (program T β).Start w) : Sound w := by
  have new : Node.New w.shared := first.shared
  refine ⟨⟨new.paired, fun a p state => ?_, fun a _ => ?_, fun l a inside => ?_, fun a _ => new.stream a,
    fun a d state => ?_,
    fun a d peer => ?_, fun d a inside => ?_⟩, fun u frame here => ?_⟩
  · rw [new.stream] at state
    cases state
  · rw [new.stream]
  · rw [new.stream] at inside
    cases inside
  · rw [new.datagram] at state
    cases state
  · rw [new.datagram] at peer
    cases peer
  · rw [new.datagram] at inside
    cases inside
  · cases (first.own u).symm.trans here

theorem sound_of_reach (reach : (machine T β).ReachBy Careful w) : Sound w := by
  refine reach.invariant (fun w first => sound_of_start (w := w) first) fun w act v sound careful run => ?_
  rcases Program.step_cases run with ⟨t, op, -, rfl, -, -, rfl⟩ | ⟨t, e, frame, rfl, -, -, inside, rfl⟩ | idle
  · exact sound.enter careful
  · exact sound.resume inside careful
  · exact sound.idle idle

/-- Nothing that a poll waits for comes without a wake. -/
theorem pollsAwake_of_careful (T β : Type*) [DecidableEq T] : PollsAwake T β Careful :=
  fun _ reach t sleeps fds endtime here =>
    ((sound_of_reach reach).kept t (.poll fds endtime) here).2 sleeps

def boundSocket : W Bool Nat :=
  ((machine Bool Nat).replay twoThreads
    [.dispatch false ⟨false, false⟩, .call false (.bind (.socket .datagram 0) true ['p'] none)]).getD twoThreads

/-- A poll of a bound socket sleeps until somebody sends. -/
def polled : W Bool Nat := enter false (.poll [(.socket .datagram 0, POLLIN)] (-1)) boundSocket

theorem awake_polled : polled.status false = .blocked ∧ Awake polled := by
  have bound : (machine Bool Nat).ReachBy Careful boundSocket :=
    .next (a := .call false (.bind (.socket .datagram 0) true ['p'] none))
      (.next (a := .dispatch false ⟨false, false⟩) (.start twoThreads_start) trivial rfl) trivial rfl
  have reach : (machine Bool Nat).ReachBy Careful polled := by
    refine .next (a := .call false (.poll [(.socket .datagram 0, POLLIN)] (-1))) bound (fun _ _ x inside => ?_) rfl
    obtain rfl := mem_singleton.mp inside
    exact ⟨Nat.succ_pos 2, rfl⟩
  exact ⟨rfl, pollsAwake_of_careful Bool Nat polled reach⟩

/-- The socket 1 is connected to the socket 0. -/
def joinedPair : W Bool Nat :=
  ((machine Bool Nat).replay twoThreads [.dispatch false ⟨false, false⟩,
    .call false (.bind (.socket .datagram 0) true ['p'] none),
    .call false (.connect (.socket .datagram 1) ['p'])]).getD twoThreads

/-- The queue of the socket 0 is full of `buf`. -/
def filledPair (buf : List Nat) : W Bool Nat :=
  (setSocket .datagram 0 { joinedPair.shared.sockets .datagram 0 with
    m_readBuffer := [⟨buf, 0⟩], m_readBufferSize := buf.length }
    joinedPair).ret false (.done buf.length)

/-- A poll for room in the full queue sleeps. -/
def sleepingPair (buf : List Nat) : W Bool Nat :=
  (addWaitQueue false (pollMask POLLOUT) (.socket .datagram 1) (filledPair buf)).sleep false
    (.poll [(.socket .datagram 1, POLLOUT)] none)

theorem filledPair_written {buf : List Nat} (length : buf.length = LocalStream.maxBuffer) :
    enter false (.write (.socket .datagram 1) buf) joinedPair = filledPair buf := by
  have fits : doRecvPacket .datagram 0 buf joinedPair =
    (setSocket .datagram 0 { joinedPair.shared.sockets .datagram 0 with
      m_readBuffer := [⟨buf, 0⟩], m_readBufferSize := buf.length } joinedPair, (buf.length : Int)) := by
    have size : (joinedPair.shared.sockets .datagram 0).m_readBufferSize = 0 := rfl
    have buffer : (joinedPair.shared.sockets .datagram 0).m_readBuffer = [] := rfl
    unfold doRecvPacket
    dsimp only
    rw [if_neg (by decide), if_neg (by decide), size, Nat.sub_zero, ← length, Nat.min_self,
      take_length, Nat.zero_add]
    rfl
  show datagramWrite false 1 buf joinedPair = _
  have writes : datagramWrite false 1 buf joinedPair =
      if (doRecvPacket .datagram 0 buf joinedPair).2 = -2
        then fails false .EPIPE (doRecvPacket .datagram 0 buf joinedPair).1
      else (doRecvPacket .datagram 0 buf joinedPair).1.ret false
        (.done (doRecvPacket .datagram 0 buf joinedPair).2) := rfl
  rw [writes, fits]
  rfl

theorem sleepingPair_polled {buf : List Nat} (length : buf.length = LocalStream.maxBuffer) :
    enter false (.poll [(.socket .datagram 1, POLLOUT)] (-1)) (filledPair buf) = sleepingPair buf := by
  have nothing : poll (filledPair buf).shared (.socket .datagram 1) = 0 := by
    have full : ¬ datagramCanSend (filledPair buf).shared 1 := by
      rw [datagramCanSend_iff]
      rintro (apart | ⟨p, peer, room⟩)
      · exact apart rfl
      · obtain rfl : 0 = p := Option.some.inj peer
        have size : ((filledPair buf).shared.sockets .datagram 0).m_readBufferSize = LocalStream.maxBuffer := length
        omega
    have unread : ¬ datagramCanRecv (filledPair buf).shared 1 := fun ready => ready
    have whole : ((filledPair buf).shared.datagrams 1).m_state ≠ .REMOTECLOSED := nofun
    show bit _ POLLIN ||| bit _ POLLOUT ||| bit _ POLLHUP = 0
    rw [bit, bit, bit, if_neg full, if_neg unread, if_neg whole]
    rfl
  have round : pollRound false true [(.socket .datagram 1, POLLOUT)] (filledPair buf) =
      (addWaitQueue false (pollMask POLLOUT) (.socket .datagram 1) (filledPair buf), [0]) := by
    have opened : Open (filledPair buf).shared (.socket .datagram 1) := ⟨Nat.lt_add_of_pos_right Nat.two_pos, rfl⟩
    have still : poll (addWaitQueue false (pollMask POLLOUT) (.socket .datagram 1) (filledPair buf)).shared
      (.socket .datagram 1) = 0 := nothing
    unfold pollRound
    simp only [if_true, still]
    rfl
  show afterRound false [(.socket .datagram 1, POLLOUT)] none
    (pollRound false true [(.socket .datagram 1, POLLOUT)] (filledPair buf)) = _
  rw [round]
  rfl

/-- A sender polls for room, the receiver takes 5 bytes, and nobody wakes the sender. -/
theorem not_pollsAwake : ¬ PollsAwake Bool Nat fun _ _ => True := by
  intro keeps
  obtain ⟨buf, length⟩ : ∃ buf : List Nat, buf.length = LocalStream.maxBuffer :=
    ⟨replicate LocalStream.maxBuffer 0, length_replicate⟩
  have run : (machine Bool Nat).replay twoThreads [.dispatch false ⟨false, false⟩,
      .call false (.bind (.socket .datagram 0) true ['p'] none),
      .call false (.connect (.socket .datagram 1) ['p'])] =
    some joinedPair := rfl
  have joined := (Machine.ReachBy.start twoThreads_start).replay (fun _ _ => trivial) run
  have filled : (machine Bool Nat).Reach (filledPair buf) :=
    .next (a := .call false (.write (.socket .datagram 1) buf)) joined trivial
      (congrArg some (filledPair_written length))
  have asleep : (machine Bool Nat).Reach (sleepingPair buf) :=
    .next (a := .call false (.poll [(.socket .datagram 1, POLLOUT)] (-1))) filled trivial
      (congrArg some (sleepingPair_polled length))
  have other : (machine Bool Nat).Reach ((sleepingPair buf).give true) :=
    .next (a := .dispatch true ⟨false, false⟩) asleep trivial rfl
  have taken : (machine Bool Nat).Reach (enter true (.read (.socket .datagram 0) 5)
    ((sleepingPair buf).give true)) :=
    .next (a := .call true (.read (.socket .datagram 0) 5)) other trivial rfl
  let w := (sleepingPair buf).give true
  have data : LocalStream.readData (w.shared.sockets .datagram 0).m_readBuffer 5 = ([⟨buf, 5⟩], buf.take 5) := by
    show LocalStream.readData [⟨buf, 0⟩] 5 = _
    unfold LocalStream.readData
    rw [length]
    rfl
  have after : enter true (.read (.socket .datagram 0) 5) w =
      (takeData .datagram 0 5 w).1.ret true (.done (takeData .datagram 0 5 w).2) := rfl
  have five : min 5 buf.length = 5 := by
    rw [length]
    rfl
  have size : ((takeData .datagram 0 5 w).1.shared.sockets .datagram 0).m_readBufferSize = buf.length - 5 := by
    show buf.length - (LocalStream.readData (w.shared.sockets .datagram 0).m_readBuffer 5).2.length = _
    rw [data, length_take, five]
  have unready := keeps _ taken false rfl _ _ rfl (.socket .datagram 1, POLLOUT) mem_cons_self
  refine unready (ready_datagram.mpr (.inr (.inl ⟨datagramCanSend_iff.mpr (.inr ⟨0, rfl, ?_⟩), by decide⟩)))
  show ((takeData .datagram 0 5 w).1.shared.sockets .datagram 0).m_readBufferSize < LocalStream.maxBuffer
  omega

end Dce.Readiness
