import Dce.Semaphore.Model

namespace Dce.Sem

open Coroutine List

variable {T : Type*} [DecidableEq T]

/-- No wakeup is lost in `s`: a semaphore with something to give and with waiters has one
that is already runnable. -/
def NoLostWakeup (s : W T) : Prop :=
  ∀ (i : Nat) (semaphore : Semaphore T), s.shared.semaphores[i]? = some semaphore →
    0 < semaphore.count → semaphore.waiting ≠ [] → ∃ t ∈ semaphore.waiting, s.Runnable t

def KeepsWakeups (T : Type*) [DecidableEq T] (C : W T → Act T Op Unit → Prop) : Prop :=
  ∀ s, (machine T).ReachBy C s → NoLostWakeup s

/-- Where some listed thread sleeps, more listed threads are awake than there is to give. -/
def Spare (s : W T) (semaphore : Semaphore T) : Prop :=
  Asleep s semaphore.waiting → semaphore.count < awake s semaphore.waiting

/-- A post wakes a thread whenever one sleeps, or finds one awake to spare; a timed wait
leaves at its time limit only where it is not needed for the count. -/
def Handed (s : W T) : Act T Op Unit → Prop
  | .call _ (.post sem) =>
    ∀ (i : Nat) (semaphore : Semaphore T) (front : T) (rest : List T),
      searchSemaphore sem s.shared = some i → s.shared.semaphores[i]? = some semaphore →
      semaphore.waiting = front :: rest → s.status front = .blocked ∨ Spare s semaphore
  | .dispatch t _ =>
    ∀ (i : Nat) (semaphore : Semaphore T), s.place t = .inside (.timed i) →
      s.shared.semaphores[i]? = some semaphore → s.timeLeft t = 0 → Spare s semaphore
  | _ => True

variable {s v : W T} {t u : T} {i j : Nat} {semaphore : Semaphore T}

theorem semInit_moves (sem pshared value : Nat) : World.Moves t s (semInit t sem pshared value s) := by
  unfold semInit
  split
  · exact .ret _ _ _
  · exact (moves_shared _).trans (.ret _ _ _)

theorem semPost_moves (sem : Nat) : World.Moves t s (semPost t sem s) := by
  unfold semPost
  split
  · exact .ret _ _ _
  · split
    · exact .ret _ _ _
    · split
      · exact (moves_shared _).trans (.ret _ _ _)
      · exact (moves_shared _).trans ((World.Moves.wake _ _ _).trans (.yieldAt _ _ _))

theorem semWait_moves (sem : Nat) : World.Moves t s (semWait t sem s) := by
  unfold semWait
  split
  · exact .ret _ _ _
  · exact waitLoop_moves

theorem semTrywait_moves (sem : Nat) : World.Moves t s (semTrywait t sem s) := by
  unfold semTrywait
  split
  · exact .ret _ _ _
  · split
    · exact .ret _ _ _
    · split
      · exact .ret _ _ _
      · exact (moves_shared _).trans (.ret _ _ _)

theorem semTimedwait_moves (sem abstime : Nat) : World.Moves t s (semTimedwait t sem abstime s) := by
  unfold semTimedwait
  split
  · exact .ret _ _ _
  · split
    · exact .ret _ _ _
    · split
      · exact (moves_shared _).trans (.ret _ _ _)
      · split
        · exact .ret _ _ _
        · exact timedLoop_moves _

theorem removeWaiting_moves : World.Moves t s (removeWaiting t i s) := by
  unfold removeWaiting
  split
  · exact .refl _ _
  · exact moves_shared _

theorem program_cooperative (T : Type*) [DecidableEq T] : (program T).Cooperative where
  enter t op s := by
    cases op with
    | init sem pshared value => exact semInit_moves sem pshared value
    | post sem => exact semPost_moves sem
    | wait sem => exact semWait_moves sem
    | trywait sem => exact semTrywait_moves sem
    | timedwait sem abstime => exact semTimedwait_moves sem abstime
  resume t frame e s := by
    change World.Moves t s (resume t frame e s)
    cases frame with
    | posted => exact .ret _ _ _
    | waits i => exact removeWaiting_moves.trans waitLoop_moves
    | timed i =>
      rw [resume]
      split
      · exact removeWaiting_moves.trans (.ret _ _ _)
      · exact removeWaiting_moves.trans (timedLoop_moves _)

theorem ret_good {r : Result} (good : Good s i) (own : ∃ r, s.place t = .own r) : Good (s.ret t r) i :=
  good.spare (World.Moves.ret s t r).toSpares rfl (good.away own)

section

variable (good : ∀ i, Good s i) (own : ∃ r, s.place t = .own r)
include good own

theorem take_good (found : s.shared.semaphores[j]? = some semaphore) (i : Nat) :
    Good ((setSemaphore j { semaphore with count := semaphore.count - 1 } s).ret t .success) i := by
  have moves : World.Moves t s ((setSemaphore j { semaphore with count := semaphore.count - 1 } s).ret t .success) :=
    (moves_shared _).trans (.ret _ _ _)
  have away := (good i).away own
  by_cases same : i = j
  · subst same
    have ok := good i semaphore found
    exact ok.toSemCore.take (away semaphore found) moves.toSpares
      (fun asleep => Nat.le_succ_of_le (ok.covered asleep)) (setSemaphore_self found)
  · exact (good i).spare moves.toSpares (setSemaphore_other same) away

theorem semInit_good (sem pshared value : Nat) (i : Nat) : Good (semInit t sem pshared value s) i := by
  unfold semInit
  split
  · exact ret_good (good i) own
  · intro semaphore found
    have spares := ((moves_shared (t := t) _).trans (World.Moves.ret (addSemaphore sem value s) t .success)).toSpares
    by_cases old : i < s.shared.semaphores.length
    · have same : ((addSemaphore sem value s).ret t .success).shared.semaphores[i]? = s.shared.semaphores[i]? := by
        simp [addSemaphore, getElem?_append_left old]
      exact (good i).spare spares same ((good i).away own) semaphore found
    · have new : semaphore.waiting = [] := by
        have mem : semaphore ∈ s.shared.semaphores ++ [⟨s.shared.nextSid, value % 2 ^ 32, []⟩] ∧
            s.shared.semaphores.length ≤ i := ⟨mem_of_getElem? found, by omega⟩
        have last : (s.shared.semaphores ++ [⟨s.shared.nextSid, value % 2 ^ 32, []⟩])[i]? = some semaphore := found
        rw [getElem?_append_right mem.2] at last
        have only := mem_of_getElem? last
        rw [mem_singleton.mp only]
      exact ⟨⟨by simp [new], by simp [new]⟩, fun ⟨u, inside, _⟩ => by simp [new] at inside⟩

omit good own in
theorem SemOk.post {front : T} {rest : List T} (ok : SemOk s i semaphore)
    (found : s.shared.semaphores[i]? = some semaphore) (away : t ∉ semaphore.waiting)
    (queue : semaphore.waiting = front :: rest)
    (handed : s.status front = .blocked ∨ Spare s semaphore) :
    Good (((setSemaphore i { semaphore with count := semaphore.incCount } s).wake front).yieldAt t .posted) i := by
  have shared : ∀ w : W T, w.shared = s.shared → (setSemaphore i
      { semaphore with count := semaphore.incCount } w).status = w.status := fun _ _ => rfl
  have moves : World.Moves t (s.wake front)
      (((setSemaphore i { semaphore with count := semaphore.incCount } s).wake front).yieldAt t .posted) := by
    have same : (setSemaphore i { semaphore with count := semaphore.incCount } s).wake front =
        setSemaphore i { semaphore with count := semaphore.incCount } (s.wake front) := by
      unfold World.wake
      simp only [shared s rfl]
      split <;> rfl
    rw [same]
    exact (moves_shared _).trans (.yieldAt _ _ _)
  have apart : ∀ u ∈ semaphore.waiting, u ≠ t := fun u mem same => away (same ▸ mem)
  have asleep := fun u (mem : u ∈ semaphore.waiting) => moves.asleep u (apart u mem)
  have first : front ∈ semaphore.waiting := by simp [queue]
  have bound : semaphore.incCount ≤ semaphore.count + 1 := Nat.mod_le _ _
  have counted : (((setSemaphore i { semaphore with count := semaphore.incCount } s).wake front).yieldAt t
      .posted).shared.semaphores[i]? = some { semaphore with count := semaphore.incCount } := by
    simpa using setSemaphore_self found
  refine good_of_some counted ⟨⟨ok.once, fun u mem => ?_⟩, fun ⟨u, mem, down⟩ => ?_⟩
  · rw [moves.place u (apart u mem), World.wake_place]
    exact ok.listed u mem
  · have slept : Asleep s semaphore.waiting :=
      ⟨u, mem, ((s.wake_status_blocked front u).mp (asleep u mem down)).2⟩
    have after : awake (s.wake front) semaphore.waiting ≤ _ := awake_mono asleep
    change semaphore.incCount ≤ awake _ semaphore.waiting
    rcases handed with down | spare
    · have before := ok.covered slept
      have more := awake_wake first down
      omega
    · have before := spare slept
      have same : awake s semaphore.waiting ≤ awake (s.wake front) semaphore.waiting :=
        awake_mono fun y _ h => ((s.wake_status_blocked front y).mp h).2
      omega

theorem semPost_good (sem : Nat) (handed : Handed s (.call t (.post sem))) (i : Nat) : Good (semPost t sem s) i := by
  have away := (good i).away own
  unfold semPost
  split
  · exact ret_good (good i) own
  next j which =>
    split
    · exact ret_good (good i) own
    next semaphore found =>
      split
      next queue =>
        by_cases same : i = j
        · subst same
          refine good_of_some (setSemaphore_self found) ⟨⟨(good i semaphore found).once, ?_⟩, ?_⟩
          · simp [queue]
          · rintro ⟨u, mem, -⟩
            simp [queue] at mem
        · exact (good i).spare ((moves_shared _).trans (.ret _ t _)).toSpares (setSemaphore_other same) away
      next front rest queue =>
        by_cases same : i = j
        · subst same
          exact (good i semaphore found).post found (away semaphore found) queue
            (handed i semaphore front rest which found queue)
        · refine (good i).spare (t := t) ?_ ?_ away
          · exact ((moves_shared _).trans ((World.Moves.wake _ _ _).trans (.yieldAt _ _ _))).toSpares
          · simpa using setSemaphore_other same

theorem semWait_good (sem i : Nat) : Good (semWait t sem s) i := by
  unfold semWait
  split
  · exact ret_good (good i) own
  next j which =>
    by_cases same : i = j
    · subst same
      cases found : s.shared.semaphores[i]? with
      | none =>
        have missing : waitLoop t i s = s.ret t (.failed .EINVAL) := by simp [waitLoop, found]
        rw [missing]
        exact ret_good (good i) own
      | some semaphore =>
        have ok := good i semaphore found
        exact waitLoop_good found ok.toSemCore ((good i).away own semaphore found)
          (fun asleep => Nat.le_succ_of_le (ok.covered asleep))
    · exact (good i).spare waitLoop_moves.toSpares (waitLoop_other same) ((good i).away own)

theorem semTrywait_good (sem i : Nat) : Good (semTrywait t sem s) i := by
  unfold semTrywait
  split
  · exact ret_good (good i) own
  · split
    · exact ret_good (good i) own
    next semaphore found =>
      split
      · exact ret_good (good i) own
      · exact take_good good own found i

theorem semTimedwait_good (sem abstime i : Nat) : Good (semTimedwait t sem abstime s) i := by
  unfold semTimedwait
  split
  · exact ret_good (good i) own
  next j which =>
    split
    · exact ret_good (good i) own
    next semaphore found =>
      split
      · exact take_good good own found i
      · split
        · exact ret_good (good i) own
        · by_cases same : i = j
          · subst same
            have ok := good i semaphore found
            exact timedLoop_good _ found ok.toSemCore ((good i).away own semaphore found)
              (fun asleep => Nat.le_succ_of_le (ok.covered asleep))
          · exact (good i).spare (timedLoop_moves _).toSpares (timedLoop_other _ same) ((good i).away own)

end

theorem removeWaiting_other (other : j ≠ i) : (removeWaiting t i s).shared.semaphores[j]? =
    s.shared.semaphores[j]? := by
  unfold removeWaiting
  split
  · rfl
  · exact setSemaphore_other other

omit [DecidableEq T] in
theorem Good.away_inside {f : Frame} (good : Good s i) (inside : s.place t = .inside f)
    (waits : f ≠ .waits i) (timed : f ≠ .timed i) :
    ∀ semaphore, s.shared.semaphores[i]? = some semaphore → t ∉ semaphore.waiting := by
  intro semaphore found mem
  rcases (good semaphore found).listed t mem with here | here <;> rw [inside] at here <;> cases here
  · exact waits rfl
  · exact timed rfl

theorem covered_rest (ok : SemOk s i semaphore)
    (asleep : Asleep (removeWaiting t i s) (restOf t semaphore).waiting) :
    semaphore.count ≤ awake (removeWaiting t i s) (restOf t semaphore).waiting + 1 := by
  have before := ok.covered (asleep_rest asleep)
  exact le_trans before (awake_rest ok.once)

theorem resume_good {f : Frame} (e : Unit) (good : ∀ i, Good s i) (inside : s.place t = .inside f)
    (timely : ∀ i semaphore, f = .timed i → s.shared.semaphores[i]? = some semaphore →
      s.timeLeft t = 0 → Spare s semaphore) (i : Nat) : Good (resume t f e s) i := by
  cases f with
  | posted =>
    exact (good i).spare (World.Moves.ret s t _).toSpares rfl
      ((good i).away_inside inside (by rintro ⟨⟩) (by rintro ⟨⟩))
  | waits j =>
    by_cases same : i = j
    · subst same
      cases found : s.shared.semaphores[i]? with
      | none =>
        intro semaphore found'
        simp [resume, removeWaiting, waitLoop, found] at found'
      | some semaphore =>
        obtain ⟨removed, core, away⟩ := removeWaiting_core (t := t) (good i) found
        exact waitLoop_good removed core away (covered_rest (good i semaphore found))
    · exact (good i).spare (removeWaiting_moves.trans waitLoop_moves).toSpares
        ((waitLoop_other same).trans (removeWaiting_other same))
        ((good i).away_inside inside (by simpa using Ne.symm same) (by rintro ⟨⟩))
  | timed j =>
    rw [resume]
    by_cases same : i = j
    · subst same
      cases found : s.shared.semaphores[i]? with
      | none =>
        intro semaphore found'
        split at found' <;> simp [removeWaiting, timedLoop, found] at found'
      | some semaphore =>
        obtain ⟨removed, core, away⟩ := removeWaiting_core (t := t) (good i) found
        split
        next late =>
          have spare := timely i semaphore rfl found late
          refine (good_of_some removed ⟨core, fun asleep => ?_⟩).spare
            (World.Moves.ret _ t _).toSpares rfl fun semaphore' found' => ?_
          · have before := spare (asleep_rest asleep)
            have after := awake_rest (s := s) (t := t) (i := i) (good i semaphore found).once
            change semaphore.count ≤ awake (removeWaiting t i s) (restOf t semaphore).waiting
            omega
          · cases Option.some.inj (removed.symm.trans found')
            exact away
        · exact timedLoop_good _ removed core away (covered_rest (good i semaphore found))
    · have away := (good i).away_inside inside (by rintro ⟨⟩) (by simpa using Ne.symm same)
      split
      · exact (good i).spare (removeWaiting_moves.trans (.ret _ _ _)).toSpares (removeWaiting_other same) away
      · exact (good i).spare (removeWaiting_moves.trans (timedLoop_moves _)).toSpares
          ((timedLoop_other _ same).trans (removeWaiting_other same)) away

theorem enter_good {op : Op} (good : ∀ i, Good s i) (own : ∃ r, s.place t = .own r)
    (handed : Handed s (.call t op)) (i : Nat) : Good (enter t op s) i := by
  cases op with
  | init sem pshared value => exact semInit_good good own sem pshared value i
  | post sem => exact semPost_good good own sem handed i
  | wait sem => exact semWait_good good own sem i
  | trywait sem => exact semTrywait_good good own sem i
  | timedwait sem abstime => exact semTimedwait_good good own sem abstime i

omit [DecidableEq T] in
theorem Good.idle (good : Good s i) (idle : Program.Idle s v) : Good v i := by
  intro semaphore found
  rw [idle.shared] at found
  have ok := good semaphore found
  have asleep : ∀ u ∈ semaphore.waiting, v.status u = .blocked → s.status u = .blocked := by
    intro u mem down
    rcases idle.asleep u down with before | ⟨r, own⟩
    · exact before
    · rcases ok.listed u mem with inside | inside <;> rw [own] at inside <;> cases inside
  refine ⟨⟨ok.once, fun u mem => idle.place ▸ ok.listed u mem⟩, fun ⟨u, mem, down⟩ => ?_⟩
  exact le_trans (ok.covered ⟨u, mem, asleep u mem down⟩) (awake_mono asleep)

theorem good_of_reach (reach : (machine T).ReachBy Handed s) : ∀ i, Good s i := by
  refine reach.invariant
    (I := fun s => ∀ i, Good s i) (fun s first i semaphore found => ?_) fun s a v good handed run i => ?_
  · have none : s.shared.semaphores = [] := first.shared
    simp [none] at found
  · rcases Program.step_cases run with
      ⟨t, op, r, rfl, -, own, rfl⟩ | ⟨t, e, f, rfl, -, ready, inside, rfl⟩ | idle
    · exact enter_good good ⟨r, own⟩ handed i
    · have timely : ∀ i semaphore, f = .timed i → (s.give t).shared.semaphores[i]? = some semaphore →
          (s.give t).timeLeft t = 0 → Spare (s.give t) semaphore := by
        intro i semaphore frame found late ⟨u, mem, down⟩
        have other : u ≠ t := fun same => by simp [same] at down
        have spare := handed i semaphore (frame ▸ inside) found late ⟨u, mem, by simpa [other] using down⟩
        refine lt_of_lt_of_le spare (awake_mono fun x _ down => ?_)
        by_cases same : x = t
        · simp [same] at down
        · simpa [same] using down
      exact resume_good e (fun i => (good i).give) inside timely i
    · exact (good i).idle idle

/-- No wakeup is lost in the runs where each post wakes a sleeping waiter if there is one. -/
theorem keepsWakeups_of_handed (T : Type*) [DecidableEq T] : KeepsWakeups T Handed := by
  intro s reach i semaphore found positive some
  have ok := good_of_reach reach i semaphore found
  have alive : ∀ u ∈ semaphore.waiting, s.status u ≠ .dead := fun u member => by
    rcases ok.listed u member with inside | inside
    · exact (program_cooperative T).inside_alive reach inside
    · exact (program_cooperative T).inside_alive reach inside
  by_cases asleep : Asleep s semaphore.waiting
  · have enough := ok.covered asleep
    have up : 0 < awake s semaphore.waiting := by omega
    obtain ⟨u, member, awake⟩ := countP_pos_iff.mp up
    exact ⟨u, member, by simpa using awake, alive u member⟩
  · obtain ⟨u, rest, queue⟩ := exists_cons_of_ne_nil some
    have member : u ∈ semaphore.waiting := by simp [queue]
    exact ⟨u, member, fun down => asleep ⟨u, member, down⟩, alive u member⟩

/-- Four threads: two that are going to wait and two that are going to post. -/
def fourThreads : W (Fin 4) where
  current := none
  status _ := .active
  place _ := .own none
  now := 0
  wakeAt _ := none
  shared := ⟨[], 3, fun _ => 0⟩

theorem fourThreads_start : (machine (Fin 4)).init fourThreads where
  main := rfl
  ready _ := .inl rfl
  own _ := rfl
  shared := rfl

/-- Threads `0` and `1` wait, and `2` and `3` both post before `0` runs again. -/
def twoPosts : List (Act (Fin 4) Op Unit) :=
  [.dispatch 2 (), .call 2 (.init 0 0 0), .yield 2, .dispatch 0 (), .call 0 (.wait 0),
    .dispatch 1 (), .call 1 (.wait 0), .dispatch 3 (), .yield 3, .dispatch 2 (), .call 2 (.post 0),
    .dispatch 3 (), .call 3 (.post 0), .dispatch 0 ()]

def forgotten : W (Fin 4) := ((machine (Fin 4)).replay fourThreads twoPosts).getD fourThreads

/-- The second post wakes a thread that was awake, and `1` sleeps beside a count of one. -/
theorem not_keepsWakeups_of_posts : ¬ KeepsWakeups (Fin 4) fun _ _ => True := by
  intro keeps
  have run : (machine (Fin 4)).replay fourThreads twoPosts = some forgotten := rfl
  have reach : (machine (Fin 4)).Reach forgotten :=
    (Machine.ReachBy.start fourThreads_start).replay (fun _ _ => trivial) run
  have found : forgotten.shared.semaphores[0]? = some ⟨3, 1, [1]⟩ := rfl
  obtain ⟨t, member, up, -⟩ := keeps forgotten reach 0 _ found Nat.one_pos nofun
  have only : t = 1 := mem_singleton.mp member
  exact up (only ▸ rfl)

end Dce.Sem
