import Dce.Threads.Sound

/- No call uses a thread that has exited, or one that is gone, as long as none is chosen from their list. -/

namespace Dce.Threads

open Function List Option

open Signals (sigaddset sigismember)

/-- An exited thread that takes the signal stands in the list behind a blocked one that takes it. -/
def Candidates (signum : Nat) (s : Process) (l : List Nat) : Prop :=
  ∀ l₁ z l₂ thread, l = l₁ ++ z :: l₂ → s.heap z = some thread → thread.task = none →
    sigismember thread.signalMask signum = 0 →
    ∃ b ∈ l₁, ∃ other, s.heap b = some other ∧ sigismember other.signalMask signum = 0 ∧ other.task = some .BLOCKED

/-- A thread is made while the first one of the list has not exited, none exits from a handler that
runs in a join or in a wait, and no exited thread is sent a signal that it does not block. -/
def Careful (s : Process) : Label → Prop
  | .create _ => ∀ first thread, s.threads.head? = some first → s.heap first = some thread → thread.task ≠ none
  | .exit a _ => ∀ thread, s.heap a = some thread → ∀ frame ∈ thread.frames, frame.blocks = false
  | .kill _ tid sig => ∀ z thread, s.heap z = some thread → thread.tid = tid → thread.task = none →
    sigismember thread.signalMask sig ≠ 0
  | .signal signum => Candidates signum s s.threads
  | .sigpipe _ => Candidates SIGPIPE s s.threads
  | _ => True

/-- A waiter that waits is that of a thread in its wait. -/
def Life.Waiting (l : Life) : Prop :=
  ∀ w a, l.waiting w = some a → ∃ u, l.records a = some u ∧ .wait w ∈ u.calls

namespace Life

variable {l l' : Life} {label : Label} {outcome : Outcome} (waiting : Waiting l)
include waiting

theorem Waiting.wake (a : Nat) : Waiting (l.wake a) := by
  intro w b hb
  obtain ⟨u, hu, hmem⟩ := waiting w b hb
  rcases wake_eq a l with hsame | ⟨x, hx, hset⟩
  · exact ⟨u, by rw [hsame]; exact hu, hmem⟩
  · rw [hset, set_records]
    split
    next hba =>
      rw [hba, hx] at hu
      cases hu
      exact ⟨_, rfl, hmem⟩
    · exact ⟨u, hu, hmem⟩

theorem Waiting.set {a : Nat} {r : Record}
    (same : ∀ u w, l.records a = some u → .wait w ∈ u.calls → .wait w ∈ r.calls) : Waiting (l.set a r) := by
  intro w b hb
  obtain ⟨u, hu, hmem⟩ := waiting w b hb
  rw [set_records]
  split
  next hba => exact ⟨r, rfl, same u w (hba ▸ hu) hmem⟩
  · exact ⟨u, hu, hmem⟩

theorem Waiting.delete {a : Nat} {r : Record} (known : l.records a = some r)
    (outside : ∀ w, .wait w ∉ r.calls) : Waiting (l.delete a) := by
  intro w b hb
  obtain ⟨u, hu, hmem⟩ := waiting w b hb
  rw [delete_records]
  split
  next hba =>
    rw [hba, known] at hu
    cases hu
    exact absurd hmem (outside w)
  · exact ⟨u, hu, hmem⟩

theorem Waiting.step (sound : Sound l)
    (leaves : ∀ a v u, label = .exit a v → l.records a = some u → u.calls = []) (step : l.Step label outcome l') :
    l'.deleted = true ∨ Waiting l' := by
  have gone : ∀ t r, l.records t = some r → r.hasExitValue = true → r.calls = [] := fun t r hr hended =>
    ((sound.exited t r hr).2 ((sound.exited t r hr).1.mpr hended)).1
  cases step with
  | same => exact .inr waiting
  | wakes a => exact .inr (waiting.wake a)
  | @creates a tid unused =>
    refine .inr fun w b hb => ?_
    obtain ⟨u, hu, hmem⟩ := waiting w b hb
    refine ⟨u, ?_, hmem⟩
    rw [born_records, if_neg (sound.fresh b u hu).ne, hu]
  | tears => exact .inl rfl
  | @exits a v r known =>
    have hcalls := leaves a v r rfl known
    have hwoken : Waiting (l.wakeJoiner r.joinWaiter) := by
      cases r.joinWaiter with
      | none => exact waiting
      | some j => exact waiting.wake j
    refine .inr (hwoken.set fun u w hu hmem => ?_)
    obtain ⟨hknown, -⟩ := sound.wakeJoiner_known known
    cases hknown.symm.trans hu
    rw [hcalls] at hmem
    cases hmem
  | @vanishes a v r known =>
    have hcalls := leaves a v r rfl known
    exact .inr (waiting.delete known (by simp [hcalls]))
  | @joins a tid t u r known alive differ target =>
    refine .inr ((waiting.set fun x w hx hmem => ?_).set fun x w hx hmem => ?_)
    · cases hx.symm.trans target
      exact hmem
    · rw [set_records, if_neg differ.symm, known] at hx
      cases hx
      exact mem_cons_of_mem _ hmem
  | @reaps a tid t r target free joinable ended =>
    exact .inr (waiting.delete target (by simp [gone t r target ended]))
  | @sleepsAgain a t u r rest known alive inside target =>
    have hdiffer := (sound.joining a t u known (inside ▸ mem_cons_self)).1
    refine .inr ((waiting.set fun x w hx hmem => ?_).set fun x w hx hmem => ?_)
    · cases hx.symm.trans target
      exact hmem
    · rw [set_records, if_neg hdiffer.symm, known] at hx
      cases hx
      exact hmem
  | @returns a t u r rest known alive runs inside target joinable ended =>
    have hdiffer := (sound.joining a t u known (inside ▸ mem_cons_self)).1
    have hleft : Waiting (l.set a { u with calls := rest }) := by
      refine waiting.set fun x w hx hmem => ?_
      cases hx.symm.trans known
      rw [inside] at hmem
      simpa using hmem
    refine .inr (hleft.delete (r := r) ?_ (by simp [gone t r target ended]))
    rw [set_records, if_neg hdiffer, target]
  | @detaches a tid t r target =>
    refine .inr (waiting.set fun x w hx hmem => ?_)
    cases hx.symm.trans target
    exact hmem
  | @waits a u w known =>
    refine .inr fun w' b hb => ?_
    have hset : Waiting (l.set a { u with asleep := true, calls := .wait w :: u.calls }) := by
      refine waiting.set fun x w' hx hmem => ?_
      cases hx.symm.trans known
      exact mem_cons_of_mem _ hmem
    dsimp only at hb
    rcases eq_or_ne w' w with rfl | hne
    · rw [update_self] at hb
      cases hb
      exact ⟨_, set_records.trans (if_pos rfl), mem_cons_self⟩
    · rw [update_of_ne hne] at hb
      exact hset w' b hb
  | @waited a w u rest o known alive runs inside =>
    refine .inr fun w' b hb => ?_
    dsimp only at hb
    rcases eq_or_ne w' w with rfl | hne
    · rw [update_self] at hb
      cases hb
    · rw [update_of_ne hne] at hb
      obtain ⟨x, hx, hmem⟩ := waiting w' b hb
      by_cases hba : b = a
      · rw [hba] at hx ⊢
        cases hx.symm.trans known
        refine ⟨_, set_records.trans (if_pos rfl), ?_⟩
        rw [inside] at hmem
        simpa [hne] using hmem
      · exact ⟨x, set_records.trans ((if_neg hba).trans hx), hmem⟩

end Life

section

variable {s : Process} {a b : Nat} {thread : Thread}

def Alive (a : Nat) (s : Process) : Prop := ∃ thread, s.heap a = some thread ∧ thread.task ≠ none

theorem m_state_total (htask : thread.task ≠ none) : ∃ state, m_state thread = .ok state ∧
    thread.task = some state := by
  obtain ⟨state, hstate⟩ := ne_none_iff_exists'.mp htask
  exact ⟨state, by rw [m_state, hstate], hstate⟩

theorem Wakeup_total (alive : Alive a s) : ∃ s', Wakeup a s = .ok s' := by
  obtain ⟨thread, hthread, htask⟩ := alive
  obtain ⟨state, hstate, -⟩ := m_state_total htask
  exact ⟨_, by rw [Wakeup, deref_eq hthread, ok_bind, hstate]; rfl⟩

theorem wakeIfBlocked_total (alive : Alive a s) : ∃ s', wakeIfBlocked a s = .ok s' := by
  obtain ⟨s', hwake⟩ := Wakeup_total alive
  obtain ⟨thread, hthread, htask⟩ := alive
  obtain ⟨state, hstate, -⟩ := m_state_total htask
  rw [wakeIfBlocked, deref_eq hthread, ok_bind, hstate, ok_bind]
  split
  · exact ⟨s', hwake⟩
  · exact ⟨s, rfl⟩

theorem DeleteThread_total (hthread : s.heap a = some thread) : ∃ s', DeleteThread a s = .ok s' :=
  ⟨_, by rw [DeleteThread, deref_eq hthread, ok_bind]; rfl⟩

theorem wakeCandidate_total {signum : Nat} {l : List Nat} (listed : ∀ i ∈ l, s.heap i ≠ none)
    (candidates : Candidates signum s l) : ∃ s', wakeCandidate signum l s = .ok s' := by
  induction l with
  | nil => exact ⟨s, rfl⟩
  | cons i rest ih =>
    obtain ⟨thread, hthread⟩ := ne_none_iff_exists'.mp (listed i mem_cons_self)
    have later : (sigismember thread.signalMask signum = 0 → thread.task ≠ some .BLOCKED) →
        ∃ s', wakeCandidate signum rest s = .ok s' := by
      intro hpasses
      refine ih (fun j hj => listed j (mem_cons_of_mem i hj)) fun l₁ z l₂ other hsplit hz htask hunmasked => ?_
      obtain ⟨b, hb, waker, hwaker, htakes, hblocked⟩ :=
        candidates (i :: l₁) z l₂ other (by rw [hsplit]; rfl) hz htask hunmasked
      rcases mem_cons.mp hb with rfl | hb
      · cases hthread.symm.trans hwaker
        exact absurd hblocked (hpasses htakes)
      · exact ⟨b, hb, waker, hwaker, htakes, hblocked⟩
    rw [wakeCandidate, deref_eq hthread, ok_bind]
    split
    next hmasked => exact later fun hunmasked => absurd hunmasked hmasked
    next hunmasked =>
      have hunmasked := not_not.mp hunmasked
      have htask : thread.task ≠ none := by
        intro htask
        obtain ⟨b, hb, -⟩ := candidates [] i rest thread rfl hthread htask hunmasked
        cases hb
      obtain ⟨state, hstate, htaskstate⟩ := m_state_total htask
      rw [hstate, ok_bind]
      split
      · exact Wakeup_total ⟨thread, hthread, htask⟩
      next hactive =>
        refine later fun _ hblocked => hactive ?_
        exact some.inj (htaskstate.symm.trans hblocked)

theorem heap_eq_none : s.heap a = none ↔ s.life.records a = none := map_eq_none_iff.symm

theorem deref_total {s' : Process} (hlife : s'.life = s.life ∨ ∃ b, s'.life = s.life.wake b)
    (hthread : s.heap a = some thread) :
    ∃ thread', deref a s' = .ok thread' := by
  have hknown : s'.heap a ≠ none := by
    rw [ne_eq, heap_eq_none]
    rcases hlife with hsame | ⟨b, hwake⟩
    · rw [hsame, life_records hthread]
      simp
    · rw [hwake]
      rcases Life.wake_eq b s.life with hsame | ⟨u, hu, hset⟩
      · rw [hsame, life_records hthread]
        simp
      · rw [hset, Life.set_records]
        split
        · simp
        · simp [life_records hthread]
  obtain ⟨thread', hthread'⟩ := ne_none_iff_exists'.mp hknown
  exact ⟨thread', deref_eq hthread'⟩

theorem alive_of_calls (sound : Life.Sound s.life) {u : Record} {frame : Frame} (hu : s.life.records a = some u)
    (hmem : frame ∈ u.calls) : Alive a s := by
  obtain ⟨thread, hthread, rfl⟩ := map_eq_some_iff.mp hu
  refine ⟨thread, hthread, fun htask => ?_⟩
  have hnone := ((sound.exited a _ hu).2 (isNone_iff_eq_none.mpr htask)).1
  rw [hnone] at hmem
  cases hmem

theorem dce_pthread_exit_total (sound : Life.Sound s.life) (hthread : s.heap a = some thread) (v : Nat) :
    ∃ s', dce_pthread_exit a v s = .ok s' := by
  rw [dce_pthread_exit]
  split
  · exact ⟨_, rfl⟩
  · rw [deref_eq hthread, ok_bind]
    split
    · exact DeleteThread_total hthread
    · let ended : Thread := { thread with hasExitValue := true, exitValue := v }
      obtain ⟨s₁, hwake⟩ : ∃ s₁, wakeJoiner thread.joinWaiter (s.put a ended) = .ok s₁ := by
        cases hj : thread.joinWaiter with
        | none => exact ⟨_, rfl⟩
        | some j =>
          obtain ⟨u, hu, hmem⟩ := sound.joiner a j _ (life_records hthread) hj
          have hdiffer := (sound.joining j a u hu hmem).1
          obtain ⟨joiner, hjoiner, htask⟩ := alive_of_calls sound hu hmem
          exact Wakeup_total ⟨joiner, (put_other hdiffer.symm).trans hjoiner, htask⟩
      have hlife : s₁.life = (s.put a ended).life ∨ ∃ b, s₁.life = (s.put a ended).life.wake b := by
        rw [wakeJoiner_life hwake]
        cases thread.joinWaiter with
        | none => exact .inl rfl
        | some j => exact .inr ⟨j, rfl⟩
      obtain ⟨last, hlast⟩ := deref_total hlife put_self
      refine ⟨s₁.put a { last with task := none, frames := [] }, ?_⟩
      dsimp only
      rw [hwake, ok_bind, hlast]
      rfl

/-- A result that is no use of a null task, nor of a thread that is gone. -/
def Harmless {α : Type} (r : Except Fault α) : Prop := ∀ fault, r = .error fault → fault ≠ .nullTask ∧ fault ≠ .freed

theorem harmless_of_total {α : Type} {r : Except Fault α} (total : ∃ v, r = .ok v) : Harmless r := by
  obtain ⟨v, rfl⟩ := total
  intro fault h
  cases h

theorem Harmless.bind {α β : Type} {r : Except Fault α} {f : α → Except Fault β} (first : Harmless r)
    (next : ∀ v, r = .ok v → Harmless (f v)) : Harmless (r >>= f) := by
  cases r with
  | error fault =>
    rintro fault' h
    exact Except.error.inj h ▸ first fault rfl
  | ok v => exact next v rfl

theorem harmless_pure {α : Type} (v : α) : Harmless (pure v : Except Fault α) := harmless_of_total ⟨v, rfl⟩

theorem Harmless.silently {r : Except Fault Process} (harmless : Harmless r) : Harmless (silently r) := by
  cases r with
  | error fault =>
    rintro fault' h
    exact Except.error.inj h ▸ harmless fault rfl
  | ok s => exact harmless_pure _

theorem harmless_deref (hthread : s.heap a = some thread) : Harmless (deref a s) :=
  harmless_of_total ⟨thread, deref_eq hthread⟩

theorem harmless_orFatal {α : Type} (x : Option α) : Harmless (orFatal x) := by
  cases x with
  | none =>
    intro fault h
    exact Except.error.inj h ▸ ⟨by decide, by decide⟩
  | some v => exact harmless_pure v

theorem harmless_CreateThread : Harmless (CreateThread s) :=
  (harmless_orFatal _).bind fun _ _ => harmless_pure _

theorem harmless_create (sound : Life.Sound s.life) (hthread : s.heap a = some thread)
    (careful : Careful s (.create a)) : Harmless (dce_pthread_create a s) := by
  refine harmless_CreateThread.bind fun ⟨new, s₁⟩ hcreate => ?_
  obtain ⟨tid, -, rfl, hheap, hthreads, -⟩ := CreateThread_ok hcreate
  have hfresh : ∀ b thread', s.heap b = some thread' → b ≠ s.nextThread :=
    fun b thread' hb => (sound.fresh b _ (life_records hb)).ne
  have hold : ∀ b thread', s.heap b = some thread' → s₁.heap b = some thread' := by
    intro b thread' hb
    rw [hheap, update_of_ne (hfresh b thread' hb), hb]
  have hnew : s₁.heap s.nextThread = some (.new tid) := by rw [hheap, update_self]
  have hmem : a ∈ s.threads := (sound.listed a).mpr (by simp [life_records hthread])
  obtain ⟨first, hhead⟩ : ∃ first, s.threads.head? = some first := by
    cases hl : s.threads with
    | nil => rw [hl] at hmem; cases hmem
    | cons first rest => exact ⟨first, rfl⟩
  have hheadD : s₁.threads.headD s.nextThread = first := by
    rw [hthreads, headD_eq_head?_getD, head?_append, hhead]
    rfl
  have hlisted : s.life.records first ≠ none := (sound.listed first).mp (mem_of_mem_head? hhead)
  obtain ⟨template, htemplate⟩ := ne_none_iff_exists'.mp (fun h => hlisted (heap_eq_none.mp h))
  obtain ⟨state, hstate, -⟩ := m_state_total (careful first template hhead htemplate)
  dsimp only
  rw [hheadD, deref_eq (hold _ _ htemplate), ok_bind, hstate, deref_eq hnew]
  have hself : (s₁.put s.nextThread { Thread.new tid with task := some .ACTIVE }).heap a = some thread :=
    (put_other (hfresh a thread hthread)).trans (hold a thread hthread)
  exact (harmless_deref hself).bind fun _ _ => harmless_pure _

theorem harmless_joinLoop {t : Nat} {target : Thread} (htarget : s.heap t = some target)
    (hthread : s.heap a = some thread) :
    Harmless (joinLoop a t s) := by
  refine (harmless_deref htarget).bind fun found hfound => ?_
  split
  · split
    · intro fault h
      exact Except.error.inj h ▸ ⟨by decide, by decide⟩
    · exact (harmless_of_total (DeleteThread_total put_self)).bind fun _ _ => harmless_pure _
  · have hself : ∃ self, (s.put t { found with joinWaiter := some a }).heap a = some self := by
      by_cases hat : a = t
      · exact ⟨_, by rw [hat, put_self]⟩
      · exact ⟨thread, (put_other hat).trans hthread⟩
    obtain ⟨self, hself⟩ := hself
    exact (harmless_deref hself).bind fun _ _ => harmless_pure _

theorem harmless_join (hthread : s.heap a = some thread) (tid : Nat) : Harmless (dce_pthread_join a tid s) := by
  refine (harmless_deref hthread).bind fun self _ => ?_
  split
  · exact harmless_pure _
  · split
    case h_1 => exact harmless_pure _
    case h_2 t hsearch =>
      obtain ⟨-, target, htarget, -⟩ := SearchThread_some hsearch
      refine (harmless_deref htarget).bind fun _ _ => ?_
      split
      · exact harmless_pure _
      · exact harmless_joinLoop htarget hthread

theorem harmless_detach (tid : Nat) : Harmless (dce_pthread_detach tid s) := by
  rw [dce_pthread_detach]
  split
  case h_1 => exact harmless_pure _
  case h_2 t hsearch =>
    obtain ⟨-, target, htarget, -⟩ := SearchThread_some hsearch
    refine (harmless_deref htarget).bind fun found _ => ?_
    split
    · exact harmless_pure _
    · split <;> exact harmless_pure _

theorem harmless_kill {tid sig : Nat} (careful : Careful s (.kill a tid sig)) :
    Harmless (dce_pthread_kill tid sig s) := by
  rw [dce_pthread_kill]
  split
  case h_1 => exact harmless_pure _
  case h_2 t hsearch =>
    obtain ⟨-, target, htarget, htid⟩ := SearchThread_some hsearch
    refine (harmless_deref htarget).bind fun found hfound => ?_
    cases htarget.symm.trans (deref_ok hfound)
    split
    · exact harmless_pure _
    next hunmasked =>
      have halive : target.task ≠ none := fun htask => hunmasked (careful t target htarget htid htask)
      refine (harmless_of_total (wakeIfBlocked_total ?_)).bind fun _ _ => harmless_pure _
      exact ⟨{ target with pendingSignals := sigaddset target.pendingSignals sig }, put_self, halive⟩

variable (sound : Life.Sound s.life)
include sound

theorem UtilsSendSignal_total {signum : Nat} (candidates : Candidates signum s s.threads) :
    ∃ s', UtilsSendSignal signum s = .ok s' := by
  refine wakeCandidate_total
    (s := { s with pendingSignals := sigaddset s.pendingSignals signum }) (fun i hi => ?_) candidates
  exact fun hnone => (sound.listed i).mp hi (heap_eq_none.mp hnone)

omit sound in
theorem harmless_UtilsDoSignal {self : Thread} {rest : List Frame} {storage i : Nat} {stage : Stage} :
    Harmless (UtilsDoSignal a self rest storage i stage s) := by
  have calls : ∀ frames handler, Harmless (invoke a self frames s handler) := by
    intro frames handler
    cases handler with
    | SigkillHandler => exact harmless_pure _
    | SigabrtHandler => exact harmless_pure _
    | function address =>
      rw [invoke]
      split
      · intro fault h
        exact Except.error.inj h ▸ ⟨by decide, by decide⟩
      · exact harmless_pure _
  rw [UtilsDoSignal]
  split
  · intro fault h
    exact Except.error.inj h ▸ ⟨by decide, by decide⟩
  · split
    case h_1 => exact harmless_pure _
    case h_2 entry _ =>
      cases stage with
      | mask => rw [deliver]; split <;> exact harmless_pure _
      | thread =>
        rw [deliver]
        split
        · exact calls _ _
        · exact harmless_pure _
      | inThread => exact harmless_pure _
      | process =>
        rw [deliver]
        split
        · exact calls _ _
        · exact harmless_pure _
      | inProcess => exact harmless_pure _

theorem harmless_proceed (hthread : s.heap a = some thread) {r : Except Fault (Process × Outcome)}
    (h : proceed a thread s thread.frames = some r) : Harmless r := by
  cases hframes : thread.frames with
  | nil =>
    rw [hframes] at h
    exact absurd h (by simp [proceed])
  | cons frame rest =>
    rw [hframes] at h
    cases frame with
    | join t =>
      cases h
      have hjoins : .join t ∈ thread.record.calls := mem_calls.mpr (hframes ▸ mem_cons_self)
      obtain ⟨ne, record, hrecord, -⟩ := sound.joining a t _ (life_records hthread) hjoins
      obtain ⟨target, htarget, -⟩ := map_eq_some_iff.mp hrecord
      have hleft : (s.put a { thread with frames := rest }).heap t = some target := (put_other ne).trans htarget
      refine (harmless_deref hleft).bind fun _ _ => ?_
      have hself (new : Thread) : ((s.put a { thread with frames := rest }).put t new).heap a =
          some { thread with frames := rest } := by
        rw [put_other ne.symm, put_self]
      exact harmless_joinLoop put_self (hself _)
    | wait w => exact some.inj h ▸ harmless_pure _
    | signals storage i stage => exact some.inj h ▸ harmless_UtilsDoSignal.bind fun _ _ => harmless_pure _

theorem harmless_call (waiting : Life.Waiting s.life) {label : Label} (careful : Careful s label)
    {r : Except Fault (Process × Outcome)} (h : call s label = some r) : Harmless r := by
  cases label with
  | schedule b =>
    obtain ⟨thread, -, h⟩ := bind_eq_some_iff.mp h
    split at h
    case isTrue => exact some.inj h ▸ harmless_pure _
    case isFalse => cases h
  | proceed b =>
    obtain ⟨self, hself, h⟩ := bind_eq_some_iff.mp h
    exact harmless_proceed sound (running_some hself).1 h
  | create b =>
    obtain ⟨self, hself, rfl⟩ := map_eq_some_iff.mp h
    exact (harmless_create sound (caller_some hself).1 careful).silently
  | exit b value =>
    obtain ⟨self, hself, rfl⟩ := map_eq_some_iff.mp h
    exact (harmless_of_total (dce_pthread_exit_total sound (caller_some hself).1 value)).silently
  | dce_exit b =>
    obtain ⟨self, -, rfl⟩ := map_eq_some_iff.mp h
    exact harmless_pure _
  | join b tid =>
    obtain ⟨self, hself, rfl⟩ := map_eq_some_iff.mp h
    exact harmless_join (caller_some hself).1 tid
  | detach b tid =>
    obtain ⟨self, -, rfl⟩ := map_eq_some_iff.mp h
    exact harmless_detach tid
  | kill b tid sig =>
    obtain ⟨self, -, rfl⟩ := map_eq_some_iff.mp h
    exact harmless_kill careful
  | sigprocmask b how set =>
    obtain ⟨self, hself, rfl⟩ := map_eq_some_iff.mp h
    refine (harmless_deref (caller_some hself).1).bind fun _ _ => ?_
    split
    case isTrue => exact harmless_pure _
    case isFalse => split <;> exact harmless_pure _
  | sigaction b signum flags mask handler moves =>
    obtain ⟨self, -, rfl⟩ := map_eq_some_iff.mp h
    exact harmless_pure _
  | sigpipe b =>
    obtain ⟨self, hself, rfl⟩ := map_eq_some_iff.mp h
    refine (harmless_of_total (UtilsSendSignal_total sound careful)).bind fun s₁ hsend => ?_
    obtain ⟨last, hlast⟩ := deref_total (UtilsSendSignal_life hsend) (caller_some hself).1
    exact (harmless_of_total ⟨last, hlast⟩).bind fun _ _ => (harmless_pure _).silently
  | wait b =>
    obtain ⟨self, hself, rfl⟩ := map_eq_some_iff.mp h
    obtain ⟨s', hwait⟩ : ∃ s', wait b s = .ok s' := ⟨_, by rw [wait, deref_eq (caller_some hself).1]; rfl⟩
    rw [hwait]
    exact harmless_pure _
  | yield b =>
    obtain ⟨self, -, rfl⟩ := map_eq_some_iff.mp h
    exact harmless_pure _
  | signal signum =>
    rw [call] at h
    split at h
    case isTrue => exact some.inj h ▸ (harmless_of_total (UtilsSendSignal_total sound careful)).silently
    case isFalse => cases h
  | wakeup waiter =>
    rw [call] at h
    split at h
    case isFalse => cases h
    case isTrue =>
      cases h
      refine Harmless.silently ?_
      rw [wakeupWaiter]
      split
      case h_1 => exact harmless_pure _
      case h_2 b hwaiting =>
        obtain ⟨u, hu, hmem⟩ := waiting waiter b hwaiting
        exact harmless_of_total (wakeIfBlocked_total (alive_of_calls sound hu hmem))
  | timeout b =>
    obtain ⟨thread, hthread, h⟩ := bind_eq_some_iff.mp h
    split at h
    case isFalse => cases h
    case isTrue hblocked =>
      have halive : Alive b s := ⟨thread, hthread, by simp [hblocked.1]⟩
      exact some.inj h ▸ (harmless_of_total (Wakeup_total halive)).silently

end

section

variable {s : Process} {a : Nat}

/-- What a call leaves where it meets no fault. -/
def Leaving {α : Type} (p : α → Prop) (r : Except Fault α) : Prop := ∀ v, r = .ok v → p v

theorem Leaving.bind {α β : Type} {p : α → Prop} {q : β → Prop} {r : Except Fault α} {f : α → Except Fault β}
    (first : Leaving p r) (next : ∀ v, p v → Leaving q (f v)) : Leaving q (r >>= f) := by
  intro w h
  obtain ⟨v, hv, hw⟩ := bind_ok h
  exact next v (first v hv) w hw

theorem leaving_ok {α : Type} {p : α → Prop} {v : α} (h : p v) : Leaving p (.ok v) :=
  fun _ heq => Except.ok.inj heq ▸ h

theorem leaving_error {α : Type} {p : α → Prop} {fault : Fault} : Leaving p (.error fault) :=
  fun _ heq => nomatch heq

/-- The fault of a process is where no call looks. -/
def Kept (s s' : Process) : Prop := s'.fault = s.fault

theorem leaving_any {α : Type} {r : Except Fault α} : Leaving (fun _ => True) r := fun _ _ => trivial

theorem Wakeup_kept : Leaving (Kept s) (Wakeup a s) := by
  refine leaving_any.bind fun thread _ => leaving_any.bind fun state _ => leaving_ok ?_
  split
  · rfl
  · rfl

theorem wakeIfBlocked_kept : Leaving (Kept s) (wakeIfBlocked a s) := by
  refine leaving_any.bind fun thread _ => leaving_any.bind fun state _ => ?_
  split
  · exact Wakeup_kept
  · exact leaving_ok rfl

theorem DeleteThread_kept : Leaving (Kept s) (DeleteThread a s) :=
  leaving_any.bind fun _ _ => leaving_ok rfl

theorem wakeJoiner_kept {joinWaiter : Option Nat} : Leaving (Kept s) (wakeJoiner joinWaiter s) := by
  cases joinWaiter with
  | none => exact leaving_ok rfl
  | some j => exact Wakeup_kept

theorem create_kept : Leaving (Kept s) (dce_pthread_create a s) := by
  have hcreate : Leaving (fun p => Kept s p.2) (CreateThread s) := leaving_any.bind fun tid _ => leaving_ok rfl
  refine hcreate.bind fun p hp => ?_
  exact leaving_any.bind fun _ _ => leaving_any.bind fun _ _ => leaving_any.bind fun _ _ =>
    leaving_any.bind fun _ _ =>
      leaving_ok hp

theorem exit_kept {v : Nat} : Leaving (Kept s) (dce_pthread_exit a v s) := by
  rw [dce_pthread_exit]
  split
  · exact leaving_ok rfl
  · refine leaving_any.bind fun self _ => ?_
    split
    · exact DeleteThread_kept
    · exact wakeJoiner_kept.bind fun s₁ hwake => leaving_any.bind fun _ _ => leaving_ok hwake

theorem joinLoop_kept {s₀ : Process} {t : Nat} (same : Kept s₀ s) :
    Leaving (fun p => Kept s₀ p.1) (joinLoop a t s) := by
  refine leaving_any.bind fun target _ => ?_
  split
  · split
    · exact leaving_error
    · exact DeleteThread_kept.bind fun s₁ hdelete => leaving_ok (hdelete.trans same)
  · exact leaving_any.bind fun _ _ => leaving_ok same

theorem join_kept {tid : Nat} : Leaving (fun p => Kept s p.1) (dce_pthread_join a tid s) := by
  refine leaving_any.bind fun self _ => ?_
  split
  · exact leaving_ok rfl
  · split
    case h_1 => exact leaving_ok rfl
    case h_2 =>
      refine leaving_any.bind fun target _ => ?_
      split
      · exact leaving_ok rfl
      · exact joinLoop_kept rfl

theorem detach_kept {tid : Nat} : Leaving (fun p => Kept s p.1) (dce_pthread_detach tid s) := by
  rw [dce_pthread_detach]
  split
  case h_1 => exact leaving_ok rfl
  case h_2 =>
    refine leaving_any.bind fun target _ => ?_
    split
    · exact leaving_ok rfl
    · split
      · exact leaving_ok rfl
      · exact leaving_ok rfl

theorem kill_kept {tid sig : Nat} : Leaving (fun p => Kept s p.1) (dce_pthread_kill tid sig s) := by
  rw [dce_pthread_kill]
  split
  case h_1 => exact leaving_ok rfl
  case h_2 =>
    refine leaving_any.bind fun target _ => ?_
    split
    · exact leaving_ok rfl
    · exact wakeIfBlocked_kept.bind fun s₁ hwake => leaving_ok hwake

theorem wakeCandidate_kept {signum : Nat} {l : List Nat} : Leaving (Kept s) (wakeCandidate signum l s) := by
  induction l with
  | nil => exact leaving_ok rfl
  | cons i rest ih =>
    refine leaving_any.bind fun thread _ => ?_
    split
    · exact ih
    · refine leaving_any.bind fun state _ => ?_
      split
      · exact Wakeup_kept
      · exact ih

theorem UtilsSendSignal_kept {signum : Nat} : Leaving (Kept s) (UtilsSendSignal signum s) :=
  fun s' h => wakeCandidate_kept (s := { s with pendingSignals := sigaddset s.pendingSignals signum }) s' h

theorem UtilsDoSignal_kept {self : Thread} {rest : List Frame} {storage i : Nat} {stage : Stage} :
    Leaving (Kept s) (UtilsDoSignal a self rest storage i stage s) := by
  have calls : ∀ frames handler, Leaving (Kept s) (invoke a self frames s handler) := by
    intro frames handler
    cases handler with
    | SigkillHandler => exact leaving_ok rfl
    | SigabrtHandler => exact leaving_ok rfl
    | function address =>
      rw [invoke]
      split
      · exact leaving_error
      · exact leaving_ok rfl
  rw [UtilsDoSignal]
  split
  · exact leaving_error
  · split
    case h_1 => exact leaving_ok rfl
    case h_2 entry _ =>
      cases stage with
      | mask => rw [deliver]; split <;> exact leaving_ok rfl
      | thread =>
        rw [deliver]
        split
        · exact calls _ _
        · exact leaving_ok rfl
      | inThread => exact leaving_ok rfl
      | process =>
        rw [deliver]
        split
        · exact calls _ _
        · exact leaving_ok rfl
      | inProcess => exact leaving_ok rfl

theorem proceed_kept {self : Thread} {frames : List Frame} {r : Except Fault (Process × Outcome)}
    (h : proceed a self s frames = some r) : Leaving (fun p => Kept s p.1) r := by
  cases frames with
  | nil => exact absurd h (by simp [proceed])
  | cons frame rest =>
    cases frame with
    | join t =>
      cases h
      exact leaving_any.bind fun target _ => joinLoop_kept rfl
    | wait w =>
      cases h
      refine leaving_ok ?_
      rw [waitReturns]
      split
      · rfl
      · rfl
    | signals storage i stage =>
      cases h
      exact UtilsDoSignal_kept.bind fun s₁ hscan => leaving_ok hscan

theorem Leaving.silently {r : Except Fault Process} (kept : Leaving (Kept s) r) :
    Leaving (fun p => Kept s p.1) (silently r) := by
  rintro ⟨s', outcome⟩ h
  exact kept s' (silently_ok h).1

theorem call_kept {label : Label} {r : Except Fault (Process × Outcome)} (h : call s label = some r) :
    Leaving (fun p => Kept s p.1) r := by
  cases label with
  | schedule b =>
    obtain ⟨thread, -, h⟩ := bind_eq_some_iff.mp h
    split at h
    case isTrue => exact some.inj h ▸ leaving_ok rfl
    case isFalse => cases h
  | proceed b =>
    obtain ⟨self, -, h⟩ := bind_eq_some_iff.mp h
    exact proceed_kept h
  | create b =>
    obtain ⟨self, -, rfl⟩ := map_eq_some_iff.mp h
    exact create_kept.silently
  | exit b value =>
    obtain ⟨self, -, rfl⟩ := map_eq_some_iff.mp h
    exact exit_kept.silently
  | dce_exit b =>
    obtain ⟨self, -, rfl⟩ := map_eq_some_iff.mp h
    exact leaving_ok rfl
  | join b tid =>
    obtain ⟨self, -, rfl⟩ := map_eq_some_iff.mp h
    exact join_kept
  | detach b tid =>
    obtain ⟨self, -, rfl⟩ := map_eq_some_iff.mp h
    exact detach_kept
  | kill b tid sig =>
    obtain ⟨self, -, rfl⟩ := map_eq_some_iff.mp h
    exact kill_kept
  | sigprocmask b how set =>
    obtain ⟨self, -, rfl⟩ := map_eq_some_iff.mp h
    refine leaving_any.bind fun current _ => ?_
    split
    case isTrue => exact leaving_ok rfl
    case isFalse => split <;> exact leaving_ok rfl
  | sigaction b signum flags mask handler moves =>
    obtain ⟨self, -, rfl⟩ := map_eq_some_iff.mp h
    exact leaving_ok rfl
  | sigpipe b =>
    obtain ⟨self, -, rfl⟩ := map_eq_some_iff.mp h
    exact UtilsSendSignal_kept.bind fun s₁ hsend => leaving_any.bind fun _ _ => leaving_ok hsend
  | wait b =>
    obtain ⟨self, -, rfl⟩ := map_eq_some_iff.mp h
    rintro ⟨s', outcome⟩ h
    obtain ⟨s₁, hwait, heq⟩ : ∃ s₁, wait b s = .ok s₁ ∧ s₁ = s' := by
      cases hwait : wait b s with
      | error => rw [hwait] at h; exact absurd h (by simp [Except.map])
      | ok s₁ => rw [hwait] at h; exact ⟨s₁, rfl, (Prod.mk.inj (Except.ok.inj h)).1⟩
    have hkept : Leaving (Kept s) (wait b s) := leaving_any.bind fun _ _ => leaving_ok rfl
    exact heq ▸ hkept s₁ hwait
  | yield b =>
    obtain ⟨self, -, rfl⟩ := map_eq_some_iff.mp h
    exact leaving_ok rfl
  | signal signum =>
    rw [call] at h
    split at h
    case isTrue => exact some.inj h ▸ UtilsSendSignal_kept.silently
    case isFalse => cases h
  | wakeup waiter =>
    rw [call] at h
    split at h
    case isFalse => cases h
    case isTrue =>
      cases h
      refine Leaving.silently ?_
      rw [wakeupWaiter]
      split
      case h_1 => exact leaving_ok rfl
      case h_2 => exact wakeIfBlocked_kept
  | timeout b =>
    obtain ⟨thread, -, h⟩ := bind_eq_some_iff.mp h
    split at h
    case isFalse => cases h
    case isTrue => exact some.inj h ▸ Wakeup_kept.silently

end

theorem Life.Step.exited {l l' : Life} {label : Label} {outcome : Outcome} {z : Nat} {r r' : Record}
    (sound : Life.Sound l)
    (step : l.Step label outcome l') (known : l.records z = some r) (exited : r.exited = true)
    (after : l'.records z = some r') : r'.exited = true := by
  have hfresh := sound.fresh z r known
  have woken : ∀ b, (l.wake b).records z = some r' → r'.exited = true := by
    intro b hb
    rcases Life.wake_eq b l with hsame | ⟨u, hu, hset⟩
    · grind
    · grind
  cases step with
  | same => grind
  | wakes b => exact woken b after
  | creates => grind
  | tears => grind
  | @exits a v u hu =>
    rw [Life.set_records] at after
    split at after
    · exact some.inj after ▸ rfl
    · cases hj : u.joinWaiter with
      | none => grind [Life.wakeJoiner]
      | some j => exact woken j (by rw [hj] at after; exact after)
  | vanishes => grind
  | joins => grind
  | reaps => grind
  | sleepsAgain => grind
  | returns => grind
  | detaches => grind
  | waits => grind
  | waited => grind

/-- What should hold of a step: nothing that is gone is used, and a thread that has exited is not
woken, scheduled or made the template of another. -/
structure Safe (s : Process) (label : Label) (t : Process) : Prop where
  faultless : t.fault ≠ some .nullTask ∧ t.fault ≠ some .freed
  retired : ∀ z thread thread', s.heap z = some thread → thread.task = none → t.heap z = some thread' →
    thread'.task = none
  template : ∀ a first thread, label = .create a → s.threads.head? = some first → s.heap first = some thread →
    thread.task ≠ none

/-- The invariant of the careful runs. -/
structure Tended (s : Process) : Prop where
  sound : Life.Sound s.life
  waiting : s.deleted = true ∨ Life.Waiting s.life

theorem Careful.leaves {s : Process} {label : Label} (careful : Careful s label) {a v : Nat} {u : Record}
    (h : label = .exit a v) (hu : s.life.records a = some u) : u.calls = [] := by
  subst h
  obtain ⟨thread, hthread, rfl⟩ := map_eq_some_iff.mp hu
  exact filter_eq_nil_iff.mpr fun frame hmem => by simp [careful thread hthread frame hmem]

theorem Tended.step {s t : Process} {label : Label} (tended : Tended s) (careful : Careful s label)
    (run : machine.step s label = some t) : Tended t ∧ Safe s label t := by
  obtain ⟨⟨s', outcome⟩, hrespond, rfl⟩ := map_eq_some_iff.mp run
  have htemplate : ∀ a first thread, label = .create a → s.threads.head? = some first → s.heap first = some thread →
      thread.task ≠ none := by
    rintro a first thread rfl
    exact careful first thread
  have hopen : s.deleted = false ∧ s.fault = none := by
    rw [respond] at hrespond
    split at hrespond
    · cases hrespond
    next hopen => simpa using hopen
  have hwaiting : Life.Waiting s.life := tended.waiting.resolve_left (by simp [hopen.1])
  rcases respond_life tended.sound.noself hrespond with ⟨hlife, rfl, fault, hcall, hfault⟩ | ⟨hcall, step⟩
  · have hsame : s'.heap = s.heap := by
      rw [respond, if_neg (by simp [hopen]), hcall] at hrespond
      obtain ⟨rfl, -⟩ := Prod.mk.inj (some.inj hrespond)
      rfl
    refine ⟨⟨hlife ▸ tended.sound, ?_⟩, ?_, ?_, htemplate⟩
    · exact .inr (hlife ▸ hwaiting)
    · obtain ⟨hnull, hfreed⟩ := harmless_call tended.sound hwaiting careful hcall fault rfl
      rw [hfault]
      exact ⟨fun h => hnull (some.inj h), fun h => hfreed (some.inj h)⟩
    · intro z thread thread' hthread htask hafter
      rw [hsame, hthread] at hafter
      exact some.inj hafter ▸ htask
  · refine ⟨⟨tended.sound.step ?_ step, hwaiting.step tended.sound (fun a v u => careful.leaves) step⟩, ?_,
      ?_, htemplate⟩
    · intro a v u h hu t hmem
      rw [careful.leaves h hu] at hmem
      cases hmem
    · have hkept : s'.fault = s.fault := call_kept hcall (s', outcome) rfl
      rw [hkept, hopen.2]
      exact ⟨by simp, by simp⟩
    · intro z thread thread' hthread htask hafter
      have hexited : thread.record.exited = true := isNone_iff_eq_none.mpr htask
      exact isNone_iff_eq_none.mp (step.exited tended.sound (life_records hthread) hexited (life_records hafter))

/-- In a careful run every step is safe. -/
theorem safe_of_reach {s t : Process} {label : Label} (reach : machine.ReachBy Careful s) (careful : Careful s label)
    (run : machine.step s label = some t) : Safe s label t := by
  have tended : Tended s := by
    refine reach.invariant (fun u first => ?_) fun u other v held meets next => (held.step meets next).1
    obtain rfl : u = start := first
    exact ⟨Life.sound_start, .inr fun w a h => absurd h (by simp [Process.life, start])⟩
  exact (tended.step careful run).2

/-- A thread that has exited is joined. -/
theorem safe_joined : (oneExited.heap 1).map Thread.task = some none ∧ joined.heap 1 = none ∧
    Safe oneExited (.join 0 1) joined := by
  refine ⟨by decide, by decide, safe_of_reach (reach_oneExited (fun _ _ => trivial) ?_ ?_ fun _ _ =>
    trivial) trivial rfl⟩
  · rintro first thread ⟨⟩ ⟨⟩
    exact some_ne_none _
  · rintro thread ⟨⟩ frame hmem
    cases hmem

/-- A thread that has exited is sent a signal. -/
theorem exited_is_woken : ¬ ∀ s t label, machine.Reach s → machine.step s label = some t → Safe s label t := by
  intro h
  have reach : machine.Reach oneExited := reach_oneExited (fun _ _ => trivial) trivial trivial fun _ _ => trivial
  have hfault : (machine.step oneExited (.kill 0 1 9)).map Process.fault = some (some .nullTask) := by decide
  obtain ⟨t, ht, hnull⟩ := map_eq_some_iff.mp hfault
  exact (h oneExited t _ reach ht).faultless.1 hnull

end Dce.Threads
