import Dce.Delivery.Model

/- Whether a wait is interrupted for a signal that can be delivered, and whether `UtilsDoSignal` leaves any. -/

namespace Dce.Delivery

open Signals (Sigset How IsSignal newMask delivers mem_sigaddset)

variable {T : Type*} [DecidableEq T] {s v : Process T} {t u : T} {a : Label T} {k : Slot T} {frame : Frame}
    {frames : List Frame}
  {which : Pending} {index x : Nat} {call : Option Frame}

/-- The signals that have a handler, in the order of the table. -/
def Process.signals (s : Process T) : List Nat := s.signalHandlers.map (·.signal)

/-- The signal is pending, has a handler, and the thread does not block it. -/
structure Process.Takes (s : Process T) (t : T) (k : Slot T) : Prop where
  handled : k.signal ∈ s.signals
  open_ : delivers (s.threads t).signalMask k.signal = true
  has : s.Has k

/-- A signal can be delivered to the thread. -/
def Process.Deliverable (s : Process T) (t : T) : Prop := ∃ which x, s.Takes t ⟨Pending.owner t which, x⟩

/-- `UtilsDoSignal` returns to the thread. -/
def Ends (s : Process T) (t : T) (a : Label T) : Prop :=
  (a = .doSignal t ∨ a = .returns t) ∧ (∀ c ∈ returning s a, c.2.valid = true) ∧ called s a = none

/-- A wait that is interrupted is so for a signal that can be delivered to its thread; and `UtilsDoSignal` leaves no
such signal, nor one that would interrupt another wait. -/
structure Justified (s : Process T) : Prop where
  defined : s.undefined = false
  interrupted : ∀ t timeout left, Wait timeout left s = .INTERRUPTED → s.Deliverable t
  settled : ∀ t a v, Ends s t a → step s a = some v → ¬ v.Deliverable t ∧ v.HasPendingSignal = false

/-- The loop that is in a handler comes to the signal when the handler has returned, or clears it. -/
def ComesTo (signals : List Nat) (frame : Frame) (which : Pending) (x : Nat) : Prop :=
  x ∈ signals.drop (frame.index + 1) ∨ frame.entry.signal = x ∧ (frame.pending = .thread ∨ which = .process)

/-- What goes well: a signal of the process is sent only while it has a handler and no thread blocks it, and none is
blocked while it is pending; a signal that can be delivered to a thread, sent or unblocked, is one that a loop of
this thread still comes to, if one is in a handler; and what is called is a function, from where the table is. -/
def Receptive (s : Process T) : Label T → Prop
  | .sigaction .. => True
  | .sigprocmask t how set =>
    (∀ x ∈ s.pendingSignals, delivers (newMask how set (s.threads t).signalMask) x = true) ∧
      ∀ frame ∈ (s.threads t).frames.head?, ∀ which, ∀ x ∈ s.signals,
        delivers (newMask how set (s.threads t).signalMask) x = true → s.Has ⟨Pending.owner t which, x⟩ →
        ComesTo s.signals frame which x
  | .sendSignal x => IsSignal x → x ∈ s.signals ∧ ∀ t, delivers (s.threads t).signalMask x = true ∧
      ∀ frame ∈ (s.threads t).frames.head?, ComesTo s.signals frame .process x
  | .pthread_kill t x => IsSignal x → x ∈ s.signals → delivers (s.threads t).signalMask x = true →
      ∀ frame ∈ (s.threads t).frames.head?, ComesTo s.signals frame .thread x
  | a => (∀ c ∈ returning s a, c.2.valid = true) ∧ ∀ c ∈ called s a, c.2.entry.handler = .function

/-- The loops stand at the entries that they have found, and every signal of the process can be delivered to all
threads. -/
structure Ready (s : Process T) : Prop where
  defined : s.undefined = false
  stands : ∀ t, ∀ frame ∈ (s.threads t).frames, s.signals[frame.index]? = some frame.entry.signal
  open_ : ∀ x ∈ s.pendingSignals, x ∈ s.signals ∧ ∀ t, delivers (s.threads t).signalMask x = true

/-- The innermost loop of the thread comes to every signal that can be delivered to it. -/
def Covered (s : Process T) (t : T) : Prop :=
  ∀ frame ∈ (s.threads t).frames.head?, ∀ which x, s.Takes t ⟨Pending.owner t which, x⟩ →
  ComesTo s.signals frame which x

structure Sound (s : Process T) : Prop where
  ready : Ready s
  covered : ∀ t, Covered s t

/-- What the loop calls next is right: it passes over nothing that can be delivered. -/
structure Right (s : Process T) (t : T) (call : Option Frame) : Prop where
  none : call = none → ¬ s.Deliverable t
  stands : ∀ frame ∈ call, s.signals[frame.index]? = some frame.entry.signal
  covers : ∀ frame ∈ call, ∀ which x, s.Takes t ⟨Pending.owner t which, x⟩ → ComesTo s.signals frame which x

section

omit [DecidableEq T]

/-- The loop from an entry on, where everything that can be delivered is among the entries there. -/
theorem callFrom_right (rest : ∀ which x, s.Takes t ⟨Pending.owner t which, x⟩ → x ∈ s.signals.drop index) :
    Right s t (s.callFrom index t) := by
  -- an entry for which nothing is delivered is of no signal that can be
  have busy : ∀ which i, s.Takes t ⟨Pending.owner t which, i.signal⟩ →
      ¬ Idle (s.threads t).signalMask (s.threads t).pendingSignals s.pendingSignals i := by
    intro which i takes idle
    obtain ⟨own, shared⟩ := idle takes.open_
    cases which with
    | thread => exact own takes.has
    | process => exact shared takes.has
  have entries : ∀ which x, s.Takes t ⟨Pending.owner t which, x⟩ →
      ∃ i ∈ s.signalHandlers.drop index, i.signal = x := by
    intro which x takes
    have mem := rest which x takes
    rw [Process.signals, ← List.map_drop] at mem
    exact List.mem_map.mp mem
  refine ⟨fun nothing ⟨which, x, takes⟩ => ?_, fun frame call => ?_, fun frame call which x takes => ?_⟩
  · obtain ⟨i, mem, rfl⟩ := entries which x takes
    exact busy which i takes (loopCall_none.mp nothing i mem)
  · obtain ⟨before, i, after, split, -, found⟩ := loopCall_some call
    obtain ⟨there, same⟩ := entryCall_entry found
    have here : s.signalHandlers[index + before.length]? = some i := by
      rw [← List.getElem?_drop, split]
      simp
    rw [there, same, Process.signals, List.getElem?_map, here]
    rfl
  · obtain ⟨before, i, after, split, idle, found⟩ := loopCall_some call
    obtain ⟨there, same⟩ := entryCall_entry found
    obtain ⟨j, mem, rfl⟩ := entries which x takes
    rw [split, List.mem_append, List.mem_cons] at mem
    rcases mem with early | rfl | late
    · exact absurd (idle j early) (busy which j takes)
    · refine .inr ⟨congrArg (·.signal) same, ?_⟩
      rcases entryCall_some found with ⟨rfl, -⟩ | ⟨rfl, other, -⟩
      · exact .inl rfl
      · refine .inr ?_
        cases which with
        | thread => exact absurd takes.has other
        | process => rfl
    · refine .inl ?_
      have tail : s.signalHandlers.drop (frame.index + 1) = after := by
        rw [there, Nat.add_assoc, ← List.drop_drop, split, ← List.drop_drop, List.drop_left, List.drop_one,
          List.tail_cons]
      rw [Process.signals, ← List.map_drop, tail]
      exact List.mem_map.mpr ⟨j, late, rfl⟩

theorem Process.Takes.of (takes : v.Takes t k) (signals : v.signals = s.signals)
    (mask : (v.threads t).signalMask = (s.threads t).signalMask) (has : s.Has k) : s.Takes t k :=
  ⟨signals ▸ takes.handled, mask ▸ takes.open_, has⟩

end

theorem sigdelset_handlers : (s.sigdelset t frame frames).signalHandlers = s.signalHandlers := by
  unfold Process.sigdelset
  cases frame.pending <;> rfl

theorem sigdelset_signals : (s.sigdelset t frame frames).signals = s.signals :=
  congrArg (List.map _) sigdelset_handlers

theorem sigdelset_mask : ((s.sigdelset t frame frames).threads u).signalMask = (s.threads u).signalMask := by
  unfold Process.sigdelset
  by_cases same : u = t
  · cases frame.pending <;> simp [Process.setThread, same]
  · cases frame.pending <;> simp [Process.setThread, same]

theorem takes_of_sigdelset (takes : (s.sigdelset t frame frames).Takes u k) : s.Takes u k :=
  takes.of sigdelset_signals sigdelset_mask (sigdelset_has.mp takes.has).2

theorem Ready.sigdelset (ready : Ready s) (inside : (s.threads t).frames = frame :: frames) :
    Ready (s.sigdelset t frame frames) := by
  refine ⟨sigdelset_undefined.trans ready.defined, fun u g mem => ?_, fun x pending => ?_⟩
  · rw [sigdelset_signals]
    rw [sigdelset_frames] at mem
    split at mem
    next same =>
      refine ready.stands u g ?_
      rw [same, inside]
      exact List.mem_cons_of_mem _ mem
    next => exact ready.stands u g mem
  · have has : (s.sigdelset t frame frames).Has ⟨none, x⟩ := pending
    obtain ⟨handled, open_⟩ := ready.open_ x (sigdelset_has.mp has).2
    exact ⟨by rwa [sigdelset_signals], fun u => by rw [sigdelset_mask]; exact open_ u⟩

theorem Covered.sigdelset (covered : Covered s u) (other : u ≠ t) : Covered (s.sigdelset t frame frames) u := by
  intro g mem which x takes
  rw [sigdelset_frames, if_neg other] at mem
  rw [sigdelset_signals]
  exact covered g mem which x (takes_of_sigdelset takes)

theorem callAfter_right (ready : Ready s) (legal : Legal s) (covered : Covered s t)
    (inside : (s.threads t).frames = frame :: frames) :
    Right (s.sigdelset t frame frames) t ((s.sigdelset t frame frames).callAfter frame t) := by
  have stands : s.signals[frame.index]? = some frame.entry.signal :=
    ready.stands t frame (by rw [inside]; exact List.mem_cons_self)
  have later : ∀ which x, (s.sigdelset t frame frames).Takes t ⟨Pending.owner t which, x⟩ →
      x ∈ (s.sigdelset t frame frames).signals.drop (frame.index + 1) ∨
        frame.entry.signal = x ∧ frame.pending = .thread ∧ which = .process := by
    intro which x takes
    have before := takes_of_sigdelset takes
    have other := ((legal.sigdelset_has inside).mp takes.has).1
    rw [sigdelset_signals]
    refine (covered frame (by rw [inside]; rfl) which x before).imp_right fun ⟨same, sort⟩ => ?_
    subst same
    have ne : frame.pending ≠ which := fun same => other (by rw [← same]; rfl)
    rcases sort with thread | process
    · refine ⟨rfl, thread, ?_⟩
      cases which with
      | thread => exact absurd thread ne
      | process => rfl
    · refine ⟨rfl, ?_, process⟩
      cases pending : frame.pending with
      | thread => rfl
      | process => exact absurd (pending.trans process.symm) ne
  have signals : (s.sigdelset t frame frames).signals = s.signals := sigdelset_signals
  rw [← signals] at stands
  generalize s.sigdelset t frame frames = v at later stands signals
  have entry : (v.signalHandlers[frame.index]?).map (·.signal) = some frame.entry.signal := by
    rw [← List.getElem?_map]
    exact stands
  obtain ⟨i, here, same⟩ := Option.map_eq_some_iff.mp entry
  unfold Process.callAfter
  cases pending : frame.pending with
  | process =>
    refine callFrom_right fun which x takes => (later which x takes).resolve_right fun ⟨_, wrong, _⟩ => ?_
    cases pending.symm.trans wrong
  | thread =>
    rw [here]
    by_cases shared : i.signal ∈ v.pendingSignals
    · -- the entry has its second call
      have second : sharedCall v.pendingSignals frame.index i = some ⟨frame.index, i, .process, true⟩ :=
        if_pos shared
      simp only [second]
      refine ⟨nofun, ?_, ?_⟩
      · rintro _ ⟨⟩
        rw [stands, ← same]
      · rintro _ ⟨⟩ which x takes
        exact (later which x takes).imp_right fun ⟨at_x, _, sort⟩ => ⟨same.trans at_x, .inr sort⟩
    · have nothing : sharedCall v.pendingSignals frame.index i = none := if_neg shared
      simp only [nothing]
      refine callFrom_right fun which x takes => (later which x takes).resolve_right fun ⟨at_x, _, sort⟩ => shared ?_
      subst sort
      rw [same, at_x]
      exact takes.has

theorem sound_goOn (ready : Ready v) (others : ∀ u, u ≠ t → Covered v u) (right : Right v t call)
    (function : ∀ frame ∈ call, frame.entry.handler = .function) : Sound (v.goOn t call) := by
  cases call with
  | none =>
    refine ⟨ready, fun u => ?_⟩
    by_cases same : u = t
    · subst same
      exact fun frame _ which x takes => absurd ⟨which, x, takes⟩ (right.none rfl)
    · exact others u same
  | some frame =>
    have goes : v.goOn t (some frame) = v.setThread t { v.threads t with frames := frame :: (v.threads t).frames } :=
      if_pos (function frame rfl)
    have takes_of : ∀ {u k}, (v.goOn t (some frame)).Takes u k → v.Takes u k := by
      intro u k takes
      refine takes.of ?_ ?_ ((goOn_has _).mp takes.has)
      · rw [goes]
        rfl
      · rw [goes]
        by_cases same : u = t
        · simp [Process.setThread, same]
        · simp [Process.setThread, same]
    have covered : ∀ u, Covered (v.goOn t (some frame)) u := by
      intro u g mem which x takes
      have before := takes_of takes
      rw [goes] at mem ⊢
      by_cases same : u = t
      · subst same
        have first : frame = g := by simpa [Process.setThread] using mem
        subst first
        exact right.covers frame rfl which x before
      · refine others u same g ?_ which x before
        simpa [Process.setThread, same] using mem
    refine ⟨?_, covered⟩
    rw [goes]
    refine ⟨ready.defined, fun u g mem => ?_, fun x pending => ?_⟩
    · by_cases same : u = t
      · subst same
        have either : g = frame ∨ g ∈ (v.threads u).frames := by simpa [Process.setThread] using mem
        rcases either with rfl | mem
        · exact right.stands g rfl
        · exact ready.stands u g mem
      · exact ready.stands u g (by simpa [Process.setThread, same] using mem)
    · obtain ⟨handled, open_⟩ := ready.open_ x pending
      refine ⟨handled, fun u => ?_⟩
      by_cases same : u = t
      · subst same
        simpa [Process.setThread] using open_ u
      · simpa [Process.setThread, same] using open_ u

theorem loop_step (sound : Sound s) (legal : Legal s) (loop : a = .doSignal t ∨ a = .returns t)
    (valid : ∀ c ∈ returning s a, c.2.valid = true)
    (run : step s a = some v) : ∃ w call, Ready w ∧ (∀ u, u ≠ t → Covered w u) ∧ Right w t call ∧
      called s a = call.map (t, ·) ∧ v = w.goOn t call := by
  rcases loop with rfl | rfl
  · have defined : s.undefined = false := sound.ready.defined
    simp only [step, defined, Bool.false_eq_true, if_false, Option.some_inj] at run
    exact ⟨s, s.callFrom 0 t, sound.ready, fun u _ => sound.covered u, callFrom_right fun which x takes =>
      takes.handled, rfl,
      run.symm⟩
  · obtain ⟨frame, frames, inside, rfl⟩ := step_returns run
    have back : returning s (.returns t) = some (t, frame) := by rw [returning, inside]; rfl
    have here : frame.valid = true := valid (t, frame) back
    refine ⟨s.sigdelset t frame frames, (s.sigdelset t frame frames).callAfter frame t, sound.ready.sigdelset inside,
      fun u other => (sound.covered u).sigdelset other,
      callAfter_right sound.ready legal (sound.covered t) inside, ?_, ?_⟩
    · simp [called, inside, here]
    · rw [Process.handlerReturns, if_pos here]

theorem Sound.justified (sound : Sound s) (legal : Legal s) : Justified s := by
  have deliverable : ∀ {w : Process T} u, Ready w → w.HasPendingSignal = true → w.Deliverable u := by
    intro w u ready some
    obtain ⟨x, pending⟩ := Finset.nonempty_iff_ne_empty.mpr (of_decide_eq_true some)
    obtain ⟨handled, open_⟩ := ready.open_ x pending
    exact ⟨.process, x, handled, open_ u, pending⟩
  refine ⟨sound.ready.defined, fun u timeout left interrupted => deliverable u sound.ready ?_,
    fun u a v ends run => ?_⟩
  · unfold Wait at interrupted
    split at interrupted
    next pending => exact pending
    · split at interrupted <;> cases interrupted
  · obtain ⟨loop, valid, ends⟩ := ends
    obtain ⟨w, call, ready, -, right, calls, rfl⟩ := loop_step sound legal loop valid run
    have nothing : call = none := Option.map_eq_none_iff.mp (calls.symm.trans ends)
    subst nothing
    have settled : ¬ w.Deliverable u := right.none rfl
    refine ⟨settled, Bool.eq_false_iff.mpr fun some => settled (deliverable u ready some)⟩

section

variable {signum : Nat}

section

omit [DecidableEq T]

theorem sigaction_signals (s : Process T) (signum : Nat) (act : Sigaction) (moves : Bool) :
    ∃ new, (s.sigaction signum act moves).signals = s.signals ++ new := by
  unfold Process.signals Process.sigaction dce_sigaction
  cases s.signalHandlers.find? (·.signal = signum) with
  | some i =>
    refine ⟨[], ?_⟩
    simp only [Option.elim, List.map_map, List.append_nil]
    refine List.map_congr_left fun j _ => ?_
    simp only [Function.comp_apply]
    split <;> rfl
  | none => exact ⟨[signum], by simp⟩

theorem sigaction_frames (s : Process T) (signum : Nat) (act : Sigaction) (moves : Bool) :
    ∃ f : Frame → Frame, (∀ g, (f g).index = g.index ∧ (f g).entry = g.entry ∧ (f g).pending = g.pending) ∧
      ∀ u, ((s.sigaction signum act moves).threads u).frames = (s.threads u).frames.map f := by
  cases moves with
  | false => exact ⟨id, fun g => ⟨rfl, rfl, rfl⟩, fun u => (List.map_id _).symm⟩
  | true => exact ⟨fun g => { g with valid := false }, fun g => ⟨rfl, rfl, rfl⟩, fun u => rfl⟩

theorem sigaction_mask (s : Process T) (signum : Nat) (act : Sigaction) (moves : Bool) (u : T) :
    ((s.sigaction signum act moves).threads u).signalMask = (s.threads u).signalMask := by
  cases moves <;> rfl

end

theorem ComesTo.append {signals : List Nat} (comes : ComesTo signals frame which x) (new : List Nat) :
    ComesTo (signals ++ new) frame which x := by
  refine comes.imp_left fun later => ?_
  rw [List.drop_append]
  exact List.mem_append_left _ later

variable (sound : Sound s)
include sound

omit [DecidableEq T] in
theorem Sound.sigaction (act : Sigaction) (moves : Bool) : Sound (s.sigaction signum act moves) := by
  obtain ⟨new, signals⟩ := sigaction_signals s signum act moves
  obtain ⟨f, alike, frames⟩ := sigaction_frames s signum act moves
  refine ⟨⟨sound.ready.defined, fun u g mem => ?_, fun x pending => ?_⟩, fun u g mem which x takes => ?_⟩
  · rw [frames] at mem
    obtain ⟨frame, before, rfl⟩ := List.mem_map.mp mem
    have stands := sound.ready.stands u frame before
    obtain ⟨index, entry, -⟩ := alike frame
    rw [signals, index, entry, List.getElem?_append_left (List.getElem?_eq_some_iff.mp stands).1, stands]
  · obtain ⟨handled, open_⟩ := sound.ready.open_ x pending
    refine ⟨?_, fun u => ?_⟩
    · rw [signals]
      exact List.mem_append_left _ handled
    · rw [sigaction_mask]
      exact open_ u
  · rw [frames, List.head?_map] at mem
    obtain ⟨frame, before, rfl⟩ := Option.map_eq_some_iff.mp mem
    obtain ⟨index, entry, pending⟩ := alike frame
    have comes : ComesTo (s.signals ++ new) frame which x := by
      have handled := takes.handled
      rw [signals, List.mem_append] at handled
      rcases handled with old | added
      · have has : s.Has ⟨Pending.owner u which, x⟩ := by
          unfold Process.Has
          rw [← sigaction_set (s := s)]
          exact takes.has
        exact (sound.covered u frame before which x ⟨old, sigaction_mask s signum act moves u ▸ takes.open_,
          has⟩).append new
      · have inside := (List.getElem?_eq_some_iff.mp (sound.ready.stands u frame (List.mem_of_mem_head? before))).1
        refine .inl ?_
        rw [List.drop_append_of_le_length inside]
        exact List.mem_append_right _ added
    unfold ComesTo
    rw [signals, index, entry, pending]
    exact comes

theorem Sound.sigprocmask {how : How} {set : Sigset} (receptive : Receptive s (.sigprocmask t how set)) :
    Sound (s.dce_sigprocmask t how set) := by
  obtain ⟨blocked, comes⟩ := receptive
  have frames : ∀ u, ((s.dce_sigprocmask t how set).threads u).frames = (s.threads u).frames := by
    intro u
    by_cases same : u = t
    · simp [Process.dce_sigprocmask, Process.setThread, same]
    · simp [Process.dce_sigprocmask, Process.setThread, same]
  have mask : ((s.dce_sigprocmask t how set).threads t).signalMask = newMask how set (s.threads t).signalMask := by
    simp [Process.dce_sigprocmask, Process.setThread]
  have kept : ∀ u, u ≠ t → ((s.dce_sigprocmask t how set).threads u).signalMask = (s.threads u).signalMask := by
    intro u other
    simp [Process.dce_sigprocmask, Process.setThread, other]
  have sets : (s.dce_sigprocmask t how set).set = s.set := setThread_set_same rfl
  refine ⟨⟨sound.ready.defined, fun u g mem => ?_, fun x pending => ?_⟩, fun u g mem which x takes => ?_⟩
  · rw [frames] at mem
    exact sound.ready.stands u g mem
  · obtain ⟨handled, open_⟩ := sound.ready.open_ x pending
    refine ⟨handled, fun u => ?_⟩
    by_cases same : u = t
    · subst same
      rw [mask]
      exact blocked x pending
    · rw [kept u same]
      exact open_ u
  · rw [frames] at mem
    have has : s.Has ⟨Pending.owner u which, x⟩ := by
      unfold Process.Has
      rw [← sets]
      exact takes.has
    by_cases same : u = t
    · subst same
      exact comes g mem which x takes.handled (mask ▸ takes.open_) has
    · exact sound.covered u g mem which x ⟨takes.handled, kept u same ▸ takes.open_, has⟩

theorem Sound.sendSignal (receptive : Receptive s (.sendSignal signum)) : Sound (s.UtilsSendSignal signum) := by
  refine ⟨⟨sound.ready.defined, sound.ready.stands, fun x pending => ?_⟩, fun u g mem which x takes => ?_⟩
  · rcases mem_sigaddset.mp pending with ⟨rfl, signal⟩ | old
    · obtain ⟨handled, threads⟩ := receptive signal
      exact ⟨handled, fun u => (threads u).1⟩
    · exact sound.ready.open_ x old
  · rcases UtilsSendSignal_has.mp takes.has with ⟨sent, signal⟩ | old
    · obtain ⟨owner, rfl⟩ := Slot.mk.inj sent
      cases which with
      | thread => cases owner
      | process => exact ((receptive signal).2 u).2 g mem
    · exact sound.covered u g mem which x (takes.of rfl rfl old)

theorem Sound.pthread_kill (receptive : Receptive s (.pthread_kill t signum)) :
    Sound (s.dce_pthread_kill t signum) := by
  have frames : ∀ u, ((s.dce_pthread_kill t signum).threads u).frames = (s.threads u).frames := by
    intro u
    by_cases same : u = t
    · simp [Process.dce_pthread_kill, Process.setThread, same]
    · simp [Process.dce_pthread_kill, Process.setThread, same]
  have mask : ∀ u, ((s.dce_pthread_kill t signum).threads u).signalMask = (s.threads u).signalMask := by
    intro u
    by_cases same : u = t
    · simp [Process.dce_pthread_kill, Process.setThread, same]
    · simp [Process.dce_pthread_kill, Process.setThread, same]
  refine ⟨⟨sound.ready.defined, fun u g mem => ?_, fun x pending => ?_⟩, fun u g mem which x takes => ?_⟩
  · rw [frames] at mem
    exact sound.ready.stands u g mem
  · obtain ⟨handled, open_⟩ := sound.ready.open_ x pending
    refine ⟨handled, fun u => ?_⟩
    rw [mask]
    exact open_ u
  · rw [frames] at mem
    rcases pthread_kill_has.mp takes.has with ⟨sent, signal⟩ | old
    · obtain ⟨owner, rfl⟩ := Slot.mk.inj sent
      cases which with
      | thread =>
        cases owner
        exact receptive signal takes.handled (mask t ▸ takes.open_) g mem
      | process => cases owner
    · exact sound.covered u g mem which x (takes.of rfl (mask u) old)

theorem Sound.step (legal : Legal s) (receptive : Receptive s a) (run : Delivery.step s a = some v) : Sound v := by
  have defined : s.undefined = false := sound.ready.defined
  have open_ := run
  simp only [Delivery.step, defined] at open_
  have loop : ∀ t, (a = .doSignal t ∨ a = .returns t) → (∀ c ∈ returning s a, c.2.valid = true) →
      (∀ c ∈ called s a, c.2.entry.handler = .function) → Sound v := by
    intro t loop valid function
    obtain ⟨w, call, ready, others, right, calls, rfl⟩ := loop_step sound legal loop valid run
    refine sound_goOn ready others right fun frame mem => function (t, frame) ?_
    rw [calls]
    exact Option.map_eq_some_iff.mpr ⟨frame, mem, rfl⟩
  cases a with
  | sigaction signum act moves =>
    cases open_
    exact sound.sigaction act _
  | sigprocmask t how set =>
    cases open_
    exact sound.sigprocmask receptive
  | sendSignal signum =>
    cases open_
    exact sound.sendSignal receptive
  | pthread_kill t sig =>
    cases open_
    exact sound.pthread_kill receptive
  | doSignal t => exact loop t (.inl rfl) receptive.1 receptive.2
  | returns t => exact loop t (.inr rfl) receptive.1 receptive.2

end

theorem sound_start (first : (machine T).init s) : Sound s := by
  obtain ⟨-, pending, threads, defined⟩ := first
  refine ⟨⟨defined, fun t g mem => ?_, fun x mem => ?_⟩, fun t g mem => ?_⟩
  · rw [threads] at mem
    cases mem
  · rw [pending] at mem
    exact absurd mem (Finset.notMem_empty x)
  · rw [threads] at mem
    cases mem

/-- In the runs whose steps are all receptive no wait is interrupted for nothing. -/
theorem justified_of_receptive (s : Process T) (reach : (machine T).ReachBy Receptive s) : Justified s := by
  obtain ⟨sound, legal⟩ : Sound s ∧ Legal s := reach.invariant (I := fun s => Sound s ∧ Legal s)
    (fun _ first => ⟨sound_start first, legal_init first⟩)
    fun _ _ _ ⟨sound, legal⟩ receptive run => ⟨sound.step legal receptive run, legal.step run⟩
  exact sound.justified legal

def SIGALRM : Nat := 14

/-- A process with one thread. -/
def single : Process Unit := ⟨SetDefaultSigHandler, ∅, fun _ => ⟨∅, ∅, []⟩, false⟩

theorem single_init : (machine Unit).init single := ⟨rfl, rfl, fun _ => rfl, rfl⟩

/-- The alarm has rung, and the process has a handler for it. -/
def rung : Process Unit := (single.sigaction SIGALRM ⟨0, ∅, .function⟩ false).UtilsSendSignal SIGALRM

theorem justified_rung : Justified rung := by
  refine justified_of_receptive rung (Machine.ReachBy.start single_init
    |>.next (a := .sigaction SIGALRM ⟨0, ∅, .function⟩ false) trivial rfl |>.next (a := .sendSignal SIGALRM) ?_ rfl)
  exact fun _ => ⟨by decide, fun () => ⟨by decide, nofun⟩⟩

/-- The alarm has rung, and there is no handler for it: every wait is interrupted from now on. -/
theorem not_justified : (machine Unit).Reach (single.UtilsSendSignal SIGALRM) ∧
    Wait 0 0 (single.UtilsSendSignal SIGALRM) = .INTERRUPTED ∧
    ¬ (single.UtilsSendSignal SIGALRM).Deliverable () := by
  refine ⟨(Machine.ReachBy.start single_init).next (a := .sendSignal SIGALRM) trivial rfl, by decide, ?_⟩
  rintro ⟨which, x, handled, -, has⟩
  cases which with
  | thread => exact absurd has (Finset.notMem_empty x)
  | process =>
    rcases UtilsSendSignal_has.mp has with ⟨sent, -⟩ | absent
    · obtain ⟨-, rfl⟩ := Slot.mk.inj sent
      revert handled
      decide
    · exact absurd absent (Finset.notMem_empty x)

end Dce.Delivery
