import Dce.LocalStream.Bytes

/- What the writes of a pair report. -/

namespace Dce.LocalStream

open Coroutine List

variable {T β : Type*} [DecidableEq T] {s v : W T β} {t u : T} {e : Side}

theorem Accounts.sent (accounts : Accounts (.writing e) s t) {data : List β} (all : s.shared.moved t = data) :
    Accounts .own (setSocket e { socket e s with
      toldWritten := Function.update (socket e s).toldWritten t ((socket e s).toldWritten t ++ data) } s) t := by
  refine ⟨fun f => ?_, fun f => ?_⟩
  · have before := accounts.written f
    rcases e.eq_or f with rfl | rfl
    · rw [if_pos rfl, all] at before
      rw [socket_setSocket_other, socket_setSocket_self, if_neg nofun, append_nil]
      dsimp only
      rw [Function.update_self]
      exact before
    · rw [if_neg (by simp), Side.other_other] at before
      rw [Side.other_other, socket_setSocket_self, socket_setSocket_other]
      exact before
  · have before := accounts.read f
    rcases e.eq_or f with rfl | rfl
    · rw [socket_setSocket_self]
      exact before
    · rw [socket_setSocket_other]
      exact before

/-- What is left of a message has room, or is written as room comes. -/
structure Writable (e : Side) (iovs : List (List β)) (s : W T β) : Prop where
  opened : Open e s
  nonempty : 0 < room s e.other → ∀ buf ∈ iovs, buf ≠ []
  whole : (socket e s).nonblock = true → iovs.flatten.length ≤ room s e.other ∧ ∀ buf ∈ iovs, buf ≠ []

variable {message rest : List β} {retval : Int} {tot n : Nat} {iovs : List (List β)}
    (working : Working (.writing e) t s)
include working

theorem Working.sent (sound : s.shared.moved t = message.take retval.toNat) :
    Tended (sendmsgReturn t e message retval s) := by
  have queue := working.queues e
  refine Working.ret ?_ _ sound
  refine working.sets ?_ rfl rfl (fun u other => ?_) (working.mine.sent sound) id
  · exact ⟨queue.joined, queue.fresh, queue.size, queue.flow, queue.order⟩
  · exact ⟨Function.update_of_ne other _ _, rfl⟩

theorem Working.sendmsgLoop_stuck (none : s.shared.moved t = [])
    (stuck : Open e s → (socket e s).nonblock = true ∧ room s e.other = 0) (message : List β)
    (iovs : List (List β)) (failed : retval ≤ 0) :
    Tended (sendmsgLoop t e message iovs retval s) := by
  induction iovs generalizing s retval with
  | nil => exact working.sent (by rw [none, show retval.toNat = 0 by omega, take_zero])
  | cons buf iovs ih =>
    have fails : write t e buf s = (s, .returned 0) ∨ ∃ err, write t e buf s = (s, .failed err) := by
      unfold write
      dsimp only
      split
      · split
        · exact .inl rfl
        · exact .inr ⟨_, rfl⟩
      next connected =>
        split
        · exact .inr ⟨_, rfl⟩
        next shut =>
          by_cases takes : Takes (socket e.other s)
          · obtain ⟨nonblock, full⟩ := stuck ⟨by simpa using connected, by simpa using shut, takes⟩
            rw [writeLoop_none takes full, writeStop, if_pos nonblock]
            exact .inr ⟨_, rfl⟩
          · rw [writeLoop_refused takes]
            exact .inr ⟨_, rfl⟩
    rw [sendmsgLoop]
    rcases fails with same | ⟨err, same⟩
    · rw [same]
      exact working.sent (by rw [none, show retval.toNat = 0 by omega, take_zero])
    · rw [same]
      exact ih (working.failing err) none (fun opened => stuck ⟨opened.connected, opened.shutWrite, opened.takes⟩)
        (by omega)

theorem Working.shortWrite (err : Errno) (count : (s.shared.moved t).length = tot)
    (whole : s.shared.moved t ++ rest = message) :
    Tended (afterWrite t e message 0 [] (sendmsgLoop t e message []) (s, shortReturn err tot)) := by
  unfold shortReturn
  split
  · have none : s.shared.moved t = [] := eq_nil_of_length_eq_zero (by omega)
    exact (working.failing err).sent none
  next some =>
    unfold afterWrite
    dsimp only
    rw [if_neg some, Int.zero_add]
    refine working.sent ?_
    rw [← whole, Int.toNat_natCast, ← count, take_left]

theorem Working.afterWriteLoop {wq : Option (Option Nat)} (connected : (socket e s).m_state = .CONNECTED)
    (data : rest ≠ [] ∨ room s e.other = 0) (count : (s.shared.moved t).length = n + tot)
    (whole : s.shared.moved t ++ rest ++ iovs.flatten = message)
    (later : ∀ last, wq = some (some last) → s.now < last)
    (finds : Takes (socket e.other s) → RoomFor e (0 < tot ∨ n ≠ 0) (rest :: iovs) s)
    (multi : n ≠ 0 ∨ iovs ≠ [] → Open e s)
    (more : ∀ v (m : Nat), Working (.writing e) t v → (v.shared.moved t).length = m → 0 < m →
      v.shared.moved t ++ iovs.flatten = message → Writable e iovs v → Tended (sendmsgLoop t e message iovs m v)) :
    Tended (afterWrite t e message n iovs (sendmsgLoop t e message iovs) (writeLoop t e tot rest wq s)) := by
  have returns : ∀ v (m : Nat), Working (.writing e) t v → (v.shared.moved t).length = m → 0 < m →
      v.shared.moved t ++ iovs.flatten = message → (n ≠ 0 ∨ iovs ≠ [] → Writable e iovs v) →
      Tended (sendmsgLoop t e message iovs m v) := by
    intro v m there length positive same writable
    by_cases last : iovs = []
    · subst last
      refine there.sent ?_
      rw [← same, flatten_nil, append_nil, Int.toNat_natCast, ← length, take_length]
    · exact more v m there length positive same (writable (.inr last))
  by_cases takes : Takes (socket e.other s)
  · have finds := finds takes
    by_cases full : room s e.other = 0
    · rw [writeLoop_none takes full, writeStop]
      split
      next nonblock =>
        have none : s.shared.moved t = [] := by
          rcases finds.whole nonblock with ⟨fresh, -⟩ | ⟨positive, -⟩
          · exact eq_nil_of_length_eq_zero (by omega)
          · omega
        have zero : (n : Int) - 1 ≤ 0 := by
          rw [none, length_nil] at count
          omega
        exact (working.failing .EAGAIN).sendmsgLoop_stuck none (fun _ => ⟨nonblock, full⟩) message iovs zero
      next =>
        obtain ⟨last, waits⟩ := waitUntil_waits later (socket e s).m_sendTimeout tot rest
        rw [waits]
        refine Working.sleeps ?_ ⟨n, rfl, count, whole⟩
        exact working
    · have data : rest ≠ [] := data.resolve_right full
      have positive := length_pos_iff.mpr data
      by_cases fits : rest.length ≤ room s e.other
      · rw [writeLoop_fits takes data fits]
        unfold afterWrite
        dsimp only
        rw [if_neg (by omega)]
        have after : room (fill s e.other t rest) e.other = room s e.other - rest.length := room_fill
        refine returns _ _ (working.filled takes data) ?_ (by omega) ?_ fun several => ?_
        · rw [fill_moved, Function.update_self, length_append]
          omega
        · rw [fill_moved, Function.update_self]
          exact whole
        · have opened := multi several
          have nonempty : ∀ buf ∈ iovs, buf ≠ [] := fun buf mem =>
            finds.nonempty (by omega) buf (mem_cons_of_mem _ mem)
          refine ⟨⟨?_, ?_, takes.filled⟩, fun _ => nonempty, fun nonblock => ⟨?_, nonempty⟩⟩
          · rw [socket_fill_other]; exact connected
          · rw [socket_fill_other]; exact opened.shutWrite
          · rw [socket_fill_other] at nonblock
            rcases finds.whole nonblock with ⟨-, none⟩ | ⟨-, enough⟩
            · omega
            · rw [flatten_cons, length_append] at enough
              omega
      · have blocking : (socket e (fill s e.other t (rest.take (room s e.other)))).nonblock = false := by
          rw [socket_fill_other, ← Bool.not_eq_true]
          intro nonblock
          rcases finds.whole nonblock with ⟨-, none⟩ | ⟨-, enough⟩
          · exact full none
          · rw [flatten_cons, length_append] at enough
            omega
        have later' : ∀ last, wq = some (some last) →
            (fill s e.other t (rest.take (room s e.other))).now < last := by
          rw [fill_now]
          exact later
        rw [writeLoop_part takes connected (by omega) (by omega), writeStop, if_neg (Bool.eq_false_iff.mp blocking)]
        obtain ⟨last, waits⟩ :=
          waitUntil_waits later' (socket e (fill s e.other t (rest.take (room s e.other)))).m_sendTimeout
          (tot + room s e.other) (rest.drop (room s e.other))
        rw [waits]
        refine Working.sleeps (working.filled takes ?_) ⟨n, rfl, ?_, ?_⟩
        · rw [← length_pos_iff, length_take]
          omega
        · rw [fill_moved, Function.update_self, length_append, length_take]
          omega
        · rw [fill_moved, Function.update_self, ← whole, append_assoc (s.shared.moved t), take_append_drop]
  · have single : n = 0 ∧ iovs = [] := by
      by_contra several
      exact takes (multi (by tauto)).takes
    obtain ⟨rfl, rfl⟩ := single
    rw [writeLoop_refused takes]
    exact working.shortWrite .EPIPE (by omega) (by simpa using whole)

omit working in
theorem write_open {buf : List β} (opened : Open e s) : write t e buf s = writeLoop t e 0 buf none s := by
  unfold write
  rw [if_neg (by simp [opened.connected]), if_neg (by simp [opened.shutWrite])]

theorem Working.sends (iovs : List (List β)) (count : (s.shared.moved t).length = n) (positive : 0 < n)
    (whole : s.shared.moved t ++ iovs.flatten = message) (writable : Writable e iovs s) :
    Tended (sendmsgLoop t e message iovs n s) := by
  induction iovs generalizing s n with
  | nil =>
    refine working.sent ?_
    rw [← whole, flatten_nil, append_nil, Int.toNat_natCast, ← count, take_length]
  | cons buf iovs ih =>
    have data : buf ≠ [] ∨ room s e.other = 0 := by
      by_cases full : room s e.other = 0
      · exact .inr full
      · exact .inl (writable.nonempty (by omega) buf mem_cons_self)
    rw [sendmsgLoop, write_open writable.opened]
    refine working.afterWriteLoop writable.opened.connected data count ?_ nofun (fun takes => ?_)
      (fun _ => writable.opened) fun v m there length more same writable' => ih there length more same writable'
    · rw [append_assoc]
      exact whole
    · refine ⟨writable.nonempty, fun nonblock => .inr ?_⟩
      obtain ⟨enough, nonempty⟩ := writable.whole nonblock
      have some := length_pos_iff.mpr (nonempty buf mem_cons_self)
      rw [flatten_cons, length_append] at enough
      exact ⟨by omega, by rw [flatten_cons, length_append]; exact enough⟩

theorem Working.startSendmsg (none : s.shared.moved t = []) (iovs : List (List β))
    (finds : Open e s → RoomFor e False iovs s) : Tended (sendmsgLoop t e iovs.flatten iovs 0 s) := by
  by_cases opened : Open e s
  · cases iovs with
    | nil => exact working.sent none
    | cons buf iovs =>
      have finds := finds opened
      by_cases empty : buf = [] ∧ 0 < room s e.other
      · exact absurd empty.1 (finds.nonempty empty.2 buf mem_cons_self)
      · have data : buf ≠ [] ∨ room s e.other = 0 := by
          rcases Nat.eq_zero_or_pos (room s e.other) with full | some
          · exact .inr full
          · exact .inl fun nil => empty ⟨nil, some⟩
        rw [sendmsgLoop, write_open opened]
        refine working.afterWriteLoop (n := 0) opened.connected data (by simp [none]) (by simp [none]) nofun
          (fun _ => ⟨finds.nonempty, fun nonblock => ?_⟩) (fun _ => opened)
          fun v m there length more same writable => there.sends iovs length more same writable
        rcases finds.whole nonblock with ⟨-, full⟩ | enough
        · exact .inl ⟨by simp, full⟩
        · exact .inr enough
  · exact working.sendmsgLoop_stuck none (fun opened' => absurd opened' opened) _ iovs (Int.le_refl 0)

omit working in
theorem removeWaitQueue_open : Open e (removeWaitQueue t e s) ↔ Open e s := by
  obtain ⟨list, same⟩ := removeWaitQueue_same s e e t
  constructor
  · rintro ⟨connected, shutWrite, takes⟩
    rw [same] at connected shutWrite
    exact ⟨connected, shutWrite, removeWaitQueue_takes.mp takes⟩
  · rintro ⟨connected, shutWrite, takes⟩
    exact ⟨by rw [same]; exact connected, by rw [same]; exact shutWrite, removeWaitQueue_takes.mpr takes⟩

omit working in
theorem RoomFor.dequeued {started : Prop} {bufs : List (List β)} (finds : RoomFor e started bufs s) :
    RoomFor e started bufs (removeWaitQueue t e s) := by
  obtain ⟨list, same⟩ := removeWaitQueue_same s e e t
  refine ⟨?_, ?_⟩
  · rw [removeWaitQueue_room]
    exact finds.nonempty
  · rw [removeWaitQueue_room, same]
    exact finds.whole

theorem Working.resumeWrite {last : Option Nat} {interrupted : Bool} (count : (s.shared.moved t).length = n + tot)
    (whole : s.shared.moved t ++ rest ++ iovs.flatten = message)
    (honest : HonestReturn s interrupted (.write e tot rest last message n iovs)) :
    Tended (resume t (.write e tot rest last message n iovs) interrupted s) := by
  obtain ⟨several, finds⟩ := honest
  have several : n ≠ 0 ∨ iovs ≠ [] → waitResult interrupted last s.now = .OK ∧ Open e s :=
    fun more => several (by simpa using more)
  have left : Working (.writing e) t (removeWaitQueue t e s) := working.dequeued
  have state : (socket e (removeWaitQueue t e s)).m_state = (socket e s).m_state := by
    obtain ⟨list, same⟩ := removeWaitQueue_same s e e t
    rw [same]
  have broken : ∀ err, waitResult interrupted last s.now ≠ .OK ∨ (socket e s).m_state ≠ .CONNECTED →
      Tended (afterWrite t e message n iovs (sendmsgLoop t e message iovs) (removeWaitQueue t e s,
        shortReturn err tot)) := by
    intro err off
    have single : n = 0 ∧ iovs = [] := by
      by_contra more
      obtain ⟨ok, opened⟩ := several (by tauto)
      rcases off with off | off
      · exact off ok
      · exact off opened.connected
    obtain ⟨rfl, rfl⟩ := single
    rw [flatten_nil, append_nil] at whole
    exact left.shortWrite err (count.trans (Nat.zero_add tot)) whole
  unfold resume writeOn
  dsimp only
  rw [removeWaitQueue_now]
  cases result : waitResult interrupted last s.now with
  | INTERRUPTED => exact broken .EINTR (.inl (by simp [result]))
  | TIMEOUT => exact broken .EAGAIN (.inl (by simp [result]))
  | OK =>
    dsimp only
    split
    next on =>
      obtain ⟨some, connected⟩ := on
      rw [state] at connected
      refine left.afterWriteLoop (by rw [state]; exact connected) (.inl (length_pos_iff.mp some)) count
        whole (fun limit timed => waitResult_ok result (Option.some.inj timed)) (fun takes => ?_)
        (fun more => removeWaitQueue_open.mpr (several more).2)
        fun v m there length more same writable => there.sends iovs length more same writable
      have found := finds result connected (removeWaitQueue_takes.mp takes)
      refine RoomFor.dequeued ⟨found.nonempty, fun nonblock => ?_⟩
      simpa using found.whole nonblock
    next off =>
      split
      next gone =>
        rw [state] at gone
        have short := broken .EPIPE (.inr gone.2)
        rw [shortReturn, if_pos gone.1] at short
        exact short
      · by_cases zero : tot = 0
        · unfold afterWrite
          dsimp only
          rw [if_pos zero]
          refine left.sent ?_
          rw [removeWaitQueue_moved, ← whole, Int.toNat_natCast, append_assoc,
            show n = (s.shared.moved t).length by omega, take_left]
        · unfold afterWrite
          dsimp only
          rw [if_neg zero, ← Int.natCast_add]
          by_cases last : iovs = []
          · subst last
            refine left.sent ?_
            rw [removeWaitQueue_moved, ← whole, Int.toNat_natCast, append_assoc, ← count, take_left]
          · have opened := (several (.inr last)).2
            have done : rest = [] := by
              by_contra more
              rw [state] at off
              exact off ⟨length_pos_iff.mpr more, opened.connected⟩
            subst done
            have found := finds result opened.connected opened.takes
            have nonempty : 0 < room s e.other → ∀ buf ∈ iovs, buf ≠ [] := fun some buf mem =>
              found.nonempty some buf (mem_cons_of_mem _ mem)
            refine left.sends iovs count (by omega) (by simpa using whole)
              ⟨removeWaitQueue_open.mpr opened, ?_, fun nonblock => ?_⟩
            · rw [removeWaitQueue_room]
              exact nonempty
            · obtain ⟨list, same⟩ := removeWaitQueue_same s e e t
              rw [same] at nonblock
              rw [removeWaitQueue_room]
              rcases found.whole nonblock with ⟨fresh, -⟩ | ⟨some, enough⟩
              · exact absurd (.inl (pos_of_ne_zero zero)) fresh
              · exact ⟨enough, nonempty some⟩

end Dce.LocalStream
