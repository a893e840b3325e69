import Dce.LocalStream.Messages

/- What `Sendmsg` counts. -/

namespace Dce.LocalStream

open Coroutine List

variable {T β : Type*} [DecidableEq T] {s v : W T β} {t u : T} {e : Side} {message rest : List β}
  {iovs : List (List β)} {n tot : Nat} {wq : Option (Option Nat)}

variable (carrying : Carrying (.writing e) t s)
include carrying

theorem Carrying.sent {retval : Int} (first : s.shared.moved t <+: message)
    (counts : retval = (s.shared.moved t).length ∨ retval = -1 ∧ s.shared.moved t = []) :
    Carried (sendmsgReturn t e message retval s) := by
  have all : s.shared.moved t = message.take retval.toNat := by
    rcases counts with exactly | ⟨failed, none⟩
    · rw [exactly]
      exact prefix_iff_eq_take.mp first
    · simp [failed, none]
  refine Carrying.ret ?_ _ ⟨first, counts⟩
  refine carrying.sets ⟨(carrying.stocks e).flow, (carrying.stocks e).order⟩ (fun u other => ?_)
    (carrying.mine.sent all)
  refine ⟨rfl, fun f => ?_, fun f => ?_, fun f => ?_, fun f => ?_⟩
  all_goals rcases e.eq_or f with rfl | rfl <;> simp [other]

theorem Carrying.counted (count : (s.shared.moved t).length = n)
    (first : s.shared.moved t <+: message) : Carried (sendmsgReturn t e message n s) :=
  carrying.sent first (.inl (by rw [count]))

theorem Carrying.writeFails (err : Errno) (none : s.shared.moved t = []) (zero : n = 0) (last : iovs = []) :
    Carried (afterWrite t e message n iovs (sendmsgLoop t e message iovs) (s, .failed err)) := by
  subst zero last
  exact (carrying.failing err).sent (by simp [none]) (.inr ⟨rfl, none⟩)

theorem Carrying.writeStops (count : (s.shared.moved t).length = n + tot)
    (whole : s.shared.moved t ++ rest ++ iovs.flatten = message) (begun : 0 < tot → rest ≠ [])
    (later : ∀ last, wq = some (some last) → s.now < last)
    (fails : (socket e s).nonblock = true → n + tot = 0 ∧ iovs = []) :
    Carried (afterWrite t e message n iovs (sendmsgLoop t e message iovs) (s, writeStop e tot rest wq s)) := by
  unfold writeStop
  split
  next nonblock =>
    obtain ⟨zero, last⟩ := fails nonblock
    exact carrying.writeFails .EAGAIN (eq_nil_of_length_eq_zero (by omega)) (by omega) last
  next =>
    obtain ⟨last, waits⟩ := waitUntil_waits later (socket e s).m_sendTimeout tot rest
    rw [waits]
    refine Carrying.sleeps ?_ ⟨n, rfl, count, whole, begun⟩
    exact carrying

omit carrying in
omit [DecidableEq T] in
theorem HasRoom.alone {moved room : Nat} (fits : HasRoom moved (rest :: iovs) room) (none : rest = [] ∨ room = 0) :
    moved = 0 ∧ iovs = [] := by
  rcases fits with ⟨enough, nonempty⟩ | ⟨zero, single, -⟩
  · have some := length_pos_iff.mpr (nonempty rest mem_cons_self)
    rw [flatten_cons, length_append] at enough
    rcases none with rfl | full
    · cases some
    · omega
  · exact ⟨zero, eq_nil_of_length_eq_zero (by simpa using single)⟩

omit carrying in
omit [DecidableEq T] in
theorem HasRoom.more {moved m room : Nat} (fits : HasRoom moved (rest :: iovs) room) (data : rest ≠ [])
    (positive : 0 < room) : rest.length ≤ room ∧ HasRoom m iovs (room - rest.length) := by
  rcases fits with ⟨enough, nonempty⟩ | ⟨-, -, none⟩
  · rw [flatten_cons, length_append] at enough
    exact ⟨by omega, .inl ⟨by omega, fun buf mem => nonempty buf (mem_cons_of_mem _ mem)⟩⟩
  · rcases none with full | empty
    · omega
    · exact absurd (append_eq_nil_iff.mp (flatten_cons ▸ empty)).1 data

theorem Carrying.writes (connected : (socket e s).m_state = .CONNECTED)
    (count : (s.shared.moved t).length = n + tot) (whole : s.shared.moved t ++ rest ++ iovs.flatten = message)
    (begun : 0 < tot → rest ≠ []) (later : ∀ last, wq = some (some last) → s.now < last)
    (fits : WriteFits e n tot rest iovs s)
    (more : ∀ (v : W T β) (m : Nat), Carrying (.writing e) t v → (v.shared.moved t).length = m →
      v.shared.moved t ++ iovs.flatten = message → SendFits e m iovs v →
      Carried (sendmsgLoop t e message iovs m v)) :
    Carried (afterWrite t e message n iovs (sendmsgLoop t e message iovs) (writeLoop t e tot rest wq s)) := by
  by_cases takes : Takes (socket e.other s)
  · rcases Nat.eq_zero_or_pos (room s e.other) with full | positive
    · rw [writeLoop_none takes full]
      refine carrying.writeStops count whole begun later fun nonblock => ?_
      exact (fits.fits takes nonblock).alone (.inr full)
    · by_cases data : rest = []
      · subst data
        rw [writeLoop_empty takes positive]
        refine (carrying.filled []).writeStops (by simpa using count) (by simpa using whole) begun
          (by simpa using later) fun nonblock => ?_
        rw [socket_fill_other] at nonblock
        exact (fits.fits takes nonblock).alone (.inl rfl)
      · by_cases enough : rest.length ≤ room s e.other
        · rw [writeLoop_fits takes data enough]
          have positive := length_pos_iff.mpr data
          unfold afterWrite
          dsimp only
          rw [if_neg (by omega)]
          refine more _ _ (carrying.filled rest) ?_ ?_ ⟨fun _ refused => ?_, fun _ nonblock => ?_⟩
          · rw [fill_moved, Function.update_self, length_append]
            omega
          · rw [fill_moved, Function.update_self]
            exact whole
          · refine (fits.more takes enough).imp_right fun shutWrite => absurd ?_ refused
            exact ⟨by rw [socket_fill_other]; exact connected, by rw [socket_fill_other]; exact shutWrite,
              takes.filled⟩
          · rw [socket_fill_other] at nonblock
            rw [room_fill]
            exact ((fits.fits takes nonblock).more data (by omega)).2
        · rw [writeLoop_part takes connected positive (by omega)]
          refine (carrying.filled _).writeStops ?_ ?_ (fun _ => ?_) (by simpa using later) fun nonblock => ?_
          · rw [fill_moved, Function.update_self, length_append, length_take]
            omega
          · rw [fill_moved, Function.update_self, ← whole, append_assoc (s.shared.moved t), take_append_drop]
          · rw [← length_pos_iff, length_drop]
            omega
          · rw [socket_fill_other] at nonblock
            exact absurd ((fits.fits takes nonblock).more (m := 0) data positive).1 enough
  · obtain ⟨rfl, zero⟩ := fits.refused takes
    rw [writeLoop_refused takes, shortReturn]
    split
    next none =>
      exact carrying.writeFails .EPIPE (eq_nil_of_length_eq_zero (by rw [count, none, zero none])) (zero none) rfl
    next got =>
      unfold afterWrite
      dsimp only
      rw [if_neg got]
      refine carrying.counted count ?_
      rw [← whole, append_assoc]
      exact prefix_append _ _

omit carrying in
theorem write_remote {buf : List β} (remote : (socket e s).m_state = .REMOTECLOSED) :
    write t e buf s = (s, .returned 0) := by
  unfold write
  rw [if_pos (by simp [remote]), if_pos remote]

omit carrying in
theorem write_refused {buf : List β} (remote : (socket e s).m_state ≠ .REMOTECLOSED) (refused : ¬ Open e s) :
    ∃ err, write t e buf s = (s, .failed err) := by
  unfold write
  dsimp only
  split
  · exact ⟨_, rfl⟩
  next connected =>
    split
    · exact ⟨_, rfl⟩
    next shutWrite =>
      have off : ¬ Takes (socket e.other s) := fun takes =>
        refused ⟨by simpa using connected, by simpa using shutWrite, takes⟩
      exact ⟨.EPIPE, by rw [writeLoop_refused off, shortReturn, if_pos rfl]⟩

theorem Carrying.sends (iovs : List (List β)) (count : (s.shared.moved t).length = n)
    (whole : s.shared.moved t ++ iovs.flatten = message) (fits : SendFits e n iovs s) :
    Carried (sendmsgLoop t e message iovs n s) := by
  have first : s.shared.moved t <+: message := ⟨_, whole⟩
  induction iovs generalizing s n with
  | nil => exact carrying.counted count first
  | cons buf iovs ih =>
    rw [sendmsgLoop]
    by_cases remote : (socket e s).m_state = .REMOTECLOSED
    · rw [write_remote remote]
      exact carrying.counted count first
    · by_cases opened : Open e s
      · rw [write_open opened]
        refine carrying.writes opened.connected (count.trans (Nat.add_zero n).symm) ?_ (by rintro ⟨⟩)
          (by rintro _ ⟨⟩) ⟨?_, ?_, ?_⟩
          fun v m there length whole fits => ih there length whole fits ⟨_, whole⟩
        · rw [append_assoc]
          exact whole
        · exact fun refused => absurd opened.takes refused
        · exact fun _ nonblock => fits.fits opened nonblock
        · exact fun _ _ => .inr opened.shutWrite
      · obtain ⟨err, failed⟩ : ∃ err, write t e buf s = (s, .failed err) := write_refused remote opened
        rw [failed]
        rcases fits.refused remote opened with empty | ⟨zero, single⟩
        · cases empty
        · exact carrying.writeFails err (eq_nil_of_length_eq_zero (by rw [count, zero])) zero
            (eq_nil_of_length_eq_zero (by simpa using single))

theorem Carrying.resumesWrite {last : Option Nat} {interrupted : Bool}
    (count : (s.shared.moved t).length = n + tot) (whole : s.shared.moved t ++ rest ++ iovs.flatten = message)
    (begun : 0 < tot → rest ≠ []) (finds : WholeReturn s interrupted (.write e tot rest last message n iovs)) :
    Carried (resume t (.write e tot rest last message n iovs) interrupted s) := by
  obtain ⟨broken, fits⟩ := finds
  have requeued : Requeued s (removeWaitQueue t e s) := fun f => removeWaitQueue_same s e f t
  obtain ⟨list, same⟩ := requeued e
  have left : Carrying (.writing e) t (removeWaitQueue t e s) := carrying.dequeued
  have state : (socket e (removeWaitQueue t e s)).m_state = (socket e s).m_state := by rw [same]
  -- a write that ends short is the last that moves a byte
  have short : ∀ err, waitResult interrupted last s.now ≠ .OK ∨ (socket e s).m_state ≠ .CONNECTED →
      Carried (afterWrite t e message n iovs (sendmsgLoop t e message iovs) (removeWaitQueue t e s,
        shortReturn err tot)) := by
    intro err off
    have ends := broken off
    unfold shortReturn
    split
    next none =>
      rw [if_pos none] at ends
      have zero : n = 0 := by simpa using ends.1
      exact left.writeFails err (eq_nil_of_length_eq_zero (by simp [count, zero, none])) zero ends.2
    next got =>
      rw [if_neg got] at ends
      have first : s.shared.moved t <+: message := ⟨rest ++ iovs.flatten, by rw [← whole, append_assoc]⟩
      unfold afterWrite
      dsimp only
      rw [if_neg got]
      rcases ends with rfl | remote
      · exact left.counted count first
      · cases iovs with
        | nil => exact left.counted count first
        | cons buf iovs =>
          rw [sendmsgLoop, write_remote (by rw [state]; exact remote)]
          exact left.counted count first
  unfold resume writeOn
  dsimp only
  rw [removeWaitQueue_now]
  cases result : waitResult interrupted last s.now with
  | INTERRUPTED => exact short .EINTR (.inl (by simp [result]))
  | TIMEOUT => exact short .EAGAIN (.inl (by simp [result]))
  | OK =>
    dsimp only
    split
    next on =>
      obtain ⟨data, connected⟩ := on
      rw [state] at connected
      have fits := fits result connected (length_pos_iff.mp data)
      refine left.writes (by rw [state]; exact connected) count whole begun
        (fun limit timed => waitResult_ok result (Option.some.inj timed)) (fits.requeued requeued)
        fun v m there length whole fits => there.sends iovs length whole fits
    next off =>
      rw [state] at off ⊢
      split
      next gone =>
        have ends := short .EPIPE (.inr gone.2)
        rwa [shortReturn, if_pos gone.1] at ends
      · by_cases none : tot = 0
        · unfold afterWrite
          dsimp only
          rw [if_pos none]
          refine left.counted (by simpa [none] using count) ⟨rest ++ iovs.flatten, ?_⟩
          rw [removeWaitQueue_moved, ← whole, append_assoc]
        · have gone : (socket e s).m_state ≠ .CONNECTED := fun connected =>
            off ⟨length_pos_iff.mpr (begun (by omega)), connected⟩
          have ends := short .EPIPE (.inr gone)
          rwa [shortReturn, if_neg none] at ends

end Dce.LocalStream

/- What `Recvmsg` counts. -/

namespace Dce.LocalStream

open Coroutine List

variable {T β : Type*} [DecidableEq T] {s v : W T β} {t u : T} {e : Side} {lens : List Nat}
  {asked n filled rest : Nat} {wq : Option (Option Nat)}

variable (carrying : Carrying (.reading e) t s)
include carrying

theorem Carrying.received {retval : Int} (bound : (s.shared.moved t).length ≤ asked)
    (counts : retval = (s.shared.moved t).length ∨ retval = -1 ∧ s.shared.moved t = []) :
    Carried (recvmsgReturn t e asked retval s) := by
  have all : s.shared.moved t = (s.shared.moved t).take retval.toNat := by
    rcases counts with exactly | ⟨failed, none⟩
    · rw [exactly, Int.toNat_natCast, take_length]
    · simp [none]
  refine Carrying.ret ?_ _ ⟨bound, counts⟩
  refine carrying.sets ⟨(carrying.stocks e).flow, (carrying.stocks e).order⟩ (fun u other => ?_)
    (carrying.mine.received all)
  refine ⟨rfl, fun f => ?_, fun f => ?_, fun f => ?_, fun f => ?_⟩
  all_goals rcases e.eq_or f with rfl | rfl <;> simp [other]

theorem Carrying.takes (count : (s.shared.moved t).length = n) (bound : n ≤ asked) :
    Carried (recvmsgReturn t e asked n s) :=
  carrying.received (by omega) (.inl (by rw [count]))

theorem Carrying.readFails (err : Errno) (none : s.shared.moved t = []) (zero : n = 0) (last : lens = []) :
    Carried (afterRead t e asked n lens (recvmsgLoop t e asked lens) (s, .failed err)) := by
  subst zero last
  exact (carrying.failing err).received (by simp [none]) (.inr ⟨rfl, none⟩)

theorem Carrying.stops (count : (s.shared.moved t).length = n)
    (bound : n ≤ asked) (stops : Stops e lens s) : Carried (recvmsgLoop t e asked lens n s) := by
  cases lens with
  | nil => exact carrying.takes count bound
  | cons len lens =>
    obtain ⟨attached, idle⟩ := stops.resolve_left nofun
    have nothing : ¬ (0 < len ∧ Readable (socket e s)) := by
      rintro ⟨positive, readable⟩
      rcases idle with zero | still
      · cases Option.some.inj zero
        omega
      · exact still readable
    rw [recvmsgLoop, read_attached attached, readLoop_idle nothing]
    exact carrying.takes count bound

theorem Carrying.shortRead (count : (s.shared.moved t).length = n + filled)
    (bound : n + filled ≤ asked) (finds : filled = 0 ∨ Stops e lens s) :
    Carried (afterRead t e asked n lens (recvmsgLoop t e asked lens) (s, .returned filled)) := by
  unfold afterRead
  dsimp only
  split
  · exact carrying.takes (by omega) (by omega)
  next got =>
    exact carrying.stops count bound (finds.resolve_left got)

theorem Carrying.readStops (attached : Attached (socket e s))
    (count : (s.shared.moved t).length = n + filled) (whole : n + filled + rest + lens.sum = asked)
    (positive : 0 < rest)
    (later : ∀ last, wq = some (some last) → s.now < last) (ends : CanEnd e s n filled lens) :
    Carried (afterRead t e asked n lens (recvmsgLoop t e asked lens) (s, readStop e filled rest wq s)) := by
  unfold CanEnd at ends
  unfold readStop
  split
  next nonblock =>
    rw [if_pos nonblock] at ends
    unfold shortReturn
    split
    · obtain ⟨none, last⟩ : n = 0 ∧ lens = [] := by
        rcases ends with ⟨got, -⟩ | ⟨-, none, last⟩
        · omega
        · exact ⟨none, last⟩
      exact carrying.readFails .EAGAIN (eq_nil_of_length_eq_zero (by omega)) none last
    next got =>
      obtain ⟨-, last⟩ := ends.resolve_right fun other => got other.1
      refine carrying.shortRead count (by omega) (.inr ?_)
      cases lens with
      | nil => exact .inl rfl
      | cons len lens => exact .inr ⟨attached, .inl (congrArg some last)⟩
  next blocking =>
    rw [if_neg blocking] at ends
    split
    next closing =>
      have zero := ends closing.1 closing.2
      subst zero
      exact carrying.shortRead count (by omega) (.inl rfl)
    next =>
      obtain ⟨last, waits⟩ := waitUntil_waits later (socket e s).m_recvTimeout filled rest
      rw [waits]
      refine Carrying.sleeps ?_ ⟨n, rfl, count, whole, positive⟩
      exact carrying

omit carrying in
theorem canEnd_drain (count : Nat) : CanEnd e (drain s e t count) = CanEnd e s := by
  funext moved filled lens
  unfold CanEnd
  rw [socket_drain_self, socket_drain_other]

omit carrying in
theorem atHand_drain (count : Nat) : atHand e (drain s e t count) = atHand e s - count := by
  unfold atHand
  rw [socket_drain_self]
  rw [(readData_reach _ count).2, length_drop]

omit carrying in
omit [DecidableEq T] in
theorem out_length (count : Nat) : (readData (socket e s).m_readBuffer count).2.length = min count (atHand e s) := by
  rw [(readData_reach _ count).1, length_take, atHand]

theorem Carrying.reads (attached : Attached (socket e s)) (positive : 0 < rest)
    (count : (s.shared.moved t).length = n + filled) (whole : n + filled + rest + lens.sum = asked)
    (later : ∀ last, wq = some (some last) → s.now < last)
    (fits : Readable (socket e s) → ReadFits e n filled (rest :: lens) s)
    (more : ∀ (v : W T β) (m : Nat), Carrying (.reading e) t v → Attached (socket e v) →
      (v.shared.moved t).length = m → m + lens.sum = asked → ReadFits e m 0 lens v →
      Carried (recvmsgLoop t e asked lens m v)) :
    Carried (afterRead t e asked n lens (recvmsgLoop t e asked lens) (readLoop t e filled rest wq s)) := by
  have out := out_length (s := s) (e := e) rest
  have drained := carrying.drained attached.not_closed rest
  have moved : ((drain s e t rest).shared.moved t).length = n + (filled + min rest (atHand e s)) := by
    rw [drain_moved, Function.update_self, length_append, count, out, Nat.add_assoc]
  have still : Attached (socket e (drain s e t rest)) := by
    rw [socket_drain_self]
    exact attached
  by_cases readable : Readable (socket e s)
  · rcases Nat.lt_or_ge (atHand e s) rest with part | enough
    · have ends : Readable (socket e (drain s e t rest)) → CanEnd e s n (filled + atHand e s) lens := by
        intro open'
        rcases fits readable with ⟨remote, size⟩ | zero | ⟨enough, -⟩ | ⟨-, ends⟩
        · rw [socket_drain_self] at open'
          rcases open' with connected | ⟨-, more⟩
          · rw [remote] at connected
            cases connected
          · dsimp only at more
            omega
        · omega
        · omega
        · exact ends
      rcases Nat.eq_zero_or_pos (atHand e s) with none | some
      · have empty : (readData (socket e s).m_readBuffer rest).2 = [] :=
          eq_nil_of_length_eq_zero (by rw [out]; omega)
        rw [readLoop_none positive readable empty]
        refine carrying.readStops attached count whole positive later ?_
        rcases fits readable with ⟨remote, size⟩ | zero | ⟨enough, -⟩ | ⟨-, ends⟩
        · rcases readable with connected | ⟨-, more⟩
          · rw [remote] at connected
            cases connected
          · omega
        · omega
        · omega
        · simpa [none] using ends
      · have some' : (readData (socket e s).m_readBuffer rest).2 ≠ [] := by
          rw [← length_pos_iff]
          omega
        rw [readLoop_part positive readable some' (by rw [out]; omega), out, Nat.min_eq_right (by omega)]
        rw [Nat.min_eq_right (by omega)] at moved
        split
        next open' =>
          refine drained.readStops still moved (by omega) (by omega) (by simpa using later) ?_
          rw [canEnd_drain]
          exact ends open'
        next closed => exact drained.shortRead moved (by omega) (.inr (.inr ⟨still, .inr closed⟩))
    · rw [readLoop_enough positive readable (by rw [out]; omega)]
      rw [Nat.min_eq_left enough] at moved
      unfold afterRead
      dsimp only
      rw [if_neg (by omega)]
      refine more _ _ drained still moved (by omega) ?_
      rcases fits readable with ⟨remote, size⟩ | zero | ⟨-, rest⟩ | ⟨less, -⟩
      · refine .inl ⟨by rw [socket_drain_self]; exact remote, ?_⟩
        rw [atHand_drain, socket_drain_self]
        rw [out, size, Nat.min_eq_left enough]
      · omega
      · refine .inr ?_
        rw [canEnd_drain, atHand_drain, ← Nat.add_assoc]
        exact rest
      · omega
  · rw [readLoop_idle fun both => readable both.2]
    exact carrying.shortRead count (by omega) (.inr (.inr ⟨attached, .inr readable⟩))

theorem Carrying.receives (lens : List Nat) (attached : Attached (socket e s))
    (count : (s.shared.moved t).length = n) (whole : n + lens.sum = asked) (fits : ReadFits e n 0 lens s) :
    Carried (recvmsgLoop t e asked lens n s) := by
  induction lens generalizing s n with
  | nil => exact carrying.takes count (by omega)
  | cons len lens ih =>
    rw [sum_cons] at whole
    rw [recvmsgLoop, read_attached attached]
    rcases Nat.eq_zero_or_pos len with zero | positive
    · rw [readLoop_idle (by omega)]
      exact carrying.shortRead count (by omega) (.inl rfl)
    · exact carrying.reads attached positive count (by omega) (by rintro _ ⟨⟩) (fun _ => fits)
        fun v m there attached length whole fits => ih there attached length whole fits

theorem Carrying.startsRecvmsg (none : s.shared.moved t = []) (lens : List Nat)
    (fits : Attached (socket e s) → ReadFits e 0 0 lens s) (single : ¬ Attached (socket e s) → lens.length ≤ 1) :
    Carried (recvmsg t e lens s) := by
  have count : (s.shared.moved t).length = 0 := by rw [none, length_nil]
  unfold recvmsg
  by_cases attached : Attached (socket e s)
  · exact carrying.receives lens attached count (Nat.zero_add _) (fits attached)
  · cases lens with
    | nil => exact carrying.takes count (Nat.zero_le _)
    | cons len lens =>
      rw [recvmsgLoop, read_detached attached]
      exact carrying.readFails (n := 0) .EINVAL none rfl (eq_nil_of_length_eq_zero (by simpa using single attached))

theorem Carrying.resumesRead {last : Option Nat} {interrupted : Bool}
    (count : (s.shared.moved t).length = n + filled) (whole : n + filled + rest + lens.sum = asked)
    (positive : 0 < rest)
    (finds : WholeReturn s interrupted (.read e filled rest last asked n lens)) :
    Carried (resume t (.read e filled rest last asked n lens) interrupted s) := by
  obtain ⟨broken, fits⟩ := finds
  have requeued : Requeued s (removeWaitQueue t e s) := fun f => removeWaitQueue_same s e f t
  have left : Carrying (.reading e) t (removeWaitQueue t e s) := carrying.dequeued
  have short : ∀ err, waitResult interrupted last s.now ≠ .OK →
    Carried (afterRead t e asked n lens (recvmsgLoop t e asked lens)
        (removeWaitQueue t e s, shortReturn err filled)) := by
    intro err off
    have ends := broken off
    unfold shortReturn
    split
    next none =>
      rw [if_pos none] at ends
      have zero : n = 0 := by simpa using ends.1
      exact left.readFails err (eq_nil_of_length_eq_zero (by simp [count, zero, none])) zero ends.2
    next got =>
      rw [if_neg got] at ends
      exact left.shortRead count (by omega) (.inr (requeued.stops.mpr ends))
  unfold resume readOn
  dsimp only
  rw [removeWaitQueue_now]
  cases result : waitResult interrupted last s.now with
  | INTERRUPTED => exact short .EINTR (by simp [result])
  | TIMEOUT => exact short .EAGAIN (by simp [result])
  | OK =>
    have fits := fits result
    by_cases readable : Readable (socket e s)
    · rw [if_pos readable] at fits
      have attached : Attached (socket e (removeWaitQueue t e s)) :=
        requeued.attached.mpr (readable.imp_right fun remote => remote.1)
      exact left.reads attached positive count whole
        (fun limit timed => waitResult_ok result (Option.some.inj timed)) (fun _ => requeued.readFits.mpr fits)
        fun v m there attached length whole fits => there.receives lens attached length whole fits
    · rw [if_neg readable] at fits
      rw [readLoop_idle fun both => readable (requeued.readable.mp both.2)]
      exact left.shortRead count (by omega) (fits.imp_right requeued.stops.mpr)

end Dce.LocalStream
