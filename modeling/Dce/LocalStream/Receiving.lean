import Dce.LocalStream.Bytes

/- What the reads of a pair report. -/

namespace Dce.LocalStream

open Coroutine List

variable {T β : Type*} [DecidableEq T] {s v : W T β} {t u : T} {e : Side}

section

omit [DecidableEq T]

theorem Attached.not_closed {q : SocketFd T β} (attached : Attached q) : q.m_state ≠ .CLOSED := by
  rcases attached with connected | remote
  · simp [connected]
  · simp [remote]

theorem Queue.out_length (queue : Queue (socket e s)) (n : Nat) :
    (readData (socket e s).m_readBuffer n).2.length = min n (available e s) := by
  rw [queue.fresh.readData_out, length_take, available]

end

theorem Queue.available_drain (queue : Queue (socket e s)) (n : Nat) :
    available e (drain s e t n) = available e s - n := by
  rw [available, socket_drain_self]
  rw [queue.fresh.readData_rest, length_drop, available]

theorem Accounts.received (accounts : Accounts (.reading e) s t) {data : List β} (all : s.shared.moved t = data) :
    Accounts .own (setSocket e { socket e s with
      toldRead := Function.update (socket e s).toldRead t ((socket e s).toldRead t ++ data) } s) t := by
  refine ⟨fun f => ?_, fun f => ?_⟩
  · have before := accounts.written f
    rcases e.eq_or f with rfl | rfl
    · rw [socket_setSocket_other, socket_setSocket_self]
      exact before
    · rw [Side.other_other] at before ⊢
      rw [socket_setSocket_self, socket_setSocket_other]
      exact before
  · have before := accounts.read f
    rcases e.eq_or f with rfl | rfl
    · rw [if_pos rfl, all] at before
      rw [socket_setSocket_self, if_neg nofun, append_nil]
      dsimp only
      rw [Function.update_self]
      exact before
    · rw [if_neg (by simp)] at before
      rw [socket_setSocket_other]
      exact before

variable {asked count filled n rest : Nat} {retval : Int} {wq : Option (Option Nat)} {lens : List Nat}

theorem Working.received (working : Working (.reading e) t s) (length : (s.shared.moved t).length = retval.toNat)
    (eof : retval = 0 → 0 < asked → left (socket e s) = 0) : Tended (recvmsgReturn t e asked retval s) := by
  have queue := working.queues e
  have all : s.shared.moved t = (s.shared.moved t).take retval.toNat := by rw [← length, take_length]
  refine Working.ret ?_ _ ⟨length, eof⟩
  refine working.sets ?_ rfl rfl (fun u other => ?_) (working.mine.received all) id
  · exact ⟨queue.joined, queue.fresh, queue.size, queue.flow, queue.order⟩
  · exact ⟨rfl, Function.update_of_ne other _ _⟩

theorem read_attached (attached : Attached (socket e s)) : read t e count s = readLoop t e 0 count none s := by
  unfold read
  rw [if_neg]
  rintro ⟨unconnected, unclosed⟩
  rcases attached with connected | remote
  · exact unconnected connected
  · exact unclosed remote

theorem read_detached (detached : ¬ Attached (socket e s)) : read t e count s = (s, .failed .EINVAL) := by
  unfold read
  rw [if_pos]
  exact ⟨fun connected => detached (.inl connected), fun remote => detached (.inr remote)⟩

theorem Queue.readLoop_nothing (queue : Queue (socket e s))
    (positive : 0 < count) (readable : Readable (socket e s)) (none : available e s = 0) :
    readLoop t e filled count wq s = (s, readStop e filled count wq s) := by
  refine readLoop_none positive readable (eq_nil_of_length_eq_zero ?_)
  rw [queue.out_length, none, Nat.min_zero]

/-- What is left of a message has bytes to fill its buffers, or is read as they come. -/
structure Ready (e : Side) (lens : List Nat) (s : W T β) : Prop where
  attached : Attached (socket e s)
  shut : (socket e s).m_state = .CONNECTED → (socket e s).nonblock = false →
    (socket e s).m_peer = true → (socket e.other s).m_shutWrite = true → Fits (available e s) lens
  whole : (socket e s).m_state = .CONNECTED → (socket e s).nonblock = true →
    lens = [] ∨ lens.dropLast.sum < available e s

variable (working : Working (.reading e) t s)
include working

theorem Working.recvmsgLoop_stuck (none : s.shared.moved t = [])
    (stuck : Attached (socket e s) → (socket e s).m_state = .CONNECTED ∧ (socket e s).nonblock = true ∧
      available e s = 0)
    (asked : Nat) (lens : List Nat) (failed : retval < 0) :
    Tended (recvmsgLoop t e asked lens retval s) := by
  have returned : ∀ v : W T β, Working (.reading e) t v → v.shared.moved t = [] → ∀ r : Int, r < 0 →
      Tended (recvmsgReturn t e asked r v) := fun v there none r negative =>
    there.received (by rw [none, length_nil]; omega) (by omega)
  induction lens generalizing s retval with
  | nil => exact returned s working none retval failed
  | cons len lens ih =>
    have next : ∀ err, Tended (recvmsgLoop t e asked lens (retval - 1) (setErr t err s)) := fun err =>
      ih (working.failing err) none stuck (by omega)
    rw [recvmsgLoop]
    by_cases attached : Attached (socket e s)
    · obtain ⟨connected, nonblock, empty⟩ := stuck attached
      rw [read_attached attached]
      by_cases positive : 0 < len
      · rw [(working.queues e).readLoop_nothing positive (.inl connected) empty, readStop, if_pos nonblock]
        exact next .EAGAIN
      · rw [readLoop_idle (by omega)]
        exact returned s working none retval failed
    · rw [read_detached attached]
      exact next .EINVAL

theorem Working.afterReadStop (connected : (socket e s).m_state = .CONNECTED) (none : available e s = 0)
    (positive : 0 < rest) (length : (s.shared.moved t).length = n + filled)
    (later : ∀ last, wq = some (some last) → s.now < last)
    (shut : (socket e s).nonblock = false → (socket e s).m_peer = true →
      (socket e.other s).m_shutWrite = true → filled = 0)
    (whole : (socket e s).nonblock = true → (filled = 0 → n = 0) ∧ (0 < filled → lens = [])) :
    Tended (afterRead t e asked n lens (recvmsgLoop t e asked lens) (s, readStop e filled rest wq s)) := by
  have open' : (socket e s).m_state ≠ .CLOSED := by simp [connected]
  unfold readStop
  split
  next nonblock =>
    obtain ⟨fresh, single⟩ := whole nonblock
    unfold shortReturn
    split
    next zero =>
      have nothing : s.shared.moved t = [] := by
        refine eq_nil_of_length_eq_zero ?_
        rw [length, zero, fresh zero]
      exact (working.failing .EAGAIN).recvmsgLoop_stuck nothing (fun _ => ⟨connected, nonblock, none⟩) asked lens
        (by rw [fresh zero]; decide)
    next some =>
      unfold afterRead
      dsimp only
      rw [if_neg some, single (by omega), ← Int.natCast_add]
      exact working.received (by rw [length, Int.toNat_natCast]) (by omega)
  next blocking =>
    have blocking := Bool.not_eq_true _ ▸ blocking
    split
    next closing =>
      have zero := shut blocking closing.1 closing.2
      unfold afterRead
      dsimp only
      refine working.received (by rw [length, zero, Int.toNat_natCast, Nat.add_zero]) fun _ _ => ?_
      rw [(working.queues e).left_eq open', none]
    next =>
      obtain ⟨last, waits⟩ := waitUntil_waits later (socket e s).m_recvTimeout filled rest
      rw [waits]
      refine Working.sleeps ?_ ⟨n, rfl, length, positive, fun closed => absurd closed open'⟩
      exact working

theorem Working.afterReadLoop (attached : Attached (socket e s)) (positive : 0 < count)
    (length : (s.shared.moved t).length = n + filled) (later : ∀ last, wq = some (some last) → s.now < last)
    (finds : BytesFor e (n = 0 ∧ lens = []) (0 < filled ∨ n ≠ 0) filled (count :: lens) s)
    (more : ∀ (v : W T β) (m : Nat), Working (.reading e) t v → (v.shared.moved t).length = m → 0 < m →
      Ready e lens v →
      Tended (recvmsgLoop t e asked lens m v)) :
    Tended (afterRead t e asked n lens (recvmsgLoop t e asked lens) (readLoop t e filled count wq s)) := by
  have queue := working.queues e
  have out := queue.out_length count
  have drained : Working (.reading e) t (drain s e t count) := working.drained attached.not_closed count
  have after : available e (drain s e t count) = available e s - count := queue.available_drain count
  have moved : ((drain s e t count).shared.moved t).length = n + (filled + min count (available e s)) := by
    rw [drain_moved, Function.update_self, length_append, length, out, Nat.add_assoc]
  have state : (socket e (drain s e t count)).m_state = (socket e s).m_state := by rw [socket_drain_self]
  by_cases readable : Readable (socket e s)
  · rcases Nat.lt_or_ge (available e s) count with part | enough
    · rcases Nat.eq_zero_or_pos (available e s) with none | some
      · have connected : (socket e s).m_state = .CONNECTED := by
          rcases readable with connected | ⟨-, size⟩
          · exact connected
          · rw [queue.size] at size
            unfold available at none
            omega
        rw [queue.readLoop_nothing positive readable none]
        refine working.afterReadStop connected none positive length later
          (fun blocking peer shut => ?_) fun nonblock => ?_
        · have bytes := (finds.shut connected blocking peer shut).1
          omega
        · rcases finds.whole connected nonblock with single | ⟨fresh, -⟩ | less
          · exact ⟨fun _ => single.1, fun _ => single.2⟩
          · exact ⟨fun _ => by omega, fun got => absurd (.inl got) fresh⟩
          · omega
      · have some' : (readData (socket e s).m_readBuffer count).2 ≠ [] := by
          rw [← length_pos_iff]
          omega
        rw [readLoop_part positive readable some' (by rw [out]; omega), out, Nat.min_eq_right (by omega)]
        rw [Nat.min_eq_right (by omega)] at moved
        split
        next still =>
          have none : available e (drain s e t count) = 0 := by omega
          have connected : (socket e s).m_state = .CONNECTED := by
            rcases still with connected | ⟨-, size⟩
            · exact state ▸ connected
            · rw [(drained.queues e).size] at size
              unfold available at none
              omega
          refine drained.afterReadStop (state.trans connected) none (by omega) moved ?_ ?_ ?_
          · rw [drain_now]
            exact later
          · rw [socket_drain_self, socket_drain_other]
            intro blocking peer shut
            rcases (finds.shut connected blocking peer shut).2 with empty | zero | ⟨enough, -⟩
            · omega
            · omega
            · omega
          · rw [socket_drain_self]
            intro nonblock
            refine ⟨fun zero => by omega, fun _ => ?_⟩
            rcases finds.whole connected nonblock with single | ⟨-, zero⟩ | less
            · exact single.2
            · omega
            · cases lens with
              | nil => rfl
              | cons len lens =>
                rw [dropLast_cons_cons, sum_cons] at less
                omega
        next done =>
          have remote : ¬ (socket e s).m_state = .CONNECTED := fun connected =>
            done (.inl (state.trans connected))
          unfold afterRead
          dsimp only
          rw [if_neg (by omega)]
          refine more _ _ drained moved (by omega) ⟨?_, ?_, ?_⟩
          · rwa [Attached, state]
          · exact fun connected => absurd (state ▸ connected) remote
          · exact fun connected => absurd (state ▸ connected) remote
    · rw [readLoop_enough positive readable (by rw [out]; omega)]
      rw [Nat.min_eq_left enough] at moved
      unfold afterRead
      dsimp only
      rw [if_neg (by omega)]
      refine more _ _ drained moved (by omega) ⟨?_, ?_, ?_⟩
      · rwa [Attached, state]
      · rw [after, socket_drain_self, socket_drain_other]
        intro connected blocking peer shut
        rcases (finds.shut connected blocking peer shut).2 with empty | zero | ⟨-, rest⟩
        · omega
        · omega
        · exact rest
      · rw [socket_drain_self]
        intro connected nonblock
        rcases finds.whole connected nonblock with single | ⟨-, zero⟩ | less
        · exact .inl single.2
        · omega
        · cases lens with
          | nil => exact .inl rfl
          | cons len lens =>
            rw [dropLast_cons_cons, sum_cons] at less
            exact .inr (by omega)
  · have remote : (socket e s).m_state = .REMOTECLOSED := by
      rcases attached with connected | remote
      · exact absurd (.inl connected) readable
      · exact remote
    have none : available e s = 0 := by
      by_contra some
      refine readable (.inr ⟨remote, ?_⟩)
      rw [queue.size]
      unfold available at some
      omega
    rw [readLoop_idle fun both => readable both.2]
    unfold afterRead
    dsimp only
    split
    next zero =>
      refine working.received (by rw [length, zero, Int.toNat_natCast, Nat.add_zero]) fun _ _ => ?_
      rw [queue.left_eq attached.not_closed, none]
    · refine more _ _ working length (by omega) ⟨attached, ?_, ?_⟩
      · exact fun connected => by simp [remote] at connected
      · exact fun connected => by simp [remote] at connected

theorem Working.receives (lens : List Nat) (length : (s.shared.moved t).length = n) (positive : 0 < n)
    (ready : Ready e lens s) :
    Tended (recvmsgLoop t e asked lens n s) := by
  induction lens generalizing s n with
  | nil => exact working.received (by rw [length, Int.toNat_natCast]) (by omega)
  | cons len lens ih =>
    rw [recvmsgLoop, read_attached ready.attached]
    rcases Nat.eq_zero_or_pos len with zero | some
    · rw [readLoop_idle (by omega)]
      exact working.received (by rw [length, Int.toNat_natCast]) (by omega)
    · refine working.afterReadLoop ready.attached some length nofun ⟨?_, ?_⟩
        fun v m there length positive ready => ih there length positive ready
      · exact fun connected blocking peer shut => ⟨by simp, ready.shut connected blocking peer shut⟩
      · exact fun connected nonblock => .inr (.inr ((ready.whole connected nonblock).resolve_left nofun))

theorem Working.startRecvmsg (none : s.shared.moved t = []) (lens : List Nat)
    (finds : BytesFor e (lens.length ≤ 1) False 0 lens s)
    (first : Attached (socket e s) → 0 < available e s → 0 < lens.sum → lens.head? ≠ some 0) :
    Tended (recvmsg t e lens s) := by
  unfold recvmsg
  cases lens with
  | nil => exact working.received (by simp [none]) nofun
  | cons len lens =>
    rw [recvmsgLoop]
    by_cases attached : Attached (socket e s)
    · rw [read_attached attached]
      rcases Nat.eq_zero_or_pos len with zero | some
      · rw [readLoop_idle (by omega)]
        refine working.received (by simp [none]) fun _ asked => ?_
        rw [(working.queues e).left_eq attached.not_closed]
        by_contra some
        exact first attached (by omega) asked (by simp [zero])
      · refine working.afterReadLoop (n := 0) attached some (by simp [none]) nofun ⟨?_, ?_⟩
          fun v m there length positive ready => there.receives lens length positive ready
        · exact finds.shut
        · intro connected nonblock
          rcases finds.whole connected nonblock with single | ⟨-, empty⟩ | less
          · exact .inl ⟨rfl, eq_nil_of_length_eq_zero (by simpa using single)⟩
          · exact .inr (.inl ⟨by simp, empty⟩)
          · exact .inr (.inr less)
    · rw [read_detached attached]
      exact (working.failing .EINVAL).recvmsgLoop_stuck none (fun attached' =>
        absurd attached' attached) _ lens (by decide)

omit working in
theorem BytesFor.dequeued {single started : Prop} (finds : BytesFor e single started filled lens s) :
    BytesFor e single started filled lens (removeWaitQueue t e s) := by
  obtain ⟨list, same⟩ := removeWaitQueue_same s e e t
  obtain ⟨list', same'⟩ := removeWaitQueue_same s e e.other t
  have still : available e (removeWaitQueue t e s) = available e s := by rw [available, same, available]
  refine ⟨?_, ?_⟩
  · rw [still, same, same']
    exact finds.shut
  · rw [still, same]
    exact finds.whole

theorem Working.resumeRead
    {last : Option Nat} {interrupted : Bool} (positive : 0 < rest) (length : (s.shared.moved t).length = n + filled)
    (gone : (socket e s).m_state = .CLOSED → s.shared.moved t = [] → left (socket e s) = 0)
    (honest : HonestReturn s interrupted (.read e filled rest last asked n lens)) :
    Tended (resume t (.read e filled rest last asked n lens) interrupted s) := by
  obtain ⟨several, finds⟩ := honest
  have several : n ≠ 0 ∨ lens ≠ [] → waitResult interrupted last s.now = .OK ∧ Attached (socket e s) :=
    fun more => several (by simpa using more)
  obtain ⟨list, same⟩ := removeWaitQueue_same s e e t
  have dequeued : Working (.reading e) t (removeWaitQueue t e s) := working.dequeued
  have attached : Attached (socket e (removeWaitQueue t e s)) ↔ Attached (socket e s) := by
    rw [same]
    rfl
  have single : waitResult interrupted last s.now ≠ .OK ∨ ¬ Attached (socket e s) → n = 0 ∧ lens = [] := by
    intro off
    by_contra more
    obtain ⟨ok, on⟩ := several (by tauto)
    exact off.elim (fun off => off ok) fun off => off on
  have broken : ∀ err, waitResult interrupted last s.now ≠ .OK →
    Tended (afterRead t e asked n lens (recvmsgLoop t e asked lens)
        (removeWaitQueue t e s, shortReturn err filled)) := by
    intro err off
    obtain ⟨rfl, rfl⟩ := single (.inl off)
    unfold shortReturn
    split
    next zero => exact (dequeued.failing err).received (by simp [length, zero]) nofun
    next some =>
      unfold afterRead
      dsimp only
      rw [if_neg some]
      exact dequeued.received (by simp [length]) (by omega)
  unfold resume readOn
  dsimp only
  rw [removeWaitQueue_now]
  cases result : waitResult interrupted last s.now with
  | INTERRUPTED => exact broken .EINTR (by simp [result])
  | TIMEOUT => exact broken .EAGAIN (by simp [result])
  | OK =>
    by_cases on : Attached (socket e s)
    · refine dequeued.afterReadLoop (attached.mpr on) positive length
        (fun limit timed => waitResult_ok result (Option.some.inj timed)) ?_
        fun v m there length positive ready => there.receives lens length positive ready
      simpa using (finds result).dequeued (t := t)
    · obtain ⟨rfl, rfl⟩ := single (.inr on)
      have closed : (socket e s).m_state = .CLOSED := (working.queues e).joined.resolve_left on
      rw [readLoop_idle]
      · unfold afterRead
        dsimp only
        split
        next zero =>
          refine dequeued.received (by simp [length, zero]) fun _ _ => ?_
          rw [same]
          exact gone closed (eq_nil_of_length_eq_zero (by simp [length, zero]))
        · exact dequeued.received (by simp [length]) (by omega)
      · rw [same]
        rintro ⟨-, readable | readable⟩
        · exact on (.inl readable)
        · exact on (.inr readable.1)

end Dce.LocalStream
