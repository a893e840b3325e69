import Dce.Datagram.Peers

/- The senders that sleep for room in the queue of a datagram socket, and who wakes them. -/

namespace Dce.Datagram

open LocalStream

open Coroutine List
open LocalStream (WaitQueueEntry maxBuffer writerMask)

section

variable {T β : Type*}

/-- `t` sleeps in a `Sendmsg` of the socket `a`, since the queue of `l` was full. -/
def Awaits (w : W T β) (t : T) (a l : Nat) : Prop :=
  w.status t = .blocked ∧ ∃ iovs retval last message, w.place t = .inside (.send a l iovs retval last message true)

/-- No sender sleeps for room where there is some. -/
def Released (w : W T β) : Prop := ∀ t a l, Awaits w t a l → maxBuffer ≤ (socket l w).m_readBufferSize

/-- A `Read` of `count` bytes takes some out of the queue of `a`. -/
def Takes (w : W T β) (a count : Nat) : Prop :=
  (socket a w).m_state = .BINDED ∧ 0 < count ∧
    ∃ myBuf m_readBuffer, (socket a w).m_readBuffer = myBuf :: m_readBuffer ∧ myBuf.unread ≠ []

/-- The receives that take bytes: the first `Read` of a `Recvmsg` decides. -/
def TakesBy (w : W T β) (a : Nat) : Act T (Op β) Bool → Prop
  | .call _ (.read b count) => a = b ∧ Takes w a count
  | .call _ (.recvmsg b lens _ peek) => a = b ∧ peek = false ∧ Takes w a (lens.headD 0)
  | .dispatch t _ => (∃ count last, w.place t = .inside (.read a count last) ∧ Takes w a count) ∨
      ∃ len last asked lens, w.place t = .inside (.recvmsg a len last false asked lens) ∧ Takes w a len
  | _ => False

/-- Nobody takes bytes out of a full queue that a sender sleeps for, or ends its socket; but a `Close`
wakes those that are connected to it. -/
def LeavesFull (w : W T β) (act : Act T (Op β) Bool) : Prop :=
  (∀ a, TakesBy w a act → maxBuffer ≤ (socket a w).m_readBufferSize → ∀ u b, ¬ Awaits w u b a) ∧
  match act with
  | .call _ (.close a) => ∀ u b, Awaits w u b a → ConnectedTo (links w) b a
  | .call _ (.release a) => ∀ u b, ¬ Awaits w u b a
  | _ => True

end

variable {T β : Type*} [DecidableEq T] {w v : W T β} {t u : T} {a b l : Nat}

/-- What a step of `t` leaves: outside `P` no receive queue gets shorter, and the other threads stay in
the wait queues. -/
structure Kept (t : T) (P : Nat → Prop) (w v : W T β) : Prop where
  grows : ∀ l, ¬ P l → (socket l w).m_readBufferSize ≤ (socket l v).m_readBufferSize
  lists : ∀ u, u ≠ t → ∀ a mask, (⟨u, mask⟩ : WaitQueueEntry T) ∈ (socket a w).waitQueue →
    (⟨u, mask⟩ : WaitQueueEntry T) ∈ (socket a v).waitQueue

section

variable {P : Nat → Prop}

section

omit [DecidableEq T]

theorem Kept.same (same : ∀ l, (socket l v).m_readBufferSize = (socket l w).m_readBufferSize ∧
    (socket l v).waitQueue = (socket l w).waitQueue) : Kept t P w v where
  grows l _ := Nat.le_of_eq (same l).1.symm
  lists _ _ a _ listed := (same a).2 ▸ listed

theorem Kept.refl (w : W T β) : Kept t P w w := .same fun _ => ⟨rfl, rfl⟩

theorem Kept.trans {x : W T β} (first : Kept t P w v) (second : Kept t P v x) : Kept t P w x where
  grows l apart := le_trans (first.grows l apart) (second.grows l apart)
  lists u other a mask listed := second.lists u other a mask (first.lists u other a mask listed)

theorem Kept.mono {Q : Nat → Prop} (kept : Kept t P w v) (weaker : ∀ l, P l → Q l) : Kept t Q w v where
  grows l apart := kept.grows l fun inside => apart (weaker l inside)
  lists := kept.lists

end

variable {s : SocketFd T β}

omit [DecidableEq T] in
theorem kept_setSocket (more : ¬ P a → (socket a w).m_readBufferSize ≤ s.m_readBufferSize)
    (listed : ∀ u, u ≠ t → ∀ mask, (⟨u, mask⟩ : WaitQueueEntry T) ∈ (socket a w).waitQueue →
      ⟨u, mask⟩ ∈ s.waitQueue) :
    Kept t P w (setSocket a s w) where
  grows l apart := by
    rw [socket_setSocket]
    split
    next same => exact same ▸ more (same ▸ apart)
    · exact le_rfl
  lists u other b mask before := by
    rw [socket_setSocket]
    split
    next same => exact listed u other mask (same ▸ before)
    · exact before

theorem kept_wakeWaiters {event : PollEvent} : Kept t P w (wakeWaiters event a w) :=
  .same fun l => by rw [socket_wakeWaiters]; exact ⟨rfl, rfl⟩

theorem through_kept (P : Nat → Prop) : Through t P (Kept (β := β) t P) where
  refl := .refl
  trans _ _ _ := .trans
  errs _ _ := .same fun _ => ⟨rfl, rfl⟩
  returns _ _ := .same fun _ => ⟨rfl, rfl⟩
  wakes _ _ _ := kept_wakeWaiters
  forgets _ _ := kept_setSocket (fun _ => le_rfl) fun _ other _ listed =>
    mem_filter.mpr ⟨listed, by simpa using other⟩
  sleeps a mask frame last w := by
    have added : Kept t P w (addWaitQueue t mask a w) :=
      kept_setSocket (fun _ => le_rfl) fun _ _ _ listed => mem_append_left _ listed
    refine added.trans (.same fun l => ?_)
    rw [socket_sleepOn]
    exact ⟨rfl, rfl⟩
  receives l buf w := by
    unfold doRecvPacket
    dsimp only
    split
    · exact .refl w
    · split
      · exact .refl w
      · refine Kept.trans ?_ kept_wakeWaiters
        refine (kept_setSocket ?_ ?_).trans (.same fun _ => ⟨rfl, rfl⟩)
        · exact fun _ => Nat.le_add_right _ _
        · exact fun _ _ _ => id
  takes a count peek w mine := by
    unfold takeData
    split
    · exact .same fun _ => ⟨rfl, rfl⟩
    next taking =>
      refine (kept_setSocket ?_ ?_).trans (.same fun _ => ⟨rfl, rfl⟩)
      · exact fun apart => absurd (mine (Bool.eq_false_iff.mpr taking)) apart
      · exact fun _ _ _ => id
  serves _ _ _ := kept_setSocket (fun _ => le_rfl) fun _ _ _ => id

theorem clearing_kept : Clearing a (Kept (β := β) t (· = a)) where
  refl := .refl
  trans _ _ _ := .trans
  wakes _ _ := kept_wakeWaiters
  binds _ _ := .same fun _ => ⟨rfl, rfl⟩
  sets _ _ _ spared :=
    kept_setSocket (fun apart => Nat.le_of_eq (spared.queue apart).2.symm) fun _ _ _ listed =>
      spared.waitQueue ▸ listed

variable (kept : Kept t P w v)
include kept

omit [DecidableEq T] in
theorem Kept.set (size : s.m_readBufferSize = (socket a v).m_readBufferSize)
    (waiting : s.waitQueue = (socket a v).waitQueue) : Kept t P w (setSocket a s v) :=
  kept.trans (kept_setSocket (fun _ => Nat.le_of_eq size.symm) fun _ _ _ listed => waiting ▸ listed)

theorem Kept.ret (r : Result β) : Kept t P w (v.ret t r) := kept.trans (.same fun _ => ⟨rfl, rfl⟩)

omit [DecidableEq T] in
theorem Kept.binds (path : Binder.Path) (l : Option Nat) : Kept t P w (setBinder path l v) :=
  kept.trans (.same fun _ => ⟨rfl, rfl⟩)

theorem Kept.fails (err : Errno) : Kept t P w (fails t err v) :=
  kept.trans (.same fun _ => ⟨rfl, rfl⟩)

end

/-- Where `t` stands after its own step: in no `Sendmsg`, or on the wait queue for a reason. -/
def Settled (t : T) (w : W T β) : Prop :=
  ∀ a l iovs retval last message full, w.place t = .inside (.send a l iovs retval last message full) →
    (⟨t, writerMask⟩ : WaitQueueEntry T) ∈ (socket a w).waitQueue ∧
    (full = true → maxBuffer ≤ (socket l w).m_readBufferSize)

theorem settled_ret (r : Result β) : Settled t (w.ret t r) := by
  intro a l iovs retval last message full inside
  rw [World.ret_place, Function.update_self] at inside
  cases inside

variable {last : Option Nat} {iovs : List (List β)} {message buf : List β} {dontwait peek : Bool}
    {wq : Option (Option Nat)}
  {got : W T β × Outcome} {asked retval : Nat}

theorem settled_reads {mask : List PollEvent} {frame : Frame β}
    (reads : ∀ a l iovs retval last message full, frame ≠ .send a l iovs retval last message full) :
    Settled t (sleepOn t b mask frame last w) := by
  intro a l iovs retval last message full inside
  rw [sleepOn_place, Function.update_self] at inside
  exact (reads _ _ _ _ _ _ _ (Place.inside.inj inside)).elim

theorem settled_sendWait {retval : Int} : Settled t (sendWait t a l message iovs retval last w) := by
  unfold sendWait
  split
  · exact settled_ret _
  · intro a' l' iovs' retval' last' message' full inside
    rw [sleepOn_place, Function.update_self] at inside
    cases inside
    rw [socket_sleepOn, socket_sleepOn, addWaitQueue, socket_setSocket_self, socket_setSocket]
    refine ⟨mem_append_right _ (mem_singleton.mpr rfl), fun full => ?_⟩
    have before := of_decide_eq_true full
    split
    next same => exact same ▸ before
    · exact before

theorem settled_sendLoop (iovs : List (List β)) {retval : Int}
    : Settled t (sendLoop t a l dontwait message iovs retval wq w) := by
  induction iovs generalizing retval w with
  | nil => exact settled_ret _
  | cons buf iovs ih =>
    unfold sendLoop
    dsimp only
    split
    · exact ih
    · split
      · split
        · exact settled_ret _
        · exact settled_sendWait
      · split
        · exact ih
        · exact settled_ret _

theorem settled_sendTo {listener : Option Nat} : Settled t (sendTo t a iovs dontwait listener w) := by
  unfold sendTo
  split
  · exact settled_ret _
  · exact settled_sendLoop iovs

theorem settled_sendmsg {name : Option Binder.Path} : Settled t (sendmsg t a name iovs dontwait w) := by
  unfold sendmsg
  split
  · exact settled_sendTo
  · split
    · exact settled_ret _
    · exact settled_sendTo
  · exact settled_ret _
  · exact settled_ret _

theorem settled_write : Settled t (write t a buf w) := by
  unfold write
  dsimp only
  split
  · exact settled_ret _
  · split
    · exact settled_ret _
    · split
      · exact settled_ret _
      · split <;> exact settled_ret _

theorem settled_afterRead {count : Nat} : Settled t (afterRead t a count got) := by
  unfold afterRead
  split
  · exact settled_ret _
  · exact settled_ret _
  · exact settled_reads nofun

theorem settled_recvmsgEnd : Settled t (recvmsgEnd t a dontwait peek asked retval w) := by
  unfold recvmsgEnd
  split <;> exact settled_ret _

theorem settled_afterRecv {len : Nat} {lens : List Nat} {next : Nat → W T β → W T β}
    (goes : ∀ n v, Settled t (next n v)) :
    Settled t (afterRecv t a len dontwait peek asked retval lens next got) := by
  unfold afterRecv
  split
  · split
    · exact settled_recvmsgEnd
    · exact goes _ _
  · exact settled_recvmsgEnd
  · exact settled_reads nofun

theorem settled_recvmsgLoop (lens : List Nat) : Settled t (recvmsgLoop t a dontwait peek asked lens retval w) := by
  induction lens generalizing retval w with
  | nil => exact settled_recvmsgEnd
  | cons len lens ih => exact settled_afterRecv fun n v => ih

theorem settled_enter (op : Op β) : Settled t (enter t op w) := by
  cases op with
  | bind =>
    unfold enter bind
    dsimp only
    split
    · exact settled_ret _
    · split
      · exact settled_ret _
      · split <;> exact settled_ret _
  | connect =>
    unfold enter connect
    dsimp only
    split
    · exact settled_ret _
    · exact settled_ret _
    · split
      · split <;> exact settled_ret _
      · exact settled_ret _
  | write => exact settled_write
  | sendmsg => exact settled_sendmsg
  | read => exact settled_afterRead
  | recvmsg =>
    unfold enter recvmsg
    dsimp only
    split
    · exact settled_ret _
    · exact settled_recvmsgLoop _
  | shutdown =>
    unfold enter shutdown
    dsimp only
    split
    · exact settled_ret _
    · split <;> exact settled_ret _
  | close | release => exact settled_ret _
  | unlink =>
    unfold enter unlink
    dsimp only
    split <;> exact settled_ret _
  | setfl | setTimeouts => exact settled_ret _

theorem settled_resume (frame : Frame β) (interrupted : Bool) : Settled t (resume t frame interrupted w) := by
  cases frame with
  | send =>
    unfold resume sendOn
    dsimp only
    split
    · split
      · exact settled_ret _
      · exact settled_sendLoop _
    · exact settled_ret _
    · exact settled_ret _
  | read => exact settled_afterRead
  | recvmsg a len last peek asked lens => exact settled_afterRecv fun n v => settled_recvmsgLoop lens

section

omit [DecidableEq T] in
theorem takeless (idle : ¬ Takes w a b) (binded : (socket a w).m_state = .BINDED) :
    readData (socket a w).m_readBuffer b = ((socket a w).m_readBuffer, []) := by
  cases queue : (socket a w).m_readBuffer with
  | nil => rfl
  | cons myBuf m_readBuffer =>
    have nothing : min b (myBuf.data.length - myBuf.readOffset) = 0 := by
      rw [← Buffer.unread_length]
      by_cases none : b = 0
      · simp [none]
      · have empty : myBuf.unread = [] := by
          by_contra some
          exact idle ⟨binded, by omega, myBuf, m_readBuffer, queue, some⟩
        simp [empty]
    unfold readData
    rw [nothing, if_neg (lt_irrefl 0)]

theorem read_takeless {P : Nat → Prop} (idle : ¬ Takes w a b) (noWait : Bool) (wq : Option (Option Nat)) :
    Kept t P w (read t a b noWait false wq w).1 ∧ ∀ n, (read t a b noWait false wq w).2 = .returned n → n = 0 := by
  unfold read
  dsimp only
  split
  · exact ⟨.refl w, nofun⟩
  next binded =>
    have data := takeless idle (not_not.mp binded)
    split
    · have taken : takeData t a b false w = (addGot t [] (setSocket a (socket a w) w), []) := by
        unfold takeData
        rw [if_neg Bool.false_ne_true, data]
        rfl
      rw [taken]
      have same : Kept t P w (addGot t [] (setSocket a (socket a w) w)) :=
        ((Kept.refl w).set rfl rfl).trans (.same fun _ => ⟨rfl, rfl⟩)
      split
      · exact ⟨same, fun n h => by cases h; rfl⟩
      · exact ⟨same, fun n h => by cases h; rfl⟩
    · split
      · exact ⟨.refl w, fun n h => by cases h; rfl⟩
      · split
        · exact ⟨.refl w, nofun⟩
        · split <;> exact ⟨.refl w, nofun⟩

/-- The queues that a `Read` of `b` bytes of `a` makes shorter. -/
def Shortens (w : W T β) (a b l : Nat) : Prop := l = a ∧ Takes w a b

theorem read_kept {noWait : Bool} {wq : Option (Option Nat)} :
    Kept t (Shortens w a b) w (read t a b noWait false wq w).1 := by
  by_cases takes : Takes w a b
  · exact (through_kept _).read (fun _ => ⟨rfl, takes⟩) (.refl w) ..
  · exact (read_takeless takes noWait wq).1

theorem takes_removeWaitQueue : Takes (removeWaitQueue t a w) a b ↔ Takes w a b := by
  have same : ∃ queue, socket a (removeWaitQueue t a w) = { socket a w with waitQueue := queue } :=
    ⟨_, socket_setSocket_self _ _ _⟩
  obtain ⟨queue, same⟩ := same
  unfold Takes
  rw [same]

theorem readOn_kept {last : Option Nat} {interrupted : Bool} :
    Kept t (Shortens w a b) w (readOn t a b last false interrupted w).1 ∧
      (¬ Takes w a b → ∀ n, (readOn t a b last false interrupted w).2 = .returned n → n = 0) := by
  have removed : Kept t (Shortens w a b) w (removeWaitQueue t a w) := (through_kept _).forgets a w
  have on : Kept t (Shortens w a b) w (read t a b false false (some last) (removeWaitQueue t a w)).1 ∧
      (¬ Takes w a b → ∀ n, (read t a b false false (some last) (removeWaitQueue t a w)).2 = .returned n →
        n = 0) := by
    refine ⟨removed.trans (read_kept.mono fun l short => ⟨short.1, takes_removeWaitQueue.mp short.2⟩),
      fun idle => ?_⟩
    exact (read_takeless (t := t) (P := fun _ => False) (mt takes_removeWaitQueue.mp idle) false (some last)).2
  unfold readOn
  dsimp only
  split
  · exact on
  · split
    · exact ⟨removed, fun _ => nofun⟩
    · exact on
  · split
    · exact ⟨removed, fun _ => nofun⟩
    · exact on

variable {dontwait peek : Bool} {lens : List Nat}

theorem afterRecv_kept {P : Nat → Prop} {asked len : Nat}
    {got : W T β × Outcome} (on : Kept t P w got.1) (mine : peek = false → P a ∨ ∀ n, got.2 = .returned n → n = 0) :
    Kept t P w (afterRecv t a len dontwait peek asked 0 lens (recvmsgLoop t a dontwait peek asked lens) got) := by
  refine (through_kept P).afterRecv on _ _ _ _ _ _ fun n returned more => ?_
  refine (through_kept P).recvmsgLoop (fun h => ?_) on _ _ _ _
  exact (mine h).resolve_right fun zero => more (zero n returned)

theorem recvmsg_kept :
    Kept t (fun l => l = a ∧ peek = false ∧ Takes w a (lens.headD 0)) w (recvmsg t a lens dontwait peek w) := by
  have through := through_kept (T := T) (β := β) (t := t) fun l => l = a ∧ peek = false ∧ Takes w a (lens.headD 0)
  cases peek with
  | true =>
    refine through.recvmsg (fun taking => ?_) ..
    cases taking
  | false =>
    unfold recvmsg
    split
    · exact through.recvReturn (through.setErr (through.refl w) _) ..
    · cases lens with
      | nil => exact through.recvmsgEnd (through.refl w) ..
      | cons len lens =>
        refine afterRecv_kept (read_kept.mono fun l short => ⟨short.1, rfl, short.2⟩) fun _ => ?_
        by_cases takes : Takes w a len
        · exact .inl ⟨rfl, rfl, takes⟩
        · exact .inr (read_takeless (t := t) (P := fun _ => False) takes _ none).2

end

/-- The socket that an operation ends. -/
def Op.Ends : Op β → Nat → Prop
  | .close a, l => l = a
  | .release a, l => l = a
  | _, _ => False

theorem kept_enter (op : Op β) :
    Kept t (fun l => TakesBy w l (.call t op) ∨ op.Ends l) w (enter t op w) := by
  have here {P : Nat → Prop} : Kept t P w (clearMoved t w) := .same fun _ => ⟨rfl, rfl⟩
  cases op with
  | bind =>
    unfold enter bind
    dsimp only
    split
    · exact here.fails _
    · split
      · exact here.ret _
      · split
        · refine Kept.ret (Kept.binds ?_ _ _) _
          exact here.set rfl rfl
        · exact here.fails _
  | connect a path =>
    unfold enter connect
    dsimp only
    split
    · exact here.fails _
    · exact here.fails _
    · split
      · split
        · exact here.fails _
        · refine Kept.ret (Kept.set ?_ ?_ ?_) _
          · exact here.set rfl rfl
          · rfl
          · rfl
      · exact here.fails _
  | write => exact here.trans ((through_kept _).write _)
  | sendmsg => exact here.trans ((through_kept _).sendmsg ..)
  | read a count =>
    refine here.trans ((through_kept _).afterRead (read_kept.mono fun l short => ?_) _)
    obtain ⟨rfl, takes⟩ := short
    exact .inl ⟨rfl, takes⟩
  | recvmsg a lens dontwait peek =>
    refine here.trans (recvmsg_kept.mono fun l short => ?_)
    obtain ⟨rfl, taking, takes⟩ := short
    exact .inl ⟨rfl, taking, takes⟩
  | shutdown =>
    unfold enter shutdown
    dsimp only
    split
    · exact here.fails _
    · split
      all_goals
        refine Kept.ret ?_ _
        exact here.set rfl rfl
  | close a | release a => exact here.trans ((clearing_kept.clearAll.mono fun l same => .inr same).ret _)
  | unlink =>
    unfold enter unlink
    dsimp only
    split
    · exact (here.binds _ _).ret _
    · exact here.ret _
  | setfl | setTimeouts =>
    refine Kept.ret ?_ _
    exact here.set rfl rfl

theorem kept_resume {frame : Frame β} (inside : w.place t = .inside frame) (interrupted : Bool) :
    Kept t (fun l => TakesBy w l (.dispatch t interrupted : Act T (Op β) Bool)) w
    (resume t frame interrupted (w.give t)) := by
  have here {P : Nat → Prop} : Kept t P w (w.give t) := .same fun _ => ⟨rfl, rfl⟩
  cases frame with
  | send => exact here.trans ((through_kept _).sendOn ..)
  | read a count last =>
    refine here.trans ((through_kept _).afterRead (readOn_kept.1.mono fun l short => ?_) _)
    exact .inl ⟨count, last, short.1 ▸ inside, short.1 ▸ short.2⟩
  | recvmsg a len last peek asked lens =>
    cases peek with
    | true => exact here.trans ((through_kept _).resume _ interrupted nofun)
    | false =>
      have got : Kept t (Shortens (w.give t) a len) (w.give t)
        (readOn t a len last false interrupted (w.give t)).1 := readOn_kept.1
      refine here.trans (afterRecv_kept (got.mono fun l short => ?_) fun _ => ?_)
      · exact .inr ⟨len, last, asked, lens, short.1 ▸ inside, short.1 ▸ short.2⟩
      · by_cases takes : Takes w a len
        · exact .inl (.inr ⟨len, last, asked, lens, inside, takes⟩)
        · exact .inr (readOn_kept.2 takes)

theorem removeAll_wakes {peers : List Nat} (mem : b ∈ peers) (connected : (socket b w).m_state = .CONNECTED)
    (listed : (⟨u, writerMask⟩ : WaitQueueEntry T) ∈ (socket b w).waitQueue) (other : u ≠ t) :
    (peers.foldl (fun w i => removeConnected a true i w) w).status u ≠ .blocked := by
  induction peers generalizing w with
  | nil => exact absurd mem not_mem_nil
  | cons p peers ih =>
    by_cases here : b = p
    · subst here
      have woken : (removeConnected a true b w).status u ≠ .blocked := by
        unfold removeConnected
        dsimp only
        rw [connected]
        refine wakeWaiters_wakes _ _ _ ?_ (by decide : PollEvent.POLLHUP ∈ writerMask)
        rw [socket_setSocket_self]
        exact listed
      have moves : Moves t (removeConnected a true b w) (peers.foldl (fun w i => removeConnected a true i w) _) :=
        clearing_moves.removeAll (a := a) (.refl t _) a peers
      exact fun asleep => woken (moves.asleep u other asleep)
    · have same : socket b (removeConnected a true p w) = socket b w := by
        unfold removeConnected
        dsimp only
        split
        · rw [hangUp, if_pos rfl, socket_wakeWaiters, socket_setSocket, if_neg here]
        · rw [hangUp, if_pos rfl, socket_wakeWaiters, socket_setSocket, if_neg here]
        · rfl
      exact ih ((mem_cons.mp mem).resolve_left here) (same ▸ connected) (same ▸ listed)

theorem close_wakes (sound : Sound (links w)) (joined : ConnectedTo (links w) b a)
    (listed : (⟨u, writerMask⟩ : WaitQueueEntry T) ∈ (socket b w).waitQueue) (other : u ≠ t) :
    (clearAll a true w).status u ≠ .blocked := by
  have binded : (links w a).m_state = .BINDED := (sound.live b a joined).1
  have alone : (socket a w).m_peer = none := sound.alone (s := a) (by simp [binded])
  have away : b ≠ a := fun same => by
    have connected := joined.1
    rw [same, binded] at connected
    cases connected
  obtain ⟨first, firstEq⟩ : ∃ first, first = setSocket a { socket a w with m_state := .CLOSED, closed := true } w :=
    ⟨_, rfl⟩
  have peer : clearPeer a true first = first := by
    unfold clearPeer
    rw [firstEq, socket_setSocket_self, alone]
  have others : ∀ s : SocketFd T β, socket b (setSocket a s first) = socket b w := fun s => by
    rw [socket_setSocket, if_neg away, firstEq, socket_setSocket, if_neg away]
  have woken : (clearMyPeers a true first).status u ≠ .blocked := by
    refine removeAll_wakes (b := b) (t := t) ?_ ?_ ?_ other
    · rw [firstEq, socket_setSocket_self]
      exact (sound.paired b a).mp joined
    · rw [others]
      exact joined.1
    · rw [others]
      exact listed
  have moves : Moves t (clearMyPeers a true first) (clearAll a true w) := by
    unfold clearAll
    dsimp only
    rw [← firstEq, peer]
    refine clearing_moves.hangUp (a := a) (clearing_moves.set (clearing_moves.unregister (.refl t _)) ?_ ?_ ?_)
    all_goals rfl
  exact fun asleep => woken (moves.asleep u other asleep)

/-- Who is in a `Sendmsg` is on the wait queue of its socket. -/
def Waiting (w : W T β) : Prop :=
  ∀ u a l iovs retval last message full, w.place u = .inside (.send a l iovs retval last message full) →
    (⟨u, writerMask⟩ : WaitQueueEntry T) ∈ (socket a w).waitQueue

omit [DecidableEq T] in
theorem Awaits.of_moves (awaits : Awaits v u b l) (moves : World.Spares t w v) (other : u ≠ t) : Awaits w u b l := by
  obtain ⟨asleep, iovs, retval, last, message, inside⟩ := awaits
  exact ⟨moves.asleep u other asleep, iovs, retval, last, message, moves.place u other ▸ inside⟩

theorem released_of_kept {P : Nat → Prop} (released : Released w) (waiting : Waiting w) (moves : World.Spares t w v)
    (settled : Settled t v) (kept : Kept t P w v)
    (wakes : ∀ u b l, u ≠ t → P l → maxBuffer ≤ (socket l w).m_readBufferSize → Awaits w u b l →
      v.status u ≠ .blocked) :
    Released v ∧ Waiting v := by
  refine ⟨fun u b l awaits => ?_, fun u b l iovs retval last message full inside => ?_⟩
  · by_cases same : u = t
    · subst same
      obtain ⟨-, iovs, retval, last, message, inside⟩ := awaits
      exact (settled b l iovs retval last message true inside).2 rfl
    · have before := awaits.of_moves moves same
      have full := released u b l before
      by_cases down : P l
      · exact absurd awaits.1 (wakes u b l same down full before)
      · exact le_trans full (kept.grows l down)
  · by_cases same : u = t
    · subst same
      exact (settled b l iovs retval last message full inside).1
    · exact kept.lists u same b writerMask (waiting u b l iovs retval last message full
        (moves.place u same ▸ inside))

theorem released_step {act : Act T (Op β) Bool} (sound : Sound (links w))
    (released : Released w) (waiting : Waiting w) (leaves : LeavesFull w act)
    (run : (machine T β).step w act = some v) :
    Released v ∧ Waiting v := by
  rcases Program.step_cases run with ⟨t, op, -, rfl, -, -, rfl⟩ | ⟨t, interrupted, frame, rfl, -, -,
    inside, rfl⟩ | idle
  · refine released_of_kept released waiting (moves_enter op).toSpares (settled_enter op) (kept_enter op) ?_
    rintro u b l other (takes | ends) full awaits
    · exact absurd awaits (leaves.1 l takes full u b)
    · cases op with
      | close a =>
        cases ends
        have joined : ConnectedTo (links w) b l := leaves.2 u b awaits
        obtain ⟨-, iovs, retval, last, message, inside⟩ := awaits
        have listed := waiting u b l iovs retval last message true inside
        have binded : (socket l w).m_state = .BINDED := (sound.live b l joined).1
        have woken := close_wakes (t := t) (w := clearMoved t w) sound joined listed other
        show (close t l (clearMoved t w)).status u ≠ .blocked
        unfold close
        dsimp only
        rw [socket_clearMoved, binded]
        exact woken
      | release a =>
        cases ends
        exact absurd awaits (leaves.2 u b)
      | _ => exact ends.elim
  · have moves := (World.Spares.give w t).trans (moves_resume (w := w.give t) frame interrupted).toSpares
    refine released_of_kept released waiting moves (settled_resume frame interrupted)
      (kept_resume inside interrupted) ?_
    exact fun u b l _ takes full awaits => absurd awaits (leaves.1 l takes full u b)
  · refine ⟨fun u b l awaits => ?_, fun u b l iovs retval last message full inside => ?_⟩
    · obtain ⟨asleep, iovs, retval, last, message, inside⟩ := awaits
      rw [idle.place] at inside
      have before : w.status u = .blocked := by
        refine (idle.asleep u asleep).resolve_right fun own => ?_
        obtain ⟨r, own⟩ := own
        rw [own] at inside
        cases inside
      rw [socket, idle.shared]
      exact released u b l ⟨before, iovs, retval, last, message, inside⟩
    · rw [socket, idle.shared]
      exact waiting u b l iovs retval last message full (idle.place ▸ inside)

/-- In the runs along `C` no sender sleeps for room where there is some. -/
def KeepsReleased (T β : Type*) [DecidableEq T] (C : W T β → Act T (Op β) Bool → Prop) : Prop :=
  ∀ w, (machine T β).ReachBy C w → Released w

theorem keepsReleased_of_leavesFull (T β : Type*) [DecidableEq T] : KeepsReleased T β LeavesFull := by
  intro w reach
  refine (reach.invariant'
    (I := fun w => Released w ∧ Waiting w) (fun w first => ?_) fun w act v before kept leaves run => ?_).1
  · have own : ∀ t frame, w.place t ≠ .inside frame := fun t frame inside => by
      rw [first.own t] at inside
      cases inside
    refine ⟨fun u b l awaits => ?_, fun u b l iovs retval last message full inside => absurd inside (own u _)⟩
    obtain ⟨-, iovs, retval, last, message, inside⟩ := awaits
    exact absurd inside (own u _)
  · exact released_step (sound_of_reach before) kept.1 kept.2 leaves run

theorem doRecvPacket_fits (takes : (socket l w).m_shutRead = false) (open' : (socket l w).m_state.IsClosed = false)
    (room : (socket l w).m_readBufferSize < maxBuffer)
    (fits : (socket l w).m_readBufferSize + buf.length ≤ maxBuffer) :
    doRecvPacket t l buf w = (wakeWaiters .POLLIN l (addPut t buf (setSocket l { socket l w with
      m_readBuffer := (socket l w).m_readBuffer ++ [⟨buf, 0⟩],
      m_readBufferSize := (socket l w).m_readBufferSize + buf.length,
      sent := (socket l w).sent ++ [buf] } w)), (buf.length : Int)) := by
  have all : min (maxBuffer - (socket l w).m_readBufferSize) buf.length = buf.length := by omega
  unfold doRecvPacket
  dsimp only
  rw [if_neg (by simp [takes, open']), if_neg (by omega), all, take_length]

theorem doRecvPacket_full (takes : (socket l w).m_shutRead = false) (open' : (socket l w).m_state.IsClosed = false)
    (full : maxBuffer ≤ (socket l w).m_readBufferSize) : doRecvPacket t l buf w = (w, 0) := by
  unfold doRecvPacket
  rw [if_neg (by simp [takes, open']), if_pos full]

theorem write_binded (connected : (socket a w).m_state = .CONNECTED) (peer : (socket a w).m_peer = some l)
    (binded : (socket l w).m_state = .BINDED) (taken : (doRecvPacket t l buf w).2 ≠ -2) :
    write t a buf w = sendReturn t buf (doRecvPacket t l buf w).2 (doRecvPacket t l buf w).1 := by
  unfold write
  simp [connected, peer, binded, if_neg taken]

/-- Socket 1 is connected to socket 0. -/
def joinedPair : W Bool Nat :=
  ((machine Bool Nat).replay newNode [.dispatch false false, .call false (.bind 0 true ['p'] none),
    .call false (.connect 1 ['p'])]).getD newNode

/-- The queue of socket 0 is full of `buf`. -/
def filledPair (buf : List Nat) : W Bool Nat :=
  sendReturn false buf buf.length (addPut false buf (setSocket 0 { socket 0 joinedPair with
    m_readBuffer := [⟨buf, 0⟩], m_readBufferSize := 0 + buf.length, sent := [buf] } (clearMoved false joinedPair)))

theorem filledPair_written {buf : List Nat} (length : buf.length = maxBuffer) :
    enter false (.write 1 buf) joinedPair = filledPair buf := by
  have fits : doRecvPacket false 0 buf (clearMoved false joinedPair) =
    (addPut false buf (setSocket 0 { socket 0 joinedPair with
      m_readBuffer := [⟨buf, 0⟩], m_readBufferSize := 0 + buf.length, sent := [buf] } (clearMoved false joinedPair)),
        (buf.length : Int)) :=
    doRecvPacket_fits rfl rfl (by decide) (Nat.le_of_eq ((Nat.zero_add _).trans length))
  show write false 1 buf (clearMoved false joinedPair) = _
  rw [write_binded rfl rfl rfl (by rw [fits]; simp), fits]
  rfl

/-- A sender of socket 1 sleeps for room in the full queue. -/
def sleepingPair (buf : List Nat) : W Bool Nat :=
  sleepOn false 1 writerMask (.send 1 0 [[7]] 0 none [7] true) none (clearMoved false (filledPair buf))

theorem sleepingPair_sent {buf : List Nat} (length : buf.length = maxBuffer) :
    enter false (.sendmsg 1 none [[7]] false) (filledPair buf) = sleepingPair buf := by
  have size : (socket 0 (clearMoved false (filledPair buf))).m_readBufferSize = maxBuffer :=
    (Nat.zero_add _).trans length
  have full : doRecvPacket false 0 [7] (clearMoved false (filledPair buf)) =
      (clearMoved false (filledPair buf), 0) :=
    doRecvPacket_full rfl rfl (Nat.le_of_eq size.symm)
  show sendLoop false 1 0 false [7] [[7]] 0 none (clearMoved false (filledPair buf)) = _
  unfold sendLoop
  have opened : ¬ (socket 1 (clearMoved false (filledPair buf))).m_state.IsClosed = true := Bool.false_ne_true
  rw [full, if_pos rfl]
  unfold sendWait
  rw [size]
  rfl

/-- A sender sleeps for room, the receiver takes 5 bytes, and nobody wakes the sender. -/
theorem not_keepsReleased : ¬ KeepsReleased Bool Nat fun _ _ => True := by
  intro keeps
  obtain ⟨buf, length⟩ : ∃ buf : List Nat, buf.length = maxBuffer := ⟨replicate maxBuffer 0, length_replicate⟩
  have run : (machine Bool Nat).replay newNode [.dispatch false false, .call false (.bind 0 true ['p'] none),
      .call false (.connect 1 ['p'])] = some joinedPair := rfl
  have joined := (Machine.ReachBy.start newNode_start).replay (fun _ _ => trivial) run
  have filled : (machine Bool Nat).Reach (filledPair buf) :=
    .next (a := .call false (.write 1 buf)) joined trivial (congrArg some (filledPair_written length))
  have asleep : (machine Bool Nat).Reach (sleepingPair buf) :=
    .next (a := .call false (.sendmsg 1 none [[7]] false)) filled trivial (congrArg some (sleepingPair_sent length))
  have other : (machine Bool Nat).Reach ((sleepingPair buf).give true) :=
    .next (a := .dispatch true false) asleep trivial rfl
  have taken : (machine Bool Nat).Reach (enter true (.read 0 5) ((sleepingPair buf).give true)) :=
    .next (a := .call true (.read 0 5)) other trivial rfl
  let w := clearMoved true ((sleepingPair buf).give true)
  have data : LocalStream.readData (socket 0 w).m_readBuffer 5 = ([⟨buf, 5⟩], buf.take 5) := by
    show LocalStream.readData [⟨buf, 0⟩] 5 = _
    unfold LocalStream.readData
    rw [length]
    rfl
  have five : (LocalStream.readData (socket 0 w).m_readBuffer 5).2.length = 5 := by
    rw [data, length_take, length]
    rfl
  have got : read true 0 5 false false none w = ((takeData true 0 5 false w).1, .returned 5) := by
    have some : 0 < (socket 0 w).m_readBuffer.length := Nat.one_pos
    exact congrArg (fun n => ((takeData true 0 5 false w).1, Outcome.returned n)) five
  have after : enter true (.read 0 5) ((sleepingPair buf).give true) =
      recvReturn true 0 false 5 5 false (takeData true 0 5 false w).1 := by
    show afterRead true 0 5 (read true 0 5 false false none w) = _
    rw [got]
    rfl
  have full : maxBuffer ≤ 0 + buf.length - (LocalStream.readData (socket 0 w).m_readBuffer 5).2.length :=
    keeps _ taken false 1 0 ⟨rfl, [[7]], 0, none, [7], rfl⟩
  have positive : 0 < maxBuffer := by decide
  omega

end Dce.Datagram
