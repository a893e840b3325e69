import Dce.UnixStream.Model

/- What a call can change. -/

namespace Dce.UnixStream

open List Option

variable {T : Type*} [DecidableEq T] {w : World T} {t : T} {iov : List Iovec} {peek dontwait named : Bool}
    {memory : Memory}
  {packet : Except Nat (List UInt8)} {waited : Waited} {answers : Answers} {bufs : List (List UInt8)}
      {retval : Nat} {e : Errno}
  {out : World T × Result}

theorem receive_leaves : ∃ m_peekedData rx returned err, (receive t iov peek memory packet w).1 =
    { w with m_peekedData := m_peekedData, rx := rx, returned := returned, err := err } := by
  unfold receive
  repeat' split
  all_goals exact ⟨_, _, _, _, rfl⟩

theorem afterWait_leaves : ∃ m_peekedData rx returned err, (afterWait t iov peek memory packet w).1 =
    { w with m_peekedData := m_peekedData, rx := rx, returned := returned, err := err } := by
  unfold afterWait
  split
  · exact ⟨_, _, _, _, rfl⟩
  · exact ⟨_, _, _, _, rfl⟩
  · exact receive_leaves

theorem recvmsg_leaves : ∃ m_peekedData rx returned err blocked, (recvmsg t iov peek dontwait memory packet w).1 =
    { w with m_peekedData := m_peekedData, rx := rx, returned := returned, err := err, blocked := blocked } := by
  unfold recvmsg
  split
  · obtain ⟨m_peekedData, rx, returned, err, same⟩ := receive_leaves (w := w)
    exact ⟨_, _, _, _, _, same⟩
  · split
    · obtain ⟨m_peekedData, rx, returned, err, same⟩ := afterWait_leaves (w := w)
      exact ⟨_, _, _, _, _, same⟩
    · split
      · exact ⟨_, _, _, _, _, rfl⟩
      · exact ⟨_, _, _, _, _, rfl⟩

theorem resumeRecvmsg_leaves : ∃ m_peekedData rx returned err, (resumeRecvmsg t iov peek waited memory packet w).1 =
    { w with m_peekedData := m_peekedData, rx := rx, returned := returned, err := err } := by
  cases waited with
  | OK => exact afterWait_leaves
  | INTERRUPTED => exact ⟨_, _, _, _, rfl⟩
  | TIMEOUT => exact ⟨_, _, _, _, rfl⟩

theorem shortWrite_leaves : ∃ err, (shortWrite t retval e w).1 = { w with err := err } := by
  unfold shortWrite
  split
  · exact ⟨_, rfl⟩
  · exact ⟨_, rfl⟩

theorem noRoom_leaves : ∃ err blocked, (noRoom t dontwait bufs retval w).1 =
    { w with err := err, blocked := blocked } := by
  unfold noRoom
  split
  · obtain ⟨err, same⟩ := shortWrite_leaves (t := t) (w := w)
    exact ⟨_, _, same⟩
  · split
    · obtain ⟨err, same⟩ := shortWrite_leaves (t := t) (w := w)
      exact ⟨_, _, same⟩
    · split
      · exact ⟨_, _, rfl⟩
      · exact ⟨_, _, rfl⟩

theorem sendLoop_leaves (run : sendLoop t dontwait answers bufs retval w = some out) :
    ∃ handed err blocked, out.1 = { w with handed := w.handed ++ handed, err := err, blocked := blocked } := by
  fun_induction sendLoop t dontwait answers bufs retval w with
  | case1 =>
    cases run
    exact ⟨[], _, _, by rw [append_nil]⟩
  | case2 | case3 | case5 | case7 => cases run
  | case4 =>
    cases run
    obtain ⟨err, blocked, same⟩ := noRoom_leaves (t := t)
    exact ⟨[], err, blocked, by rw [same, append_nil]⟩
  | case6 =>
    cases run
    obtain ⟨err, same⟩ := shortWrite_leaves (t := t)
    exact ⟨_, err, _, same⟩
  | case8 bufs retval w buf iov available answers split some_room packet v ih =>
    obtain ⟨handed, err, blocked, same⟩ := ih run
    exact ⟨packet ++ handed, err, blocked, by rw [same, append_assoc]⟩

theorem sendmsg_leaves (run : sendmsg t named dontwait bufs answers w = some out) :
    ∃ handed err blocked, out.1 = { w with handed := w.handed ++ handed, err := err, blocked := blocked } := by
  unfold sendmsg at run
  split at run
  · split at run
    · cases run
      exact ⟨[], _, _, by rw [append_nil]; rfl⟩
    · cases run
  · exact sendLoop_leaves run

theorem resumeSendmsg_leaves (run : resumeSendmsg t waited bufs retval answers w = some out) :
    ∃ handed err blocked, out.1 = { w with handed := w.handed ++ handed, err := err, blocked := blocked } := by
  unfold resumeSendmsg at run
  split at run
  · split at run
    · exact sendLoop_leaves run
    · split at run
      · cases run
        exact ⟨[], _, _, by rw [append_nil]⟩
      · cases run
  all_goals
    split at run
    · cases run
      obtain ⟨err, same⟩ := shortWrite_leaves (t := t) (w := w)
      exact ⟨[], err, _, by rw [same, append_nil]⟩
    · cases run

theorem accept_leaves (fd : Option Nat) : ∃ m_connectionQueue err blocked, (accept t fd w).1 =
    { w with m_connectionQueue := m_connectionQueue, err := err, blocked := blocked } := by
  unfold accept
  repeat' split
  all_goals exact ⟨_, _, _, rfl⟩

theorem resumeAccept_leaves (waited : Waited) (fd : Option Nat) :
    ∃ m_connectionQueue err blocked, (resumeAccept t waited fd w).1 =
    { w with m_connectionQueue := m_connectionQueue, err := err, blocked := blocked } := by
  cases waited with
  | OK => exact accept_leaves fd
  | INTERRUPTED => exact ⟨_, _, _, rfl⟩
  | TIMEOUT => exact ⟨_, _, _, rfl⟩

theorem connected_leaves : ∃ err, (connected t w).1 = { w with err := err } := by
  unfold connected
  repeat' split
  all_goals exact ⟨_, rfl⟩

theorem resumeConnect_leaves (waited : Waited) :
    ∃ err blocked, (resumeConnect t waited w).1 = { w with err := err, blocked := blocked } := by
  unfold resumeConnect
  split
  · split
    · exact ⟨_, _, rfl⟩
    · obtain ⟨err, same⟩ := connected_leaves (t := t) (w := w)
      exact ⟨_, _, same⟩
  · exact ⟨_, _, rfl⟩
  · exact ⟨_, _, rfl⟩

omit [DecidableEq T] in
theorem connecting_leaves (during : List Event) :
    ∃ m_state attempt rx m_connectionQueue received returned, connecting during w =
      { w with m_state, attempt, rx, m_connectionQueue, received, returned } := by
  unfold connecting
  generalize start : ({ changeSocket w with m_state := State.CONNECTING, attempt := true } : World T) = v
  have first : ∃ m_state attempt rx m_connectionQueue received returned, v =
      { w with m_state, attempt, rx, m_connectionQueue, received, returned } := by
    rw [← start, changeSocket]
    split
    · exact ⟨_, _, _, _, _, _, rfl⟩
    · exact ⟨_, _, _, _, _, _, rfl⟩
  clear start
  induction during generalizing v with
  | nil => exact first
  | cons e during ih =>
    obtain ⟨m_state, attempt, rx, m_connectionQueue, received, returned, same⟩ := first
    refine ih _ ?_
    rw [same]
    cases e with
    | _ => exact ⟨_, _, _, _, _, _, rfl⟩

theorem connect_leaves {during : List Event} {answer : Option Nat} :
    ∃ m_state attempt rx m_connectionQueue received returned err blocked, (connect t during answer w).1 =
      { w with m_state, attempt, rx, m_connectionQueue, received, returned, err, blocked } := by
  unfold connect
  split
  · exact ⟨_, _, _, _, _, _, _, _, rfl⟩
  · obtain ⟨m_state, attempt, rx, m_connectionQueue, received, returned, same⟩ := connecting_leaves during (w := w)
    rw [same]
    cases answer with
    | some e =>
      dsimp only
      generalize before : ({ w with
        m_state, attempt := false, rx, m_connectionQueue, received, returned,
        err := Function.update w.err t (some (.ns3 e)) } : World T) = v
      obtain ⟨err, last⟩ := connected_leaves (t := t) (w := v)
      rw [last, ← before]
      exact ⟨_, _, _, _, _, _, _, _, rfl⟩
    | none =>
      dsimp only
      split
      · exact ⟨_, _, _, _, _, _, _, _, rfl⟩
      · generalize before : ({ w with m_state, attempt, rx, m_connectionQueue, received, returned } : World T) = v
        obtain ⟨err, last⟩ := connected_leaves (t := t) (w := v)
        rw [last, ← before]
        exact ⟨_, _, _, _, _, _, _, _, rfl⟩

/-- Neither what comes in nor the connection is another. -/
structure Quiet (w v : World T) : Prop where
  m_state : v.m_state = w.m_state
  m_shutWrite : v.m_shutWrite = w.m_shutWrite
  m_peekedData : v.m_peekedData = w.m_peekedData
  rx : v.rx = w.rx
  received : v.received = w.received
  returned : v.returned = w.returned
  shut : v.shut = w.shut
  attempt : v.attempt = w.attempt

/-- The steps that leave these alone. -/
def Label.quiet : Label T → Bool
  | .sendmsg .. | .resumeSendmsg .. | .resumeConnect .. | .accept .. | .resumeAccept ..
  | .poll .. | .setNonBlocking .. => true
  | .recvmsg .. | .resumeRecvmsg .. | .connect .. | .shutdown .. | .listen .. | .close .. | .event .. => false

theorem respond_resumeRecvmsg : respond w (.resumeRecvmsg t waited memory packet) = some out ↔
    ∃ iov peek, w.blocked t = some (.recvmsg iov peek) ∧ Possible iov w packet ∧
      resumeRecvmsg t iov peek waited memory packet (wake t w) = out := by
  simp only [respond]
  split
  next iov peek blocked =>
    rw [ite_none_right_eq_some, some_inj]
    constructor
    · rintro ⟨possible, run⟩
      exact ⟨iov, peek, blocked, possible, run⟩
    · rintro ⟨iov', peek', blocked', possible, run⟩
      cases blocked.symm.trans blocked'
      exact ⟨possible, run⟩
  next other =>
    refine iff_of_false nofun ?_
    rintro ⟨iov, peek, blocked, -⟩
    exact other iov peek blocked

theorem respond_resumeSendmsg : respond w (.resumeSendmsg t waited answers) = some out ↔
    ∃ bufs retval, w.blocked t = some (.sendmsg bufs retval) ∧
    resumeSendmsg t waited bufs retval answers (wake t w) = some out := by
  simp only [respond]
  split
  next bufs retval blocked =>
    constructor
    · exact fun run => ⟨bufs, retval, blocked, run⟩
    · rintro ⟨bufs', retval', blocked', run⟩
      cases blocked.symm.trans blocked'
      exact run
  next other =>
    refine iff_of_false nofun ?_
    rintro ⟨bufs, retval, blocked, -⟩
    exact other bufs retval blocked

theorem respond_quiet {a : Label T} (run : respond w a = some out) (quiet : a.quiet = true) : Quiet w out.1 := by
  cases a with
  | sendmsg t named dontwait bufs answers =>
    obtain ⟨-, run⟩ := ite_none_right_eq_some.mp run
    obtain ⟨handed, err, blocked, same⟩ := sendmsg_leaves run
    rw [same]
    exact ⟨rfl, rfl, rfl, rfl, rfl, rfl, rfl, rfl⟩
  | resumeSendmsg t waited answers =>
    obtain ⟨bufs, retval, -, run⟩ := respond_resumeSendmsg.mp run
    obtain ⟨handed, err, blocked, same⟩ := resumeSendmsg_leaves run
    rw [same]
    exact ⟨rfl, rfl, rfl, rfl, rfl, rfl, rfl, rfl⟩
  | resumeConnect t waited =>
    obtain ⟨-, run⟩ := ite_none_right_eq_some.mp run
    obtain ⟨err, blocked, same⟩ := resumeConnect_leaves waited (t := t) (w := wake t w)
    rw [← some.inj run, same]
    exact ⟨rfl, rfl, rfl, rfl, rfl, rfl, rfl, rfl⟩
  | accept t fd =>
    obtain ⟨-, run⟩ := ite_none_right_eq_some.mp run
    obtain ⟨queue, err, blocked, same⟩ := accept_leaves fd (t := t) (w := begins t w)
    rw [← some.inj run, same]
    exact ⟨rfl, rfl, rfl, rfl, rfl, rfl, rfl, rfl⟩
  | resumeAccept t waited fd =>
    obtain ⟨-, run⟩ := ite_none_right_eq_some.mp run
    obtain ⟨queue, err, blocked, same⟩ := resumeAccept_leaves waited fd (t := t) (w := wake t w)
    rw [← some.inj run, same]
    exact ⟨rfl, rfl, rfl, rfl, rfl, rfl, rfl, rfl⟩
  | poll t =>
    obtain ⟨-, run⟩ := ite_none_right_eq_some.mp run
    rw [← some.inj run]
    exact ⟨rfl, rfl, rfl, rfl, rfl, rfl, rfl, rfl⟩
  | setNonBlocking nonBlocking =>
    obtain ⟨-, run⟩ := ite_none_right_eq_some.mp run
    rw [← some.inj run]
    exact ⟨rfl, rfl, rfl, rfl, rfl, rfl, rfl, rfl⟩
  | recvmsg | resumeRecvmsg | connect | shutdown | listen | close | event => cases quiet

end Dce.UnixStream
