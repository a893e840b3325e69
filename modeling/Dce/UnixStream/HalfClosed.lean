import Dce.UnixStream.Model

/- What is left of a connection of which one side was closed: the calls that send, and `Connect`. -/

namespace Dce.UnixStream

variable {T : Type*} [DecidableEq T]

/-- The peer has closed its sending side, or receiving was shut down here. -/
def HalfClosed (w : World T) : Prop :=
  (w.m_state = .REMOTECLOSED ∨ w.m_state = .CLOSED) ∧ w.m_shutWrite = false ∧ w.open_ = true

/-- All threads that use a connected socket. Each label comes with whether the ns-3 socket would still accept
data. -/
def connection (T : Type*) [DecidableEq T] : Machine (World T) (Label T × Bool) where
  init w := w.m_state = .CONNECTED ∧ w.m_shutWrite = false ∧ w.open_ = true
  step w a := (respond w a.1).map Prod.fst

def World.whole (w : World T) : World T := { w with m_state := .CONNECTED }

/-- What a call hands over and gives is what it would on a whole connection. -/
def AsWhole (w : World T) (a : Label T) : Prop :=
  ∀ out, respond w a = some out → ∃ out', respond w.whole a = some out' ∧ out'.2 = out.2 ∧
  out'.1.handed = out.1.handed

/-- Half a close leaves the other side alone: sends go on as before, and a connection is not thrown away. -/
def LeavesAlone (w : World T) (a : Label T × Bool) : Prop :=
  a.2 = true → HalfClosed w → match a.1 with
    | .sendmsg .. | .resumeSendmsg .. => AsWhole w a.1
    | .connect .. => changeSocket w = w
    | _ => True

/-- The call does not come to a full transmit buffer. -/
def Flows (answers : Answers) : Prop := ∀ last ∈ answers.getLast?, last.1 ≠ 0

/-- No send that may wait meets a full transmit buffer, and `Connect` is not called where receiving was shut down. -/
def Unhindered (w : World T) (a : Label T × Bool) : Prop :=
  a.2 = true → HalfClosed w → match a.1 with
    | .sendmsg _ _ dontwait _ answers => (dontwait || w.nonBlocking) = true ∨ Flows answers
    | .resumeSendmsg _ _ answers => Flows answers
    | .connect .. => w.m_state ≠ .CLOSED
    | _ => True

section

variable {w : World T} {t : T} {dontwait : Bool} {iov : List (List UInt8)} {answers : Answers} {retval : Nat}
  {out : World T × Result}

theorem shortWrite_whole (w : World T) (t : T) (retval : Nat) (e : Errno) :
    (shortWrite t retval e w.whole).2 = (shortWrite t retval e w).2 ∧
      (shortWrite t retval e w.whole).1.handed = (shortWrite t retval e w).1.handed := by
  unfold shortWrite
  split <;> exact ⟨rfl, rfl⟩

theorem noRoom_whole (t : T) (dontwait : Bool) (iov : List (List UInt8)) (retval : Nat) (half : HalfClosed w) :
    ((noRoom t dontwait iov retval w.whole).2 = (noRoom t dontwait iov retval w).2 ↔ dontwait = true) ∧
      (noRoom t dontwait iov retval w.whole).1.handed = (noRoom t dontwait iov retval w).1.handed := by
  obtain ⟨closed, unshut, -⟩ := half
  have apart : w.m_state ≠ .CONNECTED := by rcases closed with state | state <;> simp [state]
  cases dontwait with
  | true => exact ⟨iff_of_true (shortWrite_whole w t retval _).1 rfl, (shortWrite_whole w t retval _).2⟩
  | false =>
    have waits : noRoom t false iov retval w.whole = wait t (.sendmsg iov retval) w.whole := by
      simp [noRoom, World.whole, unshut]
    have ends : noRoom t false iov retval w = shortWrite t retval .ENOTCONN w := by simp [noRoom, apart]
    rw [waits, ends]
    unfold shortWrite
    split <;> exact ⟨by simp [wait, fail], rfl⟩

/-- Up to a full buffer, a send does the same on a whole connection; there it waits. -/
theorem sendLoop_whole (half : HalfClosed w) (run : sendLoop t dontwait answers iov retval w = some out) :
    ∃ out', sendLoop t dontwait answers iov retval w.whole = some out' ∧
      (out'.2 = out.2 ↔ dontwait = true ∨ Flows answers) ∧ out'.1.handed = out.1.handed := by
  fun_induction sendLoop t dontwait answers iov retval w with
  | case1 bufs retval w none =>
    cases run
    exact ⟨(w.whole, .returned retval), by simp only [sendLoop, none], by simp [Flows], rfl⟩
  | case2 | case3 | case5 | case7 => cases run
  | case4 bufs retval w buf iov sent split =>
    cases run
    obtain ⟨same, handed⟩ := noRoom_whole t dontwait (buf :: iov) retval half
    refine ⟨noRoom t dontwait (buf :: iov) retval w.whole, by unfold sendLoop; simp only [split, if_true],
      same.trans ?_, handed⟩
    simp [Flows]
  | case6 bufs retval w buf iov available split room packet v e =>
    cases run
    obtain ⟨same, handed⟩ := shortWrite_whole v t retval (.ns3 e)
    refine ⟨_, by unfold sendLoop; simp only [split, if_neg room]; rfl, iff_of_true same (.inr ?_), handed⟩
    simp [Flows, room]
  | case8 bufs retval w buf iov available answers split room packet v ih =>
    obtain ⟨out', runs, same, handed⟩ := ih half run
    refine ⟨out', by unfold sendLoop; simp only [split, if_neg room]; exact runs,
      same.trans (or_congr_right ?_), handed⟩
    cases answers with
    | nil => simp [Flows, room]
    | cons next rest => simp [Flows]

theorem asWhole_iff {a : Label T} {ended : Prop} (run : respond w a = some out)
    (whole : ∃ out', respond w.whole a = some out' ∧ (out'.2 = out.2 ↔ ended) ∧ out'.1.handed = out.1.handed) :
    AsWhole w a ↔ ended := by
  obtain ⟨out', runs, same, handed⟩ := whole
  constructor
  · intro all
    obtain ⟨other, again, alike, -⟩ := all out run
    cases runs.symm.trans again
    exact same.mp alike
  · intro meets other again
    cases run.symm.trans again
    exact ⟨out', runs, same.mpr meets, handed⟩

theorem sendmsg_whole {named : Bool} (half : HalfClosed w)
    (run : respond w (.sendmsg t named dontwait iov answers) = some out) :
    ∃ out', respond w.whole (.sendmsg t named dontwait iov answers) = some out' ∧
      (out'.2 = out.2 ↔ (dontwait || w.nonBlocking) = true ∨ Flows answers) ∧ out'.1.handed = out.1.handed := by
  obtain ⟨free, sends⟩ := Option.ite_none_right_eq_some.mp run
  have whole : respond w.whole (.sendmsg t named dontwait iov answers) =
      sendmsg t named (dontwait || w.nonBlocking) iov answers (begins t w.whole) := if_pos free
  rw [whole]
  have begun : HalfClosed (begins t w) := half
  unfold sendmsg at sends ⊢
  cases named with
  | true =>
    obtain ⟨none, fails⟩ := Option.ite_none_right_eq_some.mp sends
    cases fails
    exact ⟨_, if_pos none, iff_of_true rfl (.inr (by simp [Flows, none])), rfl⟩
  | false => exact sendLoop_whole begun sends

theorem resumeSendmsg_whole {waited : Waited} (half : HalfClosed w)
    (run : respond w (.resumeSendmsg t waited answers) = some out) :
    ∃ out', respond w.whole (.resumeSendmsg t waited answers) = some out' ∧
      (out'.2 = out.2 ↔ Flows answers) ∧ out'.1.handed = out.1.handed := by
  have woken : HalfClosed (wake t w) := half
  simp only [respond] at run ⊢
  split at run
  next iov retval blocked =>
    have asleep : w.whole.blocked t = some (.sendmsg iov retval) := blocked
    rw [asleep]
    cases waited with
    | OK =>
      unfold resumeSendmsg at run ⊢
      have opened : (wake t w).open_ = true := half.2.2
      rw [if_pos opened] at run
      obtain ⟨out', runs, same, handed⟩ := sendLoop_whole woken run
      exact ⟨out', (if_pos opened).trans runs, by simpa using same, handed⟩
    | INTERRUPTED | TIMEOUT =>
      have whole := fun e => shortWrite_whole (wake t w) t retval e
      obtain ⟨none, ends⟩ := Option.ite_none_right_eq_some.mp run
      cases ends
      exact ⟨_, if_pos none, iff_of_true (whole _).1 (by simp [Flows, none]), (whole _).2⟩
  · cases run

omit [DecidableEq T] in
theorem changeSocket_iff : changeSocket w = w ↔ w.m_state ≠ .CLOSED := by
  unfold changeSocket
  split
  next closed =>
    refine iff_of_false (fun same => ?_) (not_not.mpr closed)
    have state := congrArg World.m_state same
    rw [closed] at state
    cases state
  next other => exact iff_of_true rfl other

theorem leavesAlone_iff {a : Label T × Bool} (run : respond w a.1 = some out) :
    LeavesAlone w a ↔ Unhindered w a := by
  obtain ⟨a, live⟩ := a
  refine forall₂_congr fun accepts half => ?_
  cases a with
  | sendmsg => exact asWhole_iff run (sendmsg_whole half run)
  | resumeSendmsg => exact asWhole_iff run (resumeSendmsg_whole half run)
  | connect => exact changeSocket_iff
  | _ => exact .rfl

end

/-- Half a close does no harm in a run exactly if the run meets the condition. -/
theorem halfClose_harmless_iff (w : World T) (k : Machine.Verdict)
    (reach : ((connection T).judged Unhindered LeavesAlone).Reach (w, k)) : k.good ↔ k.careful := by
  refine Machine.judged_iff (fun _ => True) (fun _ _ => trivial) (fun w a v _ step => ⟨?_, fun _ => trivial⟩) reach
  obtain ⟨out, run, -⟩ := Option.map_eq_some_iff.mp step
  exact leavesAlone_iff run

/-- The peer has closed its sending side. -/
def remoteClosed : World Unit := { World.start true [] with m_state := .REMOTECLOSED }

theorem remoteClosed_reach : (connection Unit).ReachBy Unhindered remoteClosed :=
  .next (a := (.event .CloseSuccess, true)) (.start (s := World.start true []) ⟨rfl, rfl, rfl⟩)
    (fun _ _ => trivial) rfl

/-- After a send of one byte, for which there is room. -/
def remoteClosedSent : World Unit := { begins () remoteClosed with handed := [1] }

theorem halfClose_harmless_closed :
    ∃ k, ((connection Unit).judged Unhindered LeavesAlone).Reach (remoteClosedSent, k) ∧ k.good := by
  have room : Flows [(10, none)] := fun last same => by
    cases same
    decide
  have reach : (connection Unit).ReachBy Unhindered remoteClosedSent :=
    remoteClosed_reach.next (a := (.sendmsg () false false [[1]] [(10, none)], true)) (fun _ _ => .inr room) rfl
  obtain ⟨k, judged, careful⟩ := reach.judged
  exact ⟨k, judged, (halfClose_harmless_iff _ _ judged).mpr careful⟩

/-- A send then fails where the transmit buffer is full. -/
theorem not_harmless : ¬ ∀ w k, ((connection Unit).judged Unhindered LeavesAlone).Reach (w, k) → k.good := by
  intro all
  have good : LeavesAlone remoteClosed (.sendmsg () false false [[1]] [(0, none)], true) :=
    Machine.good_of_judged all remoteClosed_reach.reach rfl
  obtain ⟨out, run, same, -⟩ := good rfl ⟨.inl rfl, rfl, rfl⟩ _ rfl
  cases run
  cases same

end Dce.UnixStream
