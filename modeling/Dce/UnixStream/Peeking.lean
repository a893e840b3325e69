import Dce.UnixStream.Receiving
import Dce.UnixStream.Steps

/- The receives in the runs of a socket. -/

namespace Dce.UnixStream

open List Option

variable {T : Type*} {w : World T} {t : T} {iov : List Iovec} {peek dontwait : Bool} {memory : Memory}
  {packet : Except Nat (List UInt8)} {waited : Waited} {out : World T × Result}

section

theorem Kept.quiet {v : World T} (kept : Kept w) (quiet : Quiet w v) : Kept v := by
  constructor
  · rw [quiet.returned, quiet.received]
    exact kept.within
  · rw [quiet.m_peekedData, quiet.rx, kept.rest, World.unread, World.unread, quiet.received, quiet.returned]

theorem Kept.happens (kept : Kept w) (e : Event) : Kept (happens w e) := by
  cases e with
  | data bytes =>
    constructor
    · exact kept.within.trans (length_append ▸ Nat.le_add_right _ _)
    · show w.m_peekedData ++ (w.rx ++ bytes) = (w.received ++ bytes).drop w.returned
      rw [drop_append_of_le_length kept.within, ← append_assoc, kept.rest]
      rfl
  | _ => exact ⟨kept.within, kept.rest⟩

theorem Kept.changeSocket (kept : Kept w) : Kept (changeSocket w) := by
  unfold UnixStream.changeSocket
  split
  · exact ⟨Nat.zero_le _, append_nil _⟩
  · exact kept

theorem Kept.connecting (kept : Kept w) (during : List Event) : Kept (connecting during w) := by
  have start : Kept { UnixStream.changeSocket w with m_state := .CONNECTING, attempt := true } :=
    ⟨kept.changeSocket.within, kept.changeSocket.rest⟩
  unfold UnixStream.connecting
  generalize ({ UnixStream.changeSocket w with m_state := State.CONNECTING, attempt := true } : World T) = v at start
  induction during generalizing v with
  | nil => exact start
  | cons e during ih => exact ih _ (start.happens e)

variable [DecidableEq T]

theorem Kept.connected (kept : Kept w) : Kept (connected t w).1 := by
  obtain ⟨err, same⟩ := connected_leaves (t := t) (w := w)
  rw [same]
  exact ⟨kept.within, kept.rest⟩

theorem Kept.connect (kept : Kept w) (during : List Event) (answer : Option Nat) :
    Kept (connect t during answer w).1 := by
  have after := kept.connecting during
  unfold UnixStream.connect
  split
  · exact ⟨kept.within, kept.rest⟩
  · cases answer with
    | some e => exact Kept.connected ⟨after.within, after.rest⟩
    | none =>
      dsimp only
      split
      · exact ⟨after.within, after.rest⟩
      · exact after.connected

theorem Kept.respond (kept : Kept w) {a : Label T} (run : respond w a = some out)
    (other : ∀ t iov peek dontwait memory packet, a ≠ .recvmsg t iov peek dontwait memory packet)
    (resumed : ∀ t waited memory packet, a ≠ .resumeRecvmsg t waited memory packet) : Kept out.1 := by
  cases a with
  | recvmsg t iov peek dontwait memory packet => exact absurd rfl (other t iov peek dontwait memory packet)
  | resumeRecvmsg t waited memory packet => exact absurd rfl (resumed t waited memory packet)
  | connect t during answer =>
    obtain ⟨-, run⟩ := ite_none_right_eq_some.mp run
    rw [← some.inj run]
    exact Kept.connect (w := begins t w) ⟨kept.within, kept.rest⟩ during answer
  | shutdown t how answer =>
    obtain ⟨-, run⟩ := ite_none_right_eq_some.mp run
    rw [← some.inj run]
    unfold shutdown
    split
    all_goals exact ⟨kept.within, kept.rest⟩
  | listen t backlog answer =>
    obtain ⟨-, run⟩ := ite_none_right_eq_some.mp run
    rw [← some.inj run]
    cases answer with
    | some e => exact ⟨kept.within, kept.rest⟩
    | none => exact ⟨kept.within, kept.rest⟩
  | close t answer =>
    obtain ⟨-, run⟩ := ite_none_right_eq_some.mp run
    rw [← some.inj run]
    unfold close
    split
    all_goals exact ⟨kept.within, kept.rest⟩
  | event e =>
    obtain ⟨-, run⟩ := ite_none_right_eq_some.mp run
    rw [← some.inj run]
    exact kept.happens e
  | sendmsg | resumeSendmsg | resumeConnect | accept | resumeAccept | poll | setNonBlocking =>
    exact kept.quiet (respond_quiet run rfl)

end

section

/-- Whether the call copies at once. -/
def Copies (w : World T) : Prop := w.m_peekedData ≠ [] ∨ canRecv w = true ∧ early w = none

variable [DecidableEq T] (kept : Kept w) (possible : Possible iov w packet)
include kept possible

theorem afterWait_kept (fits : early w = none → FitsFirst iov (source w packet)) :
    Kept (afterWait t iov peek memory packet w).1 := by
  cases returns : early w with
  | none =>
    unfold afterWait
    rw [returns]
    exact receive_kept kept possible (fits returns)
  | some n => exact (fills_early kept returns memory).1

theorem recvmsg_iff :
    (∀ memory, Iovec.Mapped memory iov → Fills w iov peek memory (recvmsg t iov peek dontwait memory packet w)) ↔
      (Copies w → FitsFirst iov (source w packet)) := by
  unfold recvmsg Copies
  split
  next peeked => rw [imp_iff_right (.inl peeked), receive_iff kept possible]
  next none =>
    split
    next ready => simp only [afterWait_iff kept possible, none, ready, false_or, true_and]
    next waits =>
      refine iff_of_true (fun memory _ => ?_) fun copies => ?_
      · split
        · exact fills_failed kept
        · exact ⟨⟨kept.within, kept.rest⟩, rfl⟩
      · rcases copies with peeked | ⟨ready, -⟩
        · exact absurd peeked none
        · exact absurd ready waits

theorem recvmsg_kept (fits : Copies w → FitsFirst iov (source w packet)) :
    Kept (recvmsg t iov peek dontwait memory packet w).1 := by
  unfold recvmsg
  split
  next peeked => exact receive_kept kept possible (fits (.inl peeked))
  · split
    next ready => exact afterWait_kept kept possible fun goes => fits (.inr ⟨ready, goes⟩)
    · split
      · exact ⟨kept.within, kept.rest⟩
      · exact ⟨kept.within, kept.rest⟩

theorem resumeRecvmsg_iff :
    (∀ memory, Iovec.Mapped memory iov → Fills w iov peek memory (resumeRecvmsg t iov peek waited memory packet w)) ↔
      (waited = .OK → early w = none → FitsFirst iov (source w packet)) := by
  cases waited with
  | OK => rw [imp_iff_right rfl, ← afterWait_iff kept possible]; rfl
  | INTERRUPTED => exact iff_of_true (fun _ _ => fills_failed kept) nofun
  | TIMEOUT => exact iff_of_true (fun _ _ => fills_failed kept) nofun

theorem resumeRecvmsg_kept (fits : waited = .OK → early w = none → FitsFirst iov (source w packet)) :
    Kept (resumeRecvmsg t iov peek waited memory packet w).1 := by
  cases waited with
  | OK => exact afterWait_kept kept possible (fits rfl)
  | INTERRUPTED => exact ⟨kept.within, kept.rest⟩
  | TIMEOUT => exact ⟨kept.within, kept.rest⟩

end

section

variable [DecidableEq T]

/-- In whatever memory a receive is called, or goes on, it does what it should. -/
def Reads (w : World T) : Label T → Prop
  | .recvmsg t iov peek dontwait _ packet => ∀ memory, Iovec.Mapped memory iov →
      ∀ out, respond w (.recvmsg t iov peek dontwait memory packet) = some out → Fills w iov peek memory out
  | .resumeRecvmsg t waited _ packet => ∀ iov peek, w.blocked t = some (.recvmsg iov peek) →
      ∀ memory, Iovec.Mapped memory iov →
      ∀ out, respond w (.resumeRecvmsg t waited memory packet) = some out → Fills w iov peek memory out
  | _ => True

/-- What a receive copies fits into its first buffer. -/
def Roomy (w : World T) : Label T → Prop
  | .recvmsg _ iov _ _ _ packet => Copies w → FitsFirst iov (source w packet)
  | .resumeRecvmsg t waited _ packet => ∀ iov peek, w.blocked t = some (.recvmsg iov peek) →
      waited = .OK → early w = none → FitsFirst iov (source w packet)
  | _ => True

theorem reads_recvmsg (kept : Kept w) (run : respond w (.recvmsg t iov peek dontwait memory packet) = some out) :
    Reads w (.recvmsg t iov peek dontwait memory packet) ↔ Roomy w (.recvmsg t iov peek dontwait memory packet) := by
  obtain ⟨enabled, -⟩ := ite_none_right_eq_some.mp run
  have begun : Kept (begins t w) := ⟨kept.within, kept.rest⟩
  have possible : Possible iov (begins t w) packet := by cases packet <;> exact enabled.2
  have exactly : (∀ memory, Iovec.Mapped memory iov →
      Fills (begins t w) iov peek memory (recvmsg t iov peek (dontwait || w.nonBlocking) memory packet
        (begins t w))) ↔
        (Copies (begins t w) → FitsFirst iov (source w packet)) := recvmsg_iff begun possible
  have runs : ∀ memory, respond w (.recvmsg t iov peek dontwait memory packet) =
      some (recvmsg t iov peek (dontwait || w.nonBlocking) memory packet (begins t w)) :=
        fun memory => if_pos enabled
  refine Iff.trans ?_ exactly
  unfold Reads
  simp only [runs, some_inj, forall_eq']
  rfl

theorem reads_resumeRecvmsg (kept : Kept w) (run : respond w (.resumeRecvmsg t waited memory packet) = some out) :
    Reads w (.resumeRecvmsg t waited memory packet) ↔ Roomy w (.resumeRecvmsg t waited memory packet) := by
  obtain ⟨iov, peek, blocked, possible, -⟩ := respond_resumeRecvmsg.mp run
  have woken : Kept (wake t w) := ⟨kept.within, kept.rest⟩
  have enabled : Possible iov (wake t w) packet := by cases packet <;> exact possible
  have exactly : (∀ memory, Iovec.Mapped memory iov →
      Fills (wake t w) iov peek memory (resumeRecvmsg t iov peek waited memory packet (wake t w))) ↔
        (waited = .OK → early w = none → FitsFirst iov (source w packet)) := resumeRecvmsg_iff woken enabled
  have runs : ∀ memory out, respond w (.resumeRecvmsg t waited memory packet) = some out ↔
      resumeRecvmsg t iov peek waited memory packet (wake t w) = out := by
    intro memory out
    rw [respond_resumeRecvmsg]
    constructor
    · rintro ⟨iov', peek', blocked', -, run⟩
      cases blocked.symm.trans blocked'
      exact run
    · exact fun run => ⟨iov, peek, blocked, possible, run⟩
  constructor
  · intro reads iov' peek' blocked'
    cases blocked.symm.trans blocked'
    exact exactly.mp fun memory mapped => reads iov peek blocked memory mapped _ ((runs _ _).mpr rfl)
  · intro roomy iov' peek' blocked' memory mapped out run
    cases blocked.symm.trans blocked'
    rw [← (runs _ _).mp run]
    exact exactly.mpr (roomy iov peek blocked) memory mapped

theorem kept_of_roomy (kept : Kept w) {a : Label T} (run : respond w a = some out)
    (roomy : Roomy w a) : Kept out.1 := by
  cases a with
  | recvmsg t iov peek dontwait memory packet =>
    obtain ⟨enabled, run⟩ := ite_none_right_eq_some.mp run
    have begun : Kept (begins t w) := ⟨kept.within, kept.rest⟩
    have possible : Possible iov (begins t w) packet := by cases packet <;> exact enabled.2
    rw [← some.inj run]
    exact recvmsg_kept begun possible roomy
  | resumeRecvmsg t waited memory packet =>
    obtain ⟨iov, peek, blocked, possible, run⟩ := respond_resumeRecvmsg.mp run
    have woken : Kept (wake t w) := ⟨kept.within, kept.rest⟩
    have enabled : Possible iov (wake t w) packet := by cases packet <;> exact possible
    rw [← run]
    exact resumeRecvmsg_kept woken enabled (roomy iov peek blocked)
  | _ => exact kept.respond run nofun nofun

theorem reads_of_step (kept : Kept w) {a : Label T} (run : respond w a = some out) : Reads w a ↔ Roomy w a := by
  cases a with
  | recvmsg t iov peek dontwait memory packet => exact reads_recvmsg kept run
  | resumeRecvmsg t waited memory packet => exact reads_resumeRecvmsg kept run
  | _ => exact .rfl

theorem kept_start {first : World T} (start : (machine T).init first) : Kept first := by
  obtain ⟨connected, rx, rfl⟩ := start
  exact ⟨Nat.zero_le _, rfl⟩

/-- In a run of the socket. -/
theorem reads_iff {k : Machine.Verdict} (reach : ((machine T).judged Roomy Reads).Reach (w, k)) :
    k.good ↔ k.careful := by
  refine Machine.judged_iff Kept (fun _ start => kept_start start) (fun w a v kept run => ?_) reach
  obtain ⟨out, responds, rfl⟩ := map_eq_some_iff.mp run
  exact ⟨reads_of_step kept responds, kept_of_roomy kept responds⟩

/-- A connection on which three bytes came. -/
def three : World Unit := .start true [1, 2, 3]

theorem three_reached : (machine Unit).Reach three := .start ⟨true, [1, 2, 3], rfl⟩

/-- They are received together. -/
def reading (iov : List Iovec) : Label Unit := .recvmsg () iov false false (fun _ => some 0) (.ok [1, 2, 3])

def read (iov : List Iovec) : World Unit × Result :=
  recvmsg () iov false false (fun _ => some 0) (.ok [1, 2, 3]) (begins () three)

theorem reading_run (room : 3 ≤ totalAvailable iov) : respond three (reading iov) = some (read iov) := by
  have enabled : three.Free () ∧ Possible iov three (.ok [1, 2, 3]) := ⟨⟨rfl, rfl⟩, prefix_rfl, room⟩
  rw [reading, respond, if_pos enabled]
  rfl

theorem reading_step (room : 3 ≤ totalAvailable iov) : (machine Unit).step three (reading iov) = some (read iov).1 :=
  congrArg (Option.map Prod.fst) (reading_run room)

/-- Into the first of two buffers. -/
theorem reads_iff_read : (read [⟨0, 4⟩, ⟨8, 2⟩]).1.returned = 3 ∧
    ∃ k, ((machine Unit).judged Roomy Reads).Reach ((read [⟨0, 4⟩, ⟨8, 2⟩]).1, k) ∧ k.good := by
  have roomy : Roomy three (reading [⟨0, 4⟩, ⟨8, 2⟩]) := fun _ => ⟨⟨0, 4⟩, [⟨8, 2⟩], rfl, rfl⟩
  have first : (machine Unit).ReachBy Roomy three := .start ⟨true, [1, 2, 3], rfl⟩
  obtain ⟨k, judged, careful⟩ := (first.next roomy (reading_step (by decide))).judged
  exact ⟨rfl, k, judged, (reads_iff judged).mpr careful⟩

/-- The second of two buffers gets what is behind the first. -/
theorem not_reads : ¬ ∀ (w : World Unit) k, ((machine Unit).judged Roomy Reads).Reach (w, k) → k.good := by
  intro reads
  have room : 3 ≤ totalAvailable [⟨0, 1⟩, ⟨8, 2⟩] := by decide
  have good : Reads three (reading [⟨0, 1⟩, ⟨8, 2⟩]) :=
    Machine.good_of_judged reads three_reached (reading_step room)
  obtain ⟨-, ⟨failed, -⟩ | ⟨n, same, -, -, filled, -⟩⟩ := good _ Iovec.mapped_const _ (reading_run room)
  · exact absurd failed (by decide)
  · obtain rfl : 3 = n := Int.ofNat.inj same
    exact absurd (congrFun filled 8) (by decide)

end

end Dce.UnixStream

/- Bytes that were peeked are read before all others, but `Poll` does not look for them. -/

namespace Dce.UnixStream

variable {T : Type*} [DecidableEq T] {w : World T} {t : T}

/-- Receives with and without `MSG_PEEK` do what they should, and a poll finds what was peeked. -/
def Transparent (w : World T) : Label T → Prop
  | .poll t => w.m_peekedData ≠ [] → ∀ out, respond w (.poll t) = some out → out.2 = .polled true
  | a => Reads w a

/-- At a poll more has come than what was peeked, or the state alone makes the socket readable. -/
def Behind (w : World T) : Prop :=
  match w.m_state with
  | .CONNECTED => w.rx ≠ []
  | .LISTENING => w.m_connectionQueue ≠ 0
  | .CONNECTING => False
  | _ => True

def Watched (w : World T) : Label T → Prop
  | .poll _ => w.m_peekedData ≠ [] → Behind w
  | a => Roomy w a

omit [DecidableEq T] in
theorem canRecv_iff (open_ : w.open_ = true) : canRecv w = true ↔ Behind w := by
  unfold canRecv Behind
  rw [open_]
  cases w.m_state with
  | CONNECTED | LISTENING => exact decide_eq_true_iff
  | CONNECTING => exact iff_of_false Bool.false_ne_true id
  | CREATED | CLOSING | REMOTECLOSED | CLOSED => exact iff_of_true rfl trivial

theorem transparent_poll {out : World T × Result} (run : respond w (.poll t) = some out) :
    Transparent w (.poll t) ↔ Watched w (.poll t) := by
  obtain ⟨⟨open_, free⟩, -⟩ := Option.ite_none_right_eq_some.mp run
  have runs : respond w (.poll t) = some (begins t w, .polled (canRecv w)) := if_pos ⟨open_, free⟩
  unfold Transparent Watched
  simp [runs, canRecv_iff open_]

theorem transparent_of_step (kept : Kept w) {a : Label T} {out : World T × Result} (run : respond w a = some out) :
    Transparent w a ↔ Watched w a := by
  cases a with
  | poll t => exact transparent_poll run
  | _ => exact reads_of_step kept run

theorem kept_of_watched (kept : Kept w) {a : Label T} {out : World T × Result} (run : respond w a = some out)
    (watched : Watched w a) :
    Kept out.1 := by
  cases a with
  | poll t => exact kept_of_roomy kept run trivial
  | _ => exact kept_of_roomy kept run watched

/-- What came in is what was returned without `MSG_PEEK`, then what was peeked, then the rest. -/
def World.InOrder (w : World T) : Prop := w.received.take w.returned ++ w.m_peekedData ++ w.rx = w.received

omit [DecidableEq T] in
theorem Kept.inOrder (kept : Kept w) : w.InOrder := by
  unfold World.InOrder
  rw [List.append_assoc, kept.rest]
  exact List.take_append_drop _ _

theorem transparent_iff {k : Machine.Verdict} (reach : ((machine T).judged Watched Transparent).Reach (w, k)) :
    (k.good ↔ k.careful) ∧ (k.good → w.InOrder) := by
  have both : (k.good ↔ k.careful) ∧ (k.careful → Kept w) := by
    refine Machine.judged_sound Kept (fun _ start => kept_start start) (fun w a v kept run => ?_) reach
    obtain ⟨out, responds, rfl⟩ := Option.map_eq_some_iff.mp run
    exact ⟨transparent_of_step kept responds, kept_of_watched kept responds⟩
  exact ⟨both.1, fun good => (both.2 (both.1.mp good)).inOrder⟩

/-- The first bytes are peeked. -/
def peeking (packet : List UInt8) : Label Unit := .recvmsg () [⟨0, 4⟩] true false (fun _ => some 0) (.ok packet)

def peeked (packet : List UInt8) : World Unit :=
  (recvmsg () [⟨0, 4⟩] true false (fun _ => some 0) (.ok packet) (begins () three)).1

theorem peeked_reached {packet : List UInt8} (next : packet <+: [1, 2, 3]) :
    (machine Unit).ReachBy Watched (peeked packet) := by
  have enabled : three.Free () ∧ Possible [⟨0, 4⟩] three (.ok packet) :=
    ⟨⟨rfl, rfl⟩, next, next.length_le.trans (by decide)⟩
  have run : (machine Unit).step three (peeking packet) = some (peeked packet) := by
    show Option.map Prod.fst (respond three (peeking packet)) = _
    rw [peeking, respond, if_pos enabled]
    rfl
  have room : min packet.length 4 = min packet.length 4 := rfl
  have watched : Watched three (peeking packet) := fun _ => ⟨⟨0, 4⟩, [], rfl, room⟩
  have first : (machine Unit).ReachBy Watched three := .start ⟨true, [1, 2, 3], rfl⟩
  exact first.next watched run

/-- A poll finds the third byte. -/
theorem transparent_iff_peeked : ∃ k, ((machine Unit).judged Watched Transparent).Reach
    (begins () (peeked [1, 2]), k) ∧
    k.good ∧ (begins () (peeked [1, 2])).InOrder := by
  have peeks : (machine Unit).ReachBy Watched (peeked [1, 2]) := peeked_reached (by decide)
  have behind : Behind (peeked [1, 2]) := by
    have more : (peeked [1, 2]).rx ≠ [] := by decide
    exact more
  have reach : (machine Unit).ReachBy Watched (begins () (peeked [1, 2])) :=
    peeks.next (a := .poll ()) (fun _ => behind) rfl
  obtain ⟨k, judged, careful⟩ := reach.judged
  obtain ⟨exactly, inOrder⟩ := transparent_iff judged
  exact ⟨k, judged, exactly.mpr careful, inOrder (exactly.mpr careful)⟩

/-- All that came is peeked: `Poll` reports nothing. -/
theorem not_transparent : ¬ ∀ (w : World Unit) k, ((machine Unit).judged Watched Transparent).Reach (w, k) →
    k.good := by
  intro transparent
  have polls : respond (peeked [1, 2, 3]) (.poll ()) = some (begins () (peeked [1, 2, 3]), .polled false) := rfl
  have reach : (machine Unit).Reach (peeked [1, 2, 3]) := (peeked_reached (by decide)).reach
  have good : Transparent (peeked [1, 2, 3]) (.poll ()) :=
    Machine.good_of_judged transparent reach (congrArg (Option.map Prod.fst) polls)
  cases good (by decide) _ polls

end Dce.UnixStream
