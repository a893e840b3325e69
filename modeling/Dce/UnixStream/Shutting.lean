import Dce.UnixStream.Steps

/- After a `Shutdown` of the sending side a send stops only where the ns-3 socket has no room for it. -/

namespace Dce.UnixStream

open List Option

variable {T : Type*} [DecidableEq T] {w : World T} {t : T} {named dontwait : Bool} {waited : Waited}
    {answers : Answers}
  {bufs : List (List UInt8)} {retval : Nat} {e : Errno} {out : World T × Result}

section

/-- What should hold of a send that had `retval` bytes accepted before. -/
def Stops (w : World T) (t : T) (retval : Nat) (out : World T × Result) : Prop :=
  out.1.handed = w.handed ∧ (out.2 = .returned (-1) ∧ out.1.err t = some .EPIPE ∨ out.2 = .returned retval)

/-- There is something to send. -/
def HasData (bufs : List (List UInt8)) : Prop := bufs.dropWhile (· = []) ≠ []

/-- The transmit buffer is full when the send looks first. -/
def Full (answers : Answers) : Prop := ∀ first ∈ answers.head?, first.1 = 0

theorem not_full {available : Nat} {sent : Option Nat} (room : available ≠ 0) :
    ¬ Full ((available, sent) :: answers) :=
  fun full => room (full _ rfl)

theorem fail_stops (other : e ≠ .EPIPE) : ¬ Stops w t retval (fail t e w) := by
  rintro ⟨-, ⟨-, error⟩ | result⟩
  · have same : some e = some .EPIPE := (Function.update_self t _ _).symm.trans error
    exact other (some.inj same)
  · have same : (-1 : Int) = retval := Result.returned.inj result
    omega

theorem shortWrite_stops (other : e ≠ .EPIPE) : Stops w t retval (shortWrite t retval e w) ↔ retval ≠ 0 := by
  unfold shortWrite
  split
  next some_accepted => exact iff_of_true ⟨rfl, .inr rfl⟩ some_accepted
  next none_accepted => exact iff_of_false (fail_stops other) none_accepted

theorem noRoom_stops (shut : w.m_shutWrite = true) :
    Stops w t retval (noRoom t dontwait bufs retval w) ↔ dontwait = false ∧ w.m_state = .CONNECTED ∨ retval ≠ 0 := by
  unfold noRoom
  cases dontwait with
  | true =>
    rw [if_pos rfl, shortWrite_stops (e := .EAGAIN) nofun]
    exact ⟨.inr, fun stops => stops.resolve_left fun both => nomatch both.1⟩
  | false =>
    rw [if_neg Bool.false_ne_true]
    split
    next apart =>
      rw [shortWrite_stops (e := .ENOTCONN) nofun]
      exact ⟨.inr, fun stops => stops.resolve_left fun both => apart both.2⟩
    next connected =>
      exact iff_of_true ⟨rfl, .inl ⟨rfl, Function.update_self t _ _⟩⟩ (.inl ⟨rfl, not_not.mp connected⟩)

omit [DecidableEq T] in
/-- Some bytes were handed over before. -/
theorem not_stops_handed {packet : List UInt8} (some_handed : packet ≠ []) {v : World T}
    (before : v.handed = w.handed ++ packet)
    (grows : ∃ more, out.1.handed = v.handed ++ more) : ¬ Stops w t retval out := by
  rintro ⟨same, -⟩
  obtain ⟨more, grown⟩ := grows
  rw [before, same, append_assoc] at grown
  exact some_handed (append_eq_nil_iff.mp (self_eq_append_right.mp grown)).1

theorem take_ne_nil {buf : List UInt8} {available : Nat} (some_data : buf ≠ [])
    (room : available ≠ 0) : buf.take available ≠ [] := by
  rw [Ne, take_eq_nil_iff]
  exact fun none => none.elim room some_data

theorem head_dropWhile {buf : List UInt8} {iov : List (List UInt8)} (split : bufs.dropWhile (· = []) = buf :: iov) :
    buf ≠ [] := by
  have first := head?_dropWhile_not (fun buf : List UInt8 => decide (buf = [])) bufs
  rw [split] at first
  exact of_decide_eq_false first

variable (shut : w.m_shutWrite = true)
include shut

theorem sendLoop_stops (run : sendLoop t dontwait answers bufs retval w = some out) :
    Stops w t retval out ↔ (HasData bufs → Full answers ∧
      (dontwait = false ∧ w.m_state = .CONNECTED ∨ retval ≠ 0)) := by
  unfold HasData
  revert run
  fun_cases sendLoop t dontwait answers bufs retval w
  case case1 nothing =>
    rintro ⟨⟩
    exact iff_of_true ⟨rfl, .inr rfl⟩ fun some_data => absurd nothing some_data
  case case4 buf iov sent some_data =>
    rintro ⟨⟩
    have full : Full [(0, sent)] := fun first same => by cases same; rfl
    have data : bufs.dropWhile (· = []) ≠ [] := fun none => nomatch none.symm.trans some_data
    rw [noRoom_stops shut, imp_iff_right data, and_iff_right full]
  case case6 buf iov available some_room packet e some_data v =>
    rintro ⟨⟩
    have data : bufs.dropWhile (· = []) ≠ [] := fun none => nomatch none.symm.trans some_data
    have grows : ∃ more, (shortWrite t retval (.ns3 e) v).1.handed = v.handed ++ more := by
      obtain ⟨err, same⟩ := shortWrite_leaves (t := t) (w := v)
      exact ⟨[], by rw [same, append_nil]⟩
    exact iff_of_false (not_stops_handed (take_ne_nil (head_dropWhile some_data) some_room) rfl grows)
      fun stops => not_full some_room (stops data).1
  case case8 buf iov available answers some_room packet some_data v =>
    intro run
    have data : bufs.dropWhile (· = []) ≠ [] := fun none => nomatch none.symm.trans some_data
    obtain ⟨more, err, blocked, same⟩ := sendLoop_leaves run
    have grows : ∃ more, out.1.handed = v.handed ++ more := ⟨more, by rw [same]⟩
    exact iff_of_false (not_stops_handed (take_ne_nil (head_dropWhile some_data) some_room) rfl grows)
      fun stops => not_full some_room (stops data).1
  all_goals nofun

theorem sendmsg_stops (run : sendmsg t named dontwait bufs answers w = some out) :
    Stops w t 0 out ↔ named = false ∧ (HasData bufs → Full answers ∧ dontwait = false ∧ w.m_state = .CONNECTED) := by
  unfold sendmsg at run
  cases named with
  | true =>
    obtain ⟨-, run⟩ := ite_none_right_eq_some.mp run
    rw [← some.inj run]
    exact iff_of_false (fail_stops nofun) nofun
  | false =>
    rw [sendLoop_stops shut run]
    simp

theorem resumeSendmsg_stops (run : resumeSendmsg t waited bufs retval answers w = some out) : Stops w t retval out ↔
      if waited = .OK then w.open_ = true ∧ (HasData bufs → Full answers ∧ (w.m_state = .CONNECTED ∨ retval ≠ 0))
      else retval ≠ 0 := by
  cases waited with
  | OK =>
    rw [if_pos rfl]
    simp only [resumeSendmsg] at run
    split at run
    next there =>
      rw [sendLoop_stops shut run, and_iff_right there]
      simp
    next gone =>
      obtain ⟨-, run⟩ := ite_none_right_eq_some.mp run
      rw [← some.inj run]
      exact iff_of_false (fun stops => stops.2.elim (fun failed => nomatch failed.1) nofun) fun stops => gone stops.1
  | INTERRUPTED =>
    obtain ⟨-, run⟩ := ite_none_right_eq_some.mp run
    rw [if_neg nofun, ← some.inj run, shortWrite_stops (e := .EINTR) nofun]
  | TIMEOUT =>
    obtain ⟨-, run⟩ := ite_none_right_eq_some.mp run
    rw [if_neg nofun, ← some.inj run, shortWrite_stops (e := .EAGAIN) nofun]

end

/-- Sends after the shutdown stop. -/
def Silent (w : World T) : Label T → Prop
  | .sendmsg t named dontwait bufs answers => w.shut = true →
      ∀ out, respond w (.sendmsg t named dontwait bufs answers) = some out → Stops w t 0 out
  | .resumeSendmsg t waited answers => w.shut = true → ∀ bufs retval, w.blocked t = some (.sendmsg bufs retval) →
      ∀ out, respond w (.resumeSendmsg t waited answers) = some out → Stops w t retval out
  | _ => True

/-- After the shutdown the ns-3 socket has no room when a send looks for it, and the send comes to the flag or had
bytes accepted before. -/
def Jammed (w : World T) : Label T → Prop
  | .sendmsg _ named dontwait bufs answers => w.shut = true →
      named = false ∧ (HasData bufs → Full answers ∧ (dontwait || w.nonBlocking) = false ∧ w.m_state = .CONNECTED)
  | .resumeSendmsg t waited answers => w.shut = true → ∀ bufs retval, w.blocked t = some (.sendmsg bufs retval) →
      if waited = .OK then w.open_ = true ∧ (HasData bufs → Full answers ∧ (w.m_state = .CONNECTED ∨ retval ≠ 0))
      else retval ≠ 0
  | _ => True

/-- A shutdown that has succeeded set the flag. -/
def Flagged (w : World T) : Prop := w.shut = true → w.m_shutWrite = true

theorem Flagged.respond (flagged : Flagged w) {a : Label T} (run : respond w a = some out) : Flagged out.1 := by
  cases a with
  | recvmsg t iov peek dontwait memory packet =>
    obtain ⟨-, run⟩ := ite_none_right_eq_some.mp run
    obtain ⟨m_peekedData, rx, returned, err, blocked, same⟩ := recvmsg_leaves (t := t) (w := begins t w)
    rw [← some.inj run, same]
    exact flagged
  | resumeRecvmsg t waited memory packet =>
    obtain ⟨iov, peek, -, -, run⟩ := respond_resumeRecvmsg.mp run
    obtain ⟨m_peekedData, rx, returned, err, same⟩ := resumeRecvmsg_leaves (t := t) (w := wake t w)
    rw [← run, same]
    exact flagged
  | connect t during answer =>
    obtain ⟨-, run⟩ := ite_none_right_eq_some.mp run
    obtain ⟨m_state, attempt, rx, queue, received, returned, err, blocked, same⟩ :=
      connect_leaves (t := t) (w := begins t w)
    rw [← some.inj run, same]
    exact flagged
  | shutdown t how answer =>
    obtain ⟨-, run⟩ := ite_none_right_eq_some.mp run
    rw [← some.inj run]
    unfold shutdown
    split
    all_goals first | exact flagged | exact fun _ => rfl
  | listen t backlog answer =>
    obtain ⟨-, run⟩ := ite_none_right_eq_some.mp run
    rw [← some.inj run]
    cases answer with
    | some e => exact flagged
    | none => exact flagged
  | close t answer =>
    obtain ⟨-, run⟩ := ite_none_right_eq_some.mp run
    rw [← some.inj run]
    unfold close
    split
    · exact flagged
    · exact flagged
  | event e =>
    obtain ⟨-, run⟩ := ite_none_right_eq_some.mp run
    rw [← some.inj run]
    cases e with
    | _ => exact flagged
  | sendmsg | resumeSendmsg | resumeConnect | accept | resumeAccept | poll | setNonBlocking =>
    have quiet : Quiet w out.1 := respond_quiet run rfl
    unfold Flagged
    rw [quiet.shut, quiet.m_shutWrite]
    exact flagged

theorem silent_of_step (flagged : Flagged w) {a : Label T} (run : respond w a = some out) :
    Silent w a ↔ Jammed w a := by
  cases a with
  | sendmsg t named dontwait bufs answers =>
    refine imp_congr_right fun shut => ?_
    have flag : (begins t w).m_shutWrite = true := flagged shut
    obtain ⟨-, sends⟩ := ite_none_right_eq_some.mp run
    have exactly : Stops w t 0 out ↔
        named = false ∧ (HasData bufs → Full answers ∧ (dontwait || w.nonBlocking) = false ∧
          w.m_state = .CONNECTED) :=
      sendmsg_stops (w := begins t w) flag sends
    simp [run, exactly]
  | resumeSendmsg t waited answers =>
    refine imp_congr_right fun shut => forall₃_congr fun bufs retval blocked => ?_
    have flag : (wake t w).m_shutWrite = true := flagged shut
    obtain ⟨bufs', retval', blocked', sends⟩ := respond_resumeSendmsg.mp run
    cases blocked.symm.trans blocked'
    have exactly : Stops w t retval out ↔
        if waited = .OK then w.open_ = true ∧ (HasData bufs → Full answers ∧ (w.m_state = .CONNECTED ∨ retval ≠ 0))
        else retval ≠ 0 :=
      resumeSendmsg_stops (w := wake t w) flag sends
    simp [run, exactly]
  | _ => exact .rfl

/-- In a run of the socket. -/
theorem silent_iff {k : Machine.Verdict} (reach : ((machine T).judged Jammed Silent).Reach (w, k)) :
    k.good ↔ k.careful := by
  refine Machine.judged_iff Flagged (fun _ start => ?_) (fun w a v flagged run => ?_) reach
  · obtain ⟨connected, rx, rfl⟩ := start
    exact nofun
  · obtain ⟨out, responds, rfl⟩ := map_eq_some_iff.mp run
    exact ⟨silent_of_step flagged responds, fun _ => flagged.respond responds⟩

/-- A connection whose sending side is shut. -/
def shutDown : World Unit := (shutdown () .SHUT_WR none (begins () (.start true []))).1

theorem shutDown_reached : (machine Unit).ReachBy Jammed shutDown :=
  .next (.start ⟨true, [], rfl⟩) (a := .shutdown () .SHUT_WR none) trivial rfl

/-- A send of one byte to a full buffer. -/
def refused : World Unit × Result := noRoom () false [[1]] 0 (begins () shutDown)

theorem refused_reached : (machine Unit).ReachBy Jammed refused.1 := by
  have jammed : Jammed shutDown (.sendmsg () false false [[1]] [(0, none)]) :=
    fun _ => ⟨rfl, fun _ => ⟨fun first same => by cases same; rfl, rfl, rfl⟩⟩
  exact shutDown_reached.next jammed rfl

theorem silent_iff_refused : refused.2 = .returned (-1) ∧ refused.1.err () = some .EPIPE ∧
    ∃ k, ((machine Unit).judged Jammed Silent).Reach (refused.1, k) ∧ k.good := by
  obtain ⟨k, judged, careful⟩ := refused_reached.judged
  exact ⟨rfl, rfl, k, judged, (silent_iff judged).mpr careful⟩

/-- With room for the byte it is sent. -/
theorem not_silent : ¬ ∀ (w : World Unit) k, ((machine Unit).judged Jammed Silent).Reach (w, k) → k.good := by
  intro silent
  have sends : respond shutDown (.sendmsg () false false [[1]] [(10, none)]) =
      some ({ begins () shutDown with handed := [1] }, .returned 1) := rfl
  have good : Silent shutDown (.sendmsg () false false [[1]] [(10, none)]) :=
    Machine.good_of_judged silent shutDown_reached.reach (congrArg (Option.map Prod.fst) sends)
  obtain ⟨same, -⟩ := good rfl _ sends
  cases same

end Dce.UnixStream
