import Dce.UnixStream.Steps

/- A `Connect` that fails leaves the socket ready for another one, but not where the ns-3 socket fails without a
callback. -/

namespace Dce.UnixStream

open Function List Option

variable {T : Type*} {w v : World T} {t : T} {during : List Event} {answer : Option Nat} {waited : Waited}
    {out : World T × Result}

/-- What moves a connecting socket on. -/
def Event.ends : Event → Bool
  | .ConnectionSuccess | .ConnectionError | .CloseSuccess => true
  | .data _ | .CloseError _ | .ConnectionCreated => false

theorem happens_goes_on {e : Event} (goes_on : e.ends = false) : (happens w e).m_state = w.m_state := by
  cases e with
  | ConnectionSuccess | ConnectionError | CloseSuccess => cases goes_on
  | data | CloseError | ConnectionCreated => rfl

theorem foldl_settled (settled : v.m_state ≠ .CONNECTING) (open_ : v.m_state ≠ .CLOSING) :
    (during.foldl happens v).m_state = if .CloseSuccess ∈ during then .REMOTECLOSED else v.m_state := by
  induction during generalizing v with
  | nil => rfl
  | cons e during ih =>
    rw [foldl_cons]
    by_cases close : e = .CloseSuccess
    · have after : (happens v e).m_state = .REMOTECLOSED := by
        rw [close]
        exact if_neg open_
      rw [ih (by rw [after]; nofun) (by rw [after]; nofun), after, ite_self, if_pos (close ▸ mem_cons_self)]
    · have after : (happens v e).m_state = v.m_state := by
        cases e with
        | ConnectionSuccess | ConnectionError => exact if_neg settled
        | CloseSuccess => exact absurd rfl close
        | data | CloseError | ConnectionCreated => rfl
      rw [ih (by rwa [after]) (by rwa [after]), after]
      simp [Ne.symm close]

/-- The first event that moves the socket on, and whether the peer closes after it. -/
def outcome (during : List Event) : State :=
  match during.find? Event.ends with
  | none => .CONNECTING
  | some e =>
    if .CloseSuccess ∈ during then .REMOTECLOSED else if e = .ConnectionSuccess then .CONNECTED else .CREATED

theorem foldl_outcome (connecting : v.m_state = .CONNECTING) :
    (during.foldl happens v).m_state = outcome during := by
  induction during generalizing v with
  | nil => exact connecting
  | cons e during ih =>
    rw [foldl_cons]
    cases ends : e.ends with
    | false =>
      have other : Event.CloseSuccess ≠ e := by
        rintro rfl
        cases ends
      rw [ih ((happens_goes_on ends).trans connecting)]
      unfold outcome
      rw [find?_cons_of_neg (by rw [ends]; exact Bool.false_ne_true)]
      simp [other]
    | true =>
      unfold outcome
      rw [find?_cons_of_pos ends]
      cases e with
      | data | CloseError | ConnectionCreated => cases ends
      | ConnectionSuccess =>
        have after : (happens v .ConnectionSuccess).m_state = .CONNECTED := if_pos connecting
        rw [foldl_settled (by rw [after]; nofun) (by rw [after]; nofun), after]
        simp
      | ConnectionError =>
        have after : (happens v .ConnectionError).m_state = .CREATED := if_pos connecting
        rw [foldl_settled (by rw [after]; nofun) (by rw [after]; nofun), after]
        simp
      | CloseSuccess =>
        have after : (happens v .CloseSuccess).m_state = .REMOTECLOSED := if_neg (by rw [connecting]; nofun)
        rw [foldl_settled (by rw [after]; nofun) (by rw [after]; nofun), after, ite_self]
        simp

theorem outcome_connecting : outcome during = .CONNECTING ↔ ∀ e ∈ during, e.ends = false := by
  unfold outcome
  cases found : during.find? Event.ends with
  | none =>
    refine iff_of_true rfl fun e mem => ?_
    exact Bool.eq_false_iff.mpr (find?_eq_none.mp found e mem)
  | some e =>
    refine iff_of_false ?_ fun goes_on => ?_
    · dsimp only
      repeat' split
      all_goals nofun
    · have ends := find?_some found
      rw [goes_on e (mem_of_find?_eq_some found)] at ends
      cases ends

theorem outcome_states (during : List Event) :
    outcome during = .CONNECTING ∨ outcome during = .REMOTECLOSED ∨ outcome during = .CONNECTED ∨
    outcome during = .CREATED := by
  unfold outcome
  repeat' split
  · exact .inl rfl
  · exact .inr (.inl rfl)
  · exact .inr (.inr (.inl rfl))
  · exact .inr (.inr (.inr rfl))

theorem foldl_attempt : (during.foldl happens v).attempt = (v.attempt && during.all fun e =>
      !e.ends && decide (e ≠ .CloseError true)) := by
  induction during generalizing v with
  | nil => rw [all_nil, Bool.and_true]; rfl
  | cons e during ih =>
    rw [foldl_cons, ih, all_cons, ← Bool.and_assoc]
    congr 1
    cases e with
    | CloseError ended => cases ended <;> simp [happens, Event.ends]
    | _ => simp [happens, Event.ends]

section

/-- A socket is connecting only as long as the ns-3 socket is. -/
def Honest (w : World T) : Prop := w.m_state = .CONNECTING → w.attempt = true

theorem connecting_state (during : List Event) (w : World T) : (connecting during w).m_state = outcome during :=
  foldl_outcome rfl

theorem connecting_attempt (during : List Event) (w : World T) :
    (connecting during w).attempt = during.all fun e => !e.ends && decide (e ≠ .CloseError true) :=
  foldl_attempt.trans (Bool.true_and _)

variable [DecidableEq T]

theorem connected_state : (connected t w).1.m_state = w.m_state ∧ (connected t w).1.attempt = w.attempt := by
  obtain ⟨err, same⟩ := connected_leaves (t := t) (w := w)
  rw [same]
  exact ⟨rfl, rfl⟩

/-- `Connect` ends with an error number, unless it finds the socket in a state that it does not look for. -/
theorem connected_err (unset : w.err t = none) : ((connected t w).2 = .returned (-1) →
      (connected t w).1.err t ≠ none) ↔
      w.m_state = .CONNECTED ∨ w.m_state = .CLOSED ∨ w.m_state = .REMOTECLOSED := by
  unfold connected
  split
  next connected => exact iff_of_true nofun (.inl connected)
  next apart =>
    split
    next closed =>
      have set : (fail t .ECONNREFUSED w).1.err t = some .ECONNREFUSED := update_self t _ _
      exact iff_of_true (fun _ => by rw [set]; nofun) (.inr closed)
    next other => exact iff_of_false (fun sets => sets rfl unset) fun states => states.elim apart other

theorem connected_err_of_some {e : Errno} (set : w.err t = some e) : (connected t w).1.err t ≠ none := by
  unfold connected
  split
  · rw [set]
    nofun
  · split
    · have refused : (fail t .ECONNREFUSED w).1.err t = some .ECONNREFUSED := update_self t _ _
      rw [refused]
      nofun
    · rw [set]
      nofun

/-- The ns-3 socket has called back where it fails. Where it does not, no attempt ends before its time, and none is
refused. -/
def CalledBack (during : List Event) : Option Nat → Prop
  | some _ => ∃ e ∈ during, e.ends = true
  | none => (∀ e ∈ during, e.ends = false) → .CloseError true ∉ during

theorem connect_honest (honest : Honest w) :
    Honest (connect t during answer w).1 ↔ (w.m_state ≠ .CONNECTING → CalledBack during answer) := by
  unfold connect
  split
  next pending => exact iff_of_true honest fun idle => absurd pending idle
  next idle =>
    rw [imp_iff_right idle]
    have state := connecting_state during w
    have attempt := connecting_attempt during w
    cases answer with
    | some e =>
      unfold Honest
      rw [connected_state.1, connected_state.2]
      rw [state, outcome_connecting]
      unfold CalledBack
      simp
    | none =>
      dsimp only
      split
      next waits =>
        rw [state, outcome_connecting] at waits
        unfold CalledBack
        rw [imp_iff_right waits]
        refine (imp_iff_right (state.trans (outcome_connecting.mpr waits))).trans ?_
        show (connecting during w).attempt = true ↔ _
        rw [attempt, List.all_eq_true]
        constructor
        · intro all mem
          have both := all _ mem
          simp at both
        · intro absent e mem
          have other : e ≠ .CloseError true := fun same => absent (same ▸ mem)
          rw [waits e mem, decide_eq_true other]
          rfl
      next goes_on =>
        have moved : ¬ ∀ e ∈ during, e.ends = false := fun all => goes_on (state.trans (outcome_connecting.mpr all))
        refine iff_of_true (fun pending => ?_) fun all => absurd all moved
        rw [connected_state.1] at pending
        exact absurd pending goes_on

theorem connect_err (unset : w.err t = none) :
    ((connect t during answer w).2 = .returned (-1) → (connect t during answer w).1.err t ≠ none) ↔
      (w.m_state ≠ .CONNECTING → answer = none → outcome during ≠ .CREATED) := by
  unfold connect
  split
  next pending =>
    have set : (fail t .EALREADY w).1.err t = some .EALREADY := update_self t _ _
    exact iff_of_true (fun _ => by rw [set]; nofun) fun idle => absurd pending idle
  next idle =>
    rw [imp_iff_right idle]
    have state := connecting_state during w
    cases answer with
    | some e =>
      refine iff_of_true (fun _ => ?_) nofun
      exact connected_err_of_some (update_self t _ _)
    | none =>
      dsimp only
      split
      next waits =>
        rw [state] at waits
        exact iff_of_true nofun (by rw [waits]; nofun)
      next goes_on =>
        have same : (connecting during w).err t = none := by
          obtain ⟨m_state, attempt, rx, queue, received, returned, same⟩ := connecting_leaves during (w := w)
          rw [same]
          exact unset
        rw [connected_err same, state]
        rw [state] at goes_on
        rcases outcome_states during with here | here | here | here
        · exact absurd here goes_on
        all_goals
          rw [here]
          decide

theorem resumeConnect_state : (resumeConnect t waited w).1.m_state = w.m_state ∧
    (resumeConnect t waited w).1.attempt = w.attempt := by
  obtain ⟨err, blocked, same⟩ := resumeConnect_leaves waited (t := t) (w := w)
  rw [same]
  exact ⟨rfl, rfl⟩

theorem resumeConnect_err (unset : w.err t = none) :
    ((resumeConnect t waited w).2 = .returned (-1) → (resumeConnect t waited w).1.err t ≠ none) ↔
      (waited = .OK → w.m_state ≠ .CREATED ∧ w.m_state ≠ .LISTENING ∧ w.m_state ≠ .CLOSING) := by
  cases waited with
  | OK =>
    rw [imp_iff_right rfl]
    unfold resumeConnect
    dsimp only
    split
    next pending => exact iff_of_true nofun (by rw [pending]; exact ⟨nofun, nofun, nofun⟩)
    next goes_on =>
      rw [connected_err unset]
      revert goes_on
      cases w.m_state with
      | _ => decide
  | INTERRUPTED =>
    have set : (fail t .EINTR w).1.err t = some .EINTR := update_self t _ _
    exact iff_of_true (fun _ => by show (fail t .EINTR w).1.err t ≠ none; rw [set]; nofun) nofun
  | TIMEOUT =>
    have set : (fail t .EAGAIN w).1.err t = some .EAGAIN := update_self t _ _
    exact iff_of_true (fun _ => by show (fail t .EAGAIN w).1.err t ≠ none; rw [set]; nofun) nofun

end

section

variable [DecidableEq T]

/-- A call of a thread that fails sets its error number, whatever was there before. -/
def Sets (w : World T) (t : T) (a : Label T) : Prop :=
  ∀ out, respond { w with err := update w.err t none } a = some out → out.2 = .returned (-1) → out.1.err t ≠ none

/-- No step leaves a socket connecting without an attempt, and a `Connect` that fails says why. -/
def Retryable (w : World T) (a : Label T) : Prop :=
  (∀ out, respond w a = some out → Honest out.1) ∧ match a with
    | .connect t _ _ => Sets w t a
    | .resumeConnect t _ => Sets w t a
    | _ => True

/-- Nothing ends without a callback for it, and no connection is refused while a thread connects. -/
def Told (w : World T) : Label T → Prop
  | .connect _ during answer =>
    w.m_state ≠ .CONNECTING → CalledBack during answer ∧ (answer = none → outcome during ≠ .CREATED)
  | .resumeConnect _ waited => waited = .OK → w.m_state ≠ .CREATED ∧ w.m_state ≠ .LISTENING ∧ w.m_state ≠ .CLOSING
  | .event e => e = .CloseError true → w.m_state ≠ .CONNECTING
  | _ => True

section

variable (honest : Honest w)
include honest

omit [DecidableEq T] in
theorem happens_honest (e : Event) : Honest (happens w e) ↔ (e = .CloseError true → w.m_state ≠ .CONNECTING) := by
  cases e with
  | data | ConnectionCreated => exact iff_of_true honest nofun
  | ConnectionSuccess | ConnectionError =>
    refine iff_of_true (fun pending => ?_) nofun
    dsimp only [happens] at pending
    split at pending
    · cases pending
    · next idle => exact absurd pending idle
  | CloseSuccess =>
    refine iff_of_true (fun pending => ?_) nofun
    dsimp only [happens] at pending
    split at pending
    · cases pending
    · cases pending
  | CloseError ended =>
    cases ended with
    | false => exact iff_of_true (fun pending => by simpa [happens] using honest pending) nofun
    | true =>
      rw [imp_iff_right rfl]
      exact forall_congr' fun pending => by simp [happens]

theorem honest_respond {a : Label T} (run : respond w a = some out)
    (connects : ∀ t during answer, a ≠ .connect t during answer) (other : ∀ e, a ≠ .event e) : Honest out.1 := by
  cases a with
  | connect t during answer => exact absurd rfl (connects t during answer)
  | event e => exact absurd rfl (other e)
  | recvmsg t iov peek dontwait memory packet =>
    obtain ⟨-, run⟩ := ite_none_right_eq_some.mp run
    obtain ⟨m_peekedData, rx, returned, err, blocked, same⟩ := recvmsg_leaves (t := t) (w := begins t w)
    rw [← some.inj run, same]
    exact honest
  | resumeRecvmsg t waited memory packet =>
    obtain ⟨iov, peek, -, -, run⟩ := respond_resumeRecvmsg.mp run
    obtain ⟨m_peekedData, rx, returned, err, same⟩ := resumeRecvmsg_leaves (t := t) (w := wake t w)
    rw [← run, same]
    exact honest
  | shutdown t how answer =>
    obtain ⟨-, run⟩ := ite_none_right_eq_some.mp run
    rw [← some.inj run]
    unfold shutdown
    split
    all_goals first | exact honest | exact nofun
  | listen t backlog answer =>
    obtain ⟨-, run⟩ := ite_none_right_eq_some.mp run
    rw [← some.inj run]
    cases answer with
    | some e => exact honest
    | none => exact nofun
  | close t answer =>
    obtain ⟨-, run⟩ := ite_none_right_eq_some.mp run
    rw [← some.inj run]
    unfold close
    split
    · exact nofun
    · exact honest
  | sendmsg | resumeSendmsg | resumeConnect | accept | resumeAccept | poll | setNonBlocking =>
    have quiet : Quiet w out.1 := respond_quiet run rfl
    unfold Honest
    rw [quiet.m_state, quiet.attempt]
    exact honest

theorem retryable_connect (run : respond w (.connect t during answer) = some out) :
    Retryable w (.connect t during answer) ↔ Told w (.connect t during answer) := by
  obtain ⟨free, -⟩ := ite_none_right_eq_some.mp run
  have runs (v : World T) (here : v.Free t) :
      respond v (.connect t during answer) = some (connect t during answer (begins t v)) := if_pos here
  have begun : Honest (begins t w) := honest
  have states : (∀ out, respond w (.connect t during answer) = some out → Honest out.1) ↔
      (w.m_state ≠ .CONNECTING → CalledBack during answer) := by
    simp only [runs w free, some_inj, forall_eq']
    exact connect_honest begun
  have errs : Sets w t (.connect t during answer) ↔ (w.m_state ≠ .CONNECTING → answer = none →
    outcome during ≠ .CREATED) := by
    have erased : World.Free { w with err := update w.err t none } t := free
    have unset : (begins t { w with err := update w.err t none }).err t = none := update_self t _ _
    unfold Sets
    simp only [runs _ erased, some_inj, forall_eq']
    exact connect_err unset
  exact (and_congr states errs).trans imp_and.symm

theorem retryable_resumeConnect (run : respond w (.resumeConnect t waited) = some out) :
    Retryable w (.resumeConnect t waited) ↔ Told w (.resumeConnect t waited) := by
  obtain ⟨blocked, -⟩ := ite_none_right_eq_some.mp run
  have runs (v : World T) (here : v.blocked t = some .connect) :
      respond v (.resumeConnect t waited) = some (resumeConnect t waited (wake t v)) := if_pos here
  have states : ∀ out, respond w (.resumeConnect t waited) = some out → Honest out.1 := by
    simp only [runs w blocked, some_inj, forall_eq']
    unfold Honest
    rw [resumeConnect_state.1, resumeConnect_state.2]
    exact honest
  have errs : Sets w t (.resumeConnect t waited) ↔
      (waited = .OK → w.m_state ≠ .CREATED ∧ w.m_state ≠ .LISTENING ∧ w.m_state ≠ .CLOSING) := by
    have unset : (wake t { w with err := update w.err t none }).err t = none := update_self t _ _
    unfold Sets
    simp only [runs { w with err := update w.err t none } blocked, some_inj, forall_eq']
    exact resumeConnect_err unset
  exact (and_iff_right states).trans errs

theorem retryable_of_step {a : Label T} (run : respond w a = some out) : Retryable w a ↔ Told w a := by
  have only : (∀ out, respond w a = some out → Honest out.1) ↔ Honest out.1 := by
    simp [run]
  cases a with
  | connect t during answer => exact retryable_connect honest run
  | resumeConnect t waited => exact retryable_resumeConnect honest run
  | event e =>
    obtain ⟨-, happened⟩ := ite_none_right_eq_some.mp run
    rw [← some.inj happened] at only
    exact (and_iff_left trivial).trans (only.trans (happens_honest honest e))
  | _ => exact iff_of_true ⟨only.mpr (honest_respond honest run nofun nofun), trivial⟩ trivial

end

/-- In a run of the socket. -/
theorem retryable_iff {k : Machine.Verdict} (reach : ((machine T).judged Told Retryable).Reach (w, k)) :
    k.good ↔ k.careful := by
  refine Machine.judged_iff Honest (fun _ start => ?_) (fun w a v honest run => ?_) reach
  · obtain ⟨connected, rx, rfl⟩ := start
    cases connected with
    | true => exact nofun
    | false => exact nofun
  · obtain ⟨out, responds, rfl⟩ := map_eq_some_iff.mp run
    have exactly := retryable_of_step honest responds
    exact ⟨exactly, fun told => (exactly.mpr told).1 out responds⟩

theorem new_reached : (machine Unit).Reach (.start false []) := .start ⟨false, [], rfl⟩

/-- The peer refuses before `Connect` returns, which fails. -/
def turnedDown : World Unit × Result := connect () [.ConnectionError] (some 1) (begins () (.start false []))

/-- The second `Connect` is answered. -/
def answered : World Unit × Result := connect () [.ConnectionSuccess] none (begins () turnedDown.1)

theorem turnedDown_reached : (machine Unit).ReachBy Told turnedDown.1 :=
  .next (a := .connect () [.ConnectionError] (some 1)) (.start (s := .start false []) ⟨false, [], rfl⟩)
    (fun _ => ⟨⟨.ConnectionError, by simp, rfl⟩, nofun⟩) rfl

theorem answered_reached : (machine Unit).ReachBy Told answered.1 :=
  turnedDown_reached.next
    (a := .connect () [.ConnectionSuccess] none) (fun _ => ⟨by simp [CalledBack], by simp [outcome, Event.ends]⟩) rfl

theorem retryable_iff_answered : turnedDown.2 = .returned (-1) ∧ turnedDown.1.err () = some (.ns3 1) ∧
    answered.2 = .returned 0 ∧
    ∃ k, ((machine Unit).judged Told Retryable).Reach (answered.1, k) ∧ k.good := by
  obtain ⟨k, judged, careful⟩ := answered_reached.judged
  exact ⟨rfl, rfl, rfl, k, judged, (retryable_iff judged).mpr careful⟩

/-- The ns-3 socket refuses at once: the socket goes on connecting. -/
theorem not_retryable : ¬ ∀ (w : World Unit) k, ((machine Unit).judged Told Retryable).Reach (w, k) → k.good := by
  intro retryable
  have refused : respond (.start false []) (.connect () [] (some 1)) =
      some (connect () [] (some 1) (begins () (.start false []))) := rfl
  have good : Retryable (.start false []) (.connect () [] (some 1)) :=
    Machine.good_of_judged retryable new_reached (congrArg (Option.map Prod.fst) refused)
  have attempt : false = true := good.1 _ refused rfl
  cases attempt

end

end Dce.UnixStream
