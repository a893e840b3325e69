import Dce.Polling.Select

/- The time limit that a call of `dce_select` or `dce_ppoll` hands to `dce_poll`, and how long this waits for it. -/

namespace Dce.Polling

open CInt

variable {perMilli sec part limit ns : Int}

/-- The time asked for, in the units of `part`. -/
def requested (perMilli sec part : Int) : Int := sec * 1000 * perMilli + part

section

variable {T : Type*} [DecidableEq T] {t : T} {fds : List PollFd} {s : Process T} {p : Poll} {answer : Nat → Nat}

/-- No event is reported that is asked for. -/
def Quiet (answer : Nat → Nat) (fds : List PollFd) : Prop := ∀ pfd ∈ fds, ∀ a, mask answer pfd a = 0

/-- A call in the state `s` that is to wait for `ns` nanoseconds, as long as all is quiet: it does not return at once
unless this is no time, nor in a later round, in whatever state, before the time is over; and from some time on it
does return. -/
structure WaitsOut (t : T) (fds : List PollFd) (limit ns : Int) (s : Process T) : Prop where
  begins : ∀ answer, Quiet answer fds → (dce_poll t fds limit answer s).2 ≠ .sleeps → ns = 0
  notEarly : ∀ answer p, Quiet answer fds → (dce_poll t fds limit answer s).2 = .sleeps →
    innermost t (dce_poll t fds limit answer s).1 = some (.poll p) →
    ∀ v, (pollAgain t p answer v).2 ≠ .sleeps → s.now + ns ≤ v.now
  ends : ∀ answer p, Quiet answer fds → (dce_poll t fds limit answer s).2 = .sleeps →
    innermost t (dce_poll t fds limit answer s).1 = some (.poll p) →
    ∃ late : Nat, ∀ v, late ≤ v.now → (pollAgain t p answer v).2 ≠ .sleeps

omit [DecidableEq T] in
theorem pollRound_quiet (quiet : Quiet answer fds) (r : Round T) :
    (pollRound answer fds r).2.count = r.count ∧ (pollRound answer fds r).2.process.now = r.process.now := by
  induction fds generalizing r with
  | nil => exact ⟨rfl, rfl⟩
  | cons pfd fds ih =>
    obtain ⟨here, later⟩ := List.forall_mem_cons.mp quiet
    have entry : (pollEntry answer pfd r).2.count = r.count ∧
        (pollEntry answer pfd r).2.process.now = r.process.now := by
      unfold pollEntry
      cases findOpen pfd.fd r.process with
      | none => exact ⟨rfl, rfl⟩
      | some a =>
        dsimp only
        rw [if_neg (not_not.mpr (here a))]
        split <;> exact ⟨rfl, rfl⟩
    exact ⟨(ih later _).1.trans entry.1, (ih later _).2.trans entry.2⟩

theorem afterRound_sleeps {count : Nat} : (afterRound t p fds count s).2 = .sleeps ↔
    ¬ (count ≠ 0 ∨ p.timeout = 0 ∨ (0 < p.timeout ∧ p.endtime ≤ s.now)) := by
  unfold afterRound
  split
  next past => exact iff_of_false nofun (not_not.mpr past)
  next goes => exact iff_of_true rfl goes

theorem pollAgain_quiet (quiet : Quiet answer p.fds) (v : Process T) : (pollAgain t p answer v).2 = .sleeps ↔
    ¬ (p.timeout = 0 ∨ (0 < p.timeout ∧ p.endtime ≤ v.now)) := by
  obtain ⟨count, now⟩ := pollRound_quiet quiet (⟨v, p.toUnRef, false, 0⟩ : Round T)
  refine afterRound_sleeps.trans ?_
  rw [count, now]
  simp

/-- A call that waits has its end on its stack. -/
theorem dce_poll_quiet (quiet : Quiet answer fds) (asks : limit ≠ 0) :
    ∃ v p, dce_poll t fds limit answer s = (v, .sleeps) ∧
    innermost t v = some (.poll p) ∧ p.timeout = limit ∧ p.endtime = s.now + limit.toNat * 1000000 ∧
    Quiet answer p.fds := by
  have clear : Quiet answer (fds.map fun pfd => { pfd with revents := 0 }) := List.forall_mem_map.mpr quiet
  obtain ⟨count, now⟩ := pollRound_quiet clear (⟨s, ∅, limit ≠ 0, 0⟩ : Round T)
  unfold dce_poll
  dsimp only
  generalize pollRound answer _ ⟨s, ∅, limit ≠ 0, 0⟩ = round at count now ⊢
  let p : Poll :=
    ⟨fds.map fun pfd => { pfd with revents := 0 }, limit, s.now + limit.toNat * 1000000, round.2.toUnRef⟩
  have here : innermost t (push t (.poll p) round.2.process) = some (.poll p) := by simp [innermost, push]
  refine ⟨_, p, if_neg ?_, here, rfl, rfl, clear⟩
  rintro (some_ | none_ | ⟨positive, past⟩)
  · exact some_ count
  · exact asks none_
  · have past : s.now + limit.toNat * 1000000 ≤ round.2.process.now := past
    have positive : 0 < limit := positive
    dsimp only at now
    omega

theorem dce_poll_returns (answer : Nat → Nat) : (dce_poll t fds 0 answer s).2 ≠ .sleeps := by
  have past : ∀ p : Poll, ∀ revents count (v : Process T), p.timeout = 0 →
      (afterRound t p revents count v).2 ≠ .sleeps :=
    fun p _ _ _ none_ asleep => afterRound_sleeps.mp asleep (.inr (.inl none_))
  exact past _ _ _ _ rfl

/-- The wait is as it should be exactly if the limit is no less than the time. -/
theorem waitsOut_iff (nonneg : 0 ≤ ns) : WaitsOut t fds limit ns s ↔ 0 ≤ limit ∧ ns ≤ limit * 1000000 := by
  have silence : Quiet (fun _ => 0) fds := fun pfd _ a => Nat.zero_and _
  constructor
  · intro waits
    by_cases none_ : limit = 0
    · subst none_
      have nothing := waits.begins _ silence (dce_poll_returns _)
      omega
    · obtain ⟨v, p, run, here, timeout, endtime, quiet⟩ := @dce_poll_quiet _ _ _ t _ s _ silence none_
      have asleep := congrArg Prod.snd run
      obtain rfl : (dce_poll t fds limit (fun _ => 0) s).1 = v := congrArg Prod.fst run
      obtain ⟨late, ends⟩ := waits.ends _ p silence asleep here
      have past := mt (pollAgain_quiet quiet { s with now := late }).mpr (ends { s with now := late } le_rfl)
      rw [not_not, timeout] at past
      have positive : 0 < limit := (past.resolve_left none_).1
      have early := waits.notEarly _ p silence asleep here { s with now := p.endtime } fun still =>
        (pollAgain_quiet quiet _).mp still (.inr ⟨timeout ▸ positive, le_rfl⟩)
      dsimp only at early
      omega
  · rintro ⟨limited, enough⟩
    have waiting : ∀ {answer p}, Quiet answer fds → (dce_poll t fds limit answer s).2 = .sleeps →
        innermost t (dce_poll t fds limit answer s).1 = some (.poll p) →
        0 < limit ∧ p.timeout = limit ∧ p.endtime = s.now + limit.toNat * 1000000 ∧ Quiet answer p.fds := by
      intro answer p quiet asleep here
      have asks : limit ≠ 0 := fun none_ => dce_poll_returns answer (none_ ▸ asleep)
      obtain ⟨v, q, run, mine, fields⟩ := @dce_poll_quiet _ _ _ t _ s _ quiet asks
      rw [run, mine] at here
      cases here
      exact ⟨by omega, fields⟩
    refine ⟨fun answer quiet returns => ?_, fun answer p quiet asleep here v returns => ?_,
      fun answer p quiet asleep here => ?_⟩
    · by_cases none_ : limit = 0
      · omega
      · obtain ⟨v, p, run, -⟩ := @dce_poll_quiet _ _ _ t _ s _ quiet none_
        exact absurd (congrArg Prod.snd run) returns
    · obtain ⟨positive, timeout, endtime, quiet'⟩ := waiting quiet asleep here
      have past := mt (pollAgain_quiet quiet' v).mpr returns
      rw [not_not, timeout, endtime] at past
      omega
    · obtain ⟨positive, timeout, endtime, quiet'⟩ := waiting quiet asleep here
      exact ⟨p.endtime, fun v late still =>
        (pollAgain_quiet quiet' v).mp still (.inr ⟨timeout ▸ positive, late⟩)⟩

end

/-- A time limit that is never negative, no shorter than the time asked for where this is no more milliseconds than
an `int` can hold, and zero only for no time; and `dce_poll` waits for all of this time with it, and not for ever. -/
structure Keeps {T : Type*} [DecidableEq T] (t : T) (fds : List PollFd) (s : Process T)
    (perMilli sec part limit : Int) :
    Prop where
  nonneg : 0 ≤ limit
  enough : requested perMilli sec part ≤ (2 ^ 31 - 1) * perMilli → requested perMilli sec part ≤ limit * perMilli
  zero : limit = 0 → requested perMilli sec part = 0
  waits : WaitsOut t fds limit (requested perMilli sec part * (1000000 / perMilli)) s

/-- The time asked for is a number of milliseconds that an `int` can hold. -/
def Whole (perMilli sec part : Int) : Prop :=
  part % perMilli = 0 ∧ requested perMilli sec part ≤ (2 ^ 31 - 1) * perMilli

instance : Decidable (Whole perMilli sec part) := inferInstanceAs (Decidable (_ ∧ _))

theorem toMilliseconds_eq (part_nonneg : 0 ≤ part) :
    toMilliseconds perMilli sec part = toInt (sec * 1000 + part / perMilli) := by
  have wide : toLong (sec * 1000) % 2 ^ 64 = (sec * 1000) % 2 ^ 64 := Int.bmod_emod
  rw [toMilliseconds, toInt_toLong, Int.tdiv_eq_ediv_of_nonneg part_nonneg]
  exact toInt_congr (by omega)

theorem requested_eq (perMilli sec part : Int) :
    requested perMilli sec part = (sec * 1000 + part / perMilli) * perMilli + part % perMilli := by
  have split_ := Int.mul_ediv_add_emod part perMilli
  rw [requested, Int.add_mul, Int.mul_comm (part / perMilli)]
  omega

theorem keeps_iff_whole {T : Type*} [DecidableEq T] {t : T} {fds : List PollFd} {s : Process T}
    (some_ : 0 < perMilli)
    (divides : perMilli ∣ 1000000) (sec_nonneg : 0 ≤ sec) (part_nonneg : 0 ≤ part) :
    Keeps t fds s perMilli sec part (toMilliseconds perMilli sec part) ↔ Whole perMilli sec part := by
  have nonneg := Int.emod_nonneg part some_.ne'
  have asked := requested_eq perMilli sec part
  have whole : 0 ≤ sec * 1000 + part / perMilli := by
    have quotient : 0 ≤ part / perMilli := Int.ediv_nonneg part_nonneg some_.le
    omega
  have asks : 0 ≤ requested perMilli sec part := by
    rw [asked]
    exact Int.add_nonneg (Int.mul_nonneg whole some_.le) nonneg
  have unit : 0 < 1000000 / perMilli := Int.ediv_pos_of_pos_of_dvd (by decide) some_.le divides
  have waits : ∀ limit, WaitsOut t fds limit (requested perMilli sec part * (1000000 / perMilli)) s ↔
      0 ≤ limit ∧ requested perMilli sec part ≤ limit * perMilli := fun limit => by
    refine (waitsOut_iff (Int.mul_nonneg asks unit.le)).trans (and_congr_right fun _ => ?_)
    have milliseconds : limit * 1000000 = limit * perMilli * (1000000 / perMilli) := by
      rw [Int.mul_assoc, Int.mul_ediv_cancel' divides]
    rw [milliseconds]
    exact mul_le_mul_iff_of_pos_right unit
  rw [toMilliseconds_eq part_nonneg]
  unfold Whole
  generalize sec * 1000 + part / perMilli = milliseconds at *
  have bounds := toInt_bounds milliseconds
  constructor
  · intro keeps
    have enough := ((waits _).mp keeps.waits).2
    have most : toInt milliseconds * perMilli ≤ (2 ^ 31 - 1) * perMilli :=
      Int.mul_le_mul_of_nonneg_right (by omega) some_.le
    have low : milliseconds * perMilli ≤ toInt milliseconds * perMilli := by omega
    have fits := Int.le_of_mul_le_mul_right low some_
    rw [toInt_eq (by omega) (by omega)] at enough
    exact ⟨by omega, by omega⟩
  · rintro ⟨exact_, fitting⟩
    have fits : milliseconds ≤ 2 ^ 31 - 1 := Int.le_of_mul_le_mul_right (by omega) some_
    rw [toInt_eq (by omega) (by omega)]
    refine ⟨whole, fun _ => by omega, fun none_ => ?_, (waits _).mpr ⟨whole, by omega⟩⟩
    rw [asked, none_, exact_, Int.zero_mul, Int.add_zero]

theorem pollCall_some {T : Type*} {s : Process T} {sel : Select} {fds : List PollFd} {limit : Int}
    {timeout : Timeval}
    (given : sel.timeout = some timeout) (call : pollCall sel s = .ok (fds, limit)) :
    0 ≤ timeout.tv_sec ∧ 0 ≤ timeout.tv_usec ∧ limit = toMilliseconds 1000 timeout.tv_sec timeout.tv_usec := by
  unfold pollCall at call
  split at call
  · cases call
  split at call
  · cases call
  split at call
  · cases call
  next valid =>
    rw [given] at valid
    split at call
    · cases call
    · cases call
      simp at valid
      exact ⟨valid.1, valid.2, by rw [given, pollTo]⟩

/-- For every call of `dce_select` with a limit that is not refused, and every limit of a call of `dce_ppoll` that is
not negative: the limit that `dce_poll` gets is right, and the call takes the time that it should on a quiet set,
exactly if the time is whole milliseconds that fit. -/
theorem keeps_iff_wholeMilliseconds {T : Type*} [DecidableEq T] (t : T) (sel : Select) (s : Process T)
    (fds fds' : List PollFd)
    (limit : Int) (timeout : Timeval) (timeout_ts : Timespec) (given : sel.timeout = some timeout)
    (call : pollCall sel s = .ok (fds, limit)) (sec_nonneg : 0 ≤ timeout_ts.tv_sec)
    (nsec_nonneg : 0 ≤ timeout_ts.tv_nsec) :
    (Keeps t fds s 1000 timeout.tv_sec timeout.tv_usec limit ↔ Whole 1000 timeout.tv_sec timeout.tv_usec) ∧
      (Keeps t fds' s 1000000 timeout_ts.tv_sec timeout_ts.tv_nsec (ppollTimeout (some timeout_ts)) ↔
        Whole 1000000 timeout_ts.tv_sec timeout_ts.tv_nsec) := by
  obtain ⟨sec, usec, rfl⟩ := pollCall_some given call
  exact ⟨keeps_iff_whole (by decide) (by decide) sec usec,
    keeps_iff_whole (by decide) (by decide) sec_nonneg nsec_nonneg⟩

/-- A sleep by means of `dce_select`. -/
def selectFor (timeout : Timeval) : Select := ⟨⟨some ∅, none, none⟩, 0, some timeout⟩

theorem keeps_second : Keeps () [] start 1000 1 500000 1500 ∧
    Keeps () [] start 1000000 2 1000000 (ppollTimeout (some ⟨2, 1000000⟩)) := by
  have both := keeps_iff_wholeMilliseconds () (selectFor ⟨1, 500000⟩) start [] [] 1500 ⟨1, 500000⟩ ⟨2, 1000000⟩
    rfl (by decide) (by decide) (by decide)
  exact ⟨both.1.mpr (by decide), both.2.mpr (by decide)⟩

/-- Half a millisecond is handed on as no time, a month as a negative number, and 2 ^ 32 + 1 milliseconds as one. -/
theorem not_keeps : (pollCall (selectFor ⟨0, 500⟩) (start : Process Unit) = .ok ([], 0) ∧
      ¬ Keeps () [] start 1000 0 500 0) ∧
    (ppollTimeout (some ⟨2592000, 0⟩) < 0 ∧ ¬ Keeps () [] start 1000000 2592000 0
      (ppollTimeout (some ⟨2592000, 0⟩))) ∧
    pollCall (selectFor ⟨4294967, 297000⟩) (start : Process Unit) = .ok ([], 1) ∧
    ¬ Keeps () [] start 1000 4294967 297000 1 := by
  refine ⟨⟨by decide, fun keeps => ?_⟩, ⟨by decide, fun keeps => ?_⟩, by decide, fun keeps => ?_⟩
  · exact absurd (keeps.zero rfl) (by decide)
  · exact absurd keeps.nonneg (by decide)
  · exact absurd ((waitsOut_iff (by decide)).mp keeps.waits).2 (by decide)

end Dce.Polling
