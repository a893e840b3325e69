import Dce.Polling.Select
import Mathlib.Data.Nat.Bitwise

/- The sets and the count that `dce_select` comes back with, beside what `dce_poll` has reported. -/

namespace Dce.Polling

open List Option

variable {T : Type*} [DecidableEq T] {t : T} {s s' : Process T} {sel : Select} {sets : Sets}
    {fds report : List PollFd}
  {pfd pfd' : PollFd} {count limit fd : Nat} {answer : Nat → Nat} {kinds : List Nat} {set : FdSet}

/-- One of the kinds of events is reported for the descriptor. -/
def Reports (report : List PollFd) (kinds : List Nat) (fd : Nat) : Prop :=
  ∃ pfd ∈ report, pfd.fd.toNat = fd ∧ reported kinds pfd = true

/-- The set afterwards has the descriptors that were put into it and for which an event of its kinds is reported. -/
def Selects (report : List PollFd) (kinds : List Nat) (before after : Option FdSet) : Prop :=
  after.isSome = before.isSome ∧ ∀ fd, isSet fd after = true ↔ isSet fd before = true ∧ Reports report kinds fd

def size (set : Option FdSet) : Nat := (set.getD ∅).card

/-- The answer of a call to a report. -/
structure Agrees (sets : Sets) (report : List PollFd) (answer : Sets × Nat) : Prop where
  read : Selects report readKinds sets.readfds answer.1.readfds
  write : Selects report writeKinds sets.writefds answer.1.writefds
  except : Selects report exceptKinds sets.exceptfds answer.1.exceptfds
  total : answer.2 = size answer.1.readfds + size answer.1.writefds + size answer.1.exceptfds

/-- A call of `dce_select` that comes back, at once or after a wait of its `dce_poll`, and what that has reported. -/
inductive SelectRun (t : T) (sel : Select) (report : List PollFd) (sets : Sets) (ret : Nat) : Prop
  | atOnce {s s' u : Process T} {fds : List PollFd} {limit : Int} {count : Nat} {answer : Nat → Nat} :
      pollCall sel s = .ok (fds, limit) → dce_poll t fds limit answer s = (s', .polled count report) →
      dce_select t sel answer s = (u, .done ret sets) → SelectRun t sel report sets ret
  | later {s v v' u : Process T} {fds : List PollFd} {limit : Int} {p : Poll} {count : Nat} {answer : Nat → Nat} :
      pollCall sel s = .ok (fds, limit) → p.fds = fds.map (fun pfd => { pfd with revents := 0 }) →
      pollAgain t p answer v = (v', .polled count report) → selectAgain t sel p answer v = (u, .done ret sets) →
      SelectRun t sel report sets ret

section

/-- What a round of `dce_poll` reports for an entry: nothing that was not asked for but an error or a hangup. -/
structure Answered (pfd pfd' : PollFd) : Prop where
  fd : pfd'.fd = pfd.fd
  revents : pfd'.revents = 0 ∨ ∃ answer, pfd'.revents = answer &&& (pfd.events ||| POLLERR ||| POLLHUP)

section

omit [DecidableEq T]

theorem pollEntry_answered (answer : Nat → Nat) (r : Round T) (fresh : pfd.revents = 0) :
    Answered pfd (pollEntry answer pfd r).1 ∧
      ((pollEntry answer pfd r).2.count = r.count ∧ (pollEntry answer pfd r).1.revents = 0 ∨
        (pollEntry answer pfd r).2.count = r.count + 1) := by
  unfold pollEntry
  split
  · exact ⟨⟨rfl, .inl fresh⟩, .inl ⟨rfl, fresh⟩⟩
  next a found =>
    refine ⟨⟨rfl, .inr ⟨answer a, rfl⟩⟩, ?_⟩
    by_cases quiet : mask answer pfd a = 0
    · refine .inl ⟨?_, quiet⟩
      simp only [quiet, ne_eq, not_true_eq_false, if_false]
      split <;> rfl
    · refine .inr ?_
      simp only [ne_eq, quiet, not_false_eq_true, if_true]
      split <;> rfl

theorem pollRound_answered (answer : Nat → Nat) (r : Round T) (fresh : ∀ pfd ∈ fds, pfd.revents = 0) :
    List.Forall₂ Answered fds (pollRound answer fds r).1 ∧ r.count ≤ (pollRound answer fds r).2.count ∧
      ((pollRound answer fds r).2.count = r.count → ∀ pfd ∈ (pollRound answer fds r).1, pfd.revents = 0) := by
  induction fds generalizing r with
  | nil => simp [pollRound]
  | cons pfd fds ih =>
    obtain ⟨here, quiet⟩ := pollEntry_answered answer r (fresh pfd mem_cons_self)
    obtain ⟨rest, more, silent⟩ := ih (pollEntry answer pfd r).2 fun pfd mem => fresh pfd (mem_cons_of_mem _ mem)
    have total : (pollRound answer (pfd :: fds) r).2.count =
      (pollRound answer fds (pollEntry answer pfd r).2).2.count := rfl
    refine ⟨.cons here rest, by omega, fun same => ?_⟩
    have none_ : (pollEntry answer pfd r).2.count = r.count ∧ (pollEntry answer pfd r).1.revents = 0 := by
      rcases quiet with quiet | count
      · exact quiet
      · omega
    exact forall_mem_cons.mpr ⟨none_.2, silent (none_.1 ▸ same)⟩

end

theorem afterRound_polled {p : Poll} (run : afterRound t p fds count s = (s', .polled limit report)) :
    limit = count ∧ report = fds := by
  unfold afterRound at run
  split at run
  · cases run
    exact ⟨rfl, rfl⟩
  · cases run

theorem selectRun_report {ret : Nat} (run : SelectRun t sel report sets ret) :
    ∃ (s : Process T) (fds : List PollFd) (limit : Int) (count : Nat), pollCall sel s = .ok (fds, limit) ∧
      List.Forall₂ Answered fds report ∧ (count = 0 → ∀ pfd ∈ report, pfd.revents = 0) ∧
      (sets, ret) = afterPoll sel count report := by
  have about : ∀ {fds : List PollFd} {count : Nat} {answer : Nat → Nat} {r : Round T}, r.count = 0 →
      report = (pollRound answer (fds.map fun pfd => { pfd with revents := 0 }) r).1 →
      count = (pollRound answer (fds.map fun pfd => { pfd with revents := 0 }) r).2.count →
      Forall₂ Answered fds report ∧ (count = 0 → ∀ pfd ∈ report, pfd.revents = 0) := by
    intro fds count answer r zero same total
    have fresh : ∀ pfd ∈ fds.map fun pfd => { pfd with revents := 0 }, pfd.revents = 0 := by simp
    obtain ⟨answered, -, silent⟩ := pollRound_answered answer r fresh
    rw [← same, forall₂_map_left_iff] at answered
    rw [← same, ← total, zero] at silent
    exact ⟨answered.imp fun _ _ entry => ⟨entry.fd, entry.revents⟩, silent⟩
  cases run with
  | @atOnce s s' u fds limit count answer call poll select =>
    obtain ⟨total, same⟩ := afterRound_polled poll
    obtain ⟨answered, silent⟩ := about rfl same total
    refine ⟨s, fds, limit, count, call, answered, silent, ?_⟩
    rw [dce_select, call] at select
    simp only [poll] at select
    cases select
    rfl
  | @later s v v' u fds limit p count answer call array poll select =>
    obtain ⟨total, same⟩ := afterRound_polled poll
    rw [array] at total same
    obtain ⟨answered, silent⟩ := about rfl same total
    refine ⟨s, fds, limit, count, call, answered, silent, ?_⟩
    rw [selectAgain, poll] at select
    cases select
    rfl

variable (answered : List.Forall₂ Answered fds report)
include answered

theorem source_of_answered (mem : pfd' ∈ report) : ∃ pfd ∈ fds, Answered pfd pfd' := by
  induction answered with
  | nil => cases mem
  | cons here _ ih =>
    rcases mem_cons.mp mem with rfl | later
    · exact ⟨_, mem_cons_self, here⟩
    · obtain ⟨pfd, source, entry⟩ := ih later
      exact ⟨pfd, mem_cons_of_mem _ source, entry⟩

theorem map_fd_of_answered : (report.map fun pfd => pfd.fd.toNat) = fds.map fun pfd => pfd.fd.toNat := by
  induction answered with
  | nil => rfl
  | cons here _ ih => rw [map_cons, map_cons, here.fd, ih]

end

/-- What the array for `dce_poll` is made of. -/
structure Folded (sets : Sets) (fds : List PollFd) : Prop where
  once : (fds.map fun pfd => pfd.fd.toNat).Nodup
  events : ∀ pfd ∈ fds, pfd.events = event sets pfd.fd.toNat

section

omit [DecidableEq T]

theorem eventByFd_folded {l : List Nat} (nodup : l.Nodup) (open_ : eventByFd sets s l = some fds) :
    Folded sets fds ∧ ∀ pfd ∈ fds, pfd.fd.toNat ∈ l := by
  induction l generalizing fds with
  | nil =>
    cases open_
    exact ⟨⟨.nil, by simp⟩, by simp⟩
  | cons fd l ih =>
    obtain ⟨apart, nodup⟩ := nodup_cons.mp nodup
    simp only [eventByFd] at open_
    split at open_
    · obtain ⟨folded, members⟩ := ih nodup open_
      exact ⟨folded, fun pfd mem => mem_cons_of_mem _ (members pfd mem)⟩
    split at open_
    · cases open_
    obtain ⟨rest, later, rfl⟩ := map_eq_some_iff.mp open_
    obtain ⟨folded, members⟩ := ih nodup later
    refine ⟨⟨?_, forall_mem_cons.mpr ⟨rfl, folded.events⟩⟩, ?_⟩
    · refine nodup_cons.mpr ⟨fun again => ?_, folded.once⟩
      obtain ⟨pfd, mem, same⟩ := mem_map.mp again
      have same : pfd.fd.toNat = fd := same
      exact apart (same ▸ members pfd mem)
    · exact forall_mem_cons.mpr ⟨mem_cons_self, fun pfd mem => mem_cons_of_mem _ (members pfd mem)⟩

theorem pollCall_folded {limit : Int} (call : pollCall sel s = .ok (fds, limit)) : Folded sel.toSets fds := by
  unfold pollCall at call
  split at call
  · cases call
  split at call
  · cases call
  split at call
  · cases call
  split at call
  · cases call
  next found =>
    cases call
    exact (eventByFd_folded nodup_range found).1

end

/-- One kind of events, of which the number is a power of two. -/
theorem and_ne_zero_iff (k n : Nat) : 2 ^ k &&& n ≠ 0 ↔ n.testBit k = true := by
  rw [Nat.two_pow_and]
  cases n.testBit k <;> simp

theorem Answered.asked {k : Nat} (answered : Answered pfd pfd') (other : (POLLERR ||| POLLHUP).testBit k = false)
    (hit : 2 ^ k &&& pfd'.revents ≠ 0) : 2 ^ k &&& pfd.events ≠ 0 := by
  rw [and_ne_zero_iff] at hit ⊢
  rcases answered.revents with none_ | ⟨answer, masked⟩
  · rw [none_, Nat.zero_testBit] at hit
    cases hit
  · rw [masked, Nat.testBit_and, Nat.or_assoc, Nat.testBit_or, other, Bool.or_false, Bool.and_eq_true] at hit
    exact hit.2

theorem event_in : POLLIN &&& event sets fd ≠ 0 ↔ isSet fd sets.readfds = true := by
  unfold event
  cases isSet fd sets.readfds <;> cases isSet fd sets.writefds <;> cases isSet fd sets.exceptfds <;> decide

theorem event_out : POLLOUT &&& event sets fd ≠ 0 ↔ isSet fd sets.writefds = true := by
  unfold event
  cases isSet fd sets.readfds <;> cases isSet fd sets.writefds <;> cases isSet fd sets.exceptfds <;> decide

theorem event_pri : POLLPRI &&& event sets fd ≠ 0 ↔ isSet fd sets.exceptfds = true := by
  unfold event
  cases isSet fd sets.readfds <;> cases isSet fd sets.writefds <;> cases isSet fd sets.exceptfds <;> decide

/-- An event of a kind that only comes where it was asked for is reported of a descriptor that was asked about it. -/
theorem asked_of_reports {k : Nat} (folded : Folded sets fds) (answered : List.Forall₂ Answered fds report)
    (other : (POLLERR ||| POLLHUP).testBit k = false) (hit : Reports report [2 ^ k] fd) :
    2 ^ k &&& event sets fd ≠ 0 := by
  obtain ⟨pfd', mem, rfl, hit⟩ := hit
  obtain ⟨pfd, source, entry⟩ := source_of_answered answered mem
  have bit : 2 ^ k &&& pfd'.revents ≠ 0 := by simpa [reported] using hit
  have asked := entry.asked other bit
  rwa [folded.events pfd source, ← entry.fd] at asked

/-- The set after the loop, of a kind of events alone. -/
def collect (kinds : List Nat) (report : List PollFd) (set : FdSet) : FdSet :=
  set ∪ ((report.filter (reported kinds)).map fun pfd => pfd.fd.toNat).toFinset

/-- How often the loop counts for one of the sets. -/
def hits (kinds : List Nat) (report : List PollFd) (set : Option FdSet) : Nat :=
  if set.isSome then (report.filter (reported kinds)).length else 0

theorem mark_eq (kinds : List Nat) (pfd : PollFd) (set : Option FdSet) (n : Nat) :
    mark kinds pfd (set, n) = (set.map (collect kinds [pfd]), n + hits kinds [pfd] set) := by
  cases set with
  | none => rfl
  | some set =>
    by_cases hit : reported kinds pfd = true
    · simp [mark, hits, collect, hit]
    · simp [mark, hits, collect, hit]

theorem collect_collect (set : FdSet) : collect kinds report (collect kinds [pfd] set) =
    collect kinds (pfd :: report) set := by
  by_cases hit : reported kinds pfd = true
  · simp [collect, hit]
  · simp [collect, hit]

theorem map_collect (set : Option FdSet) :
    (set.map (collect kinds [pfd])).map (collect kinds report) = set.map (collect kinds (pfd :: report)) := by
  cases set with
  | none => rfl
  | some set => exact congrArg some (collect_collect set)

theorem hits_add (set : Option FdSet) :
    hits kinds [pfd] set + hits kinds report (set.map (collect kinds [pfd])) = hits kinds (pfd :: report) set := by
  cases set with
  | none => rfl
  | some set =>
    by_cases hit : reported kinds pfd = true
    · simp [hits, hit, Nat.add_comm]
    · simp [hits, hit]

theorem markAll_eq (report : List PollFd) (sets : Sets) (n : Nat) : markAll report (sets, n) =
      (⟨sets.readfds.map (collect readKinds report), sets.writefds.map (collect writeKinds report),
        sets.exceptfds.map (collect exceptKinds report)⟩,
        n + hits readKinds report sets.readfds + hits writeKinds report sets.writefds +
        hits exceptKinds report sets.exceptfds) := by
  induction report generalizing sets n with
  | nil =>
    have same : ∀ (kinds : List Nat) (set : Option FdSet), set.map (collect kinds []) = set := fun kinds set => by
      cases set <;> simp [collect]
    have none_ : ∀ (kinds : List Nat) (set : Option FdSet), hits kinds [] set = 0 := fun kinds set => by simp [hits]
    simp [markAll, same, none_]
  | cons pfd report ih =>
    have reads : _ = hits readKinds (pfd :: report) sets.readfds := hits_add sets.readfds
    have writes : _ = hits writeKinds (pfd :: report) sets.writefds := hits_add sets.writefds
    have excepts : _ = hits exceptKinds (pfd :: report) sets.exceptfds := hits_add sets.exceptfds
    simp only [markAll]
    rw [mark_eq, mark_eq, mark_eq, ih]
    simp only [map_collect]
    refine Prod.ext rfl ?_
    omega

theorem isSet_collect (set : Option FdSet) :
    isSet fd ((set.map fun _ => ∅).map (collect kinds report)) = true ↔
    set.isSome = true ∧ Reports report kinds fd := by
  cases set with
  | none => simp [isSet]
  | some set =>
    simp only [isSet, map_some, any_some, collect, decide_eq_true_eq, Finset.empty_union, List.mem_toFinset,
      List.mem_map, List.mem_filter, isSome_some, true_and]
    exact ⟨fun ⟨pfd, ⟨mem, hit⟩, same⟩ => ⟨pfd, mem, same, hit⟩, fun ⟨pfd, mem, same, hit⟩ =>
      ⟨pfd, ⟨mem, hit⟩, same⟩⟩

theorem size_collect (once : (report.map fun pfd => pfd.fd.toNat).Nodup) (set : Option FdSet) :
    size ((set.map fun _ => ∅).map (collect kinds report)) = hits kinds report (set.map fun _ => ∅) := by
  cases set with
  | none => rfl
  | some set =>
    have sub : ((report.filter (reported kinds)).map fun pfd => pfd.fd.toNat).Nodup :=
      once.sublist (filter_sublist.map _)
    simp [size, hits, collect, toFinset_card_of_nodup sub]

theorem afterPoll_eq {n : Nat} (silent : n = 0 → ∀ pfd ∈ report, pfd.revents = 0) :
    afterPoll sel n report = markAll report (zeroed sel.toSets, 0) := by
  unfold afterPoll
  split
  · rfl
  · have zero : n = 0 := by omega
    have quiet : ∀ kinds, report.filter (reported kinds) = [] := fun kinds =>
      filter_eq_nil_iff.mpr fun pfd mem => by simp [reported, silent zero pfd mem]
    have same : ∀ (kinds : List Nat) (set : Option FdSet), set.map (collect kinds report) = set :=
      fun kinds set => by
      cases set <;> simp [collect, quiet]
    have count : ∀ (kinds : List Nat) (set : Option FdSet), hits kinds report set = 0 := fun kinds set => by
      simp [hits, quiet]
    rw [markAll_eq]
    simp only [same, count, zero]

/-- No descriptor that the caller did not put into the set for reading, where there is one, has a hangup or an error
reported. -/
def NoStrayHangup (sets : Sets) (report : List PollFd) : Prop :=
  sets.readfds.isSome = true → ∀ fd, isSet fd sets.readfds = false → ¬ Reports report [POLLHUP, POLLERR] fd

theorem selects_of_asked {set : Option FdSet} (asked : ∀ fd, Reports report kinds fd → isSet fd set = true) :
    Selects report kinds set ((set.map fun _ => ∅).map (collect kinds report)) := by
  refine ⟨by cases set <;> rfl, fun fd => ?_⟩
  rw [isSet_collect]
  constructor
  · exact fun ⟨_, hit⟩ => ⟨asked fd hit, hit⟩
  · rintro ⟨mem, hit⟩
    cases set with
    | none => simp [isSet] at mem
    | some set => exact ⟨rfl, hit⟩

theorem reports_readKinds : Reports report readKinds fd ↔ Reports report [POLLIN] fd ∨ Reports report
    [POLLHUP, POLLERR] fd := by
  simp only [Reports, reported, readKinds, any_cons, any_nil, Bool.or_eq_true, Bool.or_false]
  constructor
  · rintro ⟨pfd, mem, same, input | other⟩
    · exact .inl ⟨pfd, mem, same, input⟩
    · exact .inr ⟨pfd, mem, same, other⟩
  · rintro (⟨pfd, mem, same, input⟩ | ⟨pfd, mem, same, other⟩)
    · exact ⟨pfd, mem, same, .inl input⟩
    · exact ⟨pfd, mem, same, .inr other⟩

theorem selects_read_iff (asked : ∀ fd, Reports report [POLLIN] fd → isSet fd sets.readfds = true) :
    Selects report readKinds sets.readfds ((sets.readfds.map fun _ => ∅).map (collect readKinds report)) ↔
      NoStrayHangup sets report := by
  constructor
  · intro selects there fd outside stray
    have marked := (selects.2 fd).mp (isSet_collect _ |>.mpr ⟨there, reports_readKinds.mpr (.inr stray)⟩)
    rw [marked.1] at outside
    cases outside
  · intro none_
    refine ⟨by cases sets.readfds <;> rfl, fun fd => ?_⟩
    rw [isSet_collect]
    constructor
    · rintro ⟨there, hit⟩
      refine ⟨?_, hit⟩
      rcases reports_readKinds.mp hit with input | stray
      · exact asked fd input
      · by_contra outside
        exact none_ there fd (by simpa using outside) stray
    · rintro ⟨mem, hit⟩
      refine ⟨?_, hit⟩
      cases given : sets.readfds with
      | none => simp [isSet, given] at mem
      | some set => rfl

/-- For every call of `dce_select` over open descriptors that comes back: its sets and its count are those of the
report of its `dce_poll` exactly if that has no hangup and no error of a descriptor outside of the set for
reading. -/
theorem agrees_iff_noStrayHangup (t : T) (sel : Select) (report : List PollFd) (sets : Sets) (ret : Nat)
    (run : SelectRun t sel report sets ret) : Agrees sel.toSets report (sets, ret) ↔
    NoStrayHangup sel.toSets report := by
  obtain ⟨s, fds, limit, count, call, answered, silent, result⟩ := selectRun_report run
  have folded := pollCall_folded call
  have once : (report.map fun pfd => pfd.fd.toNat).Nodup := by
    rw [map_fd_of_answered answered]
    exact folded.once
  have input : ∀ fd, Reports report [POLLIN] fd → isSet fd sel.readfds = true := fun fd hit =>
    event_in.mp (asked_of_reports (k := 0) folded answered (by decide) hit)
  have output : ∀ fd, Reports report writeKinds fd → isSet fd sel.writefds = true := fun fd hit =>
    event_out.mp (asked_of_reports (k := 2) folded answered (by decide) hit)
  have urgent : ∀ fd, Reports report exceptKinds fd → isSet fd sel.exceptfds = true := fun fd hit =>
    event_pri.mp (asked_of_reports (k := 1) folded answered (by decide) hit)
  rw [← selects_read_iff input, result, afterPoll_eq silent, markAll_eq]
  constructor
  · exact fun agrees => agrees.read
  · intro read
    refine ⟨read, selects_of_asked output, selects_of_asked urgent, ?_⟩
    simp only [zeroed, size_collect once, Nat.zero_add]

/-- A process with the descriptor 3. -/
def oneOpen : Process Bool := newFileUsage 3 start

/-- The call waits for input at 3. -/
def forInput : Select := ⟨⟨some {3}, none, none⟩, 4, none⟩

/-- The call waits for room at 3, with an empty set for reading. -/
def forOutput : Select := ⟨⟨some ∅, some {3}, none⟩, 4, none⟩

theorem agrees_forInput : Agrees forInput.toSets [⟨3, 1, 17⟩] (⟨some {3}, none, none⟩, 1) := by
  have call : pollCall forInput oneOpen = .ok ([⟨3, 1, 0⟩], -1) := by decide
  have polled : (dce_poll true [⟨3, 1, 0⟩] (-1) (fun _ => 17) oneOpen).2 = .polled 1 [⟨3, 1, 17⟩] := by decide
  have done : (dce_select true forInput (fun _ => 17) oneOpen).2 = .done 1 ⟨some {3}, none, none⟩ := by decide
  refine (agrees_iff_noStrayHangup true forInput [⟨3, 1, 17⟩] ⟨some {3}, none, none⟩ 1
    (.atOnce call (Prod.ext rfl polled) (Prod.ext rfl done))).mpr fun _ fd outside => ?_
  rintro ⟨pfd, member, rfl, -⟩
  rw [mem_singleton.mp member] at outside
  revert outside
  decide

/-- A descriptor with a hangup that was only asked about for writing comes back in the set for reading. -/
theorem not_agrees : SelectRun true forOutput [⟨3, 4, 20⟩] ⟨some {3}, some {3}, none⟩ 2 ∧
    ¬ Agrees forOutput.toSets [⟨3, 4, 20⟩] (⟨some {3}, some {3}, none⟩, 2) := by
  have call : pollCall forOutput oneOpen = .ok ([⟨3, 4, 0⟩], -1) := by decide
  have polled : (dce_poll true [⟨3, 4, 0⟩] (-1) (fun _ => 20) oneOpen).2 = .polled 1 [⟨3, 4, 20⟩] := by decide
  have done : (dce_select true forOutput (fun _ => 20) oneOpen).2 = .done 2 ⟨some {3}, some {3}, none⟩ := by decide
  refine ⟨.atOnce call (Prod.ext rfl polled) (Prod.ext rfl done), fun agrees => ?_⟩
  have marked := ((agrees.read.2 3).mp rfl).1
  cases marked

end Dce.Polling
