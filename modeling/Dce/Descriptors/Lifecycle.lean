import Dce.Descriptors.Steps

/- When the objects behind the descriptors are closed. -/

namespace Dce.Descriptors

open Pipe (End FifoBuffer pipeCapacity maxFds)

variable {β : Type*} {s t : System β} {f h : File} {pid : Nat} {fd oldfd newfd : Int} {fu : FileUsage}

def File.isPipe : File → Bool
  | .unixFd _ => false
  | .pipeFd _ _ => true

/-- `dce_close` of the entry: the last descriptor of an object is not in use and is not one of a
pipe, and no poll has kept a use of the entry. -/
structure Departs (s : System β) (fu : FileUsage) : Prop where
  last : (s.files fu.file).fdCount = 1 → fu.count = 0 ∧ fu.file.isPipe = false
  used : fu.count ≠ 0 → 0 < fu.calls + fu.polls

/-- Some process other than `pid` has a descriptor of `f`. -/
def Elsewhere (pid : Nat) (f : File) (s : System β) : Prop :=
  ∃ key fu, key.1 ≠ pid ∧ s.openFiles.lookup key = some fu ∧ fu.file = f

/-- The steps that let no object go without its `Close ()` and close none too early. A descriptor
that was closed in use is not the last one when its last use ends, and that use is no poll. -/
def Orderly (s : System β) : Label β → Prop
  | .close pid fd _ => ∀ fu, s.openFiles.lookup (pid, fd) = some fu → Departs s fu
  | .dup2 pid oldfd newfd _ => Redirects pid oldfd newfd s → ∀ fu, findOpen pid newfd s = some fu → Departs s fu
  | .leave pid fd => ∀ fu, s.openFiles.lookup (pid, fd) = some fu → fu.closing = true →
    1 < fu.calls + fu.polls ∨ fu.stale = 0 ∧ (s.files fu.file).fdCount ≠ 1
  | .pollLeave pid fd => ∀ fu, s.openFiles.lookup (pid, fd) = some fu → fu.closing = true → 1 < fu.calls + fu.polls
  | .method pid _ (.accept waiting) => allocateFd pid s = none → waiting.connectors = []
  | .pipe pid null => null = false → ∀ fd, allocateFd pid s = some fd →
    ∃ other : Int, other ≠ fd ∧ 0 ≤ other ∧ other < maxFds ∧ s.openFiles.lookup (pid, other) = none
  | .exit pid => ∀ fd fu, s.openFiles.lookup (pid, fd) = some fu → fu.file.isPipe = true → Elsewhere pid fu.file s
  | .stop pid => ∀ fd fu, s.openFiles.lookup (pid, fd) = some fu → Elsewhere pid fu.file s
  | _ => True

/-- What holds of an object in an orderly run, by the number of its descriptors. -/
structure Lived (_ : File) (u : UnixFd β) (n : Nat) : Prop where
  fdCount : u.fdCount = n
  held : 0 < n → u.closes = 0
  never : u.given = false → u.closes = 0
  gone : u.given = true → n = 0 → u.closes = 1

/-- A descriptor that was closed is still there because it is in use. -/
def Busy (s : System β) : Prop :=
  ∀ key fu, s.openFiles.lookup key = some fu → fu.closing = true → 0 < fu.calls + fu.polls

structure Lives (s : System β) : Prop where
  books : Books s
  lived : Each Lived s
  busy : Busy s

theorem Elsewhere.two (elsewhere : Elsewhere pid fu.file s) (look : s.openFiles.lookup (pid, fd) = some fu) :
    2 ≤ descriptors fu.file s := by
  obtain ⟨key, other, away, look', same⟩ := elsewhere
  have ne : (pid, fd) ≠ key := fun same => away (by rw [← same])
  exact Table.two_le_tally ne look look' (decide_eq_true rfl) (decide_eq_true same)

section

theorem Lived.shared {n : Nat} {u : UnixFd β} (lived : Lived f u n) (some : 0 < n) :
    Lived f { u with fdCount := u.fdCount + 1, ref := u.ref + 1, given := true } (n + 1) where
  fdCount := by
    have count := lived.fdCount
    show u.fdCount + 1 = _
    omega
  held _ := lived.held some
  never := nofun
  gone _ none := absurd none (Nat.succ_ne_zero n)

theorem Lived.dropped {n : Nat} {u : UnixFd β} (lived : Lived f u (n + 1)) (some : 0 < n) : Lived f u.dropped n where
  fdCount := by
    have count := lived.fdCount
    show u.fdCount - 1 = _
    omega
  held _ := lived.held (Nat.succ_pos n)
  never := lived.never
  gone _ none := absurd none (by omega)

theorem Lived.closed {n : Nat} {u : UnixFd β} (lived : Lived f u (n + 1)) (given : u.given = true)
    (last : u.fdCount = 1) :
    Lived f { u with closes := u.closes + 1 }.dropped n where
  fdCount := by
    have count := lived.fdCount
    show u.fdCount - 1 = _
    omega
  held some := by
    have count := lived.fdCount
    omega
  never never := absurd (given.symm.trans never) Bool.false_ne_true.symm
  gone _ _ := congrArg (· + 1) (lived.held (Nat.succ_pos n))

theorem Each.forget_more {P : File → UnixFd β → Nat → Prop} (each : Each P s)
    (two : ∀ fu, s.openFiles.lookup (pid, fd) = some fu → 2 ≤ descriptors fu.file s)
    (keep : ∀ f u n, P f u (n + 1) → 0 < n → P f u.dropped n) : Each P (Descriptors.forget pid fd s) :=
  each.forget fun fu look here => by
    have some := two fu look
    rw [descriptors_forget look, if_pos rfl] at some
    exact keep _ _ _ here (by omega)

theorem Each.forget_called {P : File → UnixFd β → Nat → Prop} (each : Each P s)
    (look : s.openFiles.lookup (pid, fd) = some fu)
    (keep : ∀ n, P fu.file (s.files fu.file) (n + 1) →
      P fu.file { s.files fu.file with closes := (s.files fu.file).closes + 1 }.dropped n) :
    Each P (Descriptors.forget pid fd (called fu.file s)) := by
  have look' : (called fu.file s).openFiles.lookup (pid, fd) = some fu := look
  intro h
  have here := each h
  have count : descriptors h s = descriptors h (called fu.file s) := rfl
  rw [count, descriptors_forget look'] at here
  rw [forget_files look']
  by_cases same : h = fu.file
  · subst same
    rw [if_pos rfl] at here
    rw [Function.update_self, show (called fu.file s).files fu.file = _ from update_self _ _ _]
    exact keep _ here
  · rw [if_neg (Ne.symm same)] at here
    rw [Function.update_of_ne same, show (called fu.file s).files h = _ from update_other same _ _]
    exact here

section

variable (busy : ∀ key fu, key ≠ (pid, fd) → s.openFiles.lookup key = some fu → fu.closing = true →
      0 < fu.calls + fu.polls)
include busy

theorem Busy.forget : Busy (Descriptors.forget pid fd s) := by
  intro key fu look closing
  by_cases same : key = (pid, fd)
  · rw [same, forget_lookup_self] at look
    cases look
  · rw [forget_lookup same] at look
    exact busy key fu same look closing

theorem Busy.usage {now : FileUsage} (here : now.closing = true → 0 < now.calls + now.polls) :
    Busy (setUsage pid fd now s) := by
  intro key fu look closing
  by_cases same : key = (pid, fd)
  · rw [same, show (setUsage pid fd now s).openFiles.lookup (pid, fd) = some now from AList.lookup_insert _] at look
    cases look
    exact here closing
  · rw [show (setUsage pid fd now s).openFiles.lookup key = _ from AList.lookup_insert_ne same] at look
    exact busy key fu same look closing

end

theorem Busy.others (busy : Busy s) (key : Nat × Int) (fu : FileUsage) (_ : key ≠ (pid, fd))
    (look : s.openFiles.lookup key = some fu) (closing : fu.closing = true) : 0 < fu.calls + fu.polls :=
  busy key fu look closing

variable (lives : Lives s)
include lives

theorem Lives.share (absent : s.openFiles.lookup (pid, fd) = none) (some : 0 < descriptors f s) :
    Lives (share pid fd f s) where
  books := lives.books.share absent some
  lived := Each.share lives.lived absent fun lived => lived.shared some
  busy := Busy.usage lives.busy.others nofun

theorem Lives.install (absent : s.openFiles.lookup (pid, fd) = none) : Lives (install pid fd s) where
  books := lives.books.install absent
  lived := by
    obtain ⟨fresh, none⟩ := (lives.books (.unixFd s.next)).unborn le_rfl
    refine Each.install lives.lived absent fun _ => ?_
    rw [fresh, none]
    exact ⟨rfl, fun _ => rfl, nofun, fun _ none => absurd none (Nat.succ_ne_zero 0)⟩
  busy := Busy.usage lives.busy.others nofun

theorem Lives.usage (look : s.openFiles.lookup (pid, fd) = some fu) {now : FileUsage}
    (same : now.file = fu.file) (here : now.closing = true → 0 < now.calls + now.polls) :
    Lives (setUsage pid fd now s) where
  books := lives.books.usage look same
  lived := Each.setUsage lives.lived look same
  busy := Busy.usage lives.busy.others here

omit lives in
theorem Lives.release (books : Books s) (lived : Each Lived s) (look : s.openFiles.lookup (pid, fd) = some fu)
    (busy : ∀ key fu, key ≠ (pid, fd) → s.openFiles.lookup key = some fu → fu.closing = true →
      0 < fu.calls + fu.polls) (departs : Departs s fu) (status : Option Errno) :
    Lives (dceClose pid fd status s).1 := by
  have booked := books.dceClose pid fd status
  by_cases last : (s.files fu.file).fdCount = 1
  · obtain ⟨idle, plain⟩ := departs.last last
    have given := ((books fu.file).counted (descriptors_pos look)).2.2.2
    cases file : fu.file with
    | pipeFd n e =>
      rw [file] at plain
      cases plain
    | unixFd n =>
      have closed : (dceClose pid fd status s).1 = forget pid fd (called fu.file s) := by
        rw [dceClose_last look last, file]
        exact if_pos idle
      rw [closed] at booked ⊢
      exact ⟨booked, Each.forget_called lived look fun _ here => here.closed given last,
        Busy.forget (s := called fu.file s) busy⟩
  · have two : 2 ≤ descriptors fu.file s := by
      have count := (lived fu.file).fdCount
      have some := descriptors_pos look
      omega
    rw [dceClose_more look last] at booked ⊢
    unfold Descriptors.release at booked ⊢
    split at booked
    next idle =>
      rw [if_pos idle]
      refine ⟨booked, ?_, Busy.forget busy⟩
      refine Each.forget_more lived (fun fu' look' => ?_) fun _ _ _ here some => here.dropped some
      rw [look] at look'
      cases look'
      exact two
    next used =>
      rw [if_neg used]
      exact ⟨booked, Each.setUsage lived look rfl, Busy.usage busy fun _ => departs.used used⟩

theorem Lives.closes (departs : ∀ fu, s.openFiles.lookup (pid, fd) = some fu → Departs s fu)
    (status : Option Errno) :
    Lives (dceClose pid fd status s).1 := by
  cases look : s.openFiles.lookup (pid, fd) with
  | none => rwa [dceClose_none look]
  | some fu => exact .release lives.books lives.lived look lives.busy.others (departs fu look) status

end

/-- Of the descriptors of a process that are pipes, each has another one elsewhere. -/
def Backed (pid : Nat) (s : System β) : Prop :=
  ∀ fd fu, s.openFiles.lookup (pid, fd) = some fu → fu.file.isPipe = true → Elsewhere pid fu.file s

section

variable (lives : Lives s)
include lives

theorem Lives.dups {p : System β × Except Errno Int} (dups : Dups pid s p) : Lives p.1 := by
  cases dups with
  | fails => exact lives
  | same => exact lives
  | shares found absent => exact lives.share absent (descriptors_pos (findOpen_some found).1)

theorem Lives.create : Lives { create (.unixFd s.next) s with next := s.next + 1 } where
  books := lives.books.create
  lived := by
    have each : Each Lived (Descriptors.create (.unixFd s.next) s) :=
      Each.update lives.lived fun here => ⟨here.fdCount, here.held, here.never, here.gone⟩
    exact each
  busy := lives.busy

theorem Lives.madePipe {fdRead fdWrite : Int} (free : s.openFiles.lookup (pid, fdRead) = none)
    (ne : fdWrite ≠ fdRead) (absent : s.openFiles.lookup (pid, fdWrite) = none) :
    Lives (madePipe pid fdRead fdWrite s) where
  books := lives.books.madePipe free ne absent
  lived := by
    refine Each.madePipe lives.lived free ne absent (fun _ _ _ here => here) fun e _ => ?_
    rw [((lives.books (.pipeFd s.next e)).unborn le_rfl).2]
    exact ⟨rfl, fun _ => rfl, nofun, fun _ none => absurd none (Nat.succ_ne_zero 0)⟩
  busy := by
    have first : Busy (setUsage pid fdRead ⟨.pipeFd s.next .read, 0, 0, 0, false⟩ s) :=
      Busy.usage lives.busy.others nofun
    exact Busy.usage (s := setUsage pid fdRead _ s) first.others nofun

theorem Lives.decUsage (look : s.openFiles.lookup (pid, fd) = some fu)
    (orderly : fu.closing = true → 1 < fu.calls + fu.polls ∨ fu.stale = 0 ∧ (s.files fu.file).fdCount ≠ 1) :
    Lives (decUsage pid fd fu s) := by
  have booked := lives.books.decUsage look
  unfold Descriptors.decUsage at booked ⊢
  dsimp only at booked ⊢
  split at booked
  next gone =>
    obtain ⟨idle, closing⟩ := gone
    have idle : fu.calls - 1 + fu.polls + fu.stale = 0 := idle
    rw [if_pos ⟨idle, closing⟩]
    have used : (setUsage pid fd { fu with calls := fu.calls - 1 } s).openFiles.lookup (pid, fd) =
        some { fu with calls := fu.calls - 1 } := AList.lookup_insert _
    have lived : Each Lived (setUsage pid fd { fu with calls := fu.calls - 1 } s) :=
      Each.setUsage lives.lived look rfl
    refine ⟨booked, Each.forget_more lived (fun fu' look' => ?_) fun _ _ _ here some => here.dropped some, ?_⟩
    · rw [used] at look'
      cases look'
      have same : descriptors fu.file (setUsage pid fd { fu with calls := fu.calls - 1 } s) =
          descriptors fu.file s :=
        descriptors_setUsage look rfl
      rw [same]
      have count := (lives.lived fu.file).fdCount
      have some := descriptors_pos look
      rcases orderly closing with more | ⟨-, more⟩ <;> omega
    · refine Busy.forget fun key other away look' => ?_
      rw [show (setUsage pid fd _ s).openFiles.lookup key = _ from AList.lookup_insert_ne away] at look'
      exact lives.busy key other look'
  next kept =>
    rw [if_neg kept]
    refine lives.usage look rfl fun closing => ?_
    have used : ¬ (fu.calls - 1 + fu.polls + fu.stale = 0) := fun idle => kept ⟨idle, closing⟩
    show 0 < fu.calls - 1 + fu.polls
    rcases orderly closing with more | ⟨fresh, -⟩ <;> omega

omit lives in
theorem nullifyUsage_some (look : s.openFiles.lookup (pid, fd) = some fu) :
    nullifyUsage pid fd s = setUsage pid fd fu.nullify s := by
  rw [nullifyUsage, look]

omit lives in
theorem Elsewhere.kept (elsewhere : Elsewhere pid f s)
    (others : ∀ key, key.1 ≠ pid → t.openFiles.lookup key = s.openFiles.lookup key) : Elsewhere pid f t := by
  obtain ⟨key, fu, away, look, same⟩ := elsewhere
  exact ⟨key, fu, away, (others key away).trans look, same⟩

theorem Lives.exits (backed : Backed pid s) (fd : Int) : Lives (dceClose pid fd none (nullifyUsage pid fd s)).1 ∧
      Backed pid (dceClose pid fd none (nullifyUsage pid fd s)).1 := by
  cases look : s.openFiles.lookup (pid, fd) with
  | none =>
    have same : nullifyUsage pid fd s = s := by rw [nullifyUsage, look]
    rw [same, dceClose_none look]
    exact ⟨lives, backed⟩
  | some fu =>
    rw [nullifyUsage_some look]
    have used : (setUsage pid fd fu.nullify s).openFiles.lookup (pid, fd) = some fu.nullify := AList.lookup_insert _
    have others : ∀ key, key ≠ (pid, fd) → (setUsage pid fd fu.nullify s).openFiles.lookup key =
          s.openFiles.lookup key := fun key away => AList.lookup_insert_ne away
    have books : Books (setUsage pid fd fu.nullify s) := lives.books.usage look rfl
    have lived : Each Lived (setUsage pid fd fu.nullify s) := Each.setUsage lives.lived look rfl
    constructor
    · refine .release books lived used
        (fun key other away look' => ?_) ⟨fun last => ⟨rfl, ?_⟩, fun busy => absurd fu.count_nullify busy⟩ none
      · rw [others key away] at look'
        exact lives.busy key other look'
      · have last : (s.files fu.file).fdCount = 1 := last
        by_contra isPipe
        have two := (backed fd fu look (eq_true_of_ne_false isPipe)).two look
        have count := (lives.lived fu.file).fdCount
        omega
    · have left : ∀ key, key ≠ (pid, fd) → (dceClose pid fd none (setUsage pid fd fu.nullify s)).1.openFiles.lookup
            key = s.openFiles.lookup key := fun key away => (dceClose_lookup away none).trans (others key away)
      intro other fu' look' isPipe
      by_cases same : other = fd
      · rw [same, dceClose_lookup_self used] at look'
        cases look'
      · rw [left _ (by simpa using same)] at look'
        refine (backed other fu' look' isPipe).kept fun key away => left key fun same => away ?_
        rw [same]

theorem Lives.stops (backed : ∀ fd fu, s.openFiles.lookup (pid, fd) = some fu → Elsewhere pid fu.file s) (fd : Int) :
    Lives (forget pid fd s) ∧
      ∀ fd' fu, (forget pid fd s).openFiles.lookup (pid, fd') = some fu →
      Elsewhere pid fu.file (forget pid fd s) := by
  constructor
  · exact ⟨lives.books.forget, Each.forget_more lives.lived (fun fu look => (backed fd fu look).two look)
      fun _ _ _ here some => here.dropped some, Busy.forget lives.busy.others⟩
  · intro other fu look
    by_cases same : other = fd
    · rw [same, forget_lookup_self] at look
      cases look
    · rw [forget_lookup (by simpa using same)] at look
      refine (backed other fu look).kept fun key away => forget_lookup fun same => away ?_
      rw [same]

theorem Lives.keeps {a : Label β} (orderly : Orderly s a) : Keeps Lives s a where
  makes here _ mem makes := by
    cases makes with
    | fails => exact here
    | made free => exact here.install (allocateFd_some free).1
    | lost => exact here.create
    | hangs err full first =>
      obtain ⟨rfl, fd, waiting, rfl, same⟩ := mem (List.ne_nil_of_mem first)
      rw [same, orderly full] at first
      cases first
  pipe {pid null} label := by
    subst label
    have pipes := dcePipe_pipes lives.books pid null
    generalize dcePipe pid null s = p at pipes ⊢
    cases pipes with
    | fails => exact lives
    | opened free ne absent => exact lives.madePipe (allocateFd_some free).1 ne absent
    | broken notNull free full =>
      obtain ⟨other, ne, start, stop, absent⟩ := orderly notNull _ free
      exact absurd absent (full other start stop ne)
  dup found free := lives.share (allocateFd_some free).1 (descriptors_pos (findOpen_some found).1)
  dup2 {pid oldfd newfd status} label := by
    subst label
    have dup2 := dceDup2_dup2 pid oldfd newfd status s
    have departs : ∀ fu, Redirects pid oldfd newfd s → findOpen pid newfd s = some fu →
        Lives (dceClose pid newfd status s).1 := fun fu redirects found =>
      lives.closes (fun fu' look => by
        rw [(findOpen_some found).1] at look
        cases look
        exact orderly redirects fu found) status
    generalize dceDup2 pid oldfd newfd status s = p at dup2 ⊢
    cases dup2 with
    | direct dups => exact lives.dups dups
    | refused _ redirects found => exact departs _ redirects found
    | closed redirects found dups => exact (departs _ redirects found).dups dups
  close label := by
    subst label
    exact lives.closes orderly _
  enters found file closing := lives.usage (findOpen_some found).1 file fun closed =>
    absurd (closing.symm.trans closed) (by rw [(findOpen_some found).2]; exact Bool.false_ne_true)
  leave label look _ := by
    subst label
    exact lives.decUsage look (orderly _ look)
  pollLeave {pid fd fu} label look _ := by
    subst label
    refine lives.usage look rfl fun closing => ?_
    have more := orderly fu look closing
    show 0 < fu.calls + (fu.polls - 1)
    omega
  touches born inert := ⟨lives.books.update born inert.fdCount inert.ref inert.frees inert.given,
    Each.update lives.lived fun here => ⟨(inert.fdCount _).trans here.fdCount,
      fun some => (inert.closes _).trans (here.held some),
      fun never => (inert.closes _).trans (here.never ((inert.given _).symm.trans never)),
      fun given none => (inert.closes _).trans (here.gone ((inert.given _).symm.trans given) none)⟩, lives.busy⟩
  fork _ absent := clone_keeps lives absent fun _ _ _ here look free => here.share free (descriptors_pos look)
  exit {pid} label := by
    subst label
    exact (exit_keeps (I := fun t => Lives t ∧ Backed pid t) ⟨lives, orderly⟩ fun t fd here =>
      here.1.exits here.2 fd).1
  stop {pid} label := by
    subst label
    exact (stop_keeps (I := fun t => Lives t ∧ ∀ fd fu, t.openFiles.lookup (pid, fd) = some fu →
      Elsewhere pid fu.file t) ⟨lives, orderly⟩ fun t fd here => here.1.stops here.2 fd).1

end

/-- A socket, and the socket with a thread that waits in `recv`. -/
def opened : System Nat := install 0 0 .start

def entered : System Nat := setUsage 0 0 ⟨.unixFd 0, 1, 0, 0, false⟩ opened

theorem opened_reach : (machine Nat).Reach opened := by
  have free : allocateFd 0 (.start : System Nat) = some 0 :=
    allocateFd_least (n := 0) (by decide) rfl fun m less => absurd less (Nat.not_lt_zero m)
  have first : (machine Nat).step .start (.socket 0 .AF_UNIX .SOCK_DGRAM true) = some opened := by
    show (respond .start (.socket 0 .AF_UNIX .SOCK_DGRAM true)).map Prod.fst = some opened
    have made : createSocket .AF_UNIX .SOCK_DGRAM true = true := rfl
    rw [respond, dceSocket, if_pos made, free]
    rfl
  exact .next (.start rfl) trivial first

/-- In every run, an object that a descriptor refers to has its counts right, and has not been freed. -/
theorem counted_of_lookup {s : System β} (reach : (machine β).Reach s) {pid : Nat} {fd : Int} {fu : FileUsage}
    (look : s.openFiles.lookup (pid, fd) = some fu) : (s.files fu.file).fdCount = descriptors fu.file s ∧
      (s.files fu.file).ref = descriptors fu.file s ∧ (s.files fu.file).frees = 0 ∧ fd ≤ maxFds := by
  obtain ⟨fdCount, ref, frees, -⟩ := (books_of_reach reach fu.file).counted (descriptors_pos look)
  exact ⟨fdCount, ref, frees, within_of_reach reach (pid, fd) (by simp [look])⟩

/-- The socket after `dup` and a `fork`. -/
def inherited : System Nat := clone 0 1 (share 0 1 (.unixFd 0) opened)

theorem inherited_reach : (machine Nat).Reach inherited := by
  have free : allocateFd 0 opened = some 1 := by
    refine allocateFd_least (n := 1) (by decide) rfl fun m less => ?_
    obtain rfl : m = 0 := by omega
    exact Option.some_ne_none _
  have dup : (machine Nat).step opened (.dup 0 0) = some (share 0 1 (.unixFd 0) opened) := by
    have found : findOpen 0 0 opened = some ⟨.unixFd 0, 0, 0, 0, false⟩ := by decide
    show (respond opened (.dup 0 0)).map Prod.fst = _
    rw [respond, dceDup, found, free]
    rfl
  exact .next (.next opened_reach trivial dup) trivial (a := .fork 0 1) rfl

theorem counted_inherited : descriptors (.unixFd 0) inherited = 4 ∧
    (inherited.files (.unixFd 0)).fdCount = descriptors (.unixFd 0) inherited ∧
    (inherited.files (.unixFd 0)).ref = descriptors (.unixFd 0) inherited ∧
    (inherited.files (.unixFd 0)).frees = 0 ∧ (1 : Int) ≤ maxFds :=
  ⟨by decide, @counted_of_lookup _ _ inherited_reach 1 1 ⟨.unixFd 0, 0, 0, 0, false⟩ (by decide)⟩

end Dce.Descriptors
