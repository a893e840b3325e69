import Dce.Connections.Ending
import Dce.Connections.Meeting

/- The runs in which the links between the sockets stay right. -/

namespace Dce.Connections

open Function Option

variable {T P : Type*} [DecidableEq T] [DecidableEq P] {n v : Node T P} {s a c l : Nat} {t : T} {p : P}
  {x x' y : LocalStreamSocketFd T P} {openFiles : List Nat}

/-- Who is in the queue of a listener connects to it, and a peer has the socket as its own. -/
structure Linked (n : Node T P) : Prop where
  defined : n.undefined = false
  queued : ∀ l x c, n.sockets l = some x → c ∈ x.m_cnxQueue →
    ∃ y t, n.sockets c = some y ∧ y.m_state = .CONNECTING ∧ (n.threads t).frame = some (.connect c l)
  paired : ∀ s x q, n.sockets s = some x → x.m_peer = some q →
    ∃ y, n.sockets q = some y ∧ y.m_state = .CONNECTED ∧ y.m_peer = some s

/-- Who waits in the queue of a listener that is closed has been woken, and its `connect` will fail. -/
def NoneLeft (n v : Node T P) : Prop := ∀ c l t, Entry n c l → (n.threads t).frame = some (.connect c l) →
  (∀ y, v.sockets l = some y → y.m_state = .CLOSED) → (v.threads t).frame = some (.connect c l) →
    (v.threads t).woken = true ∧ ∀ x, v.sockets c = some x → x.m_state ≠ .CONNECTED ∧ x.m_state ≠ .REMOTECLOSED

/-- An accept gives up at once, or finds what it needs. -/
def Accepts (n : Node T P) (l : Nat) (noFd : Bool) (x : LocalStreamSocketFd T P) : Prop :=
  x.m_cnxQueue = [] ∧ x.nonblock = true ∨ Acceptable n l noFd x

/-- What a step may not do: leave behind an entry of a queue or a peer that a socket still has, take a new state for
a socket on which others count, or lose a queue. -/
def Careful (n : Node T P) : Label T P → Prop
  | .connect t c path => ∀ x, opened n t c = some x → Connectable n x path
  | .accept t l noFd => ∀ x, opened n t l = some x → x.m_state = .LISTENING → Accepts n l noFd x
  | .back t res noFd =>
    match (n.threads t).frame with
    | none => True
    | some (.connect c l) =>
      ∀ x, n.sockets c = some x → x.m_state = .CONNECTED ∨ x.m_state = .REMOTECLOSED ∨ ∃ y, n.sockets l = some y
    | some (.accept l) => res = .OK → ∀ x, n.sockets l = some x → Accepts n l noFd x
  | .close _ s => Known n s ∧ Unqueued n s ∧ ∀ x, n.sockets s = some x → x.m_cnxQueue = []
  | .exit p _ => Exits n p
  | .stop p => Apart n p
  | _ => True

section

variable (inv : Inv Nowhere n)
include inv

section

omit [DecidableEq T] [DecidableEq P]

theorem Inv.linked : Linked n := by
  refine ⟨inv.defined, fun l x c here mem => ?_, inv.pairs.peer⟩
  obtain ⟨⟨y, found, state⟩, t, inside⟩ := (inv.queued l x here c mem).resolve_left id
  exact ⟨y, t, found, state, inside⟩

theorem Inv.lasting (entry : Entry n c l) : ∃ y, n.sockets l = some y ∧ Lasting y := by
  obtain ⟨y, here, mem⟩ := entry
  have sane := inv.sane l y here
  refine ⟨y, here, fun closed => ?_, ?_⟩
  · rw [sane.closed closed] at mem
    cases mem
  · refine Bool.eq_false_iff.mpr fun closing => ?_
    rw [(sane.closing closing).1] at mem
    cases mem

theorem NoneLeft.of_lasts (lasts : ∀ c l, Entry n c l → Lasts n v l) : NoneLeft n v := by
  intro c l t entry _ closed _
  obtain ⟨y, here, lasting⟩ := inv.lasting entry
  obtain ⟨y', there, still⟩ := lasts c l entry y here lasting
  exact absurd (closed y' there) still.state

end

omit inv in
omit [DecidableEq T] [DecidableEq P] in
theorem Keeps.noneLeft (keeps : Keeps Nowhere n v) (inv : Inv Nowhere n) : Inv Nowhere v ∧ NoneLeft n v :=
  ⟨keeps.inv, .of_lasts inv fun _ l _ => keeps.lasts l⟩

omit inv in
omit [DecidableEq T] [DecidableEq P] in
theorem DecUsage_lasts : Lasts n (DecUsage s n) l := by
  intro y here lasting
  unfold DecUsage
  split
  next x there =>
    split
    next last =>
      have other : l ≠ s := by
        rintro rfl
        cases here.symm.trans there
        cases lasting.closing.symm.trans last.1
      exact ⟨y, (update_of_ne other ..).trans here, lasting⟩
    · exact ⟨y, here, lasting⟩
  · exact ⟨y, here, lasting⟩

omit [DecidableEq P] in
theorem Inv.close_noneLeft (here : n.sockets s = some x)
    (careful : Known n s ∧ Unqueued n s ∧ ∀ x, n.sockets s = some x → x.m_cnxQueue = []) :
    Inv Nowhere (Connections.dce_close t s n) ∧ NoneLeft n (Connections.dce_close t s n) := by
  obtain ⟨known, out, nobody⟩ := careful
  have covered : ∀ l y, n.sockets l = some y → s ∈ y.m_cnxQueue → Nowhere s l := fun l y there mem =>
    absurd ⟨y, there, mem⟩ (out l)
  refine ⟨inv.dce_close here known covered, .of_lasts inv fun c l entry => ?_⟩
  have other : l ≠ s := by
    rintro rfl
    obtain ⟨y, there, mem⟩ := entry
    rw [nobody y there] at mem
    cases mem
  have same : (Connections.dce_close t s n).sockets l = (Close s n).sockets l := by
    unfold Connections.dce_close
    simp only
    split
    · split
      · exact update_of_ne other ..
      · exact update_of_ne other ..
    · rfl
  obtain ⟨-, closed⟩ := inv.close here known covered
  intro y there lasting
  rcases closed.others l other with still | ⟨y', before, -, now⟩
  · exact ⟨y, same.trans (still.trans there), lasting⟩
  · cases there.symm.trans before
    exact ⟨abandoned y, same.trans now, nofun, lasting.closing⟩

omit [DecidableEq T] in
/-- A connector whose thread goes on waiting is not of the process that ends, and so its listener is not. -/
theorem Inv.foreign (queues : ∀ c l, Entry n c l → (Of n p c ↔ Of n p l)) (entry : Entry n c l)
    (inside : (n.threads t).frame = some (.connect c l))
    (still : ((killThreads p n).threads t).frame = some (.connect c l)) :
    ¬ Of n p l := by
  intro mine
  obtain ⟨x, here, own⟩ := (queues c l entry).mpr mine
  exact (killThreads_some.mp still).1 ((inv.owner inside here).symm.trans own)

theorem Inv.exit_noneLeft (exits : Exits n p) (listed : openFiles.Perm (descriptors n p)) :
    Inv Nowhere (exit p openFiles n) ∧ NoneLeft n (exit p openFiles n) := by
  have closes := inv.exits exits listed
  refine ⟨closes.done, fun c l t entry inside closed still => ?_⟩
  rw [closes.frame] at still
  have foreign := inv.foreign exits.queues entry inside still
  obtain ⟨y, here, lasting⟩ := inv.lasting entry
  have cleaned : (Connections.cleaned p n).sockets l = some (cleanup p y) := cleaned_some.mpr ⟨y, here, rfl⟩
  rcases closes.kept l foreign with same | ⟨y', -, -, same⟩
  · exact absurd (cleanup_state.symm.trans (closed _ (same.trans cleaned))) lasting.state
  · cases closed _ same

omit [DecidableEq T] in
theorem Inv.stop_noneLeft (apart : Apart n p) : Inv Nowhere (Stop p n) ∧ NoneLeft n (Stop p n) := by
  refine ⟨inv.stop apart, fun c l t entry inside closed still => ?_⟩
  have foreign := inv.foreign apart.queues entry inside still
  obtain ⟨y, here, lasting⟩ := inv.lasting entry
  exact absurd (closed y (Stop_sockets.mpr ⟨here, fun own => foreign ⟨y, here, own⟩⟩)) lasting.state

end

section

omit [DecidableEq P]

theorem awake_sockets (here : n.sockets s = some x) : (awake t s n).sockets =
    update n.sockets s (some { x with m_waitQueue := x.m_waitQueue.filter (· ≠ t) }) := by
  rw [awake, access_some _ here]
  rfl

theorem awake_entry (here : n.sockets s = some x) : Entry (awake t s n) c l ↔ Entry n c l := by
  unfold Entry
  rw [awake_sockets here]
  by_cases same : l = s
  · subst same
    rw [here]
    simp
  · rw [update_of_ne same]

theorem Accepts.awake {noFd : Bool} (accepts : Accepts n l noFd x) (here : n.sockets l = some x) :
    Accepts (awake t l n) l noFd { x with m_waitQueue := x.m_waitQueue.filter (· ≠ t) } := by
  refine accepts.imp_right fun fine => ⟨fine.apart, fun l' entry => fine.out l' ((awake_entry here).mp entry),
    fun c rest queue => ?_, fun none c y first there => ?_⟩
  · obtain ⟨once, only⟩ := fine.once c rest queue
    exact ⟨once, fun l' entry => only l' ((awake_entry here).mp entry)⟩
  · rw [awake_sockets here] at there
    rcases update_some there with ⟨rfl, same⟩ | ⟨-, there⟩
    · cases same
      exact fine.nobody none c x first here
    · exact fine.nobody none c y first there

omit [DecidableEq T] in
theorem Accepts.kept {noFd : Bool} (accepts : Accepts n l noFd x) (entry : Entry n c a) :
    noFd = true → x.m_cnxQueue.head? ≠ some a := by
  intro none head
  obtain ⟨z, listed, mem⟩ := entry
  rcases accepts with ⟨empty, -⟩ | fine
  · rw [empty] at head
    cases head
  · rw [fine.nobody none a z head listed] at mem
    cases mem

theorem awake_free : ((awake t s n).threads t).frame = none := by
  simp [awake, setThread]

theorem awake_process : ((awake t s n).threads t).process = (n.threads t).process := by
  rw [awake]
  simp [setThread]

variable (inv : Inv Nowhere n)
include inv

theorem Inv.back_connect (inside : (n.threads t).frame = some (.connect c l))
    (live : ∀ x, n.sockets c = some x → x.m_state = .CONNECTED ∨ x.m_state = .REMOTECLOSED ∨
      ∃ y, n.sockets l = some y)
    (there : (Connections.awake t c n).sockets c = some y) :
    Inv Nowhere (DecUsage c (Connections.connectOn t c l y (Connections.awake t c n))) ∧
      NoneLeft n (DecUsage c (Connections.connectOn t c l y (Connections.awake t c n))) := by
  obtain ⟨x, here, -⟩ := inv.waits.waits t _ inside
  have here : n.sockets c = some x := here
  have first : Keeps _ n (Connections.awake t c n) := inv.awake (f := .connect c l) here inside
  have only : Inv (fun a b => a = c ∧ b = l) (Connections.awake t c n) := by
    refine first.inv.weaken fun b z _ a _ same => .inl ?_
    cases same
    exact ⟨rfl, rfl⟩
  have same := awake_sockets (t := t) here
  obtain rfl : { x with m_waitQueue := x.m_waitQueue.filter (· ≠ t) } = y := by
    rw [same, update_self] at there
    exact some.inj there
  have settled : x.m_state ≠ .CONNECTING → ¬ Entry (Connections.awake t c n) c l := by
    intro other entry
    obtain ⟨w, listed, mem⟩ := (awake_entry here).mp entry
    obtain ⟨⟨z, again, state⟩, -⟩ := (inv.queued l w listed c mem).resolve_left id
    cases here.symm.trans again
    exact other state
  have listener : x.m_state = .CONNECTED ∨ x.m_state = .REMOTECLOSED ∨
      ∃ y, (Connections.awake t c n).sockets l = some y := by
    refine (live x here).imp_right (Or.imp_right ?_)
    rintro ⟨w, at_l⟩
    rw [same]
    by_cases equal : l = c
    · subst equal
      exact ⟨_, update_self ..⟩
    · exact ⟨w, (update_of_ne equal ..).trans at_l⟩
  have second := first.trans (only.connectOn (t := t) settled listener)
  exact ⟨second.inv.decUsage, .of_lasts inv fun _ b _ => (second.lasts b).trans DecUsage_lasts⟩

theorem Inv.back_accept {res : WaitResult} {noFd : Bool} (inside : (n.threads t).frame = some (.accept l))
    (accepts : res = .OK → ∀ x, n.sockets l = some x → Accepts n l noFd x)
    (there : (Connections.awake t l n).sockets l = some y) :
    Inv Nowhere (DecUsage l (acceptOn t l res noFd y (Connections.awake t l n))) ∧
      NoneLeft n (DecUsage l (acceptOn t l res noFd y (Connections.awake t l n))) := by
  obtain ⟨x, here, -, owner⟩ := inv.waits.waits t _ inside
  have here : n.sockets l = some x := here
  have first : Keeps _ n (Connections.awake t l n) := inv.awake (f := .accept l) here inside
  have after : Inv Nowhere (Connections.awake t l n) := first.inv.weaken fun _ _ _ _ _ same => nomatch same
  obtain rfl : { x with m_waitQueue := x.m_waitQueue.filter (· ≠ t) } = y := by
    rw [awake_sockets here, update_self] at there
    exact some.inj there
  let y := { x with m_waitQueue := x.m_waitQueue.filter (· ≠ t) }
  obtain ⟨last, lasts⟩ : Inv Nowhere (acceptOn t l res noFd y (Connections.awake t l n)) ∧
      ∀ c l', Entry n c l' → Lasts n (acceptOn t l res noFd y (Connections.awake t l n)) l' := by
    cases res with
    | OK =>
      have fine := accepts rfl x here
      obtain ⟨last, lasts⟩ :=
        after.acceptLoop there (owner.trans awake_process.symm) awake_free (fine.awake here)
      exact ⟨last, fun c l' entry => (first.lasts l').trans (lasts l' (fine.kept entry))⟩
    | INTERRUPTED =>
      have keeps : Keeps Nowhere (Connections.awake t l n) (fails t .EINTR (Connections.awake t l n)) :=
        after.keeps alike_fails
      exact ⟨keeps.inv, fun _ l' _ => (first.lasts l').trans (keeps.lasts l')⟩
    | TIMEOUT =>
      have keeps : Keeps Nowhere (Connections.awake t l n) (fails t .EAGAIN (Connections.awake t l n)) :=
        after.keeps alike_fails
      exact ⟨keeps.inv, fun _ l' _ => (first.lasts l').trans (keeps.lasts l')⟩
  exact ⟨last.decUsage, .of_lasts inv fun c b entry => (lasts c b entry).trans DecUsage_lasts⟩

theorem Inv.accept {noFd : Bool} (here : n.sockets l = some x) (own : x.process = (n.threads t).process)
    (free : (n.threads t).frame = none) (accepts : x.m_state = .LISTENING → Accepts n l noFd x) :
    Inv Nowhere (Accept t l noFd x n) ∧ NoneLeft n (Accept t l noFd x n) := by
  unfold Accept
  split
  · exact (inv.keeps alike_fails).noneLeft inv
  next listening =>
    have fine := accepts (not_not.mp listening)
    obtain ⟨after, lasts⟩ := inv.acceptLoop here own free fine
    exact ⟨after, .of_lasts inv fun c l' entry => lasts l' (fine.kept entry)⟩

end

theorem Inv.start (first : (machine T P).init n) : Inv Nowhere n := by
  obtain ⟨sockets, frames, -, defined⟩ := first
  have nothing : ∀ {s x}, n.sockets s = some x → False := fun here => nomatch (sockets _).symm.trans here
  refine ⟨defined, ⟨fun s x q here => (nothing here).elim, fun s x here => (nothing here).elim⟩,
    fun l x here => (nothing here).elim, ⟨fun t f inside => ?_, fun s x t here => (nothing here).elim⟩,
    fun s x here => (nothing here).elim⟩
  cases (frames t).symm.trans inside

/-- A careful step keeps the links right, and leaves nobody in the queue of a listener that it closes. -/
theorem Inv.step {b : Label T P} (inv : Inv Nowhere n) (careful : Careful n b) (run : step n b = some v) :
    Inv Nowhere v ∧ NoneLeft n v := by
  unfold Connections.step at run
  rw [inv.defined, if_neg nofun] at run
  cases b with
  | socket t =>
    obtain ⟨-, run⟩ := ite_none_right_eq_some.mp run
    cases run
    exact inv.dce_socket.noneLeft inv
  | bind t s path ok =>
    obtain ⟨x, call, rfl⟩ := map_eq_some_iff.mp run
    obtain ⟨⟨here, -, -⟩, open_⟩ := opened_some.mp call
    exact (inv.bind here open_ ok).noneLeft inv
  | listen t s =>
    obtain ⟨x, call, rfl⟩ := map_eq_some_iff.mp run
    obtain ⟨⟨here, -, -⟩, open_⟩ := opened_some.mp call
    exact (inv.listen here open_).noneLeft inv
  | connect t c path =>
    obtain ⟨x, call, rfl⟩ := map_eq_some_iff.mp run
    obtain ⟨⟨here, own, free⟩, open_⟩ := opened_some.mp call
    exact (inv.connect here own free.2 open_ (careful x call)).noneLeft inv
  | accept t l noFd =>
    obtain ⟨x, call, rfl⟩ := map_eq_some_iff.mp run
    obtain ⟨⟨here, own, free⟩, -⟩ := opened_some.mp call
    exact inv.accept here own free.2 (careful x call)
  | shutdown t s how =>
    obtain ⟨x, call, rfl⟩ := map_eq_some_iff.mp run
    obtain ⟨⟨here, -, -⟩, -⟩ := opened_some.mp call
    exact (inv.shutdown here how).noneLeft inv
  | setfl t s nonblock =>
    obtain ⟨x, call, rfl⟩ := map_eq_some_iff.mp run
    obtain ⟨⟨here, -, -⟩, -⟩ := opened_some.mp call
    exact (inv.setfl here nonblock).noneLeft inv
  | close t s =>
    obtain ⟨x, call, rfl⟩ := map_eq_some_iff.mp run
    obtain ⟨here, -, -⟩ := found_some.mp call
    exact inv.close_noneLeft here careful
  | back t res noFd =>
    simp only [Careful] at careful
    simp only at run
    split at run
    · cases run
    next c l inside =>
      rw [inside] at careful
      obtain ⟨y, there, rfl⟩ := map_eq_some_iff.mp run
      exact inv.back_connect inside careful there
    next l inside =>
      rw [inside] at careful
      obtain ⟨y, there, rfl⟩ := map_eq_some_iff.mp run
      exact inv.back_accept inside careful there
  | unlink path =>
    cases run
    exact (inv.keeps alike_setBinder).noneLeft inv
  | exit p openFiles =>
    obtain ⟨listed, run⟩ := ite_none_right_eq_some.mp run
    cases run
    exact inv.exit_noneLeft careful listed
  | stop p =>
    cases run
    exact inv.stop_noneLeft careful

theorem inv_of_reach (reach : (machine T P).ReachBy Careful n) : Inv Nowhere n :=
  reach.invariant (fun _ first => .start first) fun _ _ _ inv careful run => (inv.step careful run).1

/-- In the runs along `C` the links are right, and no step leaves a connector in the queue of a listener that is
closed. -/
def KeepsLinked (T P : Type*) [DecidableEq T] [DecidableEq P] (C : Node T P → Label T P → Prop) : Prop :=
  ∀ n, (machine T P).ReachBy C n → Linked n ∧ ∀ b v, C n b → step n b = some v → NoneLeft n v

theorem keepsLinked_of_careful (T P : Type*) [DecidableEq T] [DecidableEq P] : KeepsLinked T P Careful := by
  intro n reach
  have inv := inv_of_reach reach
  exact ⟨inv.linked, fun b v careful run => (inv.step careful run).2⟩

/-- A node whose threads have done nothing yet, all of one process. -/
def start : Node Bool Unit :=
  ⟨fun _ => none, fun _ => ⟨(), true, none, false, none, none⟩, fun _ => none, 0, false⟩

theorem start_init : (machine Bool Unit).init start := ⟨fun _ => rfl, fun _ => rfl, fun _ => rfl, rfl⟩

/-- Socket 1 waits in the queue of socket 0. -/
def connecting : List (Label Bool Unit) :=
  [.socket false, .bind false 0 ['p'] true, .listen false 0, .socket true, .connect true 1 ['p']]

def waiting : Node Bool Unit := ((machine Bool Unit).replay start connecting).getD start

theorem waiting_run : (machine Bool Unit).replay start connecting = some waiting := rfl

theorem waiting_careful : (machine Bool Unit).ReachBy Careful waiting := by
  have made : (machine Bool Unit).ReachBy Careful _ := .next (a := .socket false) (.start start_init) trivial rfl
  have bound : (machine Bool Unit).ReachBy Careful _ := .next (a := .bind false 0 ['p'] true) made trivial rfl
  have listens : (machine Bool Unit).ReachBy Careful _ := .next (a := .listen false 0) bound trivial rfl
  have other : (machine Bool Unit).ReachBy Careful _ := .next (a := .socket true) listens trivial rfl
  refine .next (a := .connect true 1 ['p']) other (fun x call l _ found => ?_) rfl
  cases call
  cases found
  exact ⟨_, rfl, fun _ => ⟨rfl, nofun⟩⟩

/-- The listener accepts, and both are linked as they should be. -/
theorem linked_accepted : ∃ n, (machine Bool Unit).step waiting (.accept false 0 false) = some n ∧
    Linked n ∧ (n.sockets 1).bind (·.m_peer) = some 2 := by
  refine ⟨_, rfl, ?_, rfl⟩
  refine (keepsLinked_of_careful Bool Unit _ (.next (a := .accept false 0 false) waiting_careful ?_ rfl)).1
  intro x call _
  cases call
  refine .inr ⟨nofun, ?_, ?_, nofun⟩
  · rintro (_ | _ | l) ⟨y, there, member⟩
    · cases there
      simp at member
    · cases there
      cases member
    · cases there
  · rintro c rest queue
    cases queue
    refine ⟨nofun, ?_⟩
    rintro (_ | _ | l) ⟨y, there, member⟩
    · rfl
    · cases there
      cases member
    · cases there

/-- The listener is closed. -/
theorem not_keepsLinked : ¬ KeepsLinked Bool Unit fun _ _ => True := by
  intro keeps
  have reach : (machine Bool Unit).Reach waiting :=
    (Machine.ReachBy.start start_init).replay (fun _ _ => trivial) waiting_run
  obtain ⟨v, run⟩ : ∃ v, step waiting (.close false 0) = some v := ⟨_, rfl⟩
  have left : NoneLeft waiting v := (keeps waiting reach).2 _ v trivial run
  cases run
  exact absurd (left 1 0 true ⟨_, rfl, by decide⟩ rfl (fun y there => nomatch there) rfl).1 (by decide)

end Dce.Connections
