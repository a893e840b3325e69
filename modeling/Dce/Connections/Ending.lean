import Dce.Connections.Calls

/- What the end of a process does to the links, by itself or by `DceManager::Stop`. -/

namespace Dce.Connections

open List Option

variable {T P : Type*} [DecidableEq T] [DecidableEq P] {n v m : Node T P} {s a c l : Nat} {t : T} {p : P}
  {x x' y : LocalStreamSocketFd T P} {openFiles : List Nat}

/-- The process has the descriptor of the socket. -/
def Of (n : Node T P) (p : P) (s : Nat) : Prop := ∃ x, n.sockets s = some x ∧ x.process = p

omit [DecidableEq T] [DecidableEq P] in
theorem Inv.owner {E : Nat → Nat → Prop} {f : Frame} (inv : Inv E n) (inside : (n.threads t).frame = some f)
    (here : n.sockets f.socket = some x) : x.process = (n.threads t).process := by
  obtain ⟨y, found, -, same⟩ := inv.waits.waits t f inside
  cases here.symm.trans found
  exact same

section

omit [DecidableEq T]

theorem killThreads_process : ((killThreads p n).threads t).process = (n.threads t).process := by
  unfold killThreads
  simp only
  split <;> rfl

theorem killThreads_frame :
    ((killThreads p n).threads t).frame = if (n.threads t).process = p then none else (n.threads t).frame := by
  unfold killThreads
  simp only
  split <;> rfl

theorem killThreads_some {f : Frame} : ((killThreads p n).threads t).frame = some f ↔
    (n.threads t).process ≠ p ∧ (n.threads t).frame = some f := by
  rw [killThreads_frame]
  by_cases same : (n.threads t).process = p
  · simp [same]
  · simp [same]

end

section

/-- The sockets of a process have no links to others, in queues or as peers. -/
structure Apart (n : Node T P) (p : P) : Prop where
  queues : ∀ c l, Entry n c l → (Of n p c ↔ Of n p l)
  peers : ∀ s x q, n.sockets s = some x → x.m_peer = some q → (Of n p s ↔ Of n p q)

omit [DecidableEq T]

theorem Stop_sockets : (Stop p n).sockets s = some x ↔ n.sockets s = some x ∧ x.process ≠ p := by
  simp [Stop]

theorem Inv.stop (inv : Inv Nowhere n) (apart : Apart n p) : Inv Nowhere (Stop p n) := by
  have mine : ∀ {s x}, n.sockets s = some x → (Of n p s ↔ x.process = p) := by
    intro s x here
    refine ⟨fun ⟨z, again, own⟩ => ?_, fun own => ⟨x, here, own⟩⟩
    cases here.symm.trans again
    exact own
  refine ⟨inv.defined, ⟨fun s x q here set => ?_, fun s x here connected => ?_⟩, fun l y here c mem => .inr ?_,
    ⟨fun t f inside => ?_, fun s x t here mem => ?_⟩, fun s x here => ?_⟩
  · obtain ⟨here, other⟩ := Stop_sockets.mp here
    obtain ⟨y, partner, connected, back⟩ := inv.pairs.peer s x q here set
    refine ⟨y, Stop_sockets.mpr ⟨partner, fun own => other ?_⟩, connected, back⟩
    exact (mine here).mp ((apart.peers s x q here set).mpr ((mine partner).mpr own))
  · exact inv.pairs.joined s x (Stop_sockets.mp here).1 connected
  · obtain ⟨here, other⟩ := Stop_sockets.mp here
    obtain ⟨⟨z, found, state⟩, u, inside⟩ := (inv.queued l y here c mem).resolve_left id
    have foreign : z.process ≠ p := fun own => other <|
      (mine here).mp ((apart.queues c l ⟨y, here, mem⟩).mp ((mine found).mpr own))
    have owner : z.process = (n.threads u).process := inv.owner inside found
    exact ⟨⟨z, Stop_sockets.mpr ⟨found, foreign⟩, state⟩, u, killThreads_some.mpr ⟨owner ▸ foreign, inside⟩⟩
  · obtain ⟨foreign, inside⟩ := killThreads_some.mp inside
    obtain ⟨x, found, mem, owner⟩ := inv.waits.waits t f inside
    exact ⟨x, Stop_sockets.mpr ⟨found, owner ▸ foreign⟩, mem, owner.trans killThreads_process.symm⟩
  · obtain ⟨here, other⟩ := Stop_sockets.mp here
    obtain ⟨f, inside, at_s⟩ := inv.waits.waiting s x t here mem
    have owner : x.process = (n.threads t).process := inv.owner inside (at_s ▸ here)
    exact ⟨f, killThreads_some.mpr ⟨owner ▸ other, inside⟩, at_s⟩
  · exact inv.sane s x (Stop_sockets.mp here).1

end

section

/-- The entries between two sockets of `X`. -/
def Both (X : Nat → Prop) (c l : Nat) : Prop := X c ∧ X l

variable {X : Nat → Prop}

/-- The node while the sockets of `X` are closed and freed one after the other, with those of `rest` to go. -/
structure Closes (X : Nat → Prop) (n : Node T P) (rest : List Nat) (m : Node T P) : Prop where
  inv : Inv (Both X) m
  inside : ∀ c l, Entry m c l → X c → X l
  left : ∀ s ∈ rest, Known m s ∧ ∃ x, m.sockets s = some x ∧ x.m_waitQueue = []
  gone : ∀ s, X s → s ∉ rest → m.sockets s = none
  kept : ∀ s, ¬ X s → m.sockets s = n.sockets s ∨
    ∃ y, n.sockets s = some y ∧ y.m_state = .CONNECTED ∧ m.sockets s = some (abandoned y)
  frame : ∀ t, (m.threads t).frame = (n.threads t).frame

section

omit [DecidableEq P]

theorem Closes.next {rest : List Nat} (closes : Closes X n (s :: rest) m) (mine : X s) (new : s ∉ rest) :
    Closes X n rest (free s (Close s m)) := by
  obtain ⟨known, x, here, nobody⟩ := closes.left s mem_cons_self
  obtain ⟨after, closed⟩ :=
    closes.inv.close here known fun l y there mem => ⟨mine, closes.inside s l ⟨y, there, mem⟩ mine⟩
  obtain ⟨x', now, state, queue, waiting, -⟩ := closed.after closes.inv here
  have elsewhere : ∀ a, a ≠ s → (free s (Close s m)).sockets a = m.sockets a ∨
      ∃ y, m.sockets a = some y ∧ y.m_state = .CONNECTED ∧ (free s (Close s m)).sockets a = some (abandoned y) := by
    intro a other
    have same : (free s (Close s m)).sockets a = (Close s m).sockets a := Function.update_of_ne other ..
    rw [same]
    exact closed.others a other
  have here' : (free s (Close s m)).sockets s = none := Function.update_self ..
  refine ⟨after.free fun z again => ?_, fun c l entry inX => ?_, fun a mem => ?_, fun a inX absent => ?_,
    fun a outside => ?_,
    fun t => (closed.frame t).trans (closes.frame t)⟩
  · cases now.symm.trans again
    exact ⟨.inl state, waiting.trans nobody⟩
  · obtain ⟨y, there, mem⟩ := entry
    have other : l ≠ s := by
      rintro rfl
      rw [here'] at there
      cases there
    rcases elsewhere l other with same | ⟨z, before, -, same⟩
    · exact closes.inside c l ⟨y, same ▸ there, mem⟩ inX
    · cases same.symm.trans there
      exact closes.inside c l ⟨z, before, mem⟩ inX
  · have other : a ≠ s := fun same => new (same ▸ mem)
    obtain ⟨known, z, there, nobody⟩ := closes.left a (mem_cons_of_mem _ mem)
    rcases elsewhere a other with same | ⟨w, before, -, same⟩
    · refine ⟨fun y found => known y (same ▸ found), z, same.trans there, nobody⟩
    · cases there.symm.trans before
      refine ⟨fun y found listener => ?_, abandoned z, same, nobody⟩
      cases same.symm.trans found
      rcases listener with wrong | wrong | wrong <;> cases wrong
  · by_cases same : a = s
    · exact same ▸ here'
    · have before : m.sockets a = none := closes.gone a inX fun mem => absent ((mem_cons.mp mem).resolve_left same)
      rcases elsewhere a same with still | ⟨y, there, -⟩
      · exact still.trans before
      · cases before.symm.trans there
  · have other : a ≠ s := fun same => outside (same ▸ mine)
    rcases elsewhere a other with still | ⟨y, there, connected, now⟩
    · rw [still]
      exact closes.kept a outside
    · rcases closes.kept a outside with before | ⟨w, -, -, before⟩
      · exact .inr ⟨y, before.symm.trans there, connected, now⟩
      · cases before.symm.trans there
        cases connected

theorem Closes.all {rest : List Nat} (closes : Closes X n rest m) (mine : ∀ s ∈ rest, X s) (nodup : rest.Nodup) :
    Closes X n [] (rest.foldl (fun n s => free s (Close s n)) m) := by
  induction rest generalizing m with
  | nil => exact closes
  | cons s rest ih =>
    obtain ⟨new, nodup⟩ := nodup_cons.mp nodup
    exact ih (closes.next (mine s mem_cons_self) new) (fun a mem => mine a (mem_cons_of_mem _ mem)) nodup

end

/-- The node without the threads of a process, before its descriptors are closed. -/
def cleaned (p : P) (n : Node T P) : Node T P :=
  { killThreads p n with sockets := fun s => (n.sockets s).map (cleanup p) }

omit [DecidableEq T] in
theorem cleaned_some : (cleaned p n).sockets s = some y ↔ ∃ x, n.sockets s = some x ∧ cleanup p x = y :=
  map_eq_some_iff

section

omit [DecidableEq T]

@[simp] theorem cleanup_state : (cleanup p x).m_state = x.m_state := by
  unfold cleanup
  split <;> rfl

@[simp] theorem cleanup_peer : (cleanup p x).m_peer = x.m_peer := by
  unfold cleanup
  split <;> rfl

@[simp] theorem cleanup_queue : (cleanup p x).m_cnxQueue = x.m_cnxQueue := by
  unfold cleanup
  split <;> rfl

@[simp] theorem cleanup_factory : (cleanup p x).m_factory = x.m_factory := by
  unfold cleanup
  split <;> rfl

@[simp] theorem cleanup_closing : (cleanup p x).m_closing = x.m_closing := by
  unfold cleanup
  split <;> rfl

end

section

omit [DecidableEq T]

theorem cleanup_mem (mem : t ∈ (cleanup p x).m_waitQueue) : x.process ≠ p ∧ t ∈ x.m_waitQueue := by
  unfold cleanup at mem
  split at mem
  · cases mem
  next other => exact ⟨other, mem⟩

theorem Paired.cleaned (pairs : Paired n.sockets) : Paired (cleaned p n).sockets := by
  refine ⟨fun s y q there set => ?_, fun s y there connected => ?_⟩
  · obtain ⟨x, here, rfl⟩ := cleaned_some.mp there
    rw [cleanup_peer] at set
    obtain ⟨z, partner, connected, back⟩ := pairs.peer s x q here set
    exact ⟨cleanup p z, cleaned_some.mpr ⟨z, partner, rfl⟩, cleanup_state.trans connected, cleanup_peer.trans back⟩
  · obtain ⟨x, here, rfl⟩ := cleaned_some.mp there
    rw [cleanup_state] at connected
    rw [cleanup_peer]
    exact pairs.joined s x here connected

theorem Inv.cleaned (inv : Inv Nowhere n) (queues : ∀ c l, Entry n c l → (Of n p c ↔ Of n p l)) :
    Inv (Both (Of n p)) (cleaned p n) := by
  refine ⟨inv.defined, inv.pairs.cleaned, fun l y there c mem => ?_,
    ⟨fun t f inside => ?_, fun s y t there mem => ?_⟩,
    fun s y there => ?_⟩
  · obtain ⟨x, here, rfl⟩ := cleaned_some.mp there
    rw [cleanup_queue] at mem
    obtain ⟨⟨z, found, state⟩, u, inside⟩ := (inv.queued l x here c mem).resolve_left id
    have owner : z.process = (n.threads u).process := inv.owner inside found
    by_cases mine : z.process = p
    · have own : Of n p c := ⟨z, found, mine⟩
      exact .inl ⟨own, (queues c l ⟨x, here, mem⟩).mp own⟩
    · refine .inr ⟨⟨cleanup p z, cleaned_some.mpr ⟨z, found, rfl⟩, cleanup_state.trans state⟩, u, ?_⟩
      exact killThreads_some.mpr ⟨owner ▸ mine, inside⟩
  · obtain ⟨foreign, inside⟩ := killThreads_some.mp inside
    obtain ⟨x, found, mem, owner⟩ := inv.waits.waits t f inside
    have same : cleanup p x = x := if_neg (owner ▸ foreign)
    exact ⟨x, cleaned_some.mpr ⟨x, found, same⟩, mem, owner.trans killThreads_process.symm⟩
  · obtain ⟨x, here, rfl⟩ := cleaned_some.mp there
    obtain ⟨other, mem⟩ := cleanup_mem mem
    obtain ⟨f, inside, at_s⟩ := inv.waits.waiting s x t here mem
    have owner : x.process = (n.threads t).process := inv.owner inside (at_s ▸ here)
    exact ⟨f, killThreads_some.mpr ⟨owner ▸ other, inside⟩, at_s⟩
  · obtain ⟨x, here, rfl⟩ := cleaned_some.mp there
    have sane := inv.sane s x here
    refine ⟨sane.fresh, ?_, ?_⟩
    · rw [cleanup_state, cleanup_queue]
      exact sane.closed
    · rw [cleanup_state, cleanup_queue, cleanup_closing]
      exact sane.closing

theorem Inv.mem_descriptors {E : Nat → Nat → Prop} (inv : Inv E n) : s ∈ descriptors n p ↔ Of n p s := by
  simp only [descriptors, mem_filter, mem_range, Option.any_eq_true, decide_eq_true_eq]
  exact ⟨And.right, fun ⟨x, here, own⟩ => ⟨(inv.sane s x here).fresh, x, here, own⟩⟩

end

/-- What a process needs to end well: the entries of its queues are its own, and its own sockets are in no other
queue. -/
structure Exits (n : Node T P) (p : P) : Prop where
  queues : ∀ c l, Entry n c l → (Of n p c ↔ Of n p l)
  known : ∀ s, Of n p s → Known n s

theorem Inv.exits (inv : Inv Nowhere n) (exits : Exits n p) (listed : openFiles.Perm (descriptors n p)) :
    Closes (Of n p) (Connections.cleaned p n) [] (exit p openFiles n) := by
  have mem : ∀ s, s ∈ openFiles ↔ Of n p s := fun s => listed.mem_iff.trans inv.mem_descriptors
  have nodup : openFiles.Nodup := listed.nodup_iff.mpr (nodup_range.filter _)
  have start : Closes (Of n p) (Connections.cleaned p n) openFiles (Connections.cleaned p n) := by
    refine ⟨inv.cleaned exits.queues, fun c l ⟨y, there, entry⟩ own => ?_, fun s listed => ?_,
      fun s own absent => absurd ((mem s).mpr own) absent, fun _ _ => .inl rfl, fun _ => rfl⟩
    · obtain ⟨x, here, rfl⟩ := cleaned_some.mp there
      rw [cleanup_queue] at entry
      exact (exits.queues c l ⟨x, here, entry⟩).mp own
    · have own := (mem s).mp listed
      obtain ⟨x, here, mine⟩ := (mem s).mp listed
      refine ⟨fun y there state => ?_, cleanup p x, cleaned_some.mpr ⟨x, here, rfl⟩, ?_⟩
      · obtain ⟨z, again, rfl⟩ := cleaned_some.mp there
        rw [cleanup_state] at state
        rw [cleanup_factory]
        exact exits.known s own z again state
      · rw [cleanup, if_pos mine]
  exact start.all (fun s listed => (mem s).mp listed) nodup

omit [DecidableEq T] [DecidableEq P] in
theorem Closes.done (closes : Closes X n [] m) : Inv Nowhere m := by
  refine closes.inv.weaken fun l x here c mem both => ?_
  have gone := closes.gone l both.2 not_mem_nil
  rw [here] at gone
  cases gone

end

end Dce.Connections
