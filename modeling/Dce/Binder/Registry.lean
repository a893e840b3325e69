import Dce.Binder.Model

/- The table of the factory says who answers at a path, as long as no socket speaks for another. -/

namespace Dce.Binder

open Function Option

/-- Who was bound to each path last, since when it has not been unlinked; and who was closed. -/
structure Ledger where
  bound : Path → Option Nat
  closed : Nat → Bool

def Ledger.empty : Ledger := ⟨fun _ => none, fun _ => false⟩

def Ledger.note (f : Factory) (label : Label) (k : Ledger) : Ledger :=
  match label with
  | .bind a path ok =>
    if ok ∧ ((f.sockets a).map SocketFd.m_state) = some .CREATED then
      { k with bound := update k.bound path (some a) }
    else k
  | .close a => { k with closed := update k.closed a true }
  | .release a => { k with closed := update k.closed a true }
  | .unlink path ok => if ok then { k with bound := update k.bound path none } else k
  | _ => k

/-- What should hold of the table. -/
def Faithful (f : Factory) (k : Ledger) : Prop :=
  ∀ path s, f.m_bindByPath path = some s ↔ k.bound path = some s ∧ k.closed s = false

/-- The end of `a` takes the entry of its path away, or leaves the table as it is. -/
def Ends (a : Nat) (f : Factory) (takes : SocketFd → Bool) : Prop :=
  ∀ s, f.sockets a = some s → if takes s then ∀ path b, s.m_bindPath = some path →
  f.m_bindByPath path = some b → b = a
    else ∀ path, f.m_bindByPath path ≠ some a

/-- A socket listens only while the path is still its own; and when one ends, no other has been bound to
its path since, and the stream sockets that are registered have not tried to connect. -/
def Careful (f : Factory) : Label → Prop
  | .listen a => ∀ s path, f.sockets a = some s → s.m_state = .BINDED → s.m_bindPath = some path →
      f.m_bindByPath path = some a
  | .close a => Ends a f fun s => s.kind = .datagram ∨ s.answers
  | .release a => Ends a f fun s => s.kind = .datagram
  | _ => True

/-- What the sockets themselves know of their paths. -/
structure Recorded (f : Factory) (k : Ledger) : Prop where
  faithful : Faithful f k
  bound : ∀ path a, k.bound path = some a → k.closed a = false →
    ∃ s, f.sockets a = some s ∧ s.m_bindPath = some path ∧ s.m_state ≠ .CREATED
  closed : ∀ a, k.closed a = true → ∃ s, f.sockets a = some s ∧ s.m_bindPath = none ∧ s.m_state ≠ .CREATED ∧
    s.m_state ≠ .BINDED
  clear : ∀ a s, f.sockets a = some s → s.m_state = .CLOSED → s.m_bindPath = none

section

variable {f : Factory} {k : Ledger} {a : Nat} {s : SocketFd} {path : Path}

theorem put_sockets {b : Nat} : (f.put a s).sockets b = if b = a then some s else f.sockets b := update_apply ..

variable {s' : SocketFd} {f' : Factory} (recorded : Recorded f k)
include recorded

section

variable (known : f.sockets a = some s)
include known

theorem Recorded.put (same : s'.m_bindPath = s.m_bindPath) (created : s'.m_state ≠ .CREATED)
    (binded : s'.m_state ≠ .BINDED)
    (live : s'.m_state ≠ .CLOSED) : Recorded (f.put a s') k where
  faithful := recorded.faithful
  bound path b hb hopen := by
    obtain ⟨x, hx, hpath, hstate⟩ := recorded.bound path b hb hopen
    rw [put_sockets]
    split
    next heq =>
      cases known.symm.trans (heq ▸ hx)
      exact ⟨s', rfl, same.trans hpath, created⟩
    · exact ⟨x, hx, hpath, hstate⟩
  closed b hb := by
    obtain ⟨x, hx, hpath, hcreated, hbinded⟩ := recorded.closed b hb
    rw [put_sockets]
    split
    next heq =>
      cases known.symm.trans (heq ▸ hx)
      exact ⟨s', rfl, same.trans hpath, created, binded⟩
    · exact ⟨x, hx, hpath, hcreated, hbinded⟩
  clear b x hx hstate := by
    rw [put_sockets] at hx
    split at hx
    · exact absurd hstate (some.inj hx ▸ live)
    · exact recorded.clear b x hx hstate

omit known in
theorem Recorded.fresh (unknown : f.sockets a = none) (live : s.m_state ≠ .CLOSED) : Recorded (f.put a s) k where
  faithful := recorded.faithful
  bound path b hb hopen := by
    obtain ⟨x, hx, rest⟩ := recorded.bound path b hb hopen
    refine ⟨x, ?_, rest⟩
    rw [put_sockets, if_neg]
    · exact hx
    · rintro rfl
      cases unknown.symm.trans hx
  closed b hb := by
    obtain ⟨x, hx, rest⟩ := recorded.closed b hb
    refine ⟨x, ?_, rest⟩
    rw [put_sockets, if_neg]
    · exact hx
    · rintro rfl
      cases unknown.symm.trans hx
  clear b x hx hstate := by
    rw [put_sockets] at hx
    split at hx
    · exact absurd hstate (some.inj hx ▸ live)
    · exact recorded.clear b x hx hstate

theorem Recorded.open_of_created (created : s.m_state = .CREATED) : k.closed a = false := by
  cases hclosed : k.closed a with
  | false => rfl
  | true =>
    obtain ⟨x, hx, -, hstate, -⟩ := recorded.closed a hclosed
    cases known.symm.trans hx
    exact absurd created hstate

theorem Recorded.bind (created : s.m_state = .CREATED) :
    Recorded (RegisterBinder path a (f.put a { s with m_state := .BINDED, m_bindPath := some path }))
      { k with bound := update k.bound path (some a) } := by
  have hopen := recorded.open_of_created known created
  have unbound : ∀ path', k.bound path' ≠ some a := by
    intro path' hb
    obtain ⟨x, hx, -, hstate⟩ := recorded.bound path' a hb hopen
    cases known.symm.trans hx
    exact hstate created
  exact {
    faithful := fun path' b => by
      dsimp only [RegisterBinder]
      rcases eq_or_ne path' path with rfl | ne
      · rw [update_self, update_self]
        refine ⟨fun h => ⟨h, ?_⟩, fun h => h.1⟩
        exact some.inj h ▸ hopen
      · rw [update_of_ne ne, update_of_ne ne]
        exact recorded.faithful path' b
    bound := fun path' b hb hb' => by
      dsimp only [RegisterBinder]
      rw [put_sockets]
      rcases eq_or_ne path' path with rfl | ne
      · dsimp only at hb
        rw [update_self] at hb
        rw [if_pos (some.inj hb).symm]
        exact ⟨_, rfl, rfl, by simp⟩
      · dsimp only at hb
        rw [update_of_ne ne] at hb
        rw [if_neg]
        · exact recorded.bound path' b hb hb'
        · rintro rfl
          exact unbound path' hb
    closed := fun b hb => by
      obtain ⟨x, hx, rest⟩ := recorded.closed b hb
      dsimp only [RegisterBinder]
      rw [put_sockets, if_neg]
      · exact ⟨x, hx, rest⟩
      · rintro rfl
        cases hopen.symm.trans hb
    clear := fun b x hx hstate => by
      dsimp only [RegisterBinder] at hx
      rw [put_sockets] at hx
      split at hx
      · cases hx
        cases hstate
      · exact recorded.clear b x hx hstate }

omit known in
theorem Recorded.unlink : Recorded (UnRegisterBinder path f) { k with bound := update k.bound path none } where
  faithful path' b := by
    dsimp only [UnRegisterBinder]
    rcases eq_or_ne path' path with rfl | ne
    · simp
    · rw [update_of_ne ne, update_of_ne ne]
      exact recorded.faithful path' b
  bound path' b hb hopen := by
    rcases eq_or_ne path' path with rfl | ne
    · dsimp only at hb
      rw [update_self] at hb
      cases hb
    · dsimp only at hb
      rw [update_of_ne ne] at hb
      exact recorded.bound path' b hb hopen
  closed b hb := recorded.closed b hb
  clear b x hx hstate := recorded.clear b x hx hstate

theorem Recorded.ends (sockets : f'.sockets = (f.put a s').sockets) (path : s'.m_bindPath = none)
    (state : s'.m_state = .CLOSED)
    (table : ∀ p b, f'.m_bindByPath p = some b ↔ f.m_bindByPath p = some b ∧ b ≠ a) :
    Recorded f' { k with closed := update k.closed a true } where
  faithful p b := by
    rw [table, recorded.faithful]
    dsimp only
    rcases eq_or_ne b a with rfl | ne
    · simp
    · rw [update_of_ne ne]
      exact ⟨fun h => h.1, fun h => ⟨h, ne⟩⟩
  bound p b hb hopen := by
    dsimp only at hb hopen
    have ne : b ≠ a := by
      rintro rfl
      rw [update_self] at hopen
      cases hopen
    rw [update_of_ne ne] at hopen
    rw [sockets, put_sockets, if_neg ne]
    exact recorded.bound p b hb hopen
  closed b hb := by
    dsimp only at hb
    rw [sockets, put_sockets]
    split
    · exact ⟨s', rfl, path, by simp [state], by simp [state]⟩
    next ne =>
      rw [update_of_ne ne] at hb
      exact recorded.closed b hb
  clear b x hx hstate := by
    rw [sockets, put_sockets] at hx
    split at hx
    · exact some.inj hx ▸ path
    · exact recorded.clear b x hx hstate

theorem Recorded.ends_silently
    (absent : ∀ path, f.m_bindByPath path ≠ some a) (path : s'.m_bindPath = none) (state : s'.m_state = .CLOSED) :
    Recorded (f.put a s') { k with closed := update k.closed a true } := by
  refine recorded.ends known rfl path state fun p b => ⟨fun h => ⟨h, ?_⟩, fun h => h.1⟩
  rintro rfl
  exact absent p h

theorem Recorded.ends_unregistered (own : ∀ path b, s.m_bindPath = some path → f.m_bindByPath path = some b → b = a)
    (sockets : f'.sockets = (f.put a s').sockets)
    (table : f'.m_bindByPath = (unregister s.m_bindPath f).m_bindByPath)
    (path : s'.m_bindPath = none) (state : s'.m_state = .CLOSED) :
    Recorded f' { k with closed := update k.closed a true } := by
  have registered : ∀ p, f.m_bindByPath p = some a → s.m_bindPath = some p := by
    intro p hp
    obtain ⟨hb, hopen⟩ := (recorded.faithful p a).mp hp
    obtain ⟨x, hx, hpath, -⟩ := recorded.bound p a hb hopen
    cases known.symm.trans hx
    exact hpath
  refine recorded.ends known sockets path state fun p b => ?_
  rw [table]
  cases hpath : s.m_bindPath with
  | none =>
    refine ⟨fun h => ⟨h, ?_⟩, fun h => h.1⟩
    rintro rfl
    cases hpath.symm.trans (registered p h)
  | some q =>
    dsimp only [unregister, UnRegisterBinder]
    rcases eq_or_ne p q with rfl | ne
    · rw [update_self]
      refine ⟨nofun, fun h => absurd (own p b hpath h.1) h.2⟩
    · rw [update_of_ne ne]
      refine ⟨fun h => ⟨h, ?_⟩, fun h => h.1⟩
      rintro rfl
      exact ne (some.inj ((registered p h).symm.trans hpath))

omit recorded known in
theorem ClearAll_stream (stream : s.kind = .stream) :
    ClearAll a s f = f.put a { s with m_state := .CLOSED, m_bindPath := none, m_factory := false } := by
  rw [ClearAll]
  split
  case h_1 => rfl
  case h_2 datagram => cases stream.symm.trans datagram

omit recorded known in
theorem ClearAll_datagram (datagram : s.kind = .datagram) :
    ClearAll a s f = unregister s.m_bindPath (f.put a { s with m_state := .CLOSED, m_bindPath := none }) := by
  rw [ClearAll]
  split
  case h_1 stream => cases datagram.symm.trans stream
  case h_2 => rfl

theorem Recorded.clearAll (datagram : s.kind = .datagram)
    (own : ∀ path b, s.m_bindPath = some path → f.m_bindByPath path = some b → b = a) :
    Recorded (ClearAll a s f) { k with closed := update k.closed a true } := by
  let ended : SocketFd := { s with m_state := .CLOSED, m_bindPath := none }
  have sockets : (unregister s.m_bindPath (f.put a ended)).sockets = (f.put a ended).sockets := by
    cases s.m_bindPath <;> rfl
  have table : (unregister s.m_bindPath (f.put a ended)).m_bindByPath =
      (unregister s.m_bindPath f).m_bindByPath := by
    cases s.m_bindPath <;> rfl
  rw [ClearAll_datagram datagram]
  exact recorded.ends_unregistered known own sockets table rfl rfl

theorem Recorded.close (careful : Careful f (.close a))
    (h : Close a s f = some f') : Recorded f' { k with closed := update k.closed a true } := by
  have ends := careful s known
  have hunregister : (unregister s.m_bindPath f).sockets = f.sockets := by cases s.m_bindPath <;> rfl
  rw [Close] at h
  split at h
  case h_1 hkind =>
    split at h
    case isTrue hclosed =>
      -- a second `Close` finds nothing to do
      cases h
      have absent : ∀ path, f.m_bindByPath path ≠ some a := by
        have hanswers : s.answers = false := by simp [SocketFd.answers, hclosed]
        rwa [if_neg (by simp [hkind, hanswers])] at ends
      have hsame : f.put a s = f := by rw [Factory.put, ← known, update_eq_self]
      have ended := recorded.ends_silently known absent (recorded.clear a s known hclosed) hclosed
      rwa [hsame] at ended
    case isFalse =>
      split at h
      case isTrue hanswers =>
        split at h
        case isFalse => cases h
        case isTrue =>
          cases h
          rw [if_pos (by simp [hanswers])] at ends
          rw [ClearAll_stream hkind]
          let ended : SocketFd := { s with m_state := .CLOSED, m_bindPath := none, m_factory := false }
          have sockets : ((unregister s.m_bindPath f).put a ended).sockets = (f.put a ended).sockets := by
            rw [Factory.put, hunregister]
            rfl
          exact recorded.ends_unregistered known ends sockets rfl rfl rfl
      case isFalse hanswers =>
        cases h
        rw [if_neg (by simp [hkind, hanswers])] at ends
        rw [ClearAll_stream hkind]
        exact recorded.ends_silently known ends rfl rfl
  case h_2 hkind =>
    cases h
    rw [if_pos (by simp [hkind])] at ends
    exact recorded.clearAll known hkind ends

theorem Recorded.listen (careful : Careful f (.listen a)) : Recorded (Listen a s f) k := by
  rw [Listen]
  split
  · exact recorded
  next hstate =>
    have listening : Recorded (f.put a { s with m_state := .LISTENING }) k :=
      recorded.put known rfl nofun nofun nofun
    split
    case h_1 path hpath =>
      have own := careful s path known (not_not.mp hstate) hpath
      have hsame : RegisterBinder path a (f.put a { s with m_state := .LISTENING }) =
          f.put a { s with m_state := .LISTENING } := by
        dsimp only [RegisterBinder, Factory.put]
        rw [← own, update_eq_self]
      rw [hsame]
      exact listening
    case h_2 => exact listening

theorem Recorded.connect (path : Path) : Recorded (Connect a path s f) k := by
  have moves (state : LocalStream.State) (created : state ≠ .CREATED) (binded : state ≠ .BINDED)
    (live : state ≠ .CLOSED) :
      Recorded (f.put a { s with m_state := state }) k :=
    recorded.put known rfl created binded live
  rw [Connect]
  split
  · exact recorded
  · split
    case h_1 =>
      split
      case h_1 =>
        split
        · exact moves _ nofun nofun nofun
        · exact recorded
      case h_2 => exact recorded
    case h_2 =>
      split
      · exact recorded
      · split
        case h_1 =>
          split
          · exact moves _ nofun nofun nofun
          · exact recorded
        case h_2 => exact recorded

theorem Recorded.accept (waits : Bool) : Recorded (Accept a waits s f) k := by
  rw [Accept]
  split
  · cases waits with
    | false => exact recorded.put known rfl nofun nofun nofun
    | true => exact recorded.put known rfl nofun nofun nofun
  · exact recorded

end

theorem Recorded.step {label : Label} (careful : Careful f label)
    (h : respond f label = some f') : Recorded f' (Ledger.note f label k) := by
  cases label with
  | socket a kind =>
    rw [respond] at h
    split at h
    case isFalse => cases h
    case isTrue unknown => exact some.inj h ▸ recorded.fresh unknown nofun
  | bind a path ok =>
    obtain ⟨s, known, rfl⟩ := map_eq_some_iff.mp h
    rw [Bind, Ledger.note, known]
    split
    case isTrue failed =>
      rw [if_neg]
      · exact recorded
      · rintro ⟨rfl, created⟩
        exact failed.elim (fun hstate => hstate (some.inj created)) nofun
    case isFalse binds =>
      simp only [not_or, not_not, Bool.not_eq_false] at binds
      rw [if_pos ⟨binds.2, congrArg some binds.1⟩]
      exact recorded.bind known binds.1
  | listen a =>
    obtain ⟨s, hs, rfl⟩ := map_eq_some_iff.mp h
    exact recorded.listen (filter_eq_some_iff.mp hs).1 careful
  | connect a path =>
    obtain ⟨s, known, rfl⟩ := map_eq_some_iff.mp h
    exact recorded.connect known path
  | accept a waits =>
    obtain ⟨s, hs, rfl⟩ := map_eq_some_iff.mp h
    exact recorded.accept (filter_eq_some_iff.mp hs).1 waits
  | accepted a c n =>
    obtain ⟨s, -, h⟩ := bind_eq_some_iff.mp h
    obtain ⟨first, hfirst, h⟩ := bind_eq_some_iff.mp h
    split at h
    case isFalse => cases h
    case isTrue unknown =>
      obtain ⟨known, -⟩ := filter_eq_some_iff.mp hfirst
      have connected : Recorded (f.put c { first with m_state := .CONNECTED }) k :=
        recorded.put known rfl nofun nofun nofun
      have hfresh : (f.put c { first with m_state := .CONNECTED }).sockets n = none := by
        rw [put_sockets, if_neg]
        · exact unknown
        · rintro rfl
          cases unknown.symm.trans known
      exact some.inj h ▸ connected.fresh hfresh nofun
  | peerClosed a =>
    obtain ⟨s, hs, rfl⟩ := map_eq_some_iff.mp h
    exact recorded.put (filter_eq_some_iff.mp hs).1 rfl nofun nofun nofun
  | close a =>
    obtain ⟨s, known, h⟩ := bind_eq_some_iff.mp h
    exact recorded.close known careful h
  | release a =>
    obtain ⟨s, known, rfl⟩ := map_eq_some_iff.mp h
    have ends := careful s known
    cases hkind : s.kind with
    | stream =>
      rw [if_neg (by simp [hkind])] at ends
      rw [ClearAll_stream hkind]
      exact recorded.ends_silently known ends rfl rfl
    | datagram =>
      rw [if_pos (by simp [hkind])] at ends
      exact recorded.clearAll known hkind ends
  | unlink path ok =>
    cases h
    cases ok with
    | false => exact recorded
    | true => exact recorded.unlink

end

/-- In a careful run the table maps a path to who was bound to it last, unless it was closed since or
the path unlinked. -/
theorem faithful_of_reach {f : Factory} {k : Ledger}
    (reach : (machine.ledgered .empty Ledger.note).ReachBy (fun p label => Careful p.1 label) (f, k)) :
    Faithful f k := by
  have recorded : Recorded f k := by
    refine reach.invariant (I := fun p => Recorded p.1 p.2) ?_ fun p label q held careful run => ?_
    · rintro ⟨g, c⟩ ⟨hg, hc⟩
      obtain rfl : g = ⟨fun _ => none, fun _ => none⟩ := hg
      obtain rfl : c = .empty := hc
      exact ⟨fun path s => by simp [Ledger.empty], fun path a h => absurd h (by simp [Ledger.empty]),
        fun a h => absurd h (by simp [Ledger.empty]), fun a s h => nomatch h⟩
    · obtain ⟨hstep, hnote⟩ := Machine.ledgered_step run
      rw [hnote]
      exact held.step careful hstep
  exact recorded.faithful

/-- Two sockets are bound, and the first is closed. -/
theorem faithful_closed : ∃ f k, Faithful f k ∧ f.m_bindByPath ['q'] = some 1 ∧ f.m_bindByPath ['p'] = none ∧
    k.bound ['p'] = some 0 ∧ k.closed 0 = true := by
  let M := machine.ledgered .empty Ledger.note
  have start : M.ReachBy (fun p label => Careful p.1 label) (⟨fun _ => none, fun _ => none⟩, .empty) :=
    .start ⟨rfl, rfl⟩
  obtain ⟨⟨f, k⟩, run, table, known, q, hclose, hq, hp, hbound, hclosed⟩ :
      ∃ p, M.replay (⟨fun _ => none, fun _ => none⟩, .empty)
          [.socket 0 .datagram, .bind 0 ['p'] true, .socket 1 .stream, .bind 1 ['q'] true] = some p ∧
        p.1.m_bindByPath ['p'] = some 0 ∧ p.1.sockets 0 = some ⟨.datagram, .BINDED, some ['p'], true⟩ ∧
        ∃ q, M.step p (.close 0) = some q ∧ q.1.m_bindByPath ['q'] = some 1 ∧ q.1.m_bindByPath ['p'] = none ∧
          q.2.bound ['p'] = some 0 ∧ q.2.closed 0 = true := ⟨_, rfl, rfl, rfl, _, rfl, rfl, rfl, rfl, rfl⟩
  have bound := start.replay_of_mem (by simp [Careful]) run
  have careful : Careful f (.close 0) := by
    intro s there
    cases there.symm.trans known
    rintro path b ⟨⟩ mapped
    exact Option.some.inj (mapped.symm.trans table)
  exact ⟨q.1, q.2, faithful_of_reach (bound.next careful hclose), hq, hp, hbound, hclosed⟩

/-- A path is unlinked and bound again before its first socket is closed. -/
def rebinding : List Label :=
  [.socket 0 .datagram, .bind 0 ['p'] true, .unlink ['p'] true, .socket 1 .datagram, .bind 1 ['p'] true, .close 0]

theorem close_unregisters_other : ¬ ∀ f k, (machine.ledgered .empty Ledger.note).Reach (f, k) → Faithful f k := by
  intro h
  let M := machine.ledgered .empty Ledger.note
  obtain ⟨⟨f, k⟩, hrun⟩ : ∃ p, M.replay (⟨fun _ => none, fun _ => none⟩, .empty) rebinding = some p :=
    isSome_iff_exists.mp (by decide)
  have start : M.Reach (⟨fun _ => none, fun _ => none⟩, .empty) := .start ⟨rfl, rfl⟩
  have reach : M.Reach (f, k) := start.replay (fun _ _ => trivial) hrun
  have htable : (M.replay (⟨fun _ => none, fun _ => none⟩, .empty) rebinding).map
      (fun p => (p.1.m_bindByPath ['p'], p.2.bound ['p'], p.2.closed 1)) = some (none, some 1, false) := by decide
  rw [hrun] at htable
  obtain ⟨htable, hrest⟩ := Prod.mk.inj (some.inj htable)
  obtain ⟨hbound, hopen⟩ := Prod.mk.inj hrest
  have hmaps := (h f k reach ['p'] 1).mpr ⟨hbound, hopen⟩
  cases htable.symm.trans hmaps

end Dce.Binder
