import Dce.Teardown.Detached

/- No surviving file refers to a thread of a deleted process, over whole runs. -/

namespace Dce.Teardown

open Function List Option

variable {s s' : State} {b b' : Begun} {f g t p point wq table : Nat} {r q : Thread}

theorem Sound.settle (sound : Sound s b) {processes : Nat → Option (List Nat)}
    {openFiles : List (Nat × Nat)} {fresh : Nat}
    (later : s.fresh ≤ fresh) (opened : ∀ p f, (p, f) ∈ openFiles → s.Open f ∨ s.files f = ⟨[], none⟩)
    (listed : ∀ p l, processes p = some l → ∀ t ∈ l, ∃ r, s.threads t = some r ∧ r.process = p) :
    Sound { s with processes := processes, openFiles := openFiles, fresh := fresh } b := by
  refine ⟨fun j x has => (sound.small j x has).trans_le later, sound.begun, listed,
    fun j x has alive => (sound.stacked j x has alive).mono later fun _ _ => rfl,
    fun point j waits => (sound.used point j waits).trans_le later,
    fun f e inside => ⟨(sound.linked f e inside).1.trans_le later, (sound.linked f e inside).2⟩,
    sound.held, sound.timers, ⟨fun f hopen e inside j waits => ?_, fun f hopen j waits => ?_⟩⟩
  · obtain ⟨p, mem⟩ := hopen
    rcases opened p f mem with before | empty
    · exact sound.detached.entry f before e inside j waits
    · have none_there : queue f s = [] := congrArg UnixFd.m_waitQueueList empty
      exact absurd (none_there ▸ inside : e ∈ []) not_mem_nil
  · obtain ⟨p, mem⟩ := hopen
    rcases opened p f mem with before | empty
    · exact sound.detached.waiter f before j waits
    · exact absurd ((congrArg UnixFd.m_waiter empty).symm.trans waits) (some_ne_none j).symm

theorem Stacked.empty : Stacked s (none, none) (newThread p []) where
  below _ wrong := absurd wrong not_mem_nil
  entries _ _ wrong := absurd wrong not_mem_nil
  ioWait := .first nodup_nil
  pollTable := .first nodup_nil

theorem Sound.renew (sound : Sound s b) (f : Nat) : Sound (s.setFile f ⟨[], none⟩) b := by
  refine (sound.clearWaiter f).shrink ⟨rfl, rfl, rfl, rfl, rfl, rfl, fun g => ?_, fun g e inside => ?_⟩
  · by_cases same : g = f
    · subst same
      simp [State.setFile]
    · simp [State.setFile, same]
  · by_cases same : g = f
    · subst same
      simp [queue, State.setFile] at inside
    · simpa [queue, State.setFile, same] using inside

theorem Sound.addThread (sound : Sound s b) (stack : Stacked s (none, none) (newThread p r.frames)) :
    Sound (addThread p (newThread p r.frames) s) b := by
  have absent : s.threads s.fresh = none := by
    cases there : s.threads s.fresh with
    | none => rfl
    | some x => exact absurd (sound.small _ x there) (lt_irrefl _)
  have here : (Teardown.addThread p (newThread p r.frames) s).threads s.fresh = some (newThread p r.frames) :=
    update_self ..
  have other : ∀ j, j ≠ s.fresh → (Teardown.addThread p (newThread p r.frames) s).threads j = s.threads j :=
    fun j ne => update_of_ne ne _ _
  have known : ∀ j x, s.threads j = some x → (Teardown.addThread p (newThread p r.frames) s).threads j = some x :=
    fun j x has => (other j (sound.small j x has).ne).trans has
  have gone : ∀ j, Gone j (Teardown.addThread p (newThread p r.frames) s) → Gone j s := by
    rintro j ⟨x, has, torn⟩
    by_cases same : j = s.fresh
    · rw [same, here] at has
      rw [← some.inj has] at torn
      exact absurd torn Bool.noConfusion
    · exact ⟨x, (other j same).symm.trans has, torn⟩
  refine ⟨fun j x has => ?_, fun j has => ?_, fun k l has j inside => ?_, fun j x has alive => ?_,
    fun point j waits => (sound.used point j waits).trans (Nat.lt_succ_self _),
    fun f e inside => ⟨(sound.linked f e inside).1.trans (Nat.lt_succ_self _), (sound.linked f e inside).2⟩,
    fun point j waits => ?_, fun f j waits => ?_,
    ⟨fun f hopen e inside j waits wrong => sound.detached.entry f hopen e inside j waits (gone j wrong),
      fun f hopen j waits wrong => sound.detached.waiter f hopen j waits (gone j wrong)⟩⟩
  · by_cases same : j = s.fresh
    · exact same ▸ Nat.lt_succ_self _
    · exact (sound.small j x ((other j same).symm.trans has)).trans (Nat.lt_succ_self _)
  · by_cases same : j = s.fresh
    · rw [same, here] at has
      cases has
    · exact sound.begun j ((other j same).symm.trans has)
  · have old : ∀ l', s.processes k = some l' → j ∈ l' →
        ∃ x, (Teardown.addThread p (newThread p r.frames) s).threads j = some x ∧ x.process = k := by
      intro l' there inside
      obtain ⟨x, at_j, is⟩ := sound.listed k l' there j inside
      exact ⟨x, known j x at_j, is⟩
    by_cases same : k = p
    · subst same
      have all : (Teardown.addThread k (newThread k r.frames) s).processes k =
          some ((s.processes k).getD [] ++ [s.fresh]) :=
        update_self ..
      rw [← some.inj (all.symm.trans has)] at inside
      rcases mem_append.mp inside with before | new
      · cases there : s.processes k with
        | none =>
          rw [there] at before
          exact absurd before not_mem_nil
        | some l' =>
          rw [there] at before
          exact old l' there before
      · exact ⟨_, mem_singleton.mp new ▸ here, rfl⟩
    · exact old l ((update_of_ne same _ _).symm.trans has) inside
  · by_cases same : j = s.fresh
    · subst same
      cases here.symm.trans has
      rw [sound.begun _ absent]
      exact stack.mono (Nat.le_succ _) fun _ _ => rfl
    · exact (sound.stacked j x ((other j same).symm.trans has) alive).mono (Nat.le_succ _) fun _ _ => rfl
  · obtain ⟨x, there, frames⟩ := sound.held point j waits
    exact ⟨x, known j x there, frames⟩
  · obtain ⟨x, there, frames⟩ := sound.timers f j waits
    exact ⟨x, known j x there, frames⟩

section

/-- What is left of the threads of `s` when those of the process `p` were cleaned up and are gone. -/
abbrev swept (p : Nat) (s : State) : State := tear p (((s.processes p).getD []).reverse.foldl CleanupThread s)

variable (sound : Sound s b)
include sound

theorem listed_getD (inside : t ∈ (s.processes p).getD []) : ∃ r, s.threads t = some r ∧ r.process = p := by
  cases there : s.processes p with
  | none =>
    rw [there] at inside
    exact absurd inside not_mem_nil
  | some l =>
    rw [there] at inside
    exact sound.listed p l there t inside

theorem swept_thread (found : s.threads t = some r) :
    ∃ x, (swept p s).threads t = some x ∧ x.process = r.process ∧ (r.process ≠ p → x = r) ∧
    (r.process = p → x.torn = true) := by
  obtain ⟨x, there, calls, same⟩ := (cleans_all ((s.processes p).getD []).reverse s).threads t r found
  have whole : (swept p s).threads t = some (if x.process = p then { x with torn := true } else x) := by
    simp only [tear, there, map_some]
  by_cases mine : r.process = p
  · rw [if_pos (calls.process.trans mine)] at whole
    exact ⟨_, whole, calls.process, fun wrong => absurd mine wrong, fun _ => rfl⟩
  · rw [if_neg (calls.process ▸ mine)] at whole
    refine ⟨x, whole, calls.process, fun _ => same fun inside => mine ?_, fun wrong => absurd wrong mine⟩
    obtain ⟨x', found', is⟩ := listed_getD sound (mem_reverse.mp inside)
    exact some.inj (found'.symm.trans found) ▸ is

omit sound in
theorem swept_back {x : Thread} (has : (swept p s).threads t = some x) : ∃ r, s.threads t = some r := by
  obtain ⟨y, there, -⟩ := map_eq_some_iff.mp has
  exact (cleans_all ((s.processes p).getD []).reverse s).back t y there

theorem Sound.sweep {survives : Nat → Prop} {openFiles : List (Nat × Nat)} (careful : Careful survives p s b)
    (kept : ∀ k f, (k, f) ∈ openFiles → s.Open f ∧ survives f) :
    Sound { swept p s with processes := update s.processes p none, openFiles := openFiles } b := by
  have cleans := cleans_all ((s.processes p).getD []).reverse s
  have thread : ∀ j r, s.threads j = some r → ∃ x, (swept p s).threads j = some x ∧ x.process = r.process ∧
      (r.process ≠ p → x = r) ∧ (r.process = p → x.torn = true) := fun _ _ found => swept_thread sound found
  -- who is not gone is as it was
  have kept_thread : ∀ j r x, s.threads j = some r → (swept p s).threads j = some x → x.torn = false → x = r := by
    intro j r x found has alive
    obtain ⟨y, there, -, other, mine⟩ := thread j r found
    cases has.symm.trans there
    exact other fun is => absurd ((mine is).symm.trans alive) Bool.noConfusion
  -- who is gone now was so before, or its process is the one that is deleted
  have newly : ∀ j, Gone j (swept p s) → ¬ Gone j s → ∃ r, s.threads j = some r ∧ r.process = p ∧
      r.torn = false := by
    rintro j ⟨x, has, torn⟩ before
    obtain ⟨r, found⟩ := swept_back has
    obtain ⟨y, there, -, other, -⟩ := thread j r found
    cases has.symm.trans there
    have alive : r.torn = false := by
      cases is : r.torn with
      | false => rfl
      | true => exact absurd ⟨r, found, is⟩ before
    refine ⟨r, found, ?_, alive⟩
    by_contra not_mine
    rw [other not_mine] at torn
    exact absurd (torn.symm.trans alive) Bool.noConfusion
  refine ⟨fun j x has => ?_, fun j has => ?_, fun k l has j inside => ?_, fun j x has alive => ?_,
    fun point j waits => ?_,
    fun f e inside => ?_, fun point j waits => ?_, fun f j waits => ?_, ⟨fun f hopen e inside j waits gone => ?_,
      fun f hopen j waits gone => ?_⟩⟩
  · obtain ⟨r, found⟩ := swept_back has
    exact (sound.small j r found).trans_eq cleans.fresh.symm
  · refine sound.begun j ?_
    by_contra there
    obtain ⟨r, found⟩ := ne_none_iff_exists'.mp there
    obtain ⟨x, is, -⟩ := thread j r found
    exact absurd (has.symm.trans is) (some_ne_none x).symm
  · by_cases same : k = p
    · subst same
      exact absurd ((update_self ..).symm.trans has) (some_ne_none l).symm
    · obtain ⟨r, found, is⟩ := sound.listed k l ((update_of_ne same _ _).symm.trans has) j inside
      obtain ⟨x, there, process, -⟩ := thread j r found
      exact ⟨x, there, process.trans is⟩
  · obtain ⟨r, found⟩ := swept_back has
    obtain rfl := kept_thread j r x found has alive
    exact (sound.stacked j x found alive).mono cleans.fresh.ge fun point _ => congrFun cleans.entries point
  · exact (sound.used point j ((congrFun cleans.m_waitTask point).symm.trans waits)).trans_eq cleans.fresh.symm
  · obtain ⟨below, linked⟩ := sound.linked f e (cleans.queue f e inside)
    exact ⟨below.trans_eq cleans.fresh.symm, congrFun cleans.entries e.point ▸ linked⟩
  · obtain ⟨r, found, frames⟩ := sound.held point j ((congrFun cleans.m_waitTask point).symm.trans waits)
    obtain ⟨x, there, -⟩ := thread j r found
    refine ⟨x, there, fun alive => ?_⟩
    obtain rfl := kept_thread j r x found there alive
    exact frames alive
  · obtain ⟨r, found, frames⟩ := sound.timers f j ((cleans.m_waiter f).symm.trans waits)
    obtain ⟨x, there, -⟩ := thread j r found
    refine ⟨x, there, fun alive => ?_⟩
    obtain rfl := kept_thread j r x found there alive
    exact frames alive
  · obtain ⟨k, mem⟩ := hopen
    obtain ⟨opened, survives⟩ := kept k f mem
    have before := cleans.queue f e inside
    have waits := (congrFun cleans.m_waitTask e.point).symm.trans waits
    obtain ⟨r, found, mine, alive⟩ := newly j gone (sound.detached.entry f opened e before j waits)
    obtain ⟨x, found', frames⟩ := sound.held e.point j waits
    cases found.symm.trans found'
    have stack := sound.stacked j r found alive
    obtain ⟨frame, on_stack, is⟩ := frames alive
    have linked := (sound.linked f e before).2
    cases frame with
    | entry f' wq =>
      cases is
      rw [stack.entries f' e.point on_stack] at linked
      obtain ⟨rfl, id⟩ := Prod.mk.inj (mem_singleton.mp linked)
      obtain ⟨listed, last⟩ := careful.wait j r found mine alive f e.point on_stack waits survives
      have recorded := (stack.ioWait.innermost _ (mem_asWait.mpr on_stack) last).1
      exact cleans.entry j (mem_reverse.mpr listed) r f e.point found recorded e inside id
    | table table =>
      cases is
      obtain ⟨listed, last⟩ := careful.poll j r found mine alive e.point on_stack waits ⟨_, linked, survives⟩
      have recorded := (stack.pollTable.innermost _ (mem_asPoll.mpr on_stack) last).1
      exact cleans.table j (mem_reverse.mpr listed) r e.point found recorded f e inside linked
    | timer => cases is
    | handler => cases is
  · obtain ⟨k, mem⟩ := hopen
    obtain ⟨opened, survives⟩ := kept k f mem
    have waits := (cleans.m_waiter f).symm.trans waits
    obtain ⟨r, found, mine, alive⟩ := newly j gone (sound.detached.waiter f opened j waits)
    obtain ⟨x, found', frames⟩ := sound.timers f j waits
    cases found.symm.trans found'
    exact careful.timer j r found mine alive f (frames alive) waits survives

theorem Sound.delete (careful : Careful (fun f => Shared p f s) p s b) : Sound (DeleteProcess p s) b := by
  have kept : ∀ k f, (k, f) ∈ (swept p s).openFiles.filter (·.1 ≠ p) → s.Open f ∧ Shared p f s := by
    intro k f mem
    obtain ⟨mem, other⟩ := mem_filter.mp mem
    rw [show (swept p s).openFiles = s.openFiles from
      (cleans_all ((s.processes p).getD []).reverse s).openFiles] at mem
    exact ⟨⟨k, mem⟩, k, of_decide_eq_true other, mem⟩
  have whole : DeleteProcess p s = { swept p s with
      processes := update s.processes p none, openFiles := (swept p s).openFiles.filter (·.1 ≠ p) } := by
    rw [DeleteProcess, show (swept p s).processes = s.processes from
      (cleans_all ((s.processes p).getD []).reverse s).processes]
  rw [whole]
  exact sound.sweep careful kept

theorem Sound.execve (careful : Careful (fun f => s.Open f) p s b) : Sound (Execve p s) b := by
  have cleans := cleans_all ((s.processes p).getD []).reverse s
  let u : State := { swept p s with processes := update s.processes p none, openFiles := s.openFiles }
  have sound' : Sound u b := sound.sweep careful fun k f mem => ⟨⟨k, mem⟩, k, mem⟩
  have whole : Execve p s = Teardown.addThread p (newThread p (newThread p []).frames) u := by
    have fresh : u.fresh = s.fresh := cleans.fresh
    have openFiles : (swept p s).openFiles = s.openFiles := cleans.openFiles
    have empty : u.processes p = none := update_self ..
    rw [Teardown.addThread, fresh, empty]
    simp only [u, update_idem, ← openFiles]
    rfl
  rw [whole]
  exact sound'.addThread (r := newThread p []) .empty

end

section

theorem running_spec (here : running t s = some r) : s.threads t = some r ∧ r.torn = false := by
  obtain ⟨found, fine⟩ := filter_eq_some_iff.mp here
  simp only [Bool.and_eq_true, Bool.not_eq_true'] at fine
  exact ⟨found, fine.1.1⟩

theorem waiting_spec {w : Thread × Frame} (here : waiting t s = some w) :
    s.threads t = some w.1 ∧ w.1.torn = false ∧ w.1.frames = w.2 :: w.1.frames.tail := by
  obtain ⟨r, found, rest⟩ := bind_eq_some_iff.mp here
  obtain ⟨frame, top, rest⟩ := bind_eq_some_iff.mp rest
  split at rest
  · cases rest
  next alive =>
    cases rest
    simp only [Bool.or_eq_true, not_or, Bool.not_eq_true] at alive
    exact ⟨found, alive.1.1, (cons_head?_tail top).symm⟩

theorem Sound.grow (sound : Sound s b) (found : s.threads t = some r) (process : q.process = r.process)
    (torn : q.torn = r.torn) (others : ∀ j, j ≠ t → b' j = b j) (stack : r.torn = false → Stacked s (b' t) q)
    (more : ∀ frame ∈ r.frames, frame ∈ q.frames) : Sound (s.setThread t q) b' := by
  refine sound.setThread found process torn others stack (fun alive point waits => ?_) fun alive f waits => ?_
  · obtain ⟨x, there, frames⟩ := sound.held point t waits
    cases found.symm.trans there
    obtain ⟨frame, inside, is⟩ := frames alive
    exact ⟨frame, more frame inside, is⟩
  · obtain ⟨x, there, frames⟩ := sound.timers f t waits
    cases found.symm.trans there
    exact more _ (frames alive)

variable {frame : Frame} {last : Option Nat × Option Nat}

section

variable (sound : Sound s b)
include sound

theorem Sound.shed {rest : List Frame} (found : s.threads t = some r)
    (process : q.process = r.process) (torn : q.torn = r.torn) (calls : r.frames = frame :: rest)
    (left : q.frames = rest)
    (stack : r.torn = false → Stacked s (b t) q)
    (point : ∀ point, frame.point = some point → s.m_waitTask point ≠ some t)
    (timer : ∀ f, frame = .timer f → (s.files f).m_waiter ≠ some t) : Sound (s.setThread t q) b := by
  refine sound.setThread found process torn (fun _ _ => rfl) stack (fun alive k waits => ?_) fun alive f waits => ?_
  · obtain ⟨x, there, frames⟩ := sound.held k t waits
    cases found.symm.trans there
    obtain ⟨other, inside, is⟩ := frames alive
    rw [calls] at inside
    rcases mem_cons.mp inside with rfl | inside
    · exact absurd waits (point k is)
    · exact ⟨other, left ▸ inside, is⟩
  · obtain ⟨x, there, frames⟩ := sound.timers f t waits
    cases found.symm.trans there
    have inside := frames alive
    rw [calls] at inside
    rcases mem_cons.mp inside with same | inside
    · exact absurd waits (timer f same.symm)
    · exact left ▸ inside

theorem Sound.removeThread (t p : Nat) : Sound (removeThread t p s) b := by
  refine sound.settle le_rfl (fun k f mem => .inl ⟨k, mem⟩) fun k l has j inside => ?_
  by_cases same : k = p
  · subst same
    have all : (Teardown.removeThread t k s).processes k = some (((s.processes k).getD []).erase t) := update_self ..
    rw [← some.inj (all.symm.trans has)] at inside
    exact listed_getD sound (mem_of_mem_erase inside)
  · exact sound.listed k l ((update_of_ne same _ _).symm.trans has) j inside

theorem Sound.threadExit (here : running t s = some r) (isDetached : Bool)
    (careful : s.processes r.process = some [t] → Careful (fun f => Shared r.process f s) r.process s b) :
    Sound (threadExit t r isDetached s) b := by
  unfold Teardown.threadExit
  split
  next last =>
    exact sound.delete (careful last)
  · have old (alive : r.torn = false) := sound.stacked t r (running_spec here).1 alive
    have stopped := sound.grow (q := { r with exited := true }) (running_spec here).1 rfl rfl (fun _ _ => rfl)
      (fun alive => ⟨(old alive).below, (old alive).entries, (old alive).ioWait, (old alive).pollTable⟩) fun _ => id
    cases isDetached with
    | false => exact stopped
    | true => exact stopped.removeThread t r.process

omit sound in
theorem Stacked.handler (here : Stacked s last r) : Stacked s last { r with frames := .handler :: r.frames } where
  below frame inside point is := by
    rcases mem_cons.mp inside with rfl | inside
    · cases is
    · exact here.below frame inside point is
  entries f wq inside := here.entries f wq ((mem_cons.mp inside).resolve_left Frame.noConfusion)
  ioWait := here.ioWait
  pollTable := here.pollTable

omit sound in
theorem Stacked.popped (here : Stacked s last r)
    (calls : r.frames = frame :: r.frames.tail) (no_wait : frame.asWait = none) (no_poll : frame.asPoll = none)
    (fresh : s'.fresh = s.fresh) (entries : s'.entries = s.entries) : Stacked s' last
    { r with frames := r.frames.tail } where
  below other inside point is := fresh ▸ here.below other (mem_of_mem_tail inside) point is
  entries f wq inside := entries ▸ here.entries f wq (mem_of_mem_tail inside)
  ioWait := by
    have waits : r.frames.filterMap Frame.asWait = r.frames.tail.filterMap Frame.asWait := by
      rw [calls, filterMap_cons_none no_wait]
      rfl
    exact waits ▸ here.ioWait
  pollTable := by
    have polls : r.frames.filterMap Frame.asPoll = r.frames.tail.filterMap Frame.asPoll := by
      rw [calls, filterMap_cons_none no_poll]
      rfl
    exact polls ▸ here.pollTable

section

variable (found : s.threads t = some r) (alive : r.torn = false)
include found alive

theorem Sound.io (f : Nat) : Sound (io t r f s) (update b t (some s.fresh, (b t).2)) := by
  have stack := sound.stacked t r found alive
  let u : State := { s.setEntries s.fresh [(f, s.fresh)] with fresh := s.fresh + 1 }
  have first : Sound u b := sound.allocate [(f, s.fresh)]
  have linked : u.entries s.fresh = [(f, s.fresh)] := update_self ..
  have second : Sound (AddWaitQueue f ⟨s.fresh, s.fresh⟩ u) b :=
    first.add (e := ⟨s.fresh, s.fresh⟩) (Nat.lt_succ_self _) (linked ▸ mem_singleton.mpr rfl) fun j waits => by
      exact absurd (sound.idle.symm.trans waits) (some_ne_none j).symm
  let q : Thread := { r with ioWait := some (f, s.fresh), frames := .entry f s.fresh :: r.frames }
  have pushed : Stacked (AddWaitQueue f ⟨s.fresh, s.fresh⟩ u) (some s.fresh, (b t).2) q := by
    have old := second.stacked t r found alive
    refine ⟨fun frame inside point is => ?_, fun g wq inside => ?_, ?_, old.pollTable⟩
    · rcases mem_cons.mp inside with rfl | inside
      · exact some.inj is ▸ Nat.lt_succ_self _
      · exact old.below frame inside point is
    · rcases mem_cons.mp inside with same | inside
      · obtain ⟨rfl, rfl⟩ := Frame.entry.inj same
        exact linked
      · exact old.entries g wq inside
    · refine old.ioWait.push (x := (f, s.fresh)) fun again => ?_
      obtain ⟨x, inside, same⟩ := mem_map.mp again
      exact absurd (stack.below _ (mem_asWait.mp inside) x.2 rfl) (same ▸ lt_irrefl _)
  have third : Sound ((AddWaitQueue f ⟨s.fresh, s.fresh⟩ u).setThread t q) (update b t (some s.fresh, (b t).2)) := by
    refine second.grow found rfl rfl (fun j ne => update_of_ne ne _ _) (fun _ => ?_) fun _ => mem_cons_of_mem _
    rw [update_self]
    exact pushed
  exact third.setWaitTask (update_self ..) alive mem_cons_self rfl

theorem Sound.poll (fs : List Nat) : Sound (poll t r fs s) (update b t ((b t).1, some s.fresh)) := by
  have stack := sound.stacked t r found alive
  let u : State := { s.setEntries s.fresh [] with fresh := s.fresh + 1 }
  have first : Sound u b := sound.allocate []
  have more := registers_all s.fresh fs u
  have unused : ∀ j x, u.threads j = some x → x.torn = false → ∀ frame ∈ x.frames, frame.point ≠ some s.fresh :=
    fun j x has live frame inside is => absurd ((sound.stacked j x has live).below frame inside s.fresh is)
    (lt_irrefl _)
  have second : Sound (fs.foldl (PollWait s.fresh) u) b :=
    first.registers more (Nat.lt_succ_self _) sound.idle unused
  have found' : (fs.foldl (PollWait s.fresh) u).threads t = some r := (congrFun more.threads t).trans found
  let q : Thread := { r with pollTable := some s.fresh, frames := .table s.fresh :: r.frames }
  have pushed : Stacked (fs.foldl (PollWait s.fresh) u) ((b t).1, some s.fresh) q := by
    have old := second.stacked t r found' alive
    refine ⟨fun frame inside point is => ?_, fun g wq inside => ?_, old.ioWait, ?_⟩
    · rcases mem_cons.mp inside with rfl | inside
      · exact some.inj is ▸ (Nat.lt_succ_self _).trans_le more.fresh
      · exact old.below frame inside point is
    · exact old.entries g wq ((mem_cons.mp inside).resolve_left Frame.noConfusion)
    · refine old.pollTable.push (x := s.fresh) fun again => ?_
      rw [List.map_id] at again
      exact absurd (stack.below _ (mem_asPoll.mp again) s.fresh rfl) (lt_irrefl _)
  have third : Sound ((fs.foldl (PollWait s.fresh) u).setThread t q) (update b t ((b t).1, some s.fresh)) := by
    refine second.grow found' rfl rfl (fun j ne => update_of_ne ne _ _) (fun _ => ?_) fun _ => mem_cons_of_mem _
    rw [update_self]
    exact pushed
  exact third.setWaitTask (update_self ..) alive mem_cons_self rfl

theorem Sound.readTimer (f : Nat) : Sound (readTimer t r f s) b := by
  have stack := sound.stacked t r found alive
  have pushed : Stacked s (b t) { r with frames := .timer f :: r.frames } := by
    refine ⟨fun frame inside point is => ?_, fun g wq inside => ?_, stack.ioWait, stack.pollTable⟩
    · rcases mem_cons.mp inside with rfl | inside
      · cases is
      · exact stack.below frame inside point is
    · exact stack.entries g wq ((mem_cons.mp inside).resolve_left Frame.noConfusion)
  have first := sound.grow (q := { r with frames := .timer f :: r.frames }) found rfl rfl (fun _ _ => rfl) (fun _ =>
    pushed) fun _ => mem_cons_of_mem _
  exact first.setWaiter (update_self ..) alive mem_cons_self

omit alive in
theorem Sound.handler : Sound (s.setThread t { r with frames := .handler :: r.frames }) b :=
  sound.grow found rfl rfl (fun _ _ => rfl) (fun alive => (sound.stacked t r found alive).handler) fun _ =>
    mem_cons_of_mem _

variable (calls : r.frames = frame :: r.frames.tail)
include calls

theorem Sound.again (run : again t r frame s = some s')
    (entry : ∀ f wq, frame = .entry f wq → b' = update b t (some wq, (b t).2))
    (poll : ∀ table, frame = .table table → b' = update b t ((b t).1, some table)) : Sound s' b' := by
  have stack := sound.stacked t r found alive
  have top : frame ∈ r.frames := calls ▸ mem_cons_self
  cases frame with
  | entry f wq =>
    cases run
    rw [entry f wq rfl]
    have first : Sound (s.setWaitTask wq (some t)) b := sound.setWaitTask found alive top rfl
    have second := first.shrink (shrinks_remove f wq _)
    have third : Sound (AddWaitQueue f ⟨wq, wq⟩ (RemoveWaitQueue f wq (s.setWaitTask wq (some t)))) b := by
      refine second.add
        (e := ⟨wq, wq⟩) (stack.below _ top wq rfl) ((stack.entries f wq top).symm ▸ mem_singleton.mpr rfl) ?_
      rintro j waits ⟨x, there, torn⟩
      have here : (s.setWaitTask wq (some t)).m_waitTask wq = some t := update_self ..
      cases here.symm.trans waits
      cases found.symm.trans there
      exact absurd (torn.symm.trans alive) Bool.noConfusion
    refine third.grow (q := { r with ioWait := some (f, wq) }) found rfl rfl (fun j ne =>
      update_of_ne ne _ _) (fun _ => ?_) fun _ => id
    rw [update_self]
    have waits : r.frames.filterMap Frame.asWait = (f, wq) :: r.frames.tail.filterMap Frame.asWait := by
      rw [calls]
      rfl
    have old := third.stacked t r found alive
    exact ⟨old.below, old.entries, waits ▸ (waits ▸ old.ioWait).resume, old.pollTable⟩
  | table table =>
    cases run
    rw [poll table rfl]
    have first : Sound (s.setWaitTask table (some t)) b := sound.setWaitTask found alive top rfl
    refine first.grow (q := { r with pollTable := some table }) found rfl rfl (fun j ne =>
      update_of_ne ne _ _) (fun _ => ?_) fun _ => id
    rw [update_self]
    have polls : r.frames.filterMap Frame.asPoll = table :: r.frames.tail.filterMap Frame.asPoll := by
      rw [calls]
      rfl
    have old := first.stacked t r found alive
    exact ⟨old.below, old.entries, old.ioWait, polls ▸ (polls ▸ old.pollTable).resume⟩
  | timer => cases run
  | handler => cases run

theorem Sound.returns : Sound (returns t r frame s) b := by
  have rest : ∀ other ∈ r.frames.tail, other ∈ r.frames := fun _ => mem_of_mem_tail
  have stack := sound.stacked t r found alive
  cases frame with
  | entry f wq =>
    have first : Sound (s.setWaitTask wq none) b := sound.clearWaitTask wq
    have waits : r.frames.filterMap Frame.asWait = (f, wq) :: r.frames.tail.filterMap Frame.asWait := by
      rw [calls]
      rfl
    have polls : r.frames.filterMap Frame.asPoll = r.frames.tail.filterMap Frame.asPoll := by
      rw [calls]
      rfl
    have old := first.stacked t r found alive
    have popped : Stacked (s.setWaitTask wq none) (b t) { r with ioWait := none, frames := r.frames.tail } :=
      ⟨fun _ inside => old.below _ (rest _ inside), fun _ _ inside => old.entries _ _ (rest _ inside),
        (waits ▸ old.ioWait).pop,
        polls ▸ old.pollTable⟩
    have cleared : (s.setWaitTask wq none).m_waitTask wq ≠ some t := by simp [State.setWaitTask]
    have second :=
      first.shed (q := { r with ioWait := none, frames := r.frames.tail }) found rfl rfl calls rfl (fun _ => popped)
      (fun _ is => some.inj is ▸ cleared) fun _ => Frame.noConfusion
    exact second.shrink (shrinks_remove f wq _)
  | table table =>
    have first : Sound (s.setWaitTask table none) b := sound.clearWaitTask table
    have waits : r.frames.filterMap Frame.asWait = r.frames.tail.filterMap Frame.asWait := by
      rw [calls]
      rfl
    have polls : r.frames.filterMap Frame.asPoll = table :: r.frames.tail.filterMap Frame.asPoll := by
      rw [calls]
      rfl
    have old := first.stacked t r found alive
    have popped : Stacked (s.setWaitTask table none) (b t) { r with pollTable := none, frames := r.frames.tail } :=
      ⟨fun _ inside => old.below _ (rest _ inside), fun _ _ inside => old.entries _ _ (rest _ inside),
        waits ▸ old.ioWait,
        (polls ▸ old.pollTable).pop⟩
    have cleared : (s.setWaitTask table none).m_waitTask table ≠ some t := by simp [State.setWaitTask]
    have second := first.shed (q := { r with pollTable := none, frames := r.frames.tail }) found rfl rfl calls rfl
      (fun _ => popped)
      (fun _ is => some.inj is ▸ cleared) fun _ => Frame.noConfusion
    exact second.shrink (shrinks_freeWait table _)
  | timer f =>
    have first := sound.clearWaiter f
    have cleared : ((s.setFile f { s.files f with m_waiter := none }).files f).m_waiter ≠
      some t := by simp [State.setFile]
    have popped : Stacked (s.setFile f { s.files f with m_waiter := none }) (b t)
        { r with frames := r.frames.tail } :=
      stack.popped calls rfl rfl rfl rfl
    exact first.shed (q := { r with frames := r.frames.tail }) found rfl rfl calls rfl (fun _ => popped)
      (fun _ => fun wrong => by cases wrong) fun _ same => Frame.timer.inj same ▸ cleared
  | handler =>
    exact sound.shed (q := { r with frames := r.frames.tail }) found rfl rfl calls rfl (fun _ =>
      stack.popped calls rfl rfl rfl rfl)
      (fun _ => fun wrong => by cases wrong) fun _ => Frame.noConfusion

end

theorem Sound.step {a : Label} (careful : CarefulStep s b a) (run : step s a = some s') :
    Sound s' (noted s a b) := by
  cases a with
  | startProcess =>
    cases run
    have more : Sound { s with openFiles := s.openFiles ++ [], fresh := s.fresh + 1 } b :=
      sound.settle (Nat.le_succ _) (fun k f mem => .inl ⟨k, by simpa using mem⟩) sound.listed
    exact more.addThread (r := newThread s.fresh []) .empty
  | create t =>
    obtain ⟨r, here, rfl⟩ := map_eq_some_iff.mp run
    exact sound.addThread (r := newThread r.process []) .empty
  | fork t =>
    obtain ⟨r, here, rfl⟩ := map_eq_some_iff.mp run
    obtain ⟨found, alive⟩ := running_spec here
    have more : Sound { s with
        openFiles := s.openFiles ++ ((s.openFiles.filter (·.1 = r.process)).map Prod.snd).map fun f => (s.fresh, f)
        fresh := s.fresh + 1 } b := by
      refine sound.settle (Nat.le_succ _) (fun k f mem => .inl ?_) sound.listed
      rcases mem_append.mp mem with before | new
      · exact ⟨k, before⟩
      · obtain ⟨g, held, same⟩ := mem_map.mp new
        obtain ⟨-, rfl⟩ := Prod.mk.inj same
        obtain ⟨x, inside, rfl⟩ := mem_map.mp held
        exact ⟨x.1, mem_of_mem_filter inside⟩
    exact more.addThread (more.stacked t r found alive).copy
  | openFile t =>
    obtain ⟨r, here, rfl⟩ := map_eq_some_iff.mp run
    refine (sound.renew s.fresh).settle (Nat.le_succ _) (fun k f mem => ?_) sound.listed
    rcases mem_append.mp mem with before | new
    · exact .inl ⟨k, before⟩
    · obtain ⟨-, rfl⟩ := Prod.mk.inj (mem_singleton.mp new)
      exact .inr (update_self ..)
  | dup t f =>
    obtain ⟨r, here, rest⟩ := bind_eq_some_iff.mp run
    obtain ⟨has, same⟩ := ite_none_right_eq_some.mp rest
    cases same
    refine sound.settle le_rfl (fun k g mem => .inl ?_) sound.listed
    rcases mem_append.mp mem with before | new
    · exact ⟨k, before⟩
    · obtain ⟨-, rfl⟩ := Prod.mk.inj (mem_singleton.mp new)
      exact ⟨_, has⟩
  | close p f =>
    cases run
    exact sound.settle le_rfl (fun k g mem => .inl ⟨k, mem_of_mem_erase mem⟩) sound.listed
  | io t f =>
    obtain ⟨r, here, rest⟩ := bind_eq_some_iff.mp run
    obtain ⟨found, alive⟩ := running_spec here
    obtain ⟨-, same⟩ := ite_none_right_eq_some.mp rest
    cases same
    exact sound.io found alive f
  | again t =>
    obtain ⟨⟨r, frame⟩, here, rest⟩ := bind_eq_some_iff.mp run
    obtain ⟨found, alive, calls⟩ := waiting_spec here
    refine sound.again found alive calls rest (fun f wq is => ?_) fun table is => ?_
    · obtain rfl : frame = .entry f wq := is
      simp only [noted, here]
    · obtain rfl : frame = .table table := is
      simp only [noted, here]
  | poll t fs =>
    obtain ⟨r, here, rest⟩ := bind_eq_some_iff.mp run
    obtain ⟨found, alive⟩ := running_spec here
    obtain ⟨-, same⟩ := ite_none_right_eq_some.mp rest
    cases same
    exact sound.poll found alive fs
  | readTimer t f =>
    obtain ⟨r, here, rest⟩ := bind_eq_some_iff.mp run
    obtain ⟨found, alive⟩ := running_spec here
    obtain ⟨-, same⟩ := ite_none_right_eq_some.mp rest
    cases same
    exact sound.readTimer found alive f
  | handler t =>
    obtain ⟨w, here, rfl⟩ := map_eq_some_iff.mp run
    exact sound.handler (waiting_spec here).1
  | handled t =>
    obtain ⟨r, here, rest⟩ := bind_eq_some_iff.mp run
    obtain ⟨found, alive⟩ := running_spec here
    obtain ⟨top, same⟩ := ite_none_right_eq_some.mp rest
    cases same
    exact sound.returns found alive (cons_head?_tail top).symm
  | returns t =>
    obtain ⟨w, here, rfl⟩ := map_eq_some_iff.mp run
    obtain ⟨found, alive, calls⟩ := waiting_spec here
    exact sound.returns found alive calls
  | threadExit t isDetached =>
    obtain ⟨r, here, rfl⟩ := map_eq_some_iff.mp run
    exact sound.threadExit here isDetached (careful r here)
  | join t =>
    obtain ⟨r, here, rest⟩ := bind_eq_some_iff.mp run
    obtain ⟨-, same⟩ := ite_none_right_eq_some.mp rest
    cases same
    exact sound.removeThread t r.process
  | exit t =>
    obtain ⟨r, here, rfl⟩ := map_eq_some_iff.mp run
    exact sound.delete (careful r here)
  | stop p =>
    simp only [Teardown.step] at run
    split at run
    · cases run
    · exact some.inj run ▸ sound.delete careful
  | execve t =>
    obtain ⟨r, here, rfl⟩ := map_eq_some_iff.mp run
    exact sound.execve (careful r here)
  | wakeWaiters f =>
    obtain ⟨-, same⟩ := ite_none_right_eq_some.mp run
    exact some.inj same ▸ sound
  | timerExpired f =>
    obtain ⟨-, same⟩ := ite_none_right_eq_some.mp run
    exact some.inj same ▸ sound

end

theorem sound_initial : Sound initial fun _ => (none, none) where
  small _ _ wrong := by cases wrong
  begun _ _ := rfl
  listed _ _ wrong := by cases wrong
  stacked _ _ wrong := by cases wrong
  used _ _ wrong := by cases wrong
  linked _ _ wrong := absurd wrong not_mem_nil
  held _ _ wrong := by cases wrong
  timers _ _ wrong := by cases wrong
  detached := ⟨fun _ ⟨_, wrong⟩ => absurd wrong not_mem_nil, fun _ ⟨_, wrong⟩ => absurd wrong not_mem_nil⟩

theorem sound_reach (reach : noting.ReachBy (fun x a => CarefulStep x.1 x.2 a) (s, b)) : Sound s b := by
  refine reach.invariant (I := fun x => Sound x.1 x.2) (fun x first => ?_) fun x a y sound careful run => ?_
  · obtain ⟨s, b⟩ := x
    obtain ⟨rfl, rfl⟩ : s = initial ∧ b = fun _ => (none, none) := first
    exact sound_initial
  · obtain ⟨step, note⟩ := Machine.ledgered_step run
    rw [note]
    exact sound.step careful step

theorem open_of_touched {a : Label} (run : step s a = some s') (event : f ∈ touched s a) : s.Open f := by
  cases a with
  | wakeWaiters g =>
    obtain rfl := mem_singleton.mp event
    exact (ite_none_right_eq_some.mp run).1
  | timerExpired g =>
    obtain rfl := mem_singleton.mp event
    exact (ite_none_right_eq_some.mp run).1
  | close p g =>
    simp only [touched] at event
    split at event
    next has =>
      obtain rfl := mem_singleton.mp event
      exact ⟨p, has⟩
    · exact absurd event not_mem_nil
  | exit t =>
    obtain ⟨r, here, -⟩ := map_eq_some_iff.mp run
    simp only [touched, here] at event
    obtain ⟨x, inside, rfl⟩ := mem_map.mp event
    exact ⟨x.1, mem_of_mem_filter inside⟩
  | _ => exact absurd event not_mem_nil

theorem Detached.woken (detached : Detached s) (hopen : s.Open f) (wakes : t ∈ woken f s) : ¬ Gone t s := by
  rcases mem_append.mp wakes with queued | timer
  · obtain ⟨e, inside, waits⟩ := mem_filterMap.mp queued
    exact detached.entry f hopen e inside t waits
  · exact detached.waiter f hopen t (mem_toList.mp timer)

end

/-- After any run in which each process that is deleted is deleted carefully, no file that is left refers to a thread
that is gone, and so no event that wakes the waiters of a file comes across one. -/
theorem detached_of_careful (reach : noting.ReachBy (fun x a => CarefulStep x.1 x.2 a) (s, b)) :
    Detached s ∧ ∀ a s', machine.step s a = some s' → ∀ f ∈ touched s a, ∀ t ∈ woken f s, ¬ Gone t s := by
  have detached := (sound_reach reach).detached
  exact ⟨detached, fun _ _ run _ event _ wakes => detached.woken (open_of_touched run event) wakes⟩

/-- A parent waits at a file that its child has too, and is stopped. -/
theorem detached_after_stop : ∃ s, machine.replay initial
    [.startProcess, .openFile 1, .fork 1, .io 1 2, .stop 0] = some s ∧
    s.Open 2 ∧ Gone 1 s ∧ Detached s := by
  let C := fun (x : State × Begun) a => CarefulStep x.1 x.2 a
  have start : noting.ReachBy C (initial, fun _ => (none, none)) := .start ⟨rfl, rfl⟩
  have one := start.next (a := .startProcess) (show C _ .startProcess from trivial) rfl
  have two := one.next (a := .openFile 1) (show C _ (.openFile 1) from trivial) rfl
  have three := two.next (a := .fork 1) (show C _ (.fork 1) from trivial) rfl
  have four := three.next (a := .io 1 2) (show C _ (.io 1 2) from trivial) rfl
  refine ⟨_, rfl, ⟨3, by decide⟩, ⟨_, rfl, rfl⟩, (detached_of_careful (four.next (a := .stop 0) ?_ rfl)).1⟩
  -- the child has no calls, and the parent has the one that it began last
  have calls : ∀ (t : Nat) (r : Thread) frame, update (update (update (fun _ => none) 1
      (some (newThread 0 []))) 4 (some (newThread 3 []))) 1
      (some ⟨0, some (2, 5), none, [.entry 2 5], false, false⟩) t = some r →
      frame ∈ r.frames → t = 1 ∧ frame = .entry 2 5 := by
    intro t r frame found inside
    by_cases parent : t = 1
    · subst parent
      cases found
      exact ⟨rfl, mem_singleton.mp inside⟩
    · by_cases child : t = 4
      · subst child
        cases found
        exact absurd inside not_mem_nil
      · rw [update_of_ne parent, update_of_ne child, update_of_ne parent] at found
        cases found
  refine ⟨fun t r found _ _ f wq inside _ _ => ?_, fun t r found _ _ table inside _ _ => ?_,
    fun t r found _ _ f inside _ _ => ?_⟩
  · obtain ⟨rfl, same⟩ := calls t r _ found inside
    obtain ⟨-, rfl⟩ := Frame.entry.inj same
    exact ⟨by decide, rfl⟩
  · exact absurd (calls t r _ found inside).2 Frame.noConfusion
  · exact absurd (calls t r _ found inside).2 Frame.noConfusion

/-- Two ways to leave a pointer behind: a handler that interrupts a wait begins another one, and the read of a
timer. -/
theorem not_detached : (∃ s, machine.Reach s ∧ ∃ f, s.Open f ∧ ∃ e ∈ queue f s, ∃ t, s.m_waitTask e.point = some t ∧
      Gone t s) ∧
      ∃ s, machine.Reach s ∧ ∃ f, s.Open f ∧ ∃ t, (s.files f).m_waiter = some t ∧ Gone t s := by
  have first : machine.Reach initial := .start rfl
  constructor
  · have run : machine.replay initial [.startProcess, .openFile 1, .fork 1, .io 1 2, .handler 1, .io 1 2,
      .stop 0] = some _ := rfl
    exact ⟨_, first.replay (fun _ _ => trivial) run, 2, ⟨3, by decide⟩, ⟨5, 5⟩, by decide, 1, rfl, _, rfl, rfl⟩
  · have run : machine.replay initial [.startProcess, .openFile 1, .fork 1, .readTimer 1 2, .stop 0] = some _ := rfl
    exact ⟨_, first.replay (fun _ _ => trivial) run, 2, ⟨3, by decide⟩, 1, rfl, _, rfl, rfl⟩

end Dce.Teardown
