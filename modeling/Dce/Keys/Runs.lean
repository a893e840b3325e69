import Dce.Keys.Lists

/- What a run does to the keys of all threads, and which calls leave the threads with the same ones. -/

namespace Dce.Keys

open Process Function List Option

variable {s s' : Process} {a b : Nat} {thread t u : Thread} {last : Nat → Nat → Nat} {key : Nat}

/-- What the program has last written: `last a key` is the value of a key in the thread `a`, and zero for a key
or a thread that is new. -/
def note (label : Label) (result : Result) (last : Nat → Nat → Nat) : Nat → Nat → Nat :=
  match label, result with
  | .setspecific a key v, .done => update last a (update (last a) key v)
  | .key_delete _ key, .done => fun b => update (last b) key 0
  | _, .key key => fun b => update (last b) key 0
  | _, .created b => update last b fun _ => 0
  | label, .destroys key _ => update last label.caller (update (last label.caller) key 0)
  | _, _ => last

/-- The process has not died of one of these calls; the threads that can run have the same keys;
`pthread_key_create` gives a key that none of them has; and `pthread_getspecific` gives what was last written. -/
structure Kept (s : Process) (last : Nat → Nat → Nat) : Prop where
  intact : s.fault = none
  same : ∀ a b t u, live a s = some t → live b s = some u →
    ∀ key, isKeyValid t.keyValues key = isKeyValid u.keyValues key
  fresh : ∀ a b t u key, live a s = some t → live b s = some u → freeKey t.keyValues 2 99998 = some key →
    isKeyValid u.keyValues key = false
  value : ∀ a t, live a s = some t → ∀ key, dce_pthread_getspecific t key = last a key

/-- Each thread is listed once. -/
structure Books (s : Process) : Prop where
  nodup : s.threads.Nodup
  listed : ∀ a, a ∈ s.threads ↔ (s.heap a).isSome
  older : ∀ a, s.nextThread ≤ a → s.heap a = none

/-- And each thread that can run has each key once. -/
structure Sound (s : Process) : Prop extends Books s where
  distinct : ∀ a t, live a s = some t → (t.keyValues.map ThreadKeyValue.key).Nodup
  nodes : ∀ a t, live a s = some t → (t.keyValues.map ThreadKeyValue.node).Nodup
  earlier : ∀ a t, live a s = some t → ∀ e ∈ t.keyValues, e.node < s.nextNode

theorem Kept.intro (intact : s.fault = none) (same : ∀ a b t u, live a s = some t → live b s = some u → ∀ key,
      isKeyValid t.keyValues key = isKeyValid u.keyValues key)
    (value : ∀ a t, live a s = some t → ∀ key, getValue t.keyValues key = last a key) : Kept s last where
  intact := intact
  same := same
  fresh a b t u key here there free := (same a b t u here there key).symm.trans (freeKey_invalid free)
  value := value

theorem Kept.getValue (kept : Kept s last) (here : live a s = some t) (key : Nat) :
    getValue t.keyValues key = last a key := kept.value a t here key

theorem live_iff : live a s = some t ↔ s.heap a = some t ∧ t.exited = false := by
  simp [live]

theorem live_put : live b (s.put a t) = if b = a then (if t.exited then none else some t) else live b s := by
  unfold live put
  by_cases same : b = a
  · subst same
    cases gone : t.exited <;> simp [gone]
  · simp [same]

theorem live_delete : live b (DeleteThread a s) = if b = a then none else live b s := by
  unfold live DeleteThread
  by_cases same : b = a
  · subst same; simp
  · simp [same]

theorem live_each {f : List ThreadKeyValue → List ThreadKeyValue} (sound : Sound s) :
    live b (s.each f) = (live b s).map fun t => { t with keyValues := f t.keyValues } := by
  unfold live each
  cases here : s.heap b with
  | none => simp [here]
  | some t =>
    have mem : b ∈ s.threads := (sound.listed b).mpr (here ▸ rfl)
    cases gone : t.exited <;> simp [here, mem, Option.filter]

theorem live_create : live b (CreateThread s) = if b = s.nextThread then
    some ⟨((s.threads.head?.bind s.heap).elim [] Thread.keyValues).map fun e => { e with value := 0 },
      .program, false, false⟩
    else live b s := by
  unfold live CreateThread put
  by_cases same : b = s.nextThread
  · subst same; simp
  · simp [same]

/-- What a call leaves of the run so far: it keeps the keys exactly if it was careful. -/
def Exactly (careful : Prop) (s' : Process) (last : Nat → Nat → Nat) : Prop :=
  (Kept s' last ↔ careful) ∧ (careful → Sound s')

theorem Books.put (books : Books s) (here : (s.heap a).isSome) : Books (s.put a t) where
  nodup := books.nodup
  listed b := by
    refine (books.listed b).trans ?_
    by_cases same : b = a
    · subst same; simp [Process.put, here]
    · simp [Process.put, same]
  older b above := by
    have ne : b ≠ a := fun same => by
      subst same
      rw [books.older b above] at here
      cases here
    simpa [Process.put, ne] using books.older b above

theorem Books.delete (books : Books s) : Books (DeleteThread a s) where
  nodup := books.nodup.erase a
  listed b := by
    refine books.nodup.mem_erase_iff.trans ?_
    by_cases same : b = a
    · subst same; simp [DeleteThread]
    · simpa [DeleteThread, same] using books.listed b
  older b above := by
    by_cases same : b = a
    · subst same; simp [DeleteThread]
    · simpa [DeleteThread, same] using books.older b above

theorem exactly_of_old (sound : Sound s) (kept : Kept s last) {last' : Nat → Nat → Nat} (books : Books s')
    (intact : s'.fault = s.fault) (nextNode : s'.nextNode = s.nextNode)
    (old : ∀ b u, live b s' = some u → ∃ c v, live c s = some v ∧
      u.keyValues.map ThreadKeyValue.key = v.keyValues.map ThreadKeyValue.key ∧
      u.keyValues.map ThreadKeyValue.node = v.keyValues.map ThreadKeyValue.node)
    (value : ∀ b u, live b s' = some u → ∀ key, getValue u.keyValues key = last' b key) : Exactly True s' last' := by
  refine ⟨iff_true_intro (.intro (intact.trans kept.intact) (fun b c u v hb hc key => ?_) value), fun _ => ?_⟩
  · obtain ⟨b', u', before, sameKeys, -⟩ := old b u hb
    obtain ⟨c', v', before', sameKeys', -⟩ := old c v hc
    rw [isKeyValid_keys sameKeys, isKeyValid_keys sameKeys']
    exact kept.same b' c' u' v' before before' key
  · refine { toBooks := books, distinct := fun b u there => ?_, nodes := fun b u there => ?_, earlier := ?_ }
    · obtain ⟨c, v, before, sameKeys, -⟩ := old b u there
      rw [sameKeys]
      exact sound.distinct c v before
    · obtain ⟨c, v, before, -, sameNodes⟩ := old b u there
      rw [sameNodes]
      exact sound.nodes c v before
    · intro b u there e mem
      obtain ⟨c, v, before, -, sameNodes⟩ := old b u there
      obtain ⟨e', inside, same⟩ := mem_map.mp (sameNodes ▸ mem_map.mpr ⟨e, mem, rfl⟩)
      rw [nextNode, ← same]
      exact sound.earlier c v before e' inside

section

variable (sound : Sound s) (kept : Kept s last) (here : live a s = some thread)
include sound kept here

theorem exactly_put {last' : Nat → Nat → Nat} (runs : t.exited = false)
    (keys : t.keyValues.map ThreadKeyValue.key = thread.keyValues.map ThreadKeyValue.key)
    (nodes : t.keyValues.map ThreadKeyValue.node = thread.keyValues.map ThreadKeyValue.node)
    (value : ∀ key, getValue t.keyValues key = last' a key) (others : ∀ b, b ≠ a → last' b = last b) :
    Exactly True (s.put a t) last' := by
  have mine : ∀ b u, live b (s.put a t) = some u → (b = a ∧ u = t) ∨ (b ≠ a ∧ live b s = some u) := by
    intro b u there
    rw [live_put] at there
    split at there
    next same =>
      rw [runs] at there
      exact .inl ⟨same, (some.inj there).symm⟩
    next other => exact .inr ⟨other, there⟩
  refine exactly_of_old sound kept (sound.toBooks.put ((live_iff.mp here).1 ▸ rfl)) rfl rfl (fun b u there => ?_)
    fun b u there key => ?_
  · rcases mine b u there with ⟨rfl, rfl⟩ | ⟨-, before⟩
    · exact ⟨b, thread, here, keys, nodes⟩
    · exact ⟨b, u, before, rfl, rfl⟩
  · rcases mine b u there with ⟨rfl, rfl⟩ | ⟨other, before⟩
    · exact value key
    · rw [others b other]
      exact kept.value b u before key

theorem exactly_setspecific {v : Nat} : Exactly True (dce_pthread_setspecific a thread key v s).1
    (note (.setspecific a key v) (dce_pthread_setspecific a thread key v s).2 last) := by
  unfold dce_pthread_setspecific
  split
  next valid =>
    refine exactly_put sound kept here (live_iff.mp here).2 setValue_keys setValue_nodes
      (fun key' => ?_) fun b other => ?_
    · simp only [note]
      rw [getValue_setValue valid]
      by_cases same : key' = key
      · subst same; simp
      · simpa [same] using kept.getValue here key'
    · simp [note, other]
  · exact ⟨iff_true_intro kept, fun _ => sound⟩

theorem exactly_reset {e : ThreadKeyValue} {stage : Stage} (mem : e ∈ thread.keyValues) :
    Exactly True (s.put a { thread with keyValues := resetNode thread.keyValues e.node, stage := stage })
      (update last a (update (last a) e.key 0)) := by
  refine exactly_put sound kept here (live_iff.mp here).2 resetNode_keys resetNode_nodes
    (fun key => ?_) fun b other => ?_
  · rw [getValue_resetNode (sound.distinct a thread here) (sound.nodes a thread here) mem]
    by_cases same : key = e.key
    · subst same; simp
    · simpa [same] using kept.getValue here key
  · simp [other]

end

section

theorem exactly_each (sound : Sound s) (kept : Kept s last) {last' : Nat → Nat → Nat}
    {f : List ThreadKeyValue → List ThreadKeyValue} {node : Nat}
    (keys : ∀ a t b u, live a s = some t → live b s = some u →
      ∀ key, isKeyValid (f t.keyValues) key = isKeyValid (f u.keyValues) key)
    (value : ∀ a t, live a s = some t → ∀ key, getValue (f t.keyValues) key = last' a key)
    (distinct : ∀ a t, live a s = some t → ((f t.keyValues).map ThreadKeyValue.key).Nodup)
    (nodes : ∀ a t, live a s = some t → ((f t.keyValues).map ThreadKeyValue.node).Nodup)
    (earlier : ∀ a t, live a s = some t → ∀ e ∈ f t.keyValues, e.node < node) :
    Exactly True { s.each f with nextNode := node } last' := by
  have old : ∀ b u, live b { s.each f with nextNode := node } = some u →
      ∃ v, live b s = some v ∧ u.keyValues = f v.keyValues := by
    intro b u there
    obtain ⟨v, before, rfl⟩ := map_eq_some_iff.mp ((live_each sound).symm.trans there)
    exact ⟨v, before, rfl⟩
  refine ⟨iff_true_intro (.intro kept.intact (fun b c u v hb hc key => ?_) fun b u there key => ?_), fun _ => ?_⟩
  · obtain ⟨u', before, same⟩ := old b u hb
    obtain ⟨v', before', same'⟩ := old c v hc
    rw [same, same']
    exact keys b u' c v' before before' key
  · obtain ⟨v, before, same⟩ := old b u there
    rw [same]
    exact value b v before key
  · constructor
    case toBooks =>
      refine ⟨sound.nodup, fun b => (sound.listed b).trans ?_, fun b above => ?_⟩
      · simp only [each]
        split <;> simp
      · have gone := sound.older b above
        simp [each, gone]
    case distinct =>
      intro b u there
      obtain ⟨v, before, same⟩ := old b u there
      exact same ▸ distinct b v before
    case nodes =>
      intro b u there
      obtain ⟨v, before, same⟩ := old b u there
      exact same ▸ nodes b v before
    case earlier =>
      intro b u there e mem
      obtain ⟨v, before, same⟩ := old b u there
      exact earlier b v before e (same ▸ mem)

variable (sound : Sound s) (kept : Kept s last) (here : live a s = some thread)
include sound kept here

theorem exactly_key_create {destructor : Nat} : Exactly True (dce_pthread_key_create thread destructor s).1
    (note (.key_create a destructor) (dce_pthread_key_create thread destructor s).2 last) := by
  unfold dce_pthread_key_create
  split
  next => exact ⟨iff_true_intro kept, fun _ => sound⟩
  next key free =>
    have unused : ∀ b u, live b s = some u → isKeyValid u.keyValues key = false := fun b u there =>
      kept.fresh a b thread u key here there free
    refine exactly_each sound kept (fun b t c u hb hc key' => ?_) (fun b u there key' => ?_)
      (fun b u there => ?_) (fun b u there => ?_) fun b u there e mem => ?_
    · rw [isKeyValid_push, isKeyValid_push, kept.same b c t u hb hc]
    · rw [getValue_push]
      by_cases same : key' = key
      · subst same; simp [note, getValue_of_invalid (unused b u there)]
      · simpa [note, same] using kept.getValue there key'
    · rw [map_append, nodup_append]
      refine ⟨sound.distinct b u there, by simp, fun k inside k' new same => ?_⟩
      obtain ⟨e, mem, rfl⟩ := mem_map.mp inside
      obtain rfl : k' = key := by simpa using new
      have valid := isKeyValid_iff.mpr ⟨e, mem, same⟩
      simp [unused b u there] at valid
    · rw [map_append, nodup_append]
      refine ⟨sound.nodes b u there, by simp, fun n inside n' new same => ?_⟩
      obtain ⟨e, mem, rfl⟩ := mem_map.mp inside
      obtain rfl : n' = s.nextNode := by simpa using new
      exact absurd (sound.earlier b u there e mem) (by omega)
    · rcases mem_append.mp mem with old | new
      · exact (sound.earlier b u there e old).trans (Nat.lt_succ_self _)
      · obtain rfl := mem_singleton.mp new
        exact Nat.lt_succ_self _

omit here in
theorem exactly_key_delete : Exactly (isKeyValid thread.keyValues key = true →
      ∀ b ∈ s.threads, ∀ t, s.heap b = some t → isKeyValid t.keyValues key = true)
    (dce_pthread_key_delete thread key s).1
    (note (.key_delete a key) (dce_pthread_key_delete thread key s).2 last) := by
  have all_iff : (s.threads.all fun b => (s.heap b).all fun thread => isKeyValid thread.keyValues key) = true ↔
      ∀ b ∈ s.threads, ∀ t, s.heap b = some t → isKeyValid t.keyValues key = true := by
    rw [List.all_eq_true]
    refine forall₂_congr fun b _ => ?_
    cases s.heap b <;> simp
  unfold dce_pthread_key_delete
  split
  next valid =>
    split
    next found =>
      have exactly : Exactly True { s.each (·.eraseP fun e => e.key = key) with nextNode := s.nextNode }
          (fun b => update (last b) key 0) := by
        refine exactly_each sound kept (fun b t c u hb hc key' => ?_) (fun b u there key' => ?_)
          (fun b u there => ?_) (fun b u there => ?_) fun b u there e mem => ?_
        · rw [isKeyValid_eraseP (sound.distinct b t hb), isKeyValid_eraseP (sound.distinct c u hc),
            kept.same b c t u hb hc]
        · rw [getValue_eraseP (sound.distinct b u there)]
          by_cases same : key' = key
          · subst same; simp
          · simpa [same] using kept.getValue there key'
        · exact (eraseP_sublist.map _).nodup (sound.distinct b u there)
        · exact (eraseP_sublist.map _).nodup (sound.nodes b u there)
        · exact sound.earlier b u there e (mem_of_mem_eraseP mem)
      have careful := all_iff.mp found
      exact ⟨⟨fun _ _ => careful, fun _ => exactly.1.mpr trivial⟩, fun _ => exactly.2 trivial⟩
    next missing =>
      refine ⟨⟨fun kept' => absurd kept'.intact (by simp [crash]), fun careful =>
        absurd (all_iff.mpr (careful valid)) missing⟩,
        fun careful => absurd (all_iff.mpr (careful valid)) missing⟩
  next invalid =>
    exact ⟨⟨fun _ valid => absurd valid invalid, fun _ => kept⟩, fun _ => sound⟩

end

theorem exactly_delete (sound : Sound s) (kept : Kept s last) : Exactly True (DeleteThread a s) last := by
  have old : ∀ b u, live b (DeleteThread a s) = some u → live b s = some u := by
    intro b u there
    rw [live_delete] at there
    split at there
    next => cases there
    next => exact there
  exact exactly_of_old sound kept sound.toBooks.delete rfl rfl (fun b u there => ⟨b, u, old b u there, rfl, rfl⟩)
    fun b u there => kept.value b u (old b u there)

theorem exactly_teardown (kept : Kept s last) : Exactly True (teardown s) last := by
  have nobody : ∀ b u, live b (teardown s) ≠ some u := fun b u there => by simp [live, teardown] at there
  refine ⟨iff_true_intro (.intro kept.intact (fun b c u v hb => absurd hb (nobody b u))
    fun b u there => absurd there (nobody b u)), fun _ => ?_⟩
  constructor
  case toBooks => exact ⟨nodup_nil, fun b => by simp [teardown], fun _ _ => rfl⟩
  case distinct => exact fun b u there => absurd there (nobody b u)
  case nodes => exact fun b u there => absurd there (nobody b u)
  case earlier => exact fun b u there => absurd there (nobody b u)

theorem exactly_exited (sound : Sound s) (kept : Kept s last) (here : (s.heap a).isSome) (gone : t.exited = true) :
    Exactly True (s.put a t) last := by
  have old : ∀ b u, live b (s.put a t) = some u → live b s = some u := by
    intro b u there
    rw [live_put] at there
    split at there
    next => cases there
    next => exact there
  exact exactly_of_old sound kept (sound.toBooks.put here) rfl rfl (fun b u there => ⟨b, u, old b u there, rfl, rfl⟩)
    fun b u there => kept.value b u (old b u there)

theorem exactly_create (sound : Sound s) (kept : Kept s last) (here : live a s = some thread) :
    Exactly (∀ first, s.threads.head?.bind s.heap = some first → first.exited = false) (dce_pthread_create s).1
      (note (.create a) (dce_pthread_create s).2 last) := by
  have mem : a ∈ s.threads := (sound.listed a).mpr ((live_iff.mp here).1 ▸ rfl)
  obtain ⟨h, others, list⟩ := exists_cons_of_ne_nil (ne_nil_of_mem mem)
  obtain ⟨first, atFirst⟩ := isSome_iff_exists.mp ((sound.listed h).mp (list ▸ mem_cons_self))
  have old : h ≠ s.nextThread := fun same => by
    rw [sound.older h same.ge] at atFirst
    cases atFirst
  have head : s.threads.head?.bind s.heap = some first := by rw [list]; exact atFirst
  have head' : (CreateThread s).threads.head?.bind (CreateThread s).heap = some first := by
    simp [CreateThread, put, list, old, atFirst]
  have books : Books (CreateThread s) := by
    have fresh : s.nextThread ∉ s.threads := fun inside => by
      have present := (sound.listed _).mp inside
      rw [sound.older _ le_rfl] at present
      cases present
    refine ⟨?_, fun b => ?_, fun b above => ?_⟩
    · exact nodup_append.mpr ⟨sound.nodup, by simp, fun x inside y new same => by
        obtain rfl : y = s.nextThread := by simpa [put] using new
        exact fresh (same ▸ inside)⟩
    · by_cases same : b = s.nextThread
      · subst same; simp [CreateThread, put]
      · simpa [CreateThread, put, same] using sound.listed b
    · have above : s.nextThread + 1 ≤ b := above
      have ne : b ≠ s.nextThread := by omega
      simpa [CreateThread, put, ne] using sound.older b (by omega)
  unfold dce_pthread_create
  dsimp only
  rw [head']
  dsimp only
  split
  next gone =>
    exact ⟨⟨fun kept' => absurd kept'.intact (by simp [crash]), fun careful =>
      absurd (careful first head) (by simp [gone])⟩,
      fun careful => absurd (careful first head) (by simp [gone])⟩
  next runs =>
    have atFirst' : live h s = some first := live_iff.mpr ⟨atFirst, by simpa using runs⟩
    have exactly : Exactly True (CreateThread s) (update last s.nextThread fun _ => 0) := by
      refine exactly_of_old sound kept books rfl rfl (fun b u there => ?_) fun b u there key => ?_
      · rw [live_create, head] at there
        split at there
        · cases there
          exact ⟨h, first, atFirst', by simp [List.map_map, comp_def], by simp [List.map_map, comp_def]⟩
        next => exact ⟨b, u, there, rfl, rfl⟩
      · rw [live_create] at there
        split at there
        next same =>
          cases there
          rw [same, update_self]
          exact getValue_reset
        next other =>
          rw [update_of_ne other]
          exact kept.value b u there key
    refine ⟨iff_of_true (exactly.1.mpr trivial) fun first' same => ?_, fun _ => exactly.2 trivial⟩
    rw [head] at same
    exact some.inj same ▸ by simpa using runs

section

/-- Where `CleanupPthreadKeys` has come to its end in `dce_exit` and there are exit handlers to run or the flush
waits, the thread has no values any more, and either no keys or the process to itself. -/
def Leaves (a : Nat) (thread : Thread) (exit : Exit) (waits : Bool) (rest : List ThreadKeyValue)
    (s : Process) : Prop :=
  exit = .dce_exit → rest.find? isDue = none → s.atExitHandlers ≠ 0 ∨ waits = true →
    (∀ e ∈ thread.keyValues, e.value = 0) ∧ (thread.keyValues = [] ∨ ∀ b, (live b s).isSome → b = a)

variable (sound : Sound s) (kept : Kept s last) (here : live a s = some thread)
include sound kept here

theorem exactly_cleared (n : Nat) (stage : Stage) : Exactly
    ((∀ e ∈ thread.keyValues, e.value = 0) ∧ (thread.keyValues = [] ∨ ∀ b, (live b s).isSome → b = a))
    { s.put a { thread with keyValues := [], stage := stage } with atExitHandlers := n } last := by
  let t : Thread := { thread with keyValues := [], stage := stage }
  have runs : t.exited = false := (live_iff.mp here).2
  have look : ∀ b, live b { s.put a t with atExitHandlers := n } = if b = a then some t else live b s := fun b => by
    have put := live_put (a := a) (b := b) (t := t) (s := s)
    rw [runs] at put
    exact put
  have cleared : ∀ key, getValue thread.keyValues key = 0 → last a key = 0 := fun key zero =>
    (kept.getValue here key).symm.trans zero
  constructor
  · constructor
    · intro kept'
      refine ⟨fun e mem => ?_, or_iff_not_imp_left.mpr fun some_key b runs => ?_⟩
      · have before := kept.getValue here e.key
        have after := kept'.getValue ((look a).trans (if_pos rfl)) e.key
        rw [getValue_of_mem (sound.distinct a thread here) mem] at before
        exact before.trans after.symm
      · by_contra other
        obtain ⟨u, there⟩ := isSome_iff_exists.mp runs
        obtain ⟨e, mem⟩ := exists_mem_of_ne_nil _ some_key
        have valid : isKeyValid thread.keyValues e.key = true := isKeyValid_iff.mpr ⟨e, mem, rfl⟩
        have before := kept.same b a u thread there here e.key
        have after :=
          kept'.same b a u t ((look b).trans ((if_neg other).trans there)) ((look a).trans (if_pos rfl)) e.key
        rw [valid] at before
        rw [before] at after
        cases after
    · rintro ⟨zero, apart⟩
      have none : ∀ key, getValue thread.keyValues key = 0 := fun key => by
        by_cases valid : isKeyValid thread.keyValues key = true
        · obtain ⟨e, mem, same⟩ := isKeyValid_iff.mp valid
          rw [← same, getValue_of_mem (sound.distinct a thread here) mem, zero e mem]
        · exact getValue_of_invalid (by simpa using valid)
      refine .intro kept.intact (fun b c u v hb hc key => ?_) fun b u there key => ?_
      · rw [look] at hb hc
        rcases apart with empty | alone
        · -- the thread had no keys before either
          have old : ∀ b u, (if b = a then some t else live b s) = some u →
              ∃ v, live b s = some v ∧ u.keyValues = v.keyValues := by
            intro b u there
            split at there
            next same => exact ⟨thread, same ▸ here, (some.inj there) ▸ empty.symm⟩
            next => exact ⟨u, there, rfl⟩
          obtain ⟨u', before, same⟩ := old b u hb
          obtain ⟨v', before', same'⟩ := old c v hc
          rw [same, same']
          exact kept.same b c u' v' before before' key
        · have only : ∀ b u, (if b = a then some t else live b s) = some u → u = t := by
            intro b u there
            split at there
            next => exact (some.inj there).symm
            next other => exact absurd (alone b (there ▸ rfl)) other
          rw [only b u hb, only c v hc]
      · rw [look] at there
        split at there
        next same =>
          cases there
          rw [same]
          exact (cleared key (none key)).symm
        next => exact kept.value b u there key
  · intro _
    have books := sound.toBooks.put (t := t) ((live_iff.mp here).1 ▸ rfl : (s.heap a).isSome)
    have old : ∀ b u, (if b = a then some t else live b s) = some u → u.keyValues = [] ∨ live b s = some u := by
      intro b u there
      split at there
      next => exact .inl ((some.inj there) ▸ rfl)
      next => exact .inr there
    constructor
    case toBooks => exact ⟨books.nodup, books.listed, books.older⟩
    case distinct =>
      intro b u there
      rcases old b u ((look b).symm.trans there) with empty | before
      · simp [empty]
      · exact sound.distinct b u before
    case nodes =>
      intro b u there
      rcases old b u ((look b).symm.trans there) with empty | before
      · simp [empty]
      · exact sound.nodes b u before
    case earlier =>
      intro b u there
      rcases old b u ((look b).symm.trans there) with empty | before
      · simp [empty]
      · exact sound.earlier b u before

theorem exactly_flush (waits : Bool) : Exactly True (flush a thread waits s) last := by
  unfold flush
  split
  · exact exactly_put sound kept here (live_iff.mp here).2 rfl rfl (fun key => kept.getValue here key) fun _ _ => rfl
  · exact exactly_teardown kept

theorem exactly_cleanup {exit : Exit} {waits : Bool} {rest : List ThreadKeyValue} {label : Label}
    (inside : ∀ e ∈ rest, e ∈ thread.keyValues)
    (destroys : ∀ key v, note label (.destroys key v) last = update last a (update (last a) key 0))
    (done : note label .done last = last) : Exactly (Leaves a thread exit waits rest s)
      (cleanup a thread exit waits rest s).1 (note label (cleanup a thread exit waits rest s).2 last) := by
  have free : ∀ {s' : Process} {last'}, Leaves a thread exit waits rest s → Exactly True s' last' →
      Exactly (Leaves a thread exit waits rest s) s' last' := fun leaves exactly =>
    ⟨iff_of_true (exactly.1.mpr trivial) leaves, fun _ => exactly.2 trivial⟩
  unfold cleanup
  cases due : rest.find? isDue with
  | some e =>
    rw [destroys]
    exact free (fun _ none => by rw [due] at none; cases none)
      (exactly_reset sound kept here (inside e (mem_of_find?_eq_some due)))
  | none =>
    rw [done]
    cases exit with
    | pthread_exit =>
      refine free (fun wrong => by cases wrong) ?_
      simp only [finish]
      split
      · exact exactly_delete sound kept
      · exact exactly_exited sound kept ((live_iff.mp here).1 ▸ rfl) rfl
    | dce_exit =>
      have leaves_iff (goes_on : s.atExitHandlers ≠ 0 ∨ waits = true) : Leaves a thread .dce_exit waits rest s ↔
          (∀ e ∈ thread.keyValues, e.value = 0) ∧ (thread.keyValues = [] ∨ ∀ b, (live b s).isSome → b = a) :=
        ⟨fun leaves => leaves rfl due goes_on, fun holds _ _ _ => holds⟩
      simp only [finish]
      cases handlers : s.atExitHandlers with
      | zero =>
        cases waits with
        | false =>
          refine free (fun _ _ goes_on => ?_) (exactly_teardown kept)
          rcases goes_on with some | waits
          · exact absurd handlers some
          · cases waits
        | true =>
          have exactly := exactly_cleared sound kept here s.atExitHandlers .flushing
          exact ⟨exactly.1.trans (leaves_iff (.inr rfl)).symm, fun leaves =>
            exactly.2 ((leaves_iff (.inr rfl)).mp leaves)⟩
      | succ n =>
        have goes_on : s.atExitHandlers ≠ 0 ∨ waits = true := .inl (by omega)
        have exactly := exactly_cleared sound kept here n .handler
        exact ⟨exactly.1.trans (leaves_iff goes_on).symm, fun leaves => exactly.2 ((leaves_iff goes_on).mp leaves)⟩

end

/-- What is asked of a call of a thread that can run: a thread is created while the first one of the list has
not exited, a key is deleted when every thread of the list has it, a destructor comes back while its key is
there, and a thread has `Leaves` where it goes on to the exit handlers and to the flush. -/
def CarefulCall (thread : Thread) (s : Process) : Label → Prop
  | .create _ => ∀ first, s.threads.head?.bind s.heap = some first → first.exited = false
  | .key_delete _ key => isKeyValid thread.keyValues key = true →
      ∀ b ∈ s.threads, ∀ t, s.heap b = some t → isKeyValid t.keyValues key = true
  | .dce_exit a waits => Leaves a thread .dce_exit waits thread.keyValues s
  | .pthread_exit a waits => s.threads.length = 1 → Leaves a thread .dce_exit waits thread.keyValues s
  | .proceed a waits => ∀ node exit, thread.stage = .destructor node exit →
      (thread.keyValues.any fun e => e.node = node) = true ∧
      Leaves a thread exit waits (afterNode node thread.keyValues) s
  | _ => True

def Careful (s : Process) (label : Label) : Prop :=
  ∀ thread, live label.caller s = some thread → CarefulCall thread s label

theorem exactly_call {label : Label} {r : Process × Result} (sound : Sound s) (kept : Kept s last)
    (here : live label.caller s = some thread) (does : call thread s label = some r) :
    Exactly (CarefulCall thread s label) r.1 (note label r.2 last) := by
  cases label with
  | create a =>
    obtain rfl : dce_pthread_create s = r := some.inj does
    exact exactly_create sound kept here
  | key_create a destructor =>
    obtain rfl : dce_pthread_key_create thread destructor s = r := some.inj does
    exact exactly_key_create sound kept here
  | key_delete a key =>
    obtain rfl : dce_pthread_key_delete thread key s = r := some.inj does
    exact exactly_key_delete sound kept
  | setspecific a key v =>
    obtain rfl : dce_pthread_setspecific a thread key v s = r := some.inj does
    exact exactly_setspecific sound kept here
  | getspecific a key =>
    obtain rfl : (s, Result.value (dce_pthread_getspecific thread key)) = r := some.inj does
    exact ⟨iff_true_intro kept, fun _ => sound⟩
  | pthread_exit a waits =>
    obtain rfl : dce_pthread_exit a thread waits s = r := some.inj does
    have cleans : ∀ exit, Exactly (Leaves a thread exit waits thread.keyValues s)
        (cleanup a thread exit waits thread.keyValues s).1
        (note (.pthread_exit a waits) (cleanup a thread exit waits thread.keyValues s).2 last) := fun exit =>
      exactly_cleanup sound kept here (fun _ => id) (fun _ _ => rfl) rfl
    unfold dce_pthread_exit
    split
    next last_one =>
      have exactly := cleans .dce_exit
      have leaves_iff : CarefulCall thread s (.pthread_exit a waits) ↔
          Leaves a thread .dce_exit waits thread.keyValues s :=
        ⟨fun careful => careful last_one, fun leaves _ => leaves⟩
      exact ⟨exactly.1.trans leaves_iff.symm, fun careful => exactly.2 (leaves_iff.mp careful)⟩
    next others =>
      have leaves : Leaves a thread .pthread_exit waits thread.keyValues s := fun wrong => by cases wrong
      exact ⟨iff_of_true ((cleans .pthread_exit).1.mpr leaves) fun last_one => absurd last_one others,
        fun _ => (cleans .pthread_exit).2 leaves⟩
  | dce_exit a waits =>
    obtain rfl : dce_exit a thread waits s = r := some.inj does
    exact exactly_cleanup sound kept here (fun _ => id) (fun _ _ => rfl) rfl
  | proceed a waits =>
    replace does : proceed a thread waits s = some r := does
    unfold proceed at does
    cases stage : thread.stage with
    | program => rw [stage] at does; cases does
    | destructor node exit =>
      rw [stage] at does
      dsimp only at does
      split at does
      next present =>
        cases does
        have exactly : Exactly (Leaves a thread exit waits (afterNode node thread.keyValues) s)
            (cleanup a thread exit waits (afterNode node thread.keyValues) s).1
            (note (.proceed a waits) (cleanup a thread exit waits (afterNode node thread.keyValues) s).2 last) :=
          exactly_cleanup sound kept here afterNode_subset (fun _ _ => rfl) rfl
        have leaves_iff : CarefulCall thread s (.proceed a waits) ↔
            Leaves a thread exit waits (afterNode node thread.keyValues) s := by
          constructor
          · exact fun careful => (careful node exit stage).2
          · intro leaves node' exit' same
            rw [stage] at same
            cases same
            exact ⟨present, leaves⟩
        exact ⟨exactly.1.trans leaves_iff.symm, fun careful => exactly.2 (leaves_iff.mp careful)⟩
      next gone =>
        cases does
        have careless : ¬ CarefulCall thread s (.proceed a waits) := fun careful => gone (careful node exit stage).1
        exact ⟨iff_of_false (fun kept' => absurd kept'.intact (by simp [crash])) careless, fun careful =>
          absurd careful careless⟩
    | handler =>
      rw [stage] at does
      have careful : CarefulCall thread s (.proceed a waits) :=
        fun node exit wrong => by rw [stage] at wrong; cases wrong
      dsimp only at does
      split at does
      next =>
        cases does
        have exactly := exactly_flush sound kept here waits
        exact ⟨iff_of_true (exactly.1.mpr trivial) careful, fun _ => exactly.2 trivial⟩
      · cases does
        exact ⟨iff_of_true (.intro kept.intact kept.same kept.value) careful,
          fun _ => ⟨⟨sound.nodup, sound.listed, sound.older⟩, sound.distinct, sound.nodes, sound.earlier⟩⟩
    | flushing =>
      rw [stage] at does
      have careful : CarefulCall thread s (.proceed a waits) :=
        fun node exit wrong => by rw [stage] at wrong; cases wrong
      cases does
      have exactly := exactly_flush sound kept here waits
      exact ⟨iff_of_true (exactly.1.mpr trivial) careful, fun _ => exactly.2 trivial⟩
  | join a b =>
    obtain ⟨other, there, does⟩ := bind_eq_some_iff.mp does
    obtain ⟨-, same⟩ := ite_none_right_eq_some.mp does
    cases same
    exact exactly_delete sound kept
  | detach a b =>
    obtain ⟨other, there, does⟩ := bind_eq_some_iff.mp does
    cases does
    by_cases gone : other.exited = true
    · exact exactly_exited sound kept (there ▸ rfl) gone
    · have runs : live b s = some other := live_iff.mpr ⟨there, by simpa using gone⟩
      exact exactly_put sound kept runs (by simpa using gone) rfl rfl
        (fun key => show getValue other.keyValues key = _ from kept.getValue runs key) fun _ _ => rfl
  | atexit a =>
    cases does
    exact ⟨iff_true_intro (.intro kept.intact kept.same kept.value),
      fun _ => ⟨⟨sound.nodup, sound.listed, sound.older⟩, sound.distinct, sound.nodes, sound.earlier⟩⟩

/-- What is known of a run: what its calls have last written, whether all of them were careful, and whether the
keys were as they should be in all states before the last one. -/
structure Record where
  last : Nat → Nat → Nat
  careful : Prop
  kept : Prop

def Record.start : Record := ⟨fun _ _ => 0, True, True⟩

def Record.note (s : Process) (label : Label) (k : Record) : Record where
  last := (respond s label).elim k.last fun r => Keys.note label r.2 k.last
  careful := k.careful ∧ Careful s label
  kept := k.kept ∧ Kept s k.last

theorem keyValues_start (here : live a start = some t) : t.keyValues = [] := by
  obtain ⟨here, -⟩ := live_iff.mp here
  simp only [start] at here
  split at here
  next => exact (some.inj here) ▸ rfl
  next => cases here

theorem kept_start : Kept start fun _ _ => 0 := by
  refine .intro rfl (fun a b t u ha hb key => ?_) fun a t there key => ?_
  · rw [keyValues_start ha, keyValues_start hb]
  · rw [keyValues_start there]; rfl

theorem sound_start : Sound start where
  nodup := by simp [start]
  listed a := by by_cases main : a = 0 <;> simp [start]
  older a above := by
    have other : a ≠ 0 := by
      have above : 1 ≤ a := above
      omega
    simp [start, other]
  distinct a t here := by simp [keyValues_start here]
  nodes a t here := by simp [keyValues_start here]
  earlier a t here := by simp [keyValues_start here]

/-- All along a run the keys and the values of the threads are as they should be exactly if every call of it is
careful. -/
theorem kept_iff_careful {k : Record} (reach : (machine.ledgered .start Record.note).Reach (s, k)) :
    (k.kept ∧ Kept s k.last) ↔ k.careful := by
  have so_far : ((k.kept ∧ Kept s k.last) ↔ k.careful) ∧ (k.careful → Sound s) := by
    refine reach.invariant
      (I := fun p : Process × Record => ((p.2.kept ∧ Kept p.1 p.2.last) ↔ p.2.careful) ∧ (p.2.careful → Sound p.1))
      (fun p first => ?_) fun p label q before _ run => ?_
    · obtain ⟨process, record⟩ := first
      rw [process, record]
      exact ⟨iff_of_true ⟨trivial, kept_start⟩ trivial, fun _ => sound_start⟩
    · obtain ⟨step, noted⟩ := Machine.ledgered_step run
      obtain ⟨r, does, same⟩ := map_eq_some_iff.mp step
      obtain ⟨kept_iff, sound⟩ := before
      obtain ⟨-, called⟩ := ite_none_right_eq_some.mp does
      obtain ⟨thread, here, does'⟩ := bind_eq_some_iff.mp called
      rw [noted, ← same]
      simp only [Record.note, does, elim_some]
      by_cases careful : p.2.careful
      · have exactly := exactly_call (sound careful) (kept_iff.mpr careful).2 here does'
        have careful_iff : Careful p.1 label ↔ CarefulCall thread p.1 label :=
          ⟨fun all => all thread here, fun one t there => some.inj (here.symm.trans there) ▸ one⟩
        refine ⟨?_, fun all => exactly.2 (careful_iff.mp all.2)⟩
        rw [careful_iff, ← exactly.1, kept_iff]
      · exact ⟨iff_of_false (fun all => careful (kept_iff.mp all.1)) fun all => careful all.1, fun all =>
          absurd all.1 careful⟩
  exact so_far.1

/-- A key, a second thread that writes its value and exits, and a join. -/
theorem kept_after_join : ∃ p : Process × Record, (machine.ledgered .start Record.note).replay (start, .start)
    [.key_create 0 0, .create 0, .setspecific 1 2 7, .pthread_exit 1 false, .join 0 1] = some p ∧
    Kept p.1 p.2.last := by
  let M := machine.ledgered .start Record.note
  have run : M.replay (start, .start) [.key_create 0 0, .create 0, .setspecific 1 2 7, .pthread_exit 1 false,
    .join 0 1] = some _ := rfl
  have first : M.Reach (start, .start) := .start ⟨rfl, rfl⟩
  have reach := first.replay (fun _ _ => trivial) run
  refine ⟨_, rfl, ((kept_iff_careful reach).mpr ?_).2⟩
  refine ⟨⟨⟨⟨⟨trivial, fun _ _ => trivial⟩, fun t there first atFirst => ?_⟩, fun _ _ => trivial⟩,
    fun t there more => ?_⟩,
    fun _ _ => trivial⟩
  · cases atFirst; rfl
  · cases more

/-- While the main thread is in an exit handler another thread creates one, which has no keys. -/
theorem not_kept : ¬ ∀ s a b t u key, machine.Reach s → s.fault = none → live a s = some t → live b s = some u →
    isKeyValid t.keyValues key = isKeyValid u.keyValues key := by
  intro same
  have run : machine.replay start [.atexit 0, .key_create 0 0, .create 0, .dce_exit 0 false,
    .create 1] = some _ := rfl
  have first : machine.Reach start := .start rfl
  have reach := first.replay (fun _ _ => trivial) run
  have valid := same _ 1 2 _ _ 2 reach rfl rfl rfl
  exact absurd valid (by decide)

end Dce.Keys
