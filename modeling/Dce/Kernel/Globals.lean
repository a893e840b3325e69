import Dce.Loader.Privacy

/- The kernel stacks of the nodes share one library, which has the variables of one node at a time in its data
section. The tasks and the main loop enter its code, leave it, wait in it, and come back to it. -/

namespace Dce.Kernel

open Dce.Loader

/-- The switch notifier of a task of an application restores what the loader of the process has loaded, that of a
kernel task what the `m_loader` of its node has. -/
inductive Role
  | application (loader : Nat)
  | kernel
  deriving DecidableEq, Repr

/-- Every task is on one of the nodes. `booted` is the node whose stack was initialized last. -/
structure Net where
  library : Nat
  nodes : Nat
  booted : Nat
  m_loader : Nat → Nat
  apart : ∀ n m, m_loader n = m_loader m → n = m
  role : Nat → Role
  node : Nat → Nat
  onNode : ∀ t, node t < nodes

/-- The stack of a task: whether the kernel code of its node is what runs, and the same for what signal handlers have
interrupted. -/
structure Stack where
  kernel : Bool
  below : List Bool
  deriving DecidableEq, Repr

/-- The stack of the main loop: the node whose kernel code runs there. `below` has what waits for a `SendMain` to
return, and the task that waits for it, if it is not the main loop itself. -/
structure MainStack where
  kernel : Option Nat
  below : List (Option Nat × Option Nat)
  deriving DecidableEq, Repr

inductive Control
  | main (stack : MainStack)
  | task (t : Nat)
  deriving DecidableEq, Repr

structure State (D : Type*) where
  system : System D
  control : Control
  stackOf : Nat → Stack
  active : Nat → Bool

variable {D : Type*}

def idle : Stack := ⟨false, []⟩

def mainLoop : Control := .main ⟨none, []⟩

/-- The node in whose kernel code control is. -/
def inKernel (net : Net) (s : State D) : Option Nat :=
  match s.control with
  | .main stack => stack.kernel
  | .task t => if (s.stackOf t).kernel then some (net.node t) else none

def State.setStack (t : Nat) (stack : Stack) (s : State D) : State D :=
  { s with stackOf := Function.update s.stackOf t stack }

/-- `m_loader->NotifyStartExecute ()`. -/
def State.restore (net : Net) (n : Nat) (s : State D) : State D :=
  { s with system := NotifyStartExecute (net.m_loader n) s.system }

/-- What the switch notifier does. -/
def State.notify (net : Net) (t : Nat) (s : State D) : State D :=
  match net.role t with
  | .application loader => { s with system := NotifyStartExecute loader s.system }
  | .kernel => s.restore net (net.node t)

/-- `enter` is the begin of a socket call, or of a kernel task that was made by `ScheduleTask`; `taskStart` makes a
task that begins in the kernel code. `wait` is `TaskWait`, or any other `Sleep`. -/
inductive Label
  | enter
  | leave
  | wait
  | yield
  | wakeup (t : Nat)
  | taskStart (t : Nat)
  | scheduleTask (t : Nat)
  | dispatch (t : Nat) (signal : Bool)
  | handled
  | devXmit
  | sent
  | eventTrampoline (n : Nat)
  | rxFromDevice (n : Nat)
  deriving DecidableEq, Repr

def enter (net : Net) (s : State D) : Option (State D) :=
  match s.control with
  | .main _ => none
  | .task t =>
    if (s.stackOf t).kernel then none
    else some ((s.restore net (net.node t)).setStack t { s.stackOf t with kernel := true })

/-- The kernel code returns. -/
def leave (s : State D) : Option (State D) :=
  match s.control with
  | .main stack => if stack.kernel = none then none
      else some { s with control := .main { stack with kernel := none } }
  | .task t => if (s.stackOf t).kernel then some (s.setStack t { s.stackOf t with kernel := false }) else none

/-- The current task goes back to the main loop. -/
def goToMain (again : Bool) (s : State D) : Option (State D) :=
  match s.control with
  | .main _ => none
  | .task t => some { s with control := mainLoop, active := Function.update s.active t again }

def make (t : Nat) (kernel : Bool) (s : State D) : Option (State D) :=
  if s.stackOf t = idle ∧ s.active t = false then
    some { s.setStack t ⟨kernel, []⟩ with active := Function.update s.active t true }
  else none

def taskStart (net : Net) (t : Nat) (s : State D) : Option (State D) :=
  if net.role t = .kernel ∧ inKernel net s = some (net.node t) then make t true s else none

def scheduleTask (net : Net) (t : Nat) (s : State D) : Option (State D) :=
  if net.role t = .kernel then make t false s else none

/-- `Schedule` leaves the main loop. The notifier of the task is called, and where signals are pending the handlers
run before `Sleep` or `Yield` returns. -/
def dispatch (net : Net) (t : Nat) (signal : Bool) (s : State D) : Option (State D) :=
  if s.control = mainLoop ∧ s.active t = true ∧ (signal = true → net.role t ≠ .kernel) then
    let s := s.notify net t
    let s := if signal then s.setStack t ⟨false, (s.stackOf t).kernel :: (s.stackOf t).below⟩ else s
    some { s with control := .task t }
  else none

/-- A signal handler returns. -/
def handled (s : State D) : Option (State D) :=
  match s.control with
  | .main _ => none
  | .task t =>
    match s.stackOf t with
    | ⟨false, kernel :: below⟩ => some (s.setStack t ⟨kernel, below⟩)
    | _ => none

/-- `ExecOnMain` of `SendMain`. -/
def devXmit (s : State D) : Option (State D) :=
  match s.control with
  | .main stack =>
    if stack.kernel = none then none
    else some { s with control := .main ⟨none, (stack.kernel, none) :: stack.below⟩ }
  | .task t => if (s.stackOf t).kernel then some { s with control := .main ⟨none, [(none, some t)]⟩ } else none

/-- `SendMain` returns to who has called `DevXmit`. -/
def sent (s : State D) : Option (State D) :=
  match s.control with
  | .main ⟨none, (_, some t) :: _⟩ => some { s with control := .task t }
  | .main ⟨none, (kernel, none) :: below⟩ => some { s with control := .main ⟨kernel, below⟩ }
  | _ => none

def eventTrampoline (net : Net) (n : Nat) (s : State D) : Option (State D) :=
  if n < net.nodes ∧ s.control = mainLoop then some { s.restore net n with control := .main ⟨some n, []⟩ } else none

/-- A packet comes with an event of its own, or while a device sends one. -/
def rxFromDevice (net : Net) (n : Nat) (s : State D) : Option (State D) :=
  match s.control with
  | .main ⟨none, below⟩ => if n < net.nodes then some { s.restore net n with control := .main ⟨some n, below⟩ }
      else none
  | _ => none

def step (net : Net) (s : State D) : Label → Option (State D)
  | .enter => enter net s
  | .leave => leave s
  | .wait => goToMain false s
  | .yield => goToMain true s
  | .wakeup t => some { s with active := Function.update s.active t true }
  | .taskStart t => taskStart net t s
  | .scheduleTask t => scheduleTask net t s
  | .dispatch t signal => dispatch net t signal s
  | .handled => handled s
  | .devXmit => devXmit s
  | .sent => sent s
  | .eventTrampoline n => eventTrampoline net n s
  | .rxFromDevice n => rxFromDevice net n s

/-- The data section of the library has the variables of the node. -/
def Own (net : Net) (n : Nat) (system : System D) : Prop :=
  ∃ v b, sectionOf net.library system = some v ∧ buffer (net.m_loader n) net.library system = some b ∧
  v.current_buffer = some b

/-- Each stack has been initialized, and the programs do not load the library. -/
structure Booted (elf : Elf D) (net : Net) (system : System D) : Prop where
  shared : Shared elf (holders system) [] system
  placed : Placed elf system
  loaded : ∀ n, n < net.nodes → ∃ b, buffer (net.m_loader n) net.library system = some b
  programs : ∀ t loader, net.role t = .application loader → buffer loader net.library system = none
  own : Own net net.booted system

def machine (elf : Elf D) (net : Net) : Machine (State D) Label where
  init s := Booted elf net s.system ∧ s.control = mainLoop ∧ s.stackOf = fun _ => idle
  step s a := step net s a

end Dce.Kernel

/- Whose variables the kernel code finds in the data section. -/

namespace Dce.Kernel

open Counted Function Option
open Dce.Loader

variable {D : Type*} {elf : Elf D} {net : Net} {s t : State D} {system : System D}
    {n m loader last : Nat} {a : Label}

section

theorem Own.unique (placed : Placed elf system) (first : Own net n system) (second : Own net m system) : n = m := by
  obtain ⟨v, b, found, mine, now⟩ := first
  obtain ⟨w, c, found', theirs, now'⟩ := second
  cases found.symm.trans found'
  cases now.symm.trans now'
  exact net.apart n m (placed.apart _ _ _ _ b mine theirs).1

/-- The stacks have been initialized, and the library has the variables of the node `last` in its data section. -/
structure Ready (elf : Elf D) (net : Net) (last : Nat) (system : System D) : Prop where
  shared : Shared elf (holders system) [] system
  placed : Placed elf system
  loaded : ∀ n, n < net.nodes → ∃ b, buffer (net.m_loader n) net.library system = some b
  programs : ∀ t loader, net.role t = .application loader → buffer loader net.library system = none
  own : Own net last system

variable (ready : Ready elf net last system)
include ready

theorem Ready.switch (loader : Nat) :
    Shared elf (holders (NotifyStartExecute loader system)) [] (NotifyStartExecute loader system) ∧
      Placed elf (NotifyStartExecute loader system) ∧
      ∀ n b, buffer (net.m_loader n) net.library system = some b →
        (if net.library ∈ ids (modulesOf loader system) then loader else net.m_loader last) = net.m_loader n →
        Own net n (NotifyStartExecute loader system) := by
  obtain ⟨v, b, found, held, now⟩ := ready.own
  let g : Globals D :=
    ⟨none, fun id => if id = net.library then some (net.m_loader last) else none,
      fun other id => (buffer other id system).elim (elf.data id) fun b => contents id b system⟩
  have owners : ∀ other id, g.owner id = some other → other = net.m_loader last ∧ id = net.library :=
    fun other id owner => by
    obtain ⟨here, same⟩ := ite_none_right_eq_some.mp owner
    exact ⟨(some.inj same).symm, here⟩
  have priv : Private elf system g := by
    refine ⟨ready.placed, fun other id b held => ?_, fun other id c owner theirs => ?_, fun other id owner => ?_⟩
    · simp [g, held]
    · obtain ⟨rfl, rfl⟩ := owners other id owner
      exact ⟨v, found, now.trans (held.symm.trans theirs)⟩
    · exact (owners other id owner).1 ▸ mem_of_buffer held
  obtain ⟨shared, after⟩ := priv.start loader ready.shared
  refine ⟨shared, after.placed, fun n c mine owner => ?_⟩
  have theirs : buffer (net.m_loader n) net.library (NotifyStartExecute loader system) = some c :=
    buffer_switchAll.trans mine
  have owns : (g.start loader (ids (modulesOf loader system))).owner net.library = some (net.m_loader n) := by
    rw [← owner]
    by_cases inside : net.library ∈ ids (modulesOf loader system)
    · rw [if_pos inside]
      exact if_pos inside
    · rw [if_neg inside]
      exact (if_neg inside).trans (if_pos rfl)
  obtain ⟨w, seen, current⟩ := after.owned _ _ c owns theirs
  exact ⟨w, c, seen, theirs, current⟩

theorem Ready.restore (node : n < net.nodes) : Ready elf net n (NotifyStartExecute (net.m_loader n) system) := by
  obtain ⟨shared, placed, own⟩ := ready.switch (net.m_loader n)
  obtain ⟨b, held⟩ := ready.loaded n node
  refine ⟨shared, placed, fun m lower => ?_, fun t loader role => ?_, own n b held (if_pos (mem_ids_of_buffer held))⟩
  · obtain ⟨c, theirs⟩ := ready.loaded m lower
    exact ⟨c, buffer_switchAll.trans theirs⟩
  · exact buffer_switchAll.trans (ready.programs t loader role)

theorem Ready.program {t : Nat} (role : net.role t = .application loader) :
    Ready elf net last (NotifyStartExecute loader system) := by
  obtain ⟨shared, placed, own⟩ := ready.switch loader
  obtain ⟨v, b, found, held, now⟩ := ready.own
  have absent : net.library ∉ ids (modulesOf loader system) := fun inside => by
    obtain ⟨c, theirs⟩ := buffer_of_mem_ids inside
    rw [ready.programs t loader role] at theirs
    cases theirs
  refine ⟨shared, placed, fun m lower => ?_, fun t loader role => ?_, own last b held (if_neg absent)⟩
  · obtain ⟨c, theirs⟩ := ready.loaded m lower
    exact ⟨c, buffer_switchAll.trans theirs⟩
  · exact buffer_switchAll.trans (ready.programs t loader role)

end

section

/-- The node whose kernel is entered. -/
def entered (net : Net) (s : State D) : Label → Option Nat
  | .enter =>
    match s.control with
    | .main _ => none
    | .task t => some (net.node t)
  | .dispatch t _ => if net.role t = .kernel then some (net.node t) else none
  | .eventTrampoline n => some n
  | .rxFromDevice n => some n
  | _ => none

/-- The node in whose kernel code control is again: when a task of an application is resumed, when a signal handler
has returned, and when a packet has been sent. -/
def returnsTo (net : Net) (s : State D) : Label → Option Nat
  | .dispatch t signal =>
    if signal = false ∧ net.role t ≠ .kernel ∧ (s.stackOf t).kernel = true then some (net.node t) else none
  | .handled =>
    match s.control with
    | .main _ => none
    | .task t => if (s.stackOf t).below.head? = some true then some (net.node t) else none
  | .sent =>
    match s.control with
    | .main ⟨none, (_, some t) :: _⟩ => if (s.stackOf t).kernel then some (net.node t) else none
    | .main ⟨none, (kernel, none) :: _⟩ => kernel
    | _ => none
  | _ => none

/-- The machine with the node whose kernel was entered last. -/
def watched (elf : Elf D) (net : Net) : Machine (State D × Nat) Label :=
  (machine elf net).ledgered net.booted fun s a last => (entered net s a).getD last

/-- Control comes back to the kernel code of a node only if that kernel was entered last. -/
def Careful (net : Net) (p : State D × Nat) (a : Label) : Prop := ∀ n, returnsTo net p.1 a = some n → n = p.2

/-- After the step, kernel code runs on the variables of its own node. -/
def Good (elf : Elf D) (net : Net) (p : State D × Nat) (a : Label) : Prop :=
  ∀ q, (watched elf net).step p a = some q → ∀ n, inKernel net q.1 = some n → Own net n q.1.system

structure Sound (elf : Elf D) (net : Net) (p : State D × Nat) : Prop where
  ready : Ready elf net p.2 p.1.system
  inside : ∀ n, inKernel net p.1 = some n → n = p.2

/-- What a step does to the data section, and where control is afterwards. -/
structure Steps (elf : Elf D) (net : Net) (p : State D × Nat) (a : Label) (q : State D × Nat) : Prop where
  ready : Ready elf net q.2 q.1.system
  inside : (∀ n, inKernel net q.1 = some n → n = q.2) ↔ Careful net p a

variable {p q : State D × Nat} {k : Nat}

theorem Steps.done (steps : Steps elf net p a q) (run : (watched elf net).step p a = some q) :
    (Good elf net p a ↔ Careful net p a) ∧ (Careful net p a → Sound elf net q) := by
  refine ⟨⟨fun good => steps.inside.mp fun n here => ?_, fun careful q' run' n here => ?_⟩, fun careful =>
    ⟨steps.ready, steps.inside.mpr careful⟩⟩
  · exact (good q run n here).unique steps.ready.placed steps.ready.own
  · cases run.symm.trans run'
    exact (steps.inside.mpr careful n here).symm ▸ steps.ready.own

/-- The label does not return control into kernel code, and control is not in other kernel code than that of the node
that was entered last. -/
theorem Steps.of_inside (ready : Ready elf net q.2 q.1.system) (none : returnsTo net p.1 a = none)
    (inside : ∀ n, inKernel net q.1 = some n → n = q.2) : Steps elf net p a q :=
  ⟨ready, iff_of_true inside fun n wrong => by rw [none] at wrong; cases wrong⟩

theorem inKernel_task (here : s.control = .task k) : inKernel net s = if (s.stackOf k).kernel then some (net.node k)
    else none := by
  rw [inKernel, here]

theorem inKernel_main {stack : MainStack} (here : s.control = .main stack) : inKernel net s = stack.kernel := by
  rw [inKernel, here]

section

variable (sound : Sound elf net (s, last))
include sound

theorem enter_steps (run : enter net s = some t) :
    Steps elf net (s, last) .enter (t, (entered net s .enter).getD last) := by
  rw [enter] at run
  cases here : s.control with
  | main stack => simp only [here] at run; cases run
  | task k =>
    simp only [here] at run
    obtain ⟨-, same⟩ := ite_none_left_eq_some.mp run
    cases same
    have node : entered net s .enter = some (net.node k) := by rw [entered, here]
    rw [node]
    refine .of_inside (sound.ready.restore (net.onNode k)) rfl fun n inside => ?_
    have still : (((s.restore net (net.node k)).setStack k { s.stackOf k with kernel := true }).control) =
      .task k := here
    rw [inKernel_task still] at inside
    exact (ite_none_right_eq_some.mp inside).2.symm ▸ rfl

theorem leave_steps (run : leave s = some t) : Steps elf net (s, last) .leave (t, last) := by
  rw [leave] at run
  cases here : s.control with
  | main stack =>
    simp only [here] at run
    obtain ⟨-, same⟩ := ite_none_left_eq_some.mp run
    cases same
    exact .of_inside sound.ready rfl fun n inside => by cases inside
  | task k =>
    simp only [here] at run
    obtain ⟨-, same⟩ := ite_none_right_eq_some.mp run
    cases same
    refine .of_inside sound.ready rfl fun n inside => ?_
    have still : ((s.setStack k { s.stackOf k with kernel := false }).control) = .task k := here
    have out : (s.setStack k { s.stackOf k with kernel := false }).stackOf k =
      { s.stackOf k with kernel := false } := update_self ..
    rw [inKernel_task still, out] at inside
    cases inside

theorem goToMain_steps {again : Bool} (run : goToMain again s = some t) (none : returnsTo net s a = none) :
    Steps elf net (s, last) a (t, last) := by
  rw [goToMain] at run
  cases here : s.control with
  | main stack => simp only [here] at run; cases run
  | task k =>
    simp only [here] at run
    cases run
    exact .of_inside sound.ready none fun n inside => by cases inside

theorem make_steps {kernel : Bool} (run : make k kernel s = some t)
    (other : kernel = true → s.control ≠ .task k) (none : returnsTo net s a = none) :
    Steps elf net (s, last) a (t, last) := by
  obtain ⟨⟨fresh, -⟩, same⟩ := ite_none_right_eq_some.mp run
  cases same
  refine .of_inside sound.ready none fun n inside => sound.inside n ?_
  cases here : s.control with
  | main stack =>
    rw [inKernel_main here]
    exact inside.symm ▸ (inKernel_main
      (s := { s.setStack k ⟨kernel, []⟩ with active := update s.active k true }) here).symm
  | task j =>
    have still : ({ s.setStack k ⟨kernel, []⟩ with active := update s.active k true } : State D).control =
      .task j := here
    rw [inKernel_task still] at inside
    rw [inKernel_task here]
    have stack : (s.setStack k ⟨kernel, []⟩).stackOf j = update s.stackOf k ⟨kernel, []⟩ j := rfl
    by_cases same : j = k
    · subst same
      rw [stack, update_self] at inside
      cases kernel with
      | true => exact absurd here (other rfl)
      | false => cases inside
    · rwa [stack, update_of_ne same] at inside

theorem taskStart_steps (run : taskStart net k s = some t) : Steps elf net (s, last) (.taskStart k) (t, last) := by
  obtain ⟨⟨-, inside⟩, made⟩ := ite_none_right_eq_some.mp run
  refine make_steps sound made (fun _ here => ?_) rfl
  obtain ⟨⟨fresh, -⟩, -⟩ := ite_none_right_eq_some.mp made
  rw [inKernel_task here, fresh] at inside
  cases inside

theorem dispatch_steps {signal : Bool} (run : dispatch net k signal s = some t) :
    Steps elf net (s, last) (.dispatch k signal) (t, (entered net s (.dispatch k signal)).getD last) := by
  obtain ⟨⟨-, -, programs⟩, same⟩ := ite_none_right_eq_some.mp run
  have notified : ((s.notify net k).stackOf = s.stackOf) ∧ (t.system = (s.notify net k).system) ∧
      t.control = .task k ∧ (t.stackOf k).kernel = if signal then false else (s.stackOf k).kernel := by
    have stack : (s.notify net k).stackOf = s.stackOf := by
      rw [State.notify]
      split <;> rfl
    cases same
    cases signal with
    | true =>
      have out : update (s.notify net k).stackOf k
          ⟨false, ((s.notify net k).stackOf k).kernel :: ((s.notify net k).stackOf k).below⟩ k = _ := update_self ..
      exact ⟨stack, rfl, rfl, congrArg Stack.kernel out⟩
    | false => exact ⟨stack, rfl, rfl, by rw [← stack]; rfl⟩
  obtain ⟨-, system, here, stack⟩ := notified
  have inside : inKernel net t = if signal = false ∧ (s.stackOf k).kernel = true then some (net.node k)
    else none := by
    rw [inKernel_task here, stack]
    cases signal <;> simp
  cases role : net.role k with
  | application loader =>
    have node : entered net s (.dispatch k signal) = none := if_neg (by rw [role]; exact Role.noConfusion)
    have restored : t.system = NotifyStartExecute loader s.system := by rw [system, State.notify, role]
    rw [node]
    refine ⟨?_, forall_congr' fun n => ?_⟩
    · rw [restored]
      exact sound.ready.program role
    · rw [inside, returnsTo, role]
      simp
  | kernel =>
    have node : entered net s (.dispatch k signal) = some (net.node k) := if_pos role
    have restored : t.system = NotifyStartExecute (net.m_loader (net.node k)) s.system := by
      rw [system, State.notify, role]
      rfl
    rw [node]
    refine .of_inside ?_ ?_ fun n here => ?_
    · rw [restored]
      exact sound.ready.restore (net.onNode k)
    · rw [returnsTo, role]
      simp
    · rw [inside] at here
      exact (some.inj (ite_none_right_eq_some.mp here).2).symm

theorem handled_steps (run : handled s = some t) : Steps elf net (s, last) .handled (t, last) := by
  rw [handled] at run
  cases here : s.control with
  | main stack => simp only [here] at run; cases run
  | task k =>
    simp only [here] at run
    split at run
    next kernel below stack =>
      cases run
      refine ⟨sound.ready, forall_congr' fun n => ?_⟩
      have still : (s.setStack k ⟨kernel, below⟩).control = .task k := here
      have out : (s.setStack k ⟨kernel, below⟩).stackOf k = ⟨kernel, below⟩ := update_self ..
      rw [inKernel_task still, out, returnsTo, here]
      simp [stack]
    next => cases run

theorem devXmit_steps (run : devXmit s = some t) : Steps elf net (s, last) .devXmit (t, last) := by
  rw [devXmit] at run
  cases here : s.control with
  | main stack =>
    simp only [here] at run
    obtain ⟨-, same⟩ := ite_none_left_eq_some.mp run
    cases same
    exact .of_inside sound.ready rfl fun n inside => by cases inside
  | task k =>
    simp only [here] at run
    obtain ⟨-, same⟩ := ite_none_right_eq_some.mp run
    cases same
    exact .of_inside sound.ready rfl fun n inside => by cases inside

theorem sent_steps (run : sent s = some t) : Steps elf net (s, last) .sent (t, last) := by
  rw [sent] at run
  split at run
  next kernel k below here =>
    cases run
    refine ⟨sound.ready, forall_congr' fun n => ?_⟩
    rw [inKernel_task (k := k) rfl, returnsTo, here]
  next kernel below here =>
    cases run
    refine ⟨sound.ready, forall_congr' fun n => ?_⟩
    have back : inKernel net { s with control := .main ⟨kernel, below⟩ } = kernel := rfl
    rw [back, returnsTo, here]
  next => cases run

end

theorem watched_step (sound : Sound elf net p) (run : (watched elf net).step p a = some q) :
    Steps elf net p a q := by
  obtain ⟨s, last⟩ := p
  obtain ⟨t, last'⟩ := q
  obtain ⟨step, noted⟩ := Machine.ledgered_step run
  subst noted
  cases a with
  | enter => exact enter_steps sound step
  | leave => exact leave_steps sound step
  | wait => exact goToMain_steps sound step rfl
  | yield => exact goToMain_steps sound step rfl
  | wakeup k =>
    cases step
    exact .of_inside sound.ready rfl sound.inside
  | taskStart k => exact taskStart_steps sound step
  | scheduleTask k =>
    obtain ⟨-, made⟩ := ite_none_right_eq_some.mp step
    exact make_steps sound made (fun wrong => by cases wrong) rfl
  | dispatch k signal => exact dispatch_steps sound step
  | handled => exact handled_steps sound step
  | devXmit => exact devXmit_steps sound step
  | sent => exact sent_steps sound step
  | eventTrampoline n =>
    obtain ⟨⟨node, -⟩, same⟩ := ite_none_right_eq_some.mp step
    cases same
    exact .of_inside (sound.ready.restore node) rfl fun m inside => (some.inj inside).symm
  | rxFromDevice n =>
    have step : rxFromDevice net n s = some t := step
    rw [rxFromDevice] at step
    split at step
    next below here =>
      obtain ⟨node, same⟩ := ite_none_right_eq_some.mp step
      cases same
      exact .of_inside (sound.ready.restore node) rfl fun m inside => (some.inj inside).symm
    next => cases step

/-- In every run, kernel code always runs on the variables of its own node if and only if control never comes back to
kernel code after the kernel of another node has been entered. -/
theorem good_iff_careful {p : State D × Nat} {k : Machine.Verdict}
    (reach : ((watched elf net).judged (Careful net) (Good elf net)).Reach (p, k)) : k.good ↔ k.careful := by
  refine Machine.judged_iff (Sound elf net) (fun p first => ?_) (fun p a q sound run =>
    (watched_step sound run).done run) reach
  obtain ⟨⟨booted, control, -⟩, last⟩ := first
  refine ⟨?_, fun n inside => ?_⟩
  · rw [last]
    exact ⟨booted.shared, booted.placed, booted.loaded, booted.programs, booted.own⟩
  · rw [inKernel_main control] at inside
    cases inside

theorem alone (_ : Nat) : ∀ d ∈ ([] : List Nat), 0 < 0 := by
  rintro _ ⟨⟩

/-- A library that depends on nothing. -/
def linux : Elf Nat where
  gather file := if file = "liblinux.so" then [0] else []
  deps _ := []
  data _ := 0
  rank _ := 0
  acyclic := alone
  ordered _ _ _ _ _ _ member := by cases member
  needed file id member := by
    refine Or.inl ?_
    split at member
    next here => rw [if_pos here, List.mem_singleton.mp member, List.getLast?_singleton]
    next => cases member

/-- Two nodes, and a program on the first of them. -/
def twoNodes : Net where
  library := 0
  nodes := 2
  booted := 1
  m_loader n := n
  apart _ _ same := same
  role _ := .application 2
  node _ := 0
  onNode _ := by decide

def bootedNodes : State Nat where
  system := (Load linux 1 "liblinux.so" ((Load linux 0 "liblinux.so" ((initial fun _ => 0).put 0 [])).1.put 1 [])).1
  control := mainLoop
  stackOf _ := idle
  active _ := true

theorem bootedNodes_init : (machine linux twoNodes).init bootedNodes := by
  let M := observed linux 0
  have first : M.ReachBy Owning (initial fun _ => 0, ⟨none, fun _ => none, fun _ _ => 0⟩) := .start ⟨⟨_, rfl⟩, rfl⟩
  have one : M.ReachBy Owning _ :=
    .next (a := .load 0 "liblinux.so") (.next (a := .create 0) first trivial rfl) trivial rfl
  have two : M.ReachBy Owning _ :=
    .next (a := .load 1 "liblinux.so") (.next (a := .create 1) one trivial rfl) trivial rfl
  obtain ⟨shared, priv⟩ := private_reach two
  refine ⟨⟨shared, priv.placed, fun n lower => ?_, fun t loader role => ?_, ⟨0, 0, some 1⟩, 1, rfl, rfl, rfl⟩,
    rfl, rfl⟩
  · have either : n = 0 ∨ n = 1 := by
      have upper : n < 2 := lower
      omega
    rcases either with rfl | rfl
    · exact ⟨0, rfl⟩
    · exact ⟨1, rfl⟩
  · cases role
    rfl

/-- A socket call that waits and is resumed after an event of its own node. -/
theorem good_after_wakeup : ∃ p : (State Nat × Nat) × Machine.Verdict,
    ((watched linux twoNodes).judged (Careful twoNodes) (Good linux twoNodes)).replay
    ((bootedNodes, 1), ⟨True, True⟩)
      [.dispatch 0 false, .enter, .wait, .rxFromDevice 0, .wakeup 0, .leave, .dispatch 0 false] = some p ∧
      p.2.good := by
  let M := (watched linux twoNodes).judged (Careful twoNodes) (Good linux twoNodes)
  have run : M.replay ((bootedNodes, 1), ⟨True, True⟩)
    [.dispatch 0 false, .enter, .wait, .rxFromDevice 0, .wakeup 0, .leave, .dispatch 0 false] = some _ := rfl
  have first : M.Reach ((bootedNodes, 1), ⟨True, True⟩) := .start ⟨⟨bootedNodes_init, rfl⟩, rfl⟩
  have reach := first.replay (fun _ _ => trivial) run
  refine ⟨_, run, (good_iff_careful reach).mpr ⟨⟨⟨⟨⟨⟨⟨trivial, ?_⟩, ?_⟩, ?_⟩, ?_⟩, ?_⟩, ?_⟩, ?_⟩⟩
  · exact fun n wrong => by cases wrong
  · exact fun n wrong => by cases wrong
  · exact fun n wrong => by cases wrong
  · exact fun n wrong => by cases wrong
  · exact fun n wrong => by cases wrong
  · exact fun n wrong => by cases wrong
  · exact fun n back => (some.inj back).symm

/-- Between the wakeup of a task and its turn there is an event of the other node. -/
theorem not_own : ¬ ∀ s, (machine linux twoNodes).Reach s → ∀ n, inKernel twoNodes s = some n →
    Own twoNodes n s.system := by
  intro always
  have run : (machine linux twoNodes).replay bootedNodes [.dispatch 0 false, .enter, .wait, .rxFromDevice 0,
    .wakeup 0, .leave,
    .eventTrampoline 1, .leave, .dispatch 0 false] = some _ := rfl
  have first : (machine linux twoNodes).Reach bootedNodes := .start bootedNodes_init
  obtain ⟨v, b, found, held, now⟩ := always _ (first.replay (fun _ _ => trivial) run) 0 rfl
  have here : some v = some (⟨0, 0, some 1⟩ : Section Nat) := found.symm
  have mine : some b = some 0 := held.symm
  cases here
  cases mine
  exact absurd now (by decide)

end

end Dce.Kernel
