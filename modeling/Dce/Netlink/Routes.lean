import Dce.Lib.Erasing
import Dce.Netlink.Dump
import Mathlib.Data.List.InsertIdx

/- What requests for new and for deleted routes do to the routing table, `DoRouteMessage`. -/

namespace Dce.Netlink

open Erasing List Option

deriving instance DecidableEq for RouteEntry

section

variable {A R β : Type} {T : RoutingTable A R} {entries : R → List β} {shown : β → RouteEntry A}

/-- A table is a list of entries, of which it shows the routes, and `RemoveRoute (i)` erases the i-th. -/
structure RoutingTable.Lists (T : RoutingTable A R) (entries : R → List β) (shown : β → RouteEntry A) : Prop where
  shows : ∀ table, routes T table = (entries table).map shown
  erases : ∀ table i, i < T.getNRoutes table → entries (T.removeRoute table i) = (entries table).eraseIdx i

/-- `RemoveRoute (i)` erases the i-th route. -/
def RoutingTable.Erases (T : RoutingTable A R) : Prop :=
  ∀ table i, i < T.getNRoutes table → routes T (T.removeRoute table i) = (routes T table).eraseIdx i

theorem RoutingTable.Erases.lists (erases : T.Erases) : T.Lists (routes T) id := ⟨fun _ => (map_id _).symm, erases⟩

theorem RoutingTable.Lists.toErases (lists : T.Lists entries shown) : T.Erases := by
  intro table i inside
  rw [lists.shows, lists.shows, lists.erases table i inside, eraseIdx_map]

theorem RoutingTable.Lists.getNRoutes (lists : T.Lists entries shown) (table : R) :
    T.getNRoutes table = (entries table).length := by
  simpa [routes] using congrArg length (lists.shows table)

variable {back front : List β} (lists : T.Lists entries shown)
include lists

theorem RoutingTable.Lists.getRoute {table : R} {e : β}
    (there : entries table = front ++ e :: back) : T.getRoute table front.length = shown e := by
  have inside : front.length < T.getNRoutes table := by simp [lists.getNRoutes, there]
  have shows := congrArg (·[front.length]?) (lists.shows table)
  simpa [routes, inside, there] using shows

variable (pred : RouteEntry A → Bool)

theorem RoutingTable.Lists.removeRoutes (fuel : Nat)
    {table : R} (there : entries table = front ++ back) (enough : back.length ≤ fuel) :
    entries (removeRoutes T pred fuel front.length table).1 = front ++ sweep (pred ∘ shown) back ∧
      (Netlink.removeRoutes T pred fuel front.length table).2 = back.any (pred ∘ shown) := by
  induction fuel generalizing table front back with
  | zero =>
    obtain rfl := length_eq_zero_iff.mp (Nat.le_zero.mp enough)
    exact ⟨there, rfl⟩
  | succ fuel ih =>
    have size : T.getNRoutes table = front.length + back.length := by rw [lists.getNRoutes, there, length_append]
    unfold Netlink.removeRoutes
    cases back with
    | nil =>
      rw [if_neg (by simp [size])]
      exact ⟨there, rfl⟩
    | cons e back =>
      have inside : front.length < T.getNRoutes table := by simp [size]
      rw [if_pos inside, lists.getRoute there]
      have fits : back.length ≤ fuel := Nat.le_of_succ_le_succ enough
      by_cases named : pred (shown e)
      · -- the next entry moves to the place of the removed one, and the index goes past it
        have erased : entries (T.removeRoute table front.length) = front ++ back := by
          rw [lists.erases _ _ inside, there, eraseIdx_append_of_length_le le_rfl]
          simp
        cases back with
        | nil =>
          refine ⟨?_, by simp [named]⟩
          have past : ¬ front.length + 1 < T.getNRoutes (T.removeRoute table front.length) := by
            rw [lists.getNRoutes, erased]
            simp
          cases fuel with
          | zero => simpa [Netlink.removeRoutes, sweep, named] using erased
          | succ fuel => simpa [Netlink.removeRoutes, past, sweep, named] using erased
        | cons next back =>
          have moved : entries (T.removeRoute table front.length) = (front ++ [next]) ++
            back := by simpa using erased
          have rest := ih moved (Nat.le_of_succ_le fits)
          refine ⟨?_, by simp [named]⟩
          simpa [sweep, named] using rest.1
      · have rest := ih (show entries table = (front ++ [e]) ++ back by simpa using there) fits
        rw [length_append, length_singleton] at rest
        rw [if_neg named]
        refine ⟨?_, by simpa [named] using rest.2⟩
        rw [rest.1]
        cases back <;> simp [sweep, named]

theorem RoutingTable.Lists.entries_removeRoutes (table : R) :
    entries (Netlink.removeRoutes T pred (T.getNRoutes table) 0 table).1 = sweep (pred ∘ shown) (entries table) :=
  (lists.removeRoutes pred _ (nil_append (entries table)).symm (lists.getNRoutes table).ge).1

theorem RoutingTable.Lists.removeRoutes_flag (table : R) :
    (Netlink.removeRoutes T pred (T.getNRoutes table) 0 table).2 = (entries table).any (pred ∘ shown) :=
  (lists.removeRoutes pred _ (nil_append (entries table)).symm (lists.getNRoutes table).ge).2

end

section

variable {A₄ A₆ R₄ R₆ : Type} [DecidableEq A₄] {S : Simulator A₄ A₆ R₄ R₆}

/-- What `DoRouteMessage` answers: the node after the request and what is sent, or an error. -/
abbrev Answer (A₄ A₆ R₄ R₆ : Type) : Type := Except SocketErrno (Node A₄ A₆ R₄ R₆ × List (List NetlinkMessage))

/-- The IPv4 routes after the answer: with an error the loop has removed none. -/
def Answer.routes₄ (n : Node A₄ A₆ R₄ R₆) : Answer A₄ A₆ R₄ R₆ → R₄
  | .ok (n, _) => n.routes₄
  | .error _ => n.routes₄

/-- The request names a destination, and the route has it and the gateway of the request. -/
def RouteAttributes.Names (r : RouteAttributes A₄) (rt : RouteEntry A₄) : Bool :=
  rtADst ∈ r.attr_flags ∧ r.gateway = rt.gateway ∧ r.dest = rt.dest

/-- The routes that are named are removed, no others, and success is the answer exactly when there is one. -/
structure DeletesExactly (S : Simulator A₄ A₆ R₄ R₆) (n : Node A₄ A₆ R₄ R₆) (r : RouteAttributes A₄)
    (answer : Answer A₄ A₆ R₄ R₆) : Prop where
  kept : routes S.routing₄ (answer.routes₄ n) = (routes S.routing₄ n.routes₄).filter fun rt => !r.Names rt
  reported : answer.isOk ↔ (routes S.routing₄ (answer.routes₄ n)).length < (routes S.routing₄ n.routes₄).length

variable {bound : Bool} {n : Node A₄ A₆ R₄ R₆} {nlmsg : NetlinkMessage} {answer : Answer A₄ A₆ R₄ R₆}

variable {r : RouteAttributes A₄}

theorem doRoute₄_del (type : nlmsg.m_hdr.m_nlmsgType = rtmDelRoute)
    (read : routeAttributes S.addresses₄.start S.addresses₄.convertFrom nlmsg.m_routeTemplate = some r)
    (run : doRoute₄ S bound n nlmsg = some answer) :
    answer = (delRoute S.routing₄ r n.routes₄).map fun table => ({ n with routes₄ := table }, []) := by
  unfold doRoute₄ at run
  rw [read, type] at run
  by_cases named : rtADst ∈ r.attr_flags
  · cases bound with
    | false => simp [named, rtmDelRoute, rtmNewRoute] at run
    | true =>
      simp only [Option.pure_def, Option.bind_eq_bind, Option.bind_some, named, not_true_eq_false, if_false,
        show ¬ rtmDelRoute = rtmNewRoute by decide, Bool.true_eq_false, if_true] at run
      rw [← some.inj run]
      cases delRoute S.routing₄ r n.routes₄ <;> rfl
  · simp only [Option.bind_eq_bind, Option.bind_some, named] at run
    rw [delRoute, if_pos named]
    exact (some.inj run).symm

theorem names_of_named (named : rtADst ∈ r.attr_flags) :
    r.Names = fun rt => decide (r.gateway = rt.gateway ∧ r.dest = rt.dest) := by
  funext rt
  simp [RouteAttributes.Names, named]

/-- The routes after a request for deleted routes are those that the index loop leaves, and it answers
success exactly when it finds a route. -/
theorem delRoute_spec (erases : S.routing₄.Erases) (r : RouteAttributes A₄) :
    let answer : Answer A₄ A₆ R₄ R₆ := (delRoute S.routing₄ r n.routes₄).map fun table =>
    ({ n with routes₄ := table }, [])
    routes S.routing₄ (answer.routes₄ n) = sweep r.Names (routes S.routing₄ n.routes₄) ∧
      answer.isOk = (routes S.routing₄ n.routes₄).any r.Names := by
  by_cases named : rtADst ∈ r.attr_flags
  · have swept := erases.lists.entries_removeRoutes r.Names n.routes₄
    have found := erases.lists.removeRoutes_flag r.Names n.routes₄
    unfold delRoute
    rw [if_neg (not_not.mpr named), ← names_of_named named]
    dsimp only
    split <;> rename_i flag
    · exact ⟨swept, (found.symm.trans flag).symm⟩
    · rw [found] at flag
      exact ⟨(sweep_of_none (Bool.eq_false_iff.mpr flag)).symm, (Bool.eq_false_iff.mpr flag).symm⟩
  · have none : ∀ rt, r.Names rt = false := fun rt => by simp [RouteAttributes.Names, named]
    rw [delRoute, if_pos named]
    have nowhere : (routes S.routing₄ n.routes₄).any r.Names = false :=
      any_eq_false.mpr fun rt _ => by simp [none rt]
    exact ⟨(sweep_of_none nowhere).symm, nowhere.symm⟩

theorem doRouteMessage_inet [DecidableEq A₆] (run : doRouteMessage S bound n nlmsg afInet = some answer) :
    ∃ r, routeAttributes S.addresses₄.start S.addresses₄.convertFrom nlmsg.m_routeTemplate = some r ∧
      doRoute₄ S bound n nlmsg = some answer := by
  obtain ⟨ipv6, -, run⟩ := bind_eq_some_iff.mp run
  obtain ⟨r, read, -⟩ := bind_eq_some_iff.mp run
  exact ⟨r, read, run⟩

/-- A request for deleted routes is exact where no two neighbouring routes are named. -/
theorem delRoute_exact_iff [DecidableEq A₆] (erases : S.routing₄.Erases)
    (type : nlmsg.m_hdr.m_nlmsgType = rtmDelRoute)
    (run : doRouteMessage S bound n nlmsg afInet = some answer) :
    ∃ r, routeAttributes S.addresses₄.start S.addresses₄.convertFrom nlmsg.m_routeTemplate = some r ∧
      (DeletesExactly S n r answer ↔ Apart r.Names (routes S.routing₄ n.routes₄)) := by
  obtain ⟨r, read, run⟩ := doRouteMessage_inet run
  refine ⟨r, read, ?_⟩
  obtain rfl := doRoute₄_del type read run
  obtain ⟨left, found⟩ := delRoute_spec (n := n) erases r
  rw [← sweep_eq_filter, ← left]
  refine ⟨DeletesExactly.kept, fun kept => ⟨kept, ?_⟩⟩
  rw [left, length_sweep_lt, found]

/-- The interface that a new route goes through: the one of the request, or one that its gateway is at. -/
def outgoing (S : Simulator A₄ A₆ R₄ R₆) (n : Node A₄ A₆ R₄ R₆) (r : RouteAttributes A₄) : Option UInt32 :=
  if rtAOif ∈ r.attr_flags then some r.index
  else if rtAGateway ∈ r.attr_flags then findInterface S r.gateway n.ipv4 else none

/-- A route as the static routing keeps it. -/
structure StaticRoute (A : Type) extends RouteEntry A where
  mask : UInt32
  metric : UInt32
  deriving DecidableEq

/-- Adding a route to a table, which may keep a route only `once`. -/
def added {A : Type} [DecidableEq A] (once : Bool) (entries : List (StaticRoute A)) (new : StaticRoute A) :
    List (StaticRoute A) :=
  if once ∧ new ∈ entries then entries else entries ++ [new]

/-- The static routing adds a route at the end of the table; one without a next hop has the gateway `zero`. -/
structure RoutingTable.Adds {A R : Type} [DecidableEq A] (T : RoutingTable A R) (entries : R → List (StaticRoute A))
    (zero : A) (once : Bool) : Prop extends T.Lists entries StaticRoute.toRouteEntry where
  host : ∀ table dest nextHop interface metric, entries (T.addHostRouteTo table dest nextHop interface metric) =
    added once (entries table) ⟨⟨dest, nextHop.getD zero, interface⟩, 0xffffffff, metric⟩
  network : ∀ table dest mask nextHop interface metric, entries
    (T.addNetworkRouteTo table dest mask nextHop interface metric) =
      added once (entries table) ⟨⟨dest, nextHop.getD zero, interface⟩, mask, metric⟩

/-- The route that a request is for. -/
def newEntry (zero : A₄) (dstlen : UInt8) (r : RouteAttributes A₄) (index : UInt32) : StaticRoute A₄ where
  dest := r.dest
  gateway := r.nextHop.getD zero
  interface := index
  mask := if dstlen = 32 then 0xffffffff else ~~~(1 <<< (32 - dstlen.toUInt32)) + 1
  metric := r.metric

/-- The route goes to the destination. -/
def goesTo {A : Type} [DecidableEq A] (dest : A) (rt : StaticRoute A) : Bool := dest = rt.dest

/-- A request with the flags does to the routes what the flags say. -/
structure FollowsFlags {A : Type} [DecidableEq A] (flags : UInt16) (new : StaticRoute A)
    (before after : List (StaticRoute A)) (refused : Prop) : Prop where
  replaced : before.any (goesTo new.dest) → flags &&& msgFReplace ≠ 0 → after.filter (goesTo new.dest) = [new] ∧
      after.filter (fun rt => !goesTo new.dest rt) = before.filter fun rt => !goesTo new.dest rt
  declined : before.any (goesTo new.dest) → flags &&& msgFReplace = 0 → refused ∧ after = before
  created : before.any (goesTo new.dest) = false → flags &&& msgFCreate ≠ 0 → after = before ++ [new]

/-- The routes to the destination that a request leaves beside the new one: of a host route, each second
one of neighbours. -/
def staying {A : Type} [DecidableEq A] (dstlen : UInt8) (dest : A) (before : List (StaticRoute A)) :
    List (StaticRoute A) :=
  if dstlen = 32 then overlooked (goesTo dest) before else before.filter (goesTo dest)

/-- A route to the destination is there only where it is to be replaced, and no other stays beside the new one. -/
def Replaceable {A : Type} [DecidableEq A] (once : Bool) (flags : UInt16) (dstlen : UInt8) (new : StaticRoute A)
    (before : List (StaticRoute A)) : Prop :=
  before.any (goesTo new.dest) → flags &&& msgFReplace ≠ 0 ∧
    (staying dstlen new.dest before = [] ∨ once ∧ staying dstlen new.dest before = [new])

section

variable {A : Type} [DecidableEq A] {once : Bool} {flags : UInt16} {new : StaticRoute A}
  {before kept : List (StaticRoute A)}

variable {p : StaticRoute A → Bool}

theorem filter_added (goes : p new) :
    (added once kept new).filter p = [new] ↔ kept.filter p = [] ∨ once ∧ kept.filter p = [new] := by
  unfold added
  split
  next there =>
    have inside : new ∈ kept.filter p := mem_filter.mpr ⟨there.2, goes⟩
    refine ⟨fun one => .inr ⟨there.1, one⟩, ?_⟩
    rintro (none | ⟨-, one⟩)
    · simp [none] at inside
    · exact one
  next absent =>
    rw [filter_append, filter_singleton, goes, cond_true]
    constructor
    · intro one
      exact .inl (append_left_eq_self.mp one)
    · rintro (none | ⟨once, one⟩)
      · rw [none, nil_append]
      · have inside : new ∈ kept.filter p := one ▸ mem_singleton_self new
        exact absurd ⟨once, (mem_filter.mp inside).1⟩ absent

theorem filter_not_added (goes : p new) : (added once kept new).filter (fun rt => !p rt) = kept.filter fun rt =>
    !p rt := by
  unfold added
  split
  · rfl
  · simp [goes]

theorem added_of_absent (absent : kept.any (goesTo new.dest) = false) : added once kept new = kept ++ [new] := by
  refine if_neg fun there => ?_
  have other := any_eq_false.mp absent new there.2
  exact other (decide_eq_true rfl)

/-- The routes after a request whose flags and destination length are these. -/
def resulting (once : Bool) (flags : UInt16) (dstlen : UInt8) (new : StaticRoute A) (before : List (StaticRoute A)) :
    List (StaticRoute A) :=
  if dstlen = 32 then
    if before.any (goesTo new.dest) then
      added once (if flags &&& msgFReplace ≠ 0 then sweep (goesTo new.dest) before else before) new
    else if flags &&& msgFCreate ≠ 0 then added once before new
    else before
  else added once before new

theorem resulting_replaced (once : Bool) (dstlen : UInt8) (present : before.any (goesTo new.dest))
    (replace : flags &&& msgFReplace ≠ 0) :
    ∃ kept, resulting once flags dstlen new before = added once kept new ∧
      kept.filter (goesTo new.dest) = staying dstlen new.dest before ∧
      kept.filter (fun rt => !goesTo new.dest rt) = before.filter fun rt => !goesTo new.dest rt := by
  unfold resulting staying
  by_cases hostRoute : dstlen = 32
  · rw [if_pos hostRoute, if_pos hostRoute, if_pos present, if_pos replace]
    exact ⟨_, rfl, filter_sweep before, filter_not_sweep before⟩
  · rw [if_neg hostRoute, if_neg hostRoute]
    exact ⟨before, rfl, rfl, rfl⟩

theorem followsFlags_iff (once : Bool) (flags : UInt16) (dstlen : UInt8) (new : StaticRoute A)
    (before : List (StaticRoute A)) :
    FollowsFlags flags new before (resulting once flags dstlen new before) False ↔
    Replaceable once flags dstlen new before := by
  have goes : goesTo new.dest new := decide_eq_true rfl
  cases present : before.any (goesTo new.dest) with
  | true =>
    by_cases replace : flags &&& msgFReplace = 0
    · constructor
      · intro follows
        exact (follows.declined present replace).1.elim
      · intro replaceable
        exact absurd replace (replaceable present).1
    · obtain ⟨kept, result, named, others⟩ := resulting_replaced once dstlen present replace
      rw [result]
      constructor
      · intro follows _
        have one := (follows.replaced present replace).1
        rw [filter_added goes, named] at one
        exact ⟨replace, one⟩
      · intro replaceable
        refine ⟨fun _ _ => ⟨?_, ?_⟩, fun _ same => absurd same replace, fun absent => ?_⟩
        · rw [filter_added goes, named]
          exact (replaceable present).2
        · rw [filter_not_added goes, others]
        · exact absurd (absent.symm.trans present) Bool.false_ne_true
  | false =>
    refine ⟨fun _ there => absurd (present.symm.trans there) Bool.false_ne_true, fun _ => ⟨?_, ?_, ?_⟩⟩
    · exact fun there => absurd (present.symm.trans there) Bool.false_ne_true
    · exact fun there => absurd (present.symm.trans there) Bool.false_ne_true
    · intro _ create
      rw [resulting, present, if_pos create, added_of_absent present]
      simp

end

variable {entries : R₄ → List (StaticRoute A₄)} {zero : A₄} {once : Bool}

theorem newRoute₄_spec (adds : S.routing₄.Adds entries zero once) (flags : UInt16) (dstlen : UInt8)
    (r : RouteAttributes A₄) (index : UInt32) :
    ∃ table, newRoute₄ S n flags dstlen r index = .ok table ∧
      entries table = resulting once flags dstlen (newEntry zero dstlen r index) (entries n.routes₄) := by
  have present : ((routes S.routing₄ n.routes₄).any fun rt => r.dest = rt.dest) =
      (entries n.routes₄).any (goesTo (newEntry zero dstlen r index).dest) := by
    rw [adds.shows, List.any_map]
    rfl
  have hostRoute (hosts : dstlen = 32) (table : R₄) : entries
    (S.routing₄.addHostRouteTo table r.dest r.nextHop index r.metric) =
        added once (entries table) (newEntry zero dstlen r index) := by
    rw [adds.host, newEntry, if_pos hosts]
  unfold newRoute₄ resulting
  rw [present]
  split
  next hosts =>
    split
    next there =>
      split
      · have swept := adds.toLists.entries_removeRoutes (fun rt => r.dest = rt.dest) n.routes₄
        have found := adds.toLists.removeRoutes_flag (fun rt => r.dest = rt.dest) n.routes₄
        dsimp only
        rw [if_pos (found.trans there)]
        refine ⟨_, rfl, ?_⟩
        rw [hostRoute hosts, swept]
        rfl
      · exact ⟨_, rfl, hostRoute hosts _⟩
    · split
      · exact ⟨_, rfl, hostRoute hosts _⟩
      · exact ⟨_, rfl, rfl⟩
  next network =>
    refine ⟨_, rfl, ?_⟩
    rw [adds.network, newEntry, if_neg network]

/-- The interface of the route that a request is for, if it names one. -/
def requested (S : Simulator A₄ A₆ R₄ R₆) (n : Node A₄ A₆ R₄ R₆) (r : RouteAttributes A₄) : Option UInt32 :=
  if rtADst ∈ r.attr_flags then outgoing S n r else none

/-- The request does to the table what its flags say, and nothing where it names no route. -/
def HandlesNewRoute (S : Simulator A₄ A₆ R₄ R₆) (entries : R₄ → List (StaticRoute A₄)) (zero : A₄)
    (n : Node A₄ A₆ R₄ R₆) (nlmsg : NetlinkMessage) (r : RouteAttributes A₄) (answer : Answer A₄ A₆ R₄ R₆) : Prop :=
  match requested S n r with
  | none => answer.isOk = false ∧ entries (answer.routes₄ n) = entries n.routes₄
  | some index => FollowsFlags nlmsg.m_hdr.m_nlmsgFlags (newEntry zero nlmsg.m_routeTemplate.m_dstLen r index)
      (entries n.routes₄) (entries (answer.routes₄ n)) (answer.isOk = false)

/-- A request for a new route is refused where it names none, else it is answered by `newRoute₄`. -/
theorem doRoute₄_new (type : nlmsg.m_hdr.m_nlmsgType = rtmNewRoute)
    (read : routeAttributes S.addresses₄.start S.addresses₄.convertFrom nlmsg.m_routeTemplate = some r)
    (run : doRoute₄ S bound n nlmsg = some answer) :
    match requested S n r with
    | none => ∃ errno, answer = .error errno
    | some index => answer = (newRoute₄ S n nlmsg.m_hdr.m_nlmsgFlags nlmsg.m_routeTemplate.m_dstLen r index).map
        fun table => ({ n with routes₄ := table }, []) := by
  unfold doRoute₄ at run
  rw [read, type] at run
  unfold requested
  by_cases named : rtADst ∈ r.attr_flags
  · simp only [Option.bind_eq_bind, Option.bind_some, named] at run
    rw [if_pos named]
    have out : outgoing S n r = if rtAOif ∈ r.attr_flags then some r.index
      else if rtAGateway ∈ r.attr_flags then findInterface S r.gateway n.ipv4 else none := rfl
    rw [← out] at run
    generalize outgoing S n r = interface at run ⊢
    cases interface with
    | none => exact ⟨_, (some.inj run).symm⟩
    | some index =>
      cases bound with
      | false => simp at run
      | true =>
        rw [← some.inj run]
        dsimp only
        cases newRoute₄ S n nlmsg.m_hdr.m_nlmsgFlags nlmsg.m_routeTemplate.m_dstLen r _ <;> rfl
  · simp only [Option.bind_eq_bind, Option.bind_some, named] at run
    rw [if_neg named]
    exact ⟨_, (some.inj run).symm⟩

/-- A request for a new route does what its flags say exactly where a route to the destination is not
there, or may be replaced and no other stays. -/
theorem newRoute_follows_iff [DecidableEq A₆] (adds : S.routing₄.Adds entries zero once)
    (type : nlmsg.m_hdr.m_nlmsgType = rtmNewRoute) (run : doRouteMessage S bound n nlmsg afInet = some answer) :
    ∃ r, routeAttributes S.addresses₄.start S.addresses₄.convertFrom nlmsg.m_routeTemplate = some r ∧
      (HandlesNewRoute S entries zero n nlmsg r answer ↔ ∀ index, requested S n r = some index →
        Replaceable once nlmsg.m_hdr.m_nlmsgFlags nlmsg.m_routeTemplate.m_dstLen
          (newEntry zero nlmsg.m_routeTemplate.m_dstLen r index) (entries n.routes₄)) := by
  obtain ⟨r, read, run⟩ := doRouteMessage_inet run
  refine ⟨r, read, ?_⟩
  have result := doRoute₄_new type read run
  unfold HandlesNewRoute
  cases goes : requested S n r with
  | none =>
    rw [goes] at result
    obtain ⟨errno, rfl⟩ := result
    exact ⟨fun _ _ => nofun, fun _ => ⟨rfl, rfl⟩⟩
  | some index =>
    rw [goes] at result
    obtain ⟨table, succeeds, holds⟩ := newRoute₄_spec (n := n) adds nlmsg.m_hdr.m_nlmsgFlags
      nlmsg.m_routeTemplate.m_dstLen r index
    dsimp only at result ⊢
    rw [succeeds] at result
    obtain rfl := result
    have follows := followsFlags_iff once nlmsg.m_hdr.m_nlmsgFlags nlmsg.m_routeTemplate.m_dstLen
      (newEntry zero nlmsg.m_routeTemplate.m_dstLen r index) (entries n.routes₄)
    rw [← holds] at follows
    have accepted : (Except.isOk (.ok ({ n with routes₄ := table }, []) : Answer A₄ A₆ R₄ R₆) = false) = False := by
      simp [Except.toBool]
    simpa [Except.map, accepted, Answer.routes₄] using follows

end

/-- A static routing table as a list of routes. -/
def staticList : RoutingTable (List UInt8) (List (StaticRoute (List UInt8))) where
  getNRoutes := List.length
  getRoute table i := (table.map StaticRoute.toRouteEntry).getD i ⟨[], [], 0⟩
  removeRoute := List.eraseIdx
  addHostRouteTo table dest nextHop interface metric :=
    added true table ⟨⟨dest, nextHop.getD [0, 0, 0, 0], interface⟩, 0xffffffff, metric⟩
  addNetworkRouteTo table dest mask nextHop interface metric :=
    added true table ⟨⟨dest, nextHop.getD [0, 0, 0, 0], interface⟩, mask, metric⟩

theorem staticList_adds : staticList.Adds id [0, 0, 0, 0] true where
  shows table := by
    refine ext_getElem (by simp [routes, staticList]) fun i inside _ => ?_
    have inside : i < table.length := by simpa [routes, staticList] using inside
    simp [routes, staticList, inside]
  erases _ _ _ := rfl
  host _ _ _ _ _ := rfl
  network _ _ _ _ _ _ := rfl

def staticSimulator : Simulator (List UInt8) (List UInt8) (List (StaticRoute (List UInt8)))
    (List (RouteEntry (List UInt8))) :=
  { byteSimulator with routing₄ := staticList }

/-- A node with routes to two hosts, to the first of them twice. -/
def twiceNode : Node (List UInt8) (List UInt8) (List (StaticRoute (List UInt8)))
    (List (RouteEntry (List UInt8))) where
  devices := []
  ipv4 := []
  ipv6 := some []
  routes₄ := [⟨⟨[10, 0, 0, 1], [10, 0, 1, 1], 1⟩, 0xffffffff, 0⟩, ⟨⟨[10, 0, 0, 1], [10, 0, 1, 1], 2⟩, 0xffffffff, 0⟩,
    ⟨⟨[10, 0, 0, 2], [10, 0, 1, 1], 1⟩, 0xffffffff, 0⟩]
  routes₆ := some []

/-- A request about the route to a host. -/
def hostRequest (type flags : UInt16) (dest : List UInt8) : NetlinkMessage where
  m_hdr := { m_nlmsgType := type, m_nlmsgFlags := flags }
  m_routeTemplate := { m_family := afInet, m_dstLen := 32, m_attributes :=
    [.of rtADst (.address dest), .of rtAOif (.u32 3), .of rtAGateway (.address [10, 0, 1, 1])] }

/-- What the attributes of that request say. -/
def hostAttributes (dest : List UInt8) : RouteAttributes (List UInt8) where
  dest
  gateway := [10, 0, 1, 1]
  index := 3
  attr_flags := [rtAGateway, rtAOif, rtADst]

theorem delRoute_exact_iff_second : ∃ r, routeAttributes (List.replicate 4 0) staticSimulator.addresses₄.convertFrom
        (hostRequest rtmDelRoute msgFRequest [10, 0, 0, 2]).m_routeTemplate = some r ∧
      (DeletesExactly staticSimulator twiceNode r
        (.ok ({ twiceNode with routes₄ := twiceNode.routes₄.take 2 }, [])) ↔
        Apart r.Names (routes staticList twiceNode.routes₄)) := by
  have answered : doRouteMessage staticSimulator true twiceNode
    (hostRequest rtmDelRoute msgFRequest [10, 0, 0, 2]) afInet =
      some (.ok ({ twiceNode with routes₄ := twiceNode.routes₄.take 2 }, [])) := rfl
  exact delRoute_exact_iff staticList_adds.toErases rfl answered

/-- Of two neighbouring routes that are named the second stays. -/
theorem not_deletesExactly : ∃ answer, doRouteMessage staticSimulator true twiceNode
      (hostRequest rtmDelRoute msgFRequest [10, 0, 0, 1]) afInet = some answer ∧
    ¬ DeletesExactly staticSimulator twiceNode (hostAttributes [10, 0, 0, 1]) answer := by
  refine ⟨_, rfl, fun exact => ?_⟩
  exact absurd exact.kept (by decide)

theorem newRoute_follows_iff_third : ∃ r, routeAttributes (List.replicate 4 0) staticSimulator.addresses₄.convertFrom
        (hostRequest rtmNewRoute msgFCreate [10, 0, 0, 3]).m_routeTemplate = some r ∧
      (HandlesNewRoute staticSimulator id [0, 0, 0, 0] twiceNode (hostRequest rtmNewRoute msgFCreate [10, 0, 0, 3]) r
          (.ok ({ twiceNode with
            routes₄ := twiceNode.routes₄ ++ [⟨⟨[10, 0, 0, 3], [10, 0, 1, 1], 3⟩, 0xffffffff, 0⟩] }, [])) ↔
        ∀ index, requested staticSimulator twiceNode r = some index →
          Replaceable true msgFCreate 32 (newEntry [0, 0, 0, 0] 32 r index) twiceNode.routes₄) := by
  have answered : doRouteMessage staticSimulator true twiceNode
    (hostRequest rtmNewRoute msgFCreate [10, 0, 0, 3]) afInet =
      some (.ok ({ twiceNode with
        routes₄ := twiceNode.routes₄ ++ [⟨⟨[10, 0, 0, 3], [10, 0, 1, 1], 3⟩, 0xffffffff, 0⟩] }, [])) := rfl
  exact newRoute_follows_iff staticList_adds rfl answered

/-- A route to a host that is there is added once more, although it may not be replaced. -/
theorem not_handlesNewRoute : ∃ answer, doRouteMessage staticSimulator true twiceNode
      (hostRequest rtmNewRoute msgFCreate [10, 0, 0, 2]) afInet = some answer ∧
    ¬ HandlesNewRoute staticSimulator id [0, 0, 0, 0] twiceNode (hostRequest rtmNewRoute msgFCreate [10, 0, 0, 2])
      (hostAttributes [10, 0, 0, 2]) answer := by
  refine ⟨_, rfl, fun handles => ?_⟩
  have follows : FollowsFlags msgFCreate ⟨⟨[10, 0, 0, 2], [10, 0, 1, 1], 3⟩, 0xffffffff,
    0⟩ twiceNode.routes₄ _ _ := handles
  exact absurd (follows.declined (by decide) (by decide)).1 (by decide)

end Dce.Netlink
