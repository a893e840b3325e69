import Mathlib.Algebra.Order.Ring.Int
import Mathlib.Algebra.Order.Ring.Nat
import Mathlib.Data.List.Basic
import Mathlib.Data.List.Induction

/- The user and group ids of a process and the calls of `dce.cc` that set them. -/

namespace Dce.Processes

open List

structure Ids where
  ruid : UInt32
  euid : UInt32
  suid : UInt32
  rgid : UInt32
  egid : UInt32
  sgid : UInt32
  deriving DecidableEq, Repr

/-- `(uid_t)-1`, which names no id. -/
def noId : UInt32 := 0xffffffff

inductive Errno
  | EPERM
  deriving DecidableEq, Repr

def isUcapable (p : Ids) : Prop := p.euid = 0

def isGcapable (p : Ids) : Prop := p.egid = 0

def isSetUcapable (uid : UInt32) (p : Ids) : Prop :=
  isUcapable p ∨ p.euid = uid ∨ p.ruid = uid ∨ p.suid = uid

def isSetGcapable (gid : UInt32) (p : Ids) : Prop :=
  isGcapable p ∨ p.egid = gid ∨ p.rgid = gid ∨ p.sgid = gid

instance (p : Ids) : Decidable (isUcapable p) := inferInstanceAs (Decidable (_ = _))

instance (p : Ids) : Decidable (isGcapable p) := inferInstanceAs (Decidable (_ = _))

instance (uid : UInt32) (p : Ids) : Decidable (isSetUcapable uid p) := inferInstanceAs (Decidable (_ ∨ _))

instance (gid : UInt32) (p : Ids) : Decidable (isSetGcapable gid p) := inferInstanceAs (Decidable (_ ∨ _))

/-- `id` is not given or is one that `setresuid` and `setresgid` let through. -/
def Passes (id : UInt32) (p : Ids) : Prop := id = noId ∨ isSetUcapable id p

instance (id : UInt32) (p : Ids) : Decidable (Passes id p) := inferInstanceAs (Decidable (_ ∨ _))

/-- The id after a call that was given `id`. -/
def given (id old : UInt32) : UInt32 := if id ≠ noId then id else old

def setresuid (ruid euid suid : UInt32) (p : Ids) : Ids × Option Errno :=
  if ¬ Passes ruid p then (p, some .EPERM)
  else if ¬ Passes euid p then (p, some .EPERM)
  else if ¬ Passes suid p then (p, some .EPERM)
  else ({ p with ruid := given ruid p.ruid, euid := given euid p.euid, suid := given suid p.suid }, none)

/-- The ids are checked as those of users are. -/
def setresgid (rgid egid sgid : UInt32) (p : Ids) : Ids × Option Errno :=
  if ¬ Passes rgid p then (p, some .EPERM)
  else if ¬ Passes egid p then (p, some .EPERM)
  else if ¬ Passes sgid p then (p, some .EPERM)
  else ({ p with rgid := given rgid p.rgid, egid := given egid p.egid, sgid := given sgid p.sgid }, none)

def setreuid (ruid euid : UInt32) (p : Ids) : Ids × Option Errno := setresuid ruid euid noId p

def setregid (rgid egid : UInt32) (p : Ids) : Ids × Option Errno := setresgid rgid egid noId p

def seteuid (euid : UInt32) (p : Ids) : Ids × Option Errno := setresuid noId euid noId p

def setegid (egid : UInt32) (p : Ids) : Ids × Option Errno := setresgid noId egid noId p

def setuid (uid : UInt32) (p : Ids) : Ids × Option Errno :=
  if isSetUcapable uid p then
    if p.euid = 0 then ({ p with ruid := uid, euid := uid, suid := uid }, none)
    else ({ p with ruid := uid }, none)
  else (p, some .EPERM)

def setgid (gid : UInt32) (p : Ids) : Ids × Option Errno :=
  if isSetGcapable gid p then
    if p.egid = 0 then ({ p with rgid := gid, egid := gid, sgid := gid }, none)
    else ({ p with rgid := gid }, none)
  else (p, some .EPERM)

inductive Call
  | setuid (uid : UInt32)
  | seteuid (euid : UInt32)
  | setreuid (ruid euid : UInt32)
  | setresuid (ruid euid suid : UInt32)
  | setgid (gid : UInt32)
  | setegid (egid : UInt32)
  | setregid (rgid egid : UInt32)
  | setresgid (rgid egid sgid : UInt32)
  deriving DecidableEq, Repr

def perform : Call → Ids → Ids × Option Errno
  | .setuid uid => setuid uid
  | .seteuid euid => seteuid euid
  | .setreuid ruid euid => setreuid ruid euid
  | .setresuid ruid euid suid => setresuid ruid euid suid
  | .setgid gid => setgid gid
  | .setegid egid => setegid egid
  | .setregid rgid egid => setregid rgid egid
  | .setresgid rgid egid sgid => setresgid rgid egid sgid

/-- The ids after a sequence of calls. -/
def after (p : Ids) (calls : List Call) : Ids := calls.foldl (fun q call => (perform call q).1) p

def Ids.uids (p : Ids) : List UInt32 := [p.ruid, p.euid, p.suid]

def Ids.gids (p : Ids) : List UInt32 := [p.rgid, p.egid, p.sgid]

/-- What should hold of one process and one sequence of its calls. -/
structure Contained (p : Ids) (calls : List Call) : Prop where
  uids : 0 ∉ p.uids → ∀ done, done <+: calls → (after p done).uids ⊆ p.uids
  gids : 0 ∉ p.gids → ∀ done, done <+: calls → (after p done).gids ⊆ p.gids
  unchanged : ∀ done call, done ++ [call] <+: calls → (perform call (after p done)).2 = some .EPERM →
    (perform call (after p done)).1 = after p done

/-- What a call hands to `setresgid`. -/
def Call.groups : Call → Option (UInt32 × UInt32 × UInt32)
  | .setegid egid => some (noId, egid, noId)
  | .setregid rgid egid => some (rgid, egid, noId)
  | .setresgid rgid egid sgid => some (rgid, egid, sgid)
  | _ => none

/-- No call makes `setresgid` let a group through that is the id of a user of the process, or any at
all for a process of user 0, and is none of the groups that the process began with. -/
def Honest (p : Ids) (calls : List Call) : Prop :=
  0 ∉ p.gids → ∀ done call, done ++ [call] <+: calls → ∀ rgid egid sgid, call.groups = some (rgid, egid, sgid) →
    (∀ gid ∈ [rgid, egid, sgid], Passes gid (after p done)) → ∀ gid ∈ [rgid, egid, sgid], gid ≠ noId → gid ∈ p.gids

theorem after_concat (p : Ids) (calls : List Call) (call : Call) :
    after p (calls ++ [call]) = (perform call (after p calls)).1 := by
  rw [after, foldl_concat]
  rfl

variable {id : UInt32} {p : Ids}

theorem given_mem {old : UInt32} {ids : List UInt32} (hid : id ≠ noId → id ∈ ids)
    (hold : old ∈ ids) : given id old ∈ ids := by
  rw [given]
  split
  next h => exact hid h
  · exact hold

theorem given_of_ne (hid : id ≠ noId) (old : UInt32) : given id old = id := if_pos hid

/-- For a process with no id 0 the check of an id is that the process has it. -/
theorem isSetUcapable_iff (hp : 0 ∉ p.uids) (uid : UInt32) : isSetUcapable uid p ↔ uid ∈ p.uids := by
  have hcap : ¬ p.euid = 0 := fun h => hp (by simp [Ids.uids, h])
  simp only [isSetUcapable, isUcapable, Ids.uids]
  grind

theorem isSetGcapable_iff (hp : 0 ∉ p.gids) (gid : UInt32) : isSetGcapable gid p ↔ gid ∈ p.gids := by
  have hcap : ¬ p.egid = 0 := fun h => hp (by simp [Ids.gids, h])
  simp only [isSetGcapable, isGcapable, Ids.gids]
  grind

theorem Passes.mem (hp : 0 ∉ p.uids) (h : Passes id p) (hid : id ≠ noId) : id ∈ p.uids := by
  rcases h with h | h
  · exact absurd h hid
  · exact (isSetUcapable_iff hp id).mp h

theorem setresuid_cases (ruid euid suid : UInt32) (p : Ids) : setresuid ruid euid suid p = (p, some .EPERM) ∨
      (Passes ruid p ∧ Passes euid p ∧ Passes suid p ∧ setresuid ruid euid suid p =
        ({ p with ruid := given ruid p.ruid, euid := given euid p.euid, suid := given suid p.suid }, none)) := by
  rw [setresuid]
  by_cases hr : Passes ruid p
  · by_cases he : Passes euid p
    · by_cases hs : Passes suid p
      · simp [hr, he, hs]
      · simp [hs]
    · simp [he]
  · simp [hr]

theorem setresgid_cases (rgid egid sgid : UInt32) (p : Ids) : setresgid rgid egid sgid p = (p, some .EPERM) ∨
      ((∀ gid ∈ [rgid, egid, sgid], Passes gid p) ∧ setresgid rgid egid sgid p =
        ({ p with rgid := given rgid p.rgid, egid := given egid p.egid, sgid := given sgid p.sgid }, none)) := by
  rw [setresgid]
  by_cases hr : Passes rgid p
  · by_cases he : Passes egid p
    · by_cases hs : Passes sgid p
      · simp [hr, he, hs]
      · simp [hs]
    · simp [he]
  · simp [hr]

theorem setuid_cases (uid : UInt32) (p : Ids) : setuid uid p = (p, some .EPERM) ∨
      (isSetUcapable uid p ∧ (setuid uid p = ({ p with ruid := uid, euid := uid, suid := uid }, none) ∨
        setuid uid p = ({ p with ruid := uid }, none))) := by
  rw [setuid]
  by_cases h : isSetUcapable uid p
  · by_cases he : p.euid = 0
    · simp [h, he]
    · simp [h, he]
  · simp [h]

theorem setgid_cases (gid : UInt32) (p : Ids) : setgid gid p = (p, some .EPERM) ∨
      (isSetGcapable gid p ∧ (setgid gid p = ({ p with rgid := gid, egid := gid, sgid := gid }, none) ∨
        setgid gid p = ({ p with rgid := gid }, none))) := by
  rw [setgid]
  by_cases h : isSetGcapable gid p
  · by_cases he : p.egid = 0
    · simp [h, he]
    · simp [h, he]
  · simp [h]

section

variable {p : Ids} (hp : 0 ∉ p.uids)
include hp

theorem setuid_uids (uid : UInt32) : (setuid uid p).1.uids ⊆ p.uids := by
  rcases setuid_cases uid p with h | ⟨hpass, h | h⟩
  · rw [h]
    exact fun _ hid => hid
  all_goals
    have huid := (isSetUcapable_iff hp uid).mp hpass
    intro id hid
    simp only [Ids.uids] at hid huid ⊢
    grind

theorem setresuid_uids (ruid euid suid : UInt32) : (setresuid ruid euid suid p).1.uids ⊆ p.uids := by
  rcases setresuid_cases ruid euid suid p with h | ⟨hr, he, hs, h⟩
  · rw [h]
    exact fun _ hid => hid
  · have hruid := given_mem (fun hid => hr.mem hp hid) (show p.ruid ∈ p.uids by simp [Ids.uids])
    have heuid := given_mem (fun hid => he.mem hp hid) (show p.euid ∈ p.uids by simp [Ids.uids])
    have hsuid := given_mem (fun hid => hs.mem hp hid) (show p.suid ∈ p.uids by simp [Ids.uids])
    rw [h]
    intro id hid
    rcases (by simpa [Ids.uids] using hid : id = given ruid p.ruid ∨ id = given euid p.euid ∨ id = given suid p.suid)
      with rfl | rfl | rfl
    · exact hruid
    · exact heuid
    · exact hsuid

omit hp in
theorem setgid_uids (gid : UInt32) : (setgid gid p).1.uids ⊆ p.uids := by
  rcases setgid_cases gid p with h | ⟨-, h | h⟩
  all_goals
    rw [h]
    exact fun _ hid => hid

omit hp in
theorem setresgid_uids (rgid egid sgid : UInt32) : (setresgid rgid egid sgid p).1.uids ⊆ p.uids := by
  rcases setresgid_cases rgid egid sgid p with h | ⟨-, h⟩
  all_goals
    rw [h]
    exact fun _ hid => hid

theorem perform_uids (call : Call) : (perform call p).1.uids ⊆ p.uids := by
  cases call with
  | setuid uid => exact setuid_uids hp uid
  | seteuid euid => exact setresuid_uids hp noId euid noId
  | setreuid ruid euid => exact setresuid_uids hp ruid euid noId
  | setresuid ruid euid suid => exact setresuid_uids hp ruid euid suid
  | setgid gid => exact setgid_uids gid
  | setegid egid => exact setresgid_uids noId egid noId
  | setregid rgid egid => exact setresgid_uids rgid egid noId
  | setresgid rgid egid sgid => exact setresgid_uids rgid egid sgid

theorem after_uids (calls : List Call) : (after p calls).uids ⊆ p.uids := by
  induction calls using reverseRecOn with
  | nil => exact fun _ hid => hid
  | append_singleton calls call ih =>
    rw [after_concat]
    exact fun id hid => ih (perform_uids (fun h => hp (ih h)) call hid)

end

section

variable {p : Ids} {ids : List UInt32}

theorem setgid_gids (hp : 0 ∉ p.gids) (hids : p.gids ⊆ ids) (gid : UInt32) : (setgid gid p).1.gids ⊆ ids := by
  rcases setgid_cases gid p with h | ⟨hpass, h | h⟩
  · rw [h]
    exact hids
  all_goals
    have hgid := hids ((isSetGcapable_iff hp gid).mp hpass)
    have hegid : p.egid ∈ ids := hids (by simp [Ids.gids])
    have hsgid : p.sgid ∈ ids := hids (by simp [Ids.gids])
    intro id hid
    simp only [Ids.gids] at hid
    grind

variable {egid rgid sgid : UInt32} {call : Call}

theorem setresgid_gids (hids : p.gids ⊆ ids)
    (hgiven : (∀ gid ∈ [rgid, egid, sgid], Passes gid p) → ∀ gid ∈ [rgid, egid, sgid], gid ≠ noId → gid ∈ ids) :
    (setresgid rgid egid sgid p).1.gids ⊆ ids := by
  rcases setresgid_cases rgid egid sgid p with h | ⟨hpass, h⟩
  · rw [h]
    exact hids
  · have hnew := hgiven hpass
    have hrgid := given_mem (hnew rgid (by simp)) (hids (show p.rgid ∈ p.gids by simp [Ids.gids]))
    have hegid := given_mem (hnew egid (by simp)) (hids (show p.egid ∈ p.gids by simp [Ids.gids]))
    have hsgid := given_mem (hnew sgid (by simp)) (hids (show p.sgid ∈ p.gids by simp [Ids.gids]))
    rw [h]
    intro id hid
    rcases (by simpa [Ids.gids] using hid : id = given rgid p.rgid ∨ id = given egid p.egid ∨ id = given sgid p.sgid)
      with rfl | rfl | rfl
    · exact hrgid
    · exact hegid
    · exact hsgid

theorem setuid_gids (uid : UInt32) : (setuid uid p).1.gids ⊆ p.gids := by
  rcases setuid_cases uid p with h | ⟨-, h | h⟩
  all_goals
    rw [h]
    exact fun _ hid => hid

theorem setresuid_gids (ruid euid suid : UInt32) : (setresuid ruid euid suid p).1.gids ⊆ p.gids := by
  rcases setresuid_cases ruid euid suid p with h | ⟨-, -, -, h⟩
  all_goals
    rw [h]
    exact fun _ hid => hid

theorem perform_gids (hp : 0 ∉ p.gids) (hids : p.gids ⊆ ids)
    (hgiven : ∀ rgid egid sgid, call.groups = some (rgid, egid, sgid) →
      (∀ gid ∈ [rgid, egid, sgid], Passes gid p) → ∀ gid ∈ [rgid, egid, sgid], gid ≠ noId → gid ∈ ids) :
    (perform call p).1.gids ⊆ ids := by
  cases call with
  | setuid uid => exact Subset.trans (setuid_gids uid) hids
  | seteuid euid => exact Subset.trans (setresuid_gids noId euid noId) hids
  | setreuid ruid euid => exact Subset.trans (setresuid_gids ruid euid noId) hids
  | setresuid ruid euid suid => exact Subset.trans (setresuid_gids ruid euid suid) hids
  | setgid gid => exact setgid_gids hp hids gid
  | setegid egid => exact setresgid_gids hids (hgiven noId egid noId rfl)
  | setregid rgid egid => exact setresgid_gids hids (hgiven rgid egid noId rfl)
  | setresgid rgid egid sgid => exact setresgid_gids hids (hgiven rgid egid sgid rfl)

theorem perform_groups (hcall : call.groups = some (rgid, egid, sgid))
    (hpass : ∀ gid ∈ [rgid, egid, sgid], Passes gid p) {gid : UInt32} (hgid : gid ∈ [rgid, egid, sgid])
    (hne : gid ≠ noId) : gid ∈ (perform call p).1.gids := by
  have hset : perform call p = setresgid rgid egid sgid p := by
    cases call <;> simp only [Call.groups] at hcall <;> obtain ⟨rfl, rfl, rfl⟩ := hcall <;> rfl
  have hdone : setresgid rgid egid sgid p =
      ({ p with rgid := given rgid p.rgid, egid := given egid p.egid, sgid := given sgid p.sgid }, none) := by
    have hr := hpass rgid (by simp)
    have he := hpass egid (by simp)
    have hs := hpass sgid (by simp)
    simp [setresgid, hr, he, hs]
  rw [hset, hdone]
  simp only [mem_cons, not_mem_nil, or_false] at hgid
  rcases hgid with rfl | rfl | rfl
  all_goals simp [Ids.gids, given_of_ne hne]

theorem after_gids (hp : 0 ∉ p.gids) {calls : List Call} (honest : Honest p calls) :
    ∀ done, done <+: calls → (after p done).gids ⊆ p.gids := by
  intro done
  induction done using reverseRecOn with
  | nil => exact fun _ _ hid => hid
  | append_singleton done call ih =>
    intro hdone
    have hids := ih ((prefix_append done [call]).trans hdone)
    rw [after_concat]
    exact perform_gids (fun h => hp (hids h)) hids (honest hp done call hdone)

end

theorem perform_failed {call : Call} (h : (perform call p).2 = some .EPERM) : (perform call p).1 = p := by
  have hsetresuid : ∀ {r e s}, (setresuid r e s p).2 = some .EPERM → (setresuid r e s p).1 = p := by
    intro r e s hfail
    rcases setresuid_cases r e s p with heq | ⟨-, -, -, heq⟩
    · rw [heq]
    · rw [heq] at hfail
      cases hfail
  have hsetresgid : ∀ {r e s}, (setresgid r e s p).2 = some .EPERM → (setresgid r e s p).1 = p := by
    intro r e s hfail
    rcases setresgid_cases r e s p with heq | ⟨-, heq⟩
    · rw [heq]
    · rw [heq] at hfail
      cases hfail
  cases call with
  | setuid uid =>
    rcases setuid_cases uid p with heq | ⟨-, heq | heq⟩
    · exact congrArg Prod.fst heq
    all_goals
      rw [perform, heq] at h
      cases h
  | setgid gid =>
    rcases setgid_cases gid p with heq | ⟨-, heq | heq⟩
    · exact congrArg Prod.fst heq
    all_goals
      rw [perform, heq] at h
      cases h
  | seteuid euid => exact hsetresuid h
  | setreuid ruid euid => exact hsetresuid h
  | setresuid ruid euid suid => exact hsetresuid h
  | setegid egid => exact hsetresgid h
  | setregid rgid egid => exact hsetresgid h
  | setresgid rgid egid sgid => exact hsetresgid h

/-- The ids of a process stay within those it began with exactly when no call lets a foreign group
through the check for users. -/
theorem contained_iff_honest (p : Ids) (calls : List Call) : Contained p calls ↔ Honest p calls := by
  constructor
  · intro h hp done call hdone rgid egid sgid hcall hpass gid hgid hne
    have hin := h.gids hp (done ++ [call]) hdone
    rw [after_concat] at hin
    exact hin (perform_groups hcall hpass hgid hne)
  · intro h
    exact {
      uids := fun hp done _ => after_uids hp done
      gids := fun hp => after_gids hp h
      unchanged := fun _ _ _ hfail => perform_failed hfail }

/-- User 1000 of group 100 makes itself a member of group 1000. -/
theorem setegid_escapes : ¬ Contained ⟨1000, 1000, 1000, 100, 100, 100⟩ [.setegid 1000] := by
  intro h
  have hin := h.gids (by decide) [.setegid 1000] (prefix_refl _)
  exact absurd (hin (show 1000 ∈ _ by decide)) (by decide)

end Dce.Processes
