import Nerve.Library.TransitionSystem
import Nerve.Store.Listing

/-!
# The metadata of a session

`name_session` and `link_child_session` each change a field of one record: they read it, change it, and
replace the file. The file is replaced at once, but no lock is held from the reading to the writing, as
there is for the patch index. So any number of calls for one session take their steps in any order: a
call looks for the sessions it names, looks for the record, reads it, and writes it.

A call writes both fields, its own and the one it has read. `metadata_kept_iff` says of every run what
that comes to: the record holds the name and the parent written last exactly as long as whoever writes
has read the other field as it stands. Otherwise what a call has written, and returned from without an
error, is gone (`name_lost`).
-/

namespace Nerve.Store

open TransitionSystem

/-- What a call changes, and the time it does. -/
inductive MetadataUpdate where
  | name (value now : String)
  | parent (parentId now : String)
  deriving DecidableEq, Repr

namespace MetadataUpdate

def set : MetadataUpdate → SessionMetadata → SessionMetadata
  | name value now, m => { m with name := some value, updatedAt := some now }
  | parent parentId now, m => { m with parentSessionId := some parentId, updatedAt := some now }

/-- The sessions that have to be there, in the order they are looked for. -/
def sessions (id : String) : MetadataUpdate → List String
  | name .. => [id]
  | parent parentId _ => [id, parentId]

/-- The field that the update leaves as it was read. -/
def other : MetadataUpdate → SessionMetadata → Option String
  | name .., m => m.parentSessionId
  | parent .., m => m.name

def name? : MetadataUpdate → Option String
  | name value _ => some value
  | parent .. => none

def parentId? : MetadataUpdate → Option String
  | name .. => none
  | parent parentId _ => some parentId

/-- The operation, when nobody else is there. -/
def call (u : MetadataUpdate) (disk : Disk) (id : String) (w : Workspace) : Result Unit :=
  match u with
  | name value now => nameSession disk id value now w
  | parent parentId now => linkChildSession disk id parentId now w

end MetadataUpdate

/-- Where a call is. -/
inductive CallPhase where
  /-- The sessions still to be looked for. -/
  | finds (ids : List String)
  | looks
  | reads
  | writes (m : SessionMetadata)
  | returned (result : Except StoreError Unit)

structure MetadataCall where
  update : MetadataUpdate
  phase : CallPhase

/-- The store, the calls made for the session, and what they have written, the last one first. -/
structure MetadataCalls where
  workspace : Workspace
  calls : List MetadataCall
  written : List MetadataUpdate

inductive MetadataAction where
  | call (update : MetadataUpdate)
  /-- The call takes its next step; a write is taken by the disk or not. -/
  | go (i : Nat) (disk : Disk)

namespace MetadataCalls

/-- The call goes on to the phase. -/
def become (s : MetadataCalls) (i : Nat) (u : MetadataUpdate) (phase : CallPhase) : MetadataCalls :=
  { s with calls := s.calls.set i ⟨u, phase⟩ }

/-- The record is replaced by what the call makes of the one it has read. -/
def write (id : String) (s : MetadataCalls) (i : Nat) (u : MetadataUpdate) (m : SessionMetadata) (disk : Disk) : MetadataCalls :=
  match writeJson s.workspace .sessionMeta (jsonName id) disk (.metadata (u.set m)) with
  | (.ok (), w) => { s.become i u (.returned (.ok ())) with workspace := w, written := u :: s.written }
  | (.error e, w) => { s.become i u (.returned (.error e)) with workspace := w }

end MetadataCalls

section Step

variable (id : String)

/-- The call goes on from the phase it is in. -/
def MetadataCalls.next (s : MetadataCalls) (i : Nat) (u : MetadataUpdate) (disk : Disk) : CallPhase → Option MetadataCalls
  | .finds [] => some (s.become i u .looks)
  | .finds (session :: ids) =>
    if exists? s.workspace .sessions (jsonName session) then some (s.become i u (.finds ids))
    else some (s.become i u (.returned (.error (.noSession session))))
  | .looks =>
    if exists? s.workspace .sessionMeta (jsonName id) then some (s.become i u .reads)
    else some (s.become i u (.writes .default))
  | .reads =>
    match readJson s.workspace .sessionMeta (jsonName id) Stored.asMetadata with
    | .error e => some (s.become i u (.returned (.error e)))
    | .ok m => some (s.become i u (.writes m))
  | .writes m => some (s.write id i u m disk)
  | .returned _ => none

/-- One step of one call. -/
def metadataStep (s : MetadataCalls) : MetadataAction → Option MetadataCalls
  | .call u => some { s with calls := s.calls ++ [⟨u, .finds (u.sessions id)⟩] }
  | .go i disk => s.calls[i]?.bind fun c => s.next id i c.update disk c.phase

/-- The record holds the name and the parent that were written last, or that were there at first. -/
def Kept (w : Workspace) (s : MetadataCalls) : Prop :=
  ∀ m₀, loadSessionMetadata w id = .ok m₀ → ∃ m, loadSessionMetadata s.workspace id = .ok m ∧
    m.name = (s.written.findSome? MetadataUpdate.name?).or m₀.name ∧
    m.parentSessionId = (s.written.findSome? MetadataUpdate.parentId?).or m₀.parentSessionId

/-- Whoever replaces the record has read the field that is not its own as the record has it now. -/
def Fresh (s : MetadataCalls) : MetadataAction → Prop
  | .call _ => True
  | .go i disk => ∀ u read now, s.calls[i]? = some ⟨u, .writes read⟩ → disk .sessionMeta (jsonName id) = true →
      loadSessionMetadata s.workspace id = .ok now → u.other read = u.other now

end Step

variable {id : String} {w : Workspace} {s t : MetadataCalls}

/-! ### One call alone -/

section Alone

variable (id) (disk : Disk) (u : MetadataUpdate)

/-- What a call comes to that has found its sessions. -/
def updateMetadata (w : Workspace) : Result Unit :=
  match loadSessionMetadata w id with
  | .error e => (.error e, w)
  | .ok m => writeJson w .sessionMeta (jsonName id) disk (.metadata (u.set m))

/-- What a call comes to that goes on alone. -/
def CallPhase.rest (w : Workspace) : CallPhase → Result Unit
  | finds ids => match ids.find? fun session => !exists? w .sessions (jsonName session) with
    | some session => (.error (.noSession session), w)
    | none => updateMetadata id disk u w
  | looks => updateMetadata id disk u w
  | reads => match readJson w .sessionMeta (jsonName id) Stored.asMetadata with
    | .error e => (.error e, w)
    | .ok m => writeJson w .sessionMeta (jsonName id) disk (.metadata (u.set m))
  | writes m => writeJson w .sessionMeta (jsonName id) disk (.metadata (u.set m))
  | returned result => (result, w)

/-- More than the steps that are left to it. -/
def CallPhase.left : CallPhase → Nat
  | finds ids => ids.length + 4
  | looks => 3
  | reads => 2
  | writes _ => 1
  | returned _ => 0

variable {disk} {u} {i : Nat} {phase : CallPhase}

theorem become_calls {phase' : CallPhase} (hi : s.calls[i]? = some ⟨u, phase⟩) :
    (s.become i u phase').calls[i]? = some ⟨u, phase'⟩ := by
  have hlt : i < s.calls.length := (List.getElem?_eq_some_iff.mp hi).1
  simp [MetadataCalls.become, hlt]

/-- A record that is there and can be read is the one that is loaded. -/
theorem load_of_read {m : SessionMetadata}
    (h : readJson s.workspace .sessionMeta (jsonName id) Stored.asMetadata = .ok m) :
    loadSessionMetadata s.workspace id = .ok m := by
  have hmeta : exists? s.workspace .sessionMeta (jsonName id) = true := by
    unfold exists?
    cases hfile : s.workspace.files.read .sessionMeta (jsonName id) with
    | none => simp [readJson, hfile] at h
    | some stored => rfl
  rw [loadSessionMetadata, if_pos hmeta, h]

/-- The call gets nearer to its end, and comes to the same; when it is about to write, it has the record as it
stands. -/
structure GoesOn (disk : Disk) (u : MetadataUpdate) (w : Workspace) (phase phase' : CallPhase) : Prop where
  left_lt : phase'.left < phase.left
  rest_eq : phase'.rest id disk u w = phase.rest id disk u w
  load_eq : ∀ m, phase' = .writes m → loadSessionMetadata w id = .ok m

/-- **What a step does**: the call goes on, or it writes. -/
theorem next_cases (h : s.next id i u disk phase = some t) :
    (∃ phase', t = s.become i u phase' ∧ GoesOn id disk u s.workspace phase phase') ∨
    ∃ m, phase = .writes m ∧ t = s.write id i u m disk := by
  cases phase with
  | finds ids =>
    cases ids with
    | nil => exact Or.inl ⟨_, (Option.some.inj h).symm, by simp [CallPhase.left], rfl, nofun⟩
    | cons session ids =>
      rw [MetadataCalls.next] at h
      split_ifs at h with hsession
      · exact Or.inl ⟨_, (Option.some.inj h).symm, by simp [CallPhase.left], by simp [CallPhase.rest, hsession], nofun⟩
      · exact Or.inl ⟨_, (Option.some.inj h).symm, by simp [CallPhase.left], by simp [CallPhase.rest, hsession], nofun⟩
  | looks =>
    rw [MetadataCalls.next] at h
    split_ifs at h with hmeta
    · refine Or.inl ⟨_, (Option.some.inj h).symm, by simp [CallPhase.left], ?_, nofun⟩
      simp [CallPhase.rest, updateMetadata, loadSessionMetadata, hmeta]
    · have hload : loadSessionMetadata s.workspace id = .ok .default := if_neg hmeta
      refine Or.inl ⟨_, (Option.some.inj h).symm, by simp [CallPhase.left], ?_, fun m hm => ?_⟩
      · simp [CallPhase.rest, updateMetadata, hload]
      · cases hm
        exact hload
  | reads =>
    rw [MetadataCalls.next] at h
    cases hread : readJson s.workspace .sessionMeta (jsonName id) Stored.asMetadata with
    | error e =>
      rw [hread] at h
      exact Or.inl ⟨_, (Option.some.inj h).symm, by simp [CallPhase.left], by simp [CallPhase.rest, hread], nofun⟩
    | ok m =>
      rw [hread] at h
      refine Or.inl ⟨_, (Option.some.inj h).symm, by simp [CallPhase.left], by simp [CallPhase.rest, hread],
        fun m' hm => ?_⟩
      cases hm
      exact load_of_read id hread
  | writes m => exact Or.inr ⟨m, rfl, (Option.some.inj h).symm⟩
  | returned result => cases h

/-- Only a call that has returned is at its end. -/
theorem returned_of_next_eq_none (h : s.next id i u disk phase = none) : ∃ result, phase = .returned result := by
  cases phase with
  | finds ids =>
    cases ids with
    | nil => cases h
    | cons session ids =>
      rw [MetadataCalls.next] at h
      split_ifs at h
  | looks =>
    rw [MetadataCalls.next] at h
    split_ifs at h
  | reads =>
    rw [MetadataCalls.next] at h
    split at h <;> cases h
  | writes m => cases h
  | returned result => exact ⟨result, rfl⟩

theorem rest_finds : (CallPhase.finds (u.sessions id)).rest id disk u w = u.call disk id w := by
  cases u with
  | name value now =>
    by_cases hid : exists? w .sessions (jsonName id) = true
    · simp only [CallPhase.rest, MetadataUpdate.sessions, MetadataUpdate.call, nameSession, updateMetadata, hid,
        List.find?_cons, List.find?_nil, Bool.not_true, if_true]
      rfl
    · simp [CallPhase.rest, MetadataUpdate.sessions, MetadataUpdate.call, nameSession, hid]
  | parent parentId now =>
    by_cases hid : exists? w .sessions (jsonName id) = true
    · by_cases hparent : exists? w .sessions (jsonName parentId) = true
      · simp only [CallPhase.rest, MetadataUpdate.sessions, MetadataUpdate.call, linkChildSession, updateMetadata, hid,
          hparent, List.find?_cons, List.find?_nil, Bool.not_true, Bool.false_eq_true, if_false]
        rfl
      · simp [CallPhase.rest, MetadataUpdate.sessions, MetadataUpdate.call, linkChildSession, hid, hparent]
    · simp [CallPhase.rest, MetadataUpdate.sessions, MetadataUpdate.call, linkChildSession, hid]

/-- The end of a call that goes on alone. -/
theorem runs_alone (hi : s.calls[i]? = some ⟨u, phase⟩) : ∃ n t,
    run (metadataStep id) s (List.replicate n (.go i disk)) = some t ∧
      t.calls[i]? = some ⟨u, .returned (phase.rest id disk u s.workspace).1⟩ ∧
      t.workspace = (phase.rest id disk u s.workspace).2 := by
  induction hleft : phase.left using Nat.strong_induction_on generalizing s phase with
  | _ left ih =>
    have hgo : metadataStep id s (.go i disk) = s.next id i u disk phase := by simp [metadataStep, hi]
    cases hnext : s.next id i u disk phase with
    | none =>
      obtain ⟨result, rfl⟩ := returned_of_next_eq_none id hnext
      exact ⟨0, s, rfl, hi, rfl⟩
    | some t =>
      rcases next_cases id hnext with ⟨phase', rfl, hon⟩ | ⟨m, rfl, rfl⟩
      · obtain ⟨n, t, hrun, hcall, hw⟩ := ih _ (hleft ▸ hon.left_lt) (become_calls hi) rfl
        have hrest : phase'.rest id disk u (s.become i u phase').workspace = phase.rest id disk u s.workspace := hon.rest_eq
        rw [hrest] at hcall hw
        refine ⟨n + 1, t, ?_, hcall, hw⟩
        rw [List.replicate_succ, run, hgo, hnext, Option.bind_some, hrun]
      · refine ⟨1, s.write id i u m disk, ?_, ?_⟩
        · rw [List.replicate_one, run, hgo, hnext, Option.bind_some, run]
        · rw [CallPhase.rest, MetadataCalls.write]
          rcases writeJson s.workspace .sessionMeta (jsonName id) disk (.metadata (u.set m)) with ⟨_ | _, w⟩
          · exact ⟨become_calls hi, rfl⟩
          · exact ⟨become_calls hi, rfl⟩

/-- **A call alone is the operation.** -/
theorem call_alone (hi : s.calls[i]? = some ⟨u, .finds (u.sessions id)⟩) : ∃ n t,
    run (metadataStep id) s (List.replicate n (.go i disk)) = some t ∧
      t.calls[i]? = some ⟨u, .returned (u.call disk id s.workspace).1⟩ ∧ t.workspace = (u.call disk id s.workspace).2 := by
  rw [← rest_finds]
  exact runs_alone id hi

end Alone

/-! ### Any number of calls -/

section Calls

variable {disk : Disk} {u : MetadataUpdate} {i : Nat} {read now m₀ : SessionMetadata}

theorem load_write (hdisk : disk .sessionMeta (jsonName id) = true) :
    loadSessionMetadata (s.write id i u read disk).workspace id = .ok (u.set read) := by
  rw [MetadataCalls.write, writeJson, if_pos hdisk]
  simp [loadSessionMetadata, exists?, readJson, FileStore.read_write, Stored.asMetadata]

theorem written_write (hdisk : disk .sessionMeta (jsonName id) = true) :
    (s.write id i u read disk).written = u :: s.written := by
  rw [MetadataCalls.write, writeJson, if_pos hdisk]

/-- A write that the disk refuses. -/
theorem write_refused (hdisk : disk .sessionMeta (jsonName id) = false) :
    s.write id i u read disk = s.become i u (.returned (.error (.write .sessionMeta (jsonName id)))) := by
  rw [MetadataCalls.write, writeJson, if_neg (by simp [hdisk])]
  rfl

/-- **A write keeps both fields** exactly if the one it does not set was read as it stands. -/
theorem kept_write_iff (hkept : Kept id w s) (hw : loadSessionMetadata w id = .ok m₀)
    (hnow : loadSessionMetadata s.workspace id = .ok now) (hdisk : disk .sessionMeta (jsonName id) = true) :
    Kept id w (s.write id i u read disk) ↔ u.other read = u.other now := by
  obtain ⟨m, hm, hname, hparent⟩ := hkept m₀ hw
  obtain rfl : now = m := Except.ok.inj (hnow.symm.trans hm)
  have hiff : Kept id w (s.write id i u read disk) ↔
      (u.set read).name = ((u :: s.written).findSome? MetadataUpdate.name?).or m₀.name ∧
        (u.set read).parentSessionId = ((u :: s.written).findSome? MetadataUpdate.parentId?).or m₀.parentSessionId := by
    simp only [Kept, hw, load_write hdisk, written_write hdisk, Except.ok.injEq, exists_eq_left', forall_eq']
  rw [hiff]
  cases u with
  | name value time => simp [List.findSome?_cons, MetadataUpdate.set, MetadataUpdate.other, MetadataUpdate.name?, MetadataUpdate.parentId?,
      hparent]
  | parent parentId time => simp [List.findSome?_cons, MetadataUpdate.set, MetadataUpdate.other, MetadataUpdate.name?, MetadataUpdate.parentId?,
      hname]

/-- What the calls keep. A record that cannot be read at first is never written. -/
structure Keeping (id : String) (w : Workspace) (s : MetadataCalls) : Prop where
  kept : Kept id w s
  unread : ∀ e, loadSessionMetadata w id = .error e → loadSessionMetadata s.workspace id = .error e ∧
    ∀ (i : Nat) (u : MetadataUpdate) (m : SessionMetadata), s.calls[i]? ≠ some ⟨u, .writes m⟩

/-- Where a call is about to write, the record can be read, at first and now. -/
theorem Keeping.loads (h : Keeping id w s) (hi : s.calls[i]? = some ⟨u, .writes read⟩) :
    ∃ m₀ now, loadSessionMetadata w id = .ok m₀ ∧ loadSessionMetadata s.workspace id = .ok now := by
  cases hw : loadSessionMetadata w id with
  | error e => exact absurd hi ((h.unread e hw).2 i u read)
  | ok m₀ =>
    obtain ⟨now, hnow, -⟩ := h.kept m₀ hw
    exact ⟨m₀, now, rfl, hnow⟩

/-- A step of a call that leaves the store alone. -/
theorem Keeping.become {phase : CallPhase} (h : Keeping id w s)
    (hphase : ∀ m, phase = .writes m → loadSessionMetadata s.workspace id = .ok m) : Keeping id w (s.become i u phase) where
  kept := h.kept
  unread e he := by
    obtain ⟨hload, hcalls⟩ := h.unread e he
    refine ⟨hload, fun j v m hj => ?_⟩
    rw [MetadataCalls.become, List.getElem?_set] at hj
    split_ifs at hj with hij hlt
    · obtain ⟨-, hwrites⟩ := (MetadataCall.mk.injEq ..).mp (Option.some.inj hj)
      have := hload.symm.trans (hphase m hwrites)
      cases this
    · exact hcalls j v m hj

theorem Keeping.step {a : MetadataAction} (h : Keeping id w s) (hfresh : Fresh id s a) (hstep : metadataStep id s a = some t) :
    Keeping id w t := by
  cases a with
  | call u =>
    obtain rfl := Option.some.inj hstep
    refine ⟨h.kept, fun e he => ?_⟩
    obtain ⟨hload, hcalls⟩ := h.unread e he
    refine ⟨hload, fun j v m hj => ?_⟩
    rw [List.getElem?_append] at hj
    split_ifs at hj with hlt
    · exact hcalls j v m hj
    · have hmem := List.mem_of_getElem? hj
      simp at hmem
  | go i disk =>
    obtain ⟨⟨u, phase⟩, hi, hnext⟩ := Option.bind_eq_some_iff.mp hstep
    rcases next_cases id hnext with ⟨phase', rfl, hon⟩ | ⟨m, rfl, rfl⟩
    · exact h.become hon.load_eq
    · cases hdisk : disk .sessionMeta (jsonName id) with
      | false =>
        rw [write_refused hdisk]
        exact h.become nofun
      | true =>
        obtain ⟨m₀, now, hw, hnow⟩ := h.loads hi
        refine ⟨(kept_write_iff h.kept hw hnow hdisk).mpr (hfresh u m now hi hdisk hnow), fun e he => ?_⟩
        rw [hw] at he
        cases he

/-- **The metadata of a session**: after every run of any number of calls for one session, the record holds the
name and the parent written last, exactly as long as whoever replaced it had read the field that is not its own
as it stood. -/
theorem metadata_kept_iff (id : String) (w : Workspace) (as : List MetadataAction) :
    Always (metadataStep id) (Kept id w) ⟨w, [], []⟩ as ↔ Meets (metadataStep id) (Fresh id) ⟨w, [], []⟩ as := by
  refine always_iff_meets (fun s (h : Keeping id w s) => h.kept) (fun s a t h hfresh hstep => h.step hfresh hstep)
    (fun s a t h hstale hstep hkept => ?_) ⟨fun m₀ hm => ⟨m₀, hm, rfl, rfl⟩, fun e he => ⟨he, by simp⟩⟩ as
  cases a with
  | call u => exact hstale trivial
  | go i disk =>
    refine hstale fun u read now hi hdisk hnow => ?_
    obtain ⟨m₀, -, hw, -⟩ := h.loads hi
    have hwrite : metadataStep id s (.go i disk) = some (s.write id i u read disk) := by
      rw [metadataStep, hi, Option.bind_some, MetadataCalls.next]
    obtain rfl : s.write id i u read disk = t := Option.some.inj (hwrite.symm.trans hstep)
    exact (kept_write_iff h.kept hw hnow hdisk).mp hkept

end Calls

/-- A session and its parent. -/
def parentAndChild : Workspace where
  tree := .empty
  files := FileStore.write (FileStore.write ∅ .sessions (jsonName "child") (.report (reportOf "child")))
    .sessions (jsonName "parent") (.report (reportOf "parent"))

/-- The session gets a name while it is linked to its parent: both calls look for the record before either
writes it. -/
def nameAndLink : List MetadataAction :=
  [.call (.name "first pass" "t1"), .call (.parent "parent" "t2")] ++
    [0, 0, 0, 1, 1, 1, 1, 0, 1].map fun i => .go i fun _ _ => true

/-- **A name is lost**, though both calls return without an error. -/
theorem name_lost :
    ∃ s, run (metadataStep "child") ⟨parentAndChild, [], []⟩ nameAndLink = some s ∧
      (∀ c ∈ s.calls, ∃ u, c = ⟨u, .returned (.ok ())⟩) ∧
      s.written.findSome? MetadataUpdate.name? = some "first pass" ∧
      loadSessionMetadata s.workspace "child" = .ok ⟨none, some "parent", some "t2"⟩ ∧
      ¬ Kept "child" parentAndChild s := by
  have hw : loadSessionMetadata parentAndChild "child" = .ok .default := rfl
  refine ⟨_, rfl, ?_, rfl, rfl, fun h => ?_⟩
  · intro c hc
    rcases List.mem_pair.mp hc with rfl | rfl
    · exact ⟨_, rfl⟩
    · exact ⟨_, rfl⟩
  · obtain ⟨m, hm, hname, -⟩ := h _ hw
    obtain rfl : m = ⟨none, some "parent", some "t2"⟩ := (Except.ok.inj hm).symm
    cases hname

end Nerve.Store
