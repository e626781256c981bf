import Nerve.Library.FileStore
import Nerve.Library.TransitionSystem
import Mathlib.Data.List.TakeDrop
import Mathlib.Order.Basic

/-!
# Files replaced by a rename

A directory maps names to inodes, and octets are in inodes: a name can come to stand for another inode while somebody still
reads the one it stood for. A content is written to a new inode under a reserved name, as many octets at a time as the system
takes, and then the reserved name is renamed to the one that is meant. Any step can be refused, and whoever writes or reads
can die at any moment; the reserved name may then be left.

What is seen under the names that are not reserved is a `FileStore` whose writes are atomic, in every run of any number
of writers and readers (`shows_run`): a content is there from the rename of its writer on, and nothing else changes what is seen.
Who reads a file to its end has got what was seen when the file was opened (`saw_run`). Reserved names that are left
belong to writers that died or whose removal was refused (`accounted_run`).
-/

namespace Nerve.AtomicReplace

open TransitionSystem

universe u v w x y

/-! ### Inodes -/

/-- The names of each place, and the octets in the inodes; from `next` on, inodes are unused. -/
structure Volume (κ : Type u) (ν : Type v) (β : Type w) where
  entry : κ → ν → Option Nat
  octets : Nat → List β
  next : Nat

namespace Volume

variable {κ : Type u} {ν : Type v} {β : Type w}

def append (d : Volume κ ν β) (inode : Nat) (piece : List β) : Volume κ ν β :=
  { d with octets := Function.update d.octets inode (d.octets inode ++ piece) }

def content (d : Volume κ ν β) (p : κ) (n : ν) : Option (List β) := (d.entry p n).map d.octets

/-- No inode has two names, and those from `next` on have none. -/
structure Sound (d : Volume κ ν β) : Prop where
  injective : ∀ {p q : κ} {n m : ν} {inode : Nat}, d.entry p n = some inode → d.entry q m = some inode → p = q ∧ n = m
  below : ∀ {p : κ} {n : ν} {inode : Nat}, d.entry p n = some inode → inode < d.next

variable {d d' : Volume κ ν β} {p q r : κ} {n m k : ν} {inode : Nat} {piece : List β}

@[simp] theorem entry_append : (d.append inode piece).entry = d.entry := rfl

@[simp] theorem next_append : (d.append inode piece).next = d.next := rfl

@[simp] theorem octets_append_self : (d.append inode piece).octets inode = d.octets inode ++ piece := by simp [append]

theorem octets_append_of_ne {other : Nat} (h : other ≠ inode) : (d.append inode piece).octets other = d.octets other := by
  simp [append, h]

theorem Sound.append (h : d.Sound) : (d.append inode piece).Sound := ⟨h.injective, h.below⟩

variable [DecidableEq κ] [DecidableEq ν]

def setEntry (d : Volume κ ν β) (p : κ) (n : ν) (inode : Option Nat) : Volume κ ν β :=
  { d with entry := fun q m => if q = p ∧ m = n then inode else d.entry q m }

/-- `O_CREAT` and `O_EXCL`. -/
def create (d : Volume κ ν β) (p : κ) (n : ν) : Volume κ ν β :=
  { d.setEntry p n (some d.next) with octets := Function.update d.octets d.next [], next := d.next + 1 }

def unlink (d : Volume κ ν β) (p : κ) (n : ν) : Volume κ ν β := d.setEntry p n none

/-- Fails if there is no such name. A file renamed to itself stays. -/
def rename (d : Volume κ ν β) (p : κ) (n : ν) (q : κ) (m : ν) : Option (Volume κ ν β) :=
  (d.entry p n).map fun inode => (d.setEntry p n none).setEntry q m (some inode)

@[simp] theorem entry_create : (d.create p n).entry q m = if q = p ∧ m = n then some d.next else d.entry q m := rfl

@[simp] theorem next_create : (d.create p n).next = d.next + 1 := rfl

@[simp] theorem octets_create_self : (d.create p n).octets d.next = [] := by simp [create]

theorem octets_create_of_ne {other : Nat} (h : other ≠ d.next) : (d.create p n).octets other = d.octets other := by
  simp [create, h, setEntry]

@[simp] theorem entry_unlink : (d.unlink p n).entry q m = if q = p ∧ m = n then none else d.entry q m := rfl

@[simp] theorem next_unlink : (d.unlink p n).next = d.next := rfl

@[simp] theorem octets_unlink : (d.unlink p n).octets = d.octets := rfl

theorem entry_rename (h : d.rename p n q m = some d') : ∃ inode, d.entry p n = some inode ∧ d'.octets = d.octets ∧
    d'.next = d.next ∧
    ∀ r k, d'.entry r k = if r = q ∧ k = m then some inode else if r = p ∧ k = n then none else d.entry r k := by
  obtain ⟨inode, hentry, rfl⟩ := Option.map_eq_some_iff.mp h
  exact ⟨inode, hentry, rfl, rfl, fun _ _ => rfl⟩

theorem Sound.create (h : d.Sound) : (d.create p n).Sound where
  injective := by
    intro q r m k inode hq hr
    simp only [entry_create] at hq hr
    split_ifs at hq hr with hm hk hk
    · exact ⟨hm.1.trans hk.1.symm, hm.2.trans hk.2.symm⟩
    · cases hq
      exact absurd (h.below hr) (lt_irrefl _)
    · cases hr
      exact absurd (h.below hq) (lt_irrefl _)
    · exact h.injective hq hr
  below := by
    intro q m inode hq
    simp only [entry_create, next_create] at hq ⊢
    split_ifs at hq
    · cases hq
      omega
    · exact Nat.lt_succ_of_lt (h.below hq)

theorem Sound.unlink (h : d.Sound) : (d.unlink p n).Sound where
  injective := by
    intro q r m k inode hq hr
    simp only [entry_unlink] at hq hr
    split_ifs at hq hr
    exact h.injective hq hr
  below := by
    intro q m inode hq
    simp only [entry_unlink] at hq
    split_ifs at hq
    exact h.below hq

theorem Sound.rename (h : d.Sound) (hd : d.rename p n q m = some d') : d'.Sound := by
  obtain ⟨inode, hentry, -, hnext, hentries⟩ := entry_rename hd
  constructor
  · intro r s k l other hr hs
    rw [hentries] at hr hs
    split_ifs at hr hs with h₁ h₂ h₃ h₄ h₅
    · exact ⟨h₁.1.trans h₂.1.symm, h₁.2.trans h₂.2.symm⟩
    · cases hr
      exact absurd (h.injective hs hentry) h₃
    · cases hs
      exact absurd (h.injective hr hentry) h₄
    · exact h.injective hr hs
  · intro r k other hr
    rw [hentries] at hr
    rw [hnext]
    split_ifs at hr
    · cases hr
      exact h.below hentry
    · exact h.below hr

end Volume

/-! ### One writer, one reader -/

/-- How far a write is; when it has ended, the reserved name that it has left. -/
inductive WritePhase (ν : Type v) (β : Type w) where
  | starting
  | filling (temp : ν) (inode : Nat) (left : List β)
  | discarding (temp : ν)
  | replaced
  | failed (litter : Option ν)
  | dead (litter : Option ν)

inductive ReadPhase (β : Type w) where
  | starting
  | reading (inode : Nat) (got : List β)
  | missing
  | whole (got : List β)
  | failed

/-- What a writer or a reader does next, as the system answers. -/
inductive Move (ν : Type v) where
  | create (temp : ν)
  | fill (count : Nat)
  | replace
  | refuse
  | discard (removed : Bool)
  | opens
  | take (count : Nat)
  | finish
  | die

variable {κ : Type u} {ν : Type v} {β : Type w} {γ : Type x} {ι : Type y} [DecidableEq κ] [DecidableEq ν]

def WritePhase.act (reserved : ν → Bool) (p : κ) (n : ν) (whole : List β) (d : Volume κ ν β) :
    WritePhase ν β → Move ν → Option (Volume κ ν β × WritePhase ν β)
  | .starting, .create temp =>
    if reserved temp = true ∧ (d.entry p temp).isNone = true then some (d.create p temp, .filling temp d.next whole)
    else none
  | .starting, .refuse => some (d, .failed none)
  | .starting, .die => some (d, .dead none)
  | .filling temp inode left, .fill count =>
    if 0 < count ∧ count ≤ left.length then
      some (d.append inode (left.take count), .filling temp inode (left.drop count))
    else none
  | .filling temp _ [], .replace => (d.rename p temp p n).map fun d' => (d', .replaced)
  | .filling temp _ _, .refuse => some (d, .discarding temp)
  | .filling temp _ _, .die => some (d, .dead (some temp))
  | .discarding temp, .discard removed =>
    if removed = true then some (d.unlink p temp, .failed none) else some (d, .failed (some temp))
  | .discarding temp, .die => some (d, .dead (some temp))
  | _, _ => none

omit [DecidableEq κ] [DecidableEq ν] in
def ReadPhase.act (p : κ) (n : ν) (d : Volume κ ν β) : ReadPhase β → Move ν → Option (ReadPhase β)
  | .starting, .opens =>
    match d.entry p n with
    | none => some .missing
    | some inode => some (.reading inode [])
  | .starting, .refuse | .starting, .die => some .failed
  | .reading inode got, .take count =>
    if 0 < count ∧ got.length + count ≤ (d.octets inode).length then
      some (.reading inode (got ++ ((d.octets inode).drop got.length).take count))
    else none
  | .reading inode got, .finish => if (d.octets inode).length ≤ got.length then some (.whole got) else none
  | .reading _ _, .refuse | .reading _ _, .die => some .failed
  | _, _ => none

/-- What a writer can do. -/
inductive WritePhase.Acts (reserved : ν → Bool) (p : κ) (n : ν) (whole : List β) (d : Volume κ ν β) :
    WritePhase ν β → Move ν → Volume κ ν β → WritePhase ν β → Prop
  | create {temp : ν} (hreserved : reserved temp = true) (hfree : d.entry p temp = none) :
    Acts reserved p n whole d .starting (.create temp) (d.create p temp) (.filling temp d.next whole)
  | stop {move : Move ν} {phase : WritePhase ν β} (hphase : phase = .failed none ∨ phase = .dead none) (hmove : move ≠ .replace) :
    Acts reserved p n whole d .starting move d phase
  | fill {temp : ν} {inode count : Nat} {left : List β} :
    Acts reserved p n whole d (.filling temp inode left) (.fill count) (d.append inode (left.take count))
      (.filling temp inode (left.drop count))
  | replace {temp : ν} {inode : Nat} {d' : Volume κ ν β} (hd : d.rename p temp p n = some d') :
    Acts reserved p n whole d (.filling temp inode []) .replace d' .replaced
  | refused {temp : ν} {inode : Nat} {left : List β} :
    Acts reserved p n whole d (.filling temp inode left) .refuse d (.discarding temp)
  | discard {temp : ν} : Acts reserved p n whole d (.discarding temp) (.discard true) (d.unlink p temp) (.failed none)
  /-- The reserved name is left. -/
  | leave {temp : ν} {move : Move ν} {before after : WritePhase ν β}
    (hbefore : (∃ inode left, before = .filling temp inode left) ∨ before = .discarding temp)
    (hafter : after = .failed (some temp) ∨ after = .dead (some temp)) (hmove : move ≠ .replace) :
    Acts reserved p n whole d before move d after

inductive ReadPhase.Acts (p : κ) (n : ν) (d : Volume κ ν β) : ReadPhase β → Move ν → ReadPhase β → Prop
  | missing (h : d.entry p n = none) : Acts p n d .starting .opens .missing
  | opens {inode : Nat} (h : d.entry p n = some inode) : Acts p n d .starting .opens (.reading inode [])
  | take {inode count : Nat} {got : List β} :
    Acts p n d (.reading inode got) (.take count) (.reading inode (got ++ ((d.octets inode).drop got.length).take count))
  | finish {inode : Nat} {got : List β} (h : (d.octets inode).length ≤ got.length) :
    Acts p n d (.reading inode got) .finish (.whole got)
  | stop {phase : ReadPhase β} {move : Move ν} : Acts p n d phase move .failed

section acts

variable {reserved : ν → Bool} {p q : κ} {n m : ν} {whole : List β} {d d' : Volume κ ν β} {move : Move ν}

theorem WritePhase.acts_of_act {phase phase' : WritePhase ν β} (h : phase.act reserved p n whole d move = some (d', phase')) :
    phase.Acts reserved p n whole d move d' phase' := by
  unfold WritePhase.act at h
  split at h
  · split_ifs at h with hfree
    cases h
    exact .create hfree.1 (Option.isNone_iff_eq_none.mp hfree.2)
  · cases h
    exact .stop (.inl rfl) nofun
  · cases h
    exact .stop (.inr rfl) nofun
  · split_ifs at h
    cases h
    exact .fill
  · obtain ⟨d', hd, h⟩ := Option.map_eq_some_iff.mp h
    cases h
    exact .replace hd
  · cases h
    exact .refused
  · cases h
    exact .leave (.inl ⟨_, _, rfl⟩) (.inr rfl) nofun
  · split_ifs at h with hremoved
    · cases h
      rw [hremoved]
      exact .discard
    · cases h
      exact .leave (.inr rfl) (.inl rfl) nofun
  · cases h
    exact .leave (.inr rfl) (.inr rfl) nofun
  · cases h

omit [DecidableEq κ] [DecidableEq ν] in
theorem ReadPhase.acts_of_act {phase phase' : ReadPhase β} (h : phase.act p n d move = some phase') :
    phase.Acts p n d move phase' := by
  unfold ReadPhase.act at h
  split at h
  · split at h
    · rename_i hentry
      cases h
      exact .missing hentry
    · rename_i hentry
      cases h
      exact .opens hentry
  · cases h
    exact .stop
  · cases h
    exact .stop
  · split_ifs at h
    cases h
    exact .take
  · split_ifs at h with hend
    cases h
    exact .finish hend
  · cases h
    exact .stop
  · cases h
    exact .stop
  · cases h

end acts

/-! ### What writers and readers rely on -/

/-- The reserved name that a write still has. -/
def WritePhase.temp : WritePhase ν β → Option ν
  | .filling temp _ _ | .discarding temp => some temp
  | _ => none

/-- The reserved name that a write has left. -/
def WritePhase.litter : WritePhase ν β → Option ν
  | .failed litter | .dead litter => litter
  | _ => none

/-- What is in the new inode is the beginning of the content. -/
def WritePhase.Ok (reserved : ν → Bool) (p : κ) (whole : List β) (d : Volume κ ν β) : WritePhase ν β → Prop
  | .filling temp inode left => reserved temp = true ∧ d.entry p temp = some inode ∧ d.octets inode ++ left = whole
  | .discarding temp => reserved temp = true ∧ (d.entry p temp).isSome = true
  | _ => True

/-- What was got is the beginning of an inode that nobody writes to. -/
def ReadPhase.Ok (reserved : ν → Bool) (d : Volume κ ν β) : ReadPhase β → Prop
  | .reading inode got =>
    inode < d.next ∧ got <+: d.octets inode ∧ ∀ q m, reserved m = true → d.entry q m ≠ some inode
  | _ => True

/-- Of what is under reserved names, at most what is under the one name has changed. -/
structure Within (reserved : ν → Bool) (name : Option (κ × ν)) (d d' : Volume κ ν β) : Prop where
  next : d.next ≤ d'.next
  entry : ∀ q m, reserved m = true → some (q, m) ≠ name → d'.entry q m = d.entry q m
  octets : ∀ inode < d.next, (∀ q m, name = some (q, m) → d.entry q m ≠ some inode) → d'.octets inode = d.octets inode
  fresh : ∀ q m inode, reserved m = true → d'.entry q m = some inode → d.entry q m = some inode ∨ d.next ≤ inode
  reserved : ∀ q m, name = some (q, m) → reserved m = true

section within

variable {reserved : ν → Bool} {p q : κ} {n m temp : ν} {whole : List β} {d d' : Volume κ ν β} {move : Move ν}
variable {name : Option (κ × ν)}

omit [DecidableEq κ] [DecidableEq ν] in
theorem Within.refl (h : ∀ q m, name = some (q, m) → reserved m = true) (d : Volume κ ν β) : Within reserved name d d :=
  ⟨le_rfl, fun _ _ _ _ => rfl, fun _ _ _ => rfl, fun _ _ _ _ h => .inl h, h⟩

omit [DecidableEq κ] [DecidableEq ν] in
theorem WritePhase.Ok.isSome {phase : WritePhase ν β} (h : phase.Ok reserved p whole d) (htemp : phase.temp = some temp) :
    reserved temp = true ∧ (d.entry p temp).isSome = true := by
  cases phase with
  | filling _ inode left =>
    cases htemp
    exact ⟨h.1, by simp [h.2.1]⟩
  | discarding =>
    cases htemp
    exact h
  | _ => cases htemp

omit [DecidableEq κ] [DecidableEq ν] in
/-- What others do under their names does not matter. -/
theorem WritePhase.Ok.frame {phase : WritePhase ν β} (hok : phase.Ok reserved p whole d) (hsound : d.Sound)
    (h : Within reserved name d d') (hname : ∀ temp, phase.temp = some temp → some (p, temp) ≠ name) :
    phase.Ok reserved p whole d' := by
  cases phase with
  | filling temp inode left =>
    obtain ⟨hreserved, hentry, hwhole⟩ := hok
    have hne := hname temp rfl
    have hoctets : d'.octets inode = d.octets inode := by
      refine h.octets inode (hsound.below hentry) fun q m hother hm => hne ?_
      obtain ⟨rfl, rfl⟩ := hsound.injective hentry hm
      exact hother.symm
    exact ⟨hreserved, (h.entry p temp hreserved hne).trans hentry, by rw [hoctets, hwhole]⟩
  | discarding temp => exact ⟨hok.1, by rw [h.entry p temp hok.1 (hname temp rfl)]; exact hok.2⟩
  | _ => trivial

omit [DecidableEq κ] [DecidableEq ν] in
theorem ReadPhase.Ok.frame {phase : ReadPhase β} (hok : phase.Ok reserved d) (h : Within reserved name d d') :
    phase.Ok reserved d' := by
  cases phase with
  | reading inode got =>
    obtain ⟨hlt, hgot, hsealed⟩ := hok
    have hoctets : d'.octets inode = d.octets inode :=
      h.octets inode hlt fun q m hname hm => hsealed q m (h.reserved q m hname) hm
    refine ⟨hlt.trans_le h.next, by rw [hoctets]; exact hgot, fun q m hm hentry => ?_⟩
    rcases h.fresh q m inode hm hentry with hold | hnew
    · exact hsealed q m hm hold
    · omega
  | _ => trivial

theorem within_rename (hn : reserved n = false) (hm : reserved m = false) (hd : d.rename p n q m = some d') :
    Within reserved (none : Option (κ × ν)) d d' := by
  obtain ⟨inode, -, hoctets, hnext, hentries⟩ := Volume.entry_rename hd
  have hentry (r : κ) (k : ν) (hk : reserved k = true) : d'.entry r k = d.entry r k := by
    rw [hentries, if_neg, if_neg]
    · rintro ⟨-, rfl⟩
      simp [hk] at hn
    · rintro ⟨-, rfl⟩
      simp [hk] at hm
  exact ⟨hnext.ge, fun r k hk _ => hentry r k hk, fun _ _ _ => by rw [hoctets],
    fun r k _ hk h => .inl (by rw [← hentry r k hk]; exact h), nofun⟩

theorem within_unlink (hn : reserved n = false) : Within reserved (none : Option (κ × ν)) d (d.unlink p n) := by
  have hentry (r : κ) (k : ν) (hk : reserved k = true) : (d.unlink p n).entry r k = d.entry r k := by
    rw [Volume.entry_unlink, if_neg]
    rintro ⟨-, rfl⟩
    simp [hk] at hn
  exact ⟨le_rfl, fun r k hk _ => hentry r k hk, fun _ _ _ => rfl,
    fun r k _ hk h => .inl (by rw [← hentry r k hk]; exact h), nofun⟩

theorem WritePhase.Acts.sound {phase phase' : WritePhase ν β} (h : phase.Acts reserved p n whole d move d' phase')
    (hsound : d.Sound) : d'.Sound := by
  cases h with
  | create => exact hsound.create
  | fill => exact hsound.append
  | replace hd => exact hsound.rename hd
  | discard => exact hsound.unlink
  | stop | refused | leave => exact hsound

/-- A writer touches its own reserved name only. -/
theorem WritePhase.Acts.within {phase phase' : WritePhase ν β} (h : phase.Acts reserved p n whole d move d' phase')
    (hn : reserved n = false) (hok : phase.Ok reserved p whole d) :
    Within reserved ((phase.temp.or phase'.temp).map (p, ·)) d d' := by
  have hown (q : κ) (m : ν) (h : phase.temp.map (p, ·) = some (q, m)) : reserved m = true := by
    obtain ⟨temp, htemp, hm⟩ := Option.map_eq_some_iff.mp h
    cases hm
    exact (hok.isSome htemp).1
  cases h with
  | @create temp hreserved hfree =>
    have hnew : ∀ q m, (q, m) ≠ (p, temp) → ¬(q = p ∧ m = temp) := fun q m hne h => hne (by rw [h.1, h.2])
    refine ⟨Nat.le_succ _, fun q m _ hne => if_neg (hnew q m fun h => hne (by rw [h]; rfl)),
      fun inode hlt _ => Volume.octets_create_of_ne hlt.ne, fun q m inode _ hentry => ?_, fun q m h => ?_⟩
    · rw [Volume.entry_create] at hentry
      split_ifs at hentry
      · cases hentry
        exact .inr le_rfl
      · exact .inl hentry
    · cases h
      exact hreserved
  | stop hphase =>
    rcases hphase with rfl | rfl
    · exact Within.refl nofun d
    · exact Within.refl nofun d
  | @fill temp inode count left =>
    refine ⟨le_rfl, fun _ _ _ _ => rfl, fun other _ hother => Volume.octets_append_of_ne ?_, fun _ _ _ _ h => .inl h, hown⟩
    rintro rfl
    exact hother p temp rfl hok.2.1
  | @replace temp inode _ hd =>
    obtain ⟨other, hentry, hoctets, hnext, hentries⟩ := Volume.entry_rename hd
    refine ⟨hnext.ge, fun q m hm hne => ?_, fun _ _ _ => by rw [hoctets], fun q m k hm hk => ?_, hown⟩
    · rw [hentries, if_neg, if_neg]
      · rintro ⟨rfl, rfl⟩
        exact hne rfl
      · rintro ⟨-, rfl⟩
        simp [hm] at hn
    · rw [hentries, if_neg] at hk
      · split_ifs at hk
        exact .inl hk
      · rintro ⟨-, rfl⟩
        simp [hm] at hn
  | refused => exact Within.refl hown d
  | @discard temp =>
    refine ⟨le_rfl, fun q m _ hne => if_neg ?_, fun _ _ _ => rfl, fun q m k _ hk => ?_, hown⟩
    · rintro ⟨rfl, rfl⟩
      exact hne rfl
    · rw [Volume.entry_unlink] at hk
      split_ifs at hk
      exact .inl hk
  | leave hbefore =>
    obtain ⟨inode, left, rfl⟩ | rfl := hbefore
    · exact Within.refl hown d
    · exact Within.refl hown d

end within

section ok

variable {reserved : ν → Bool} {p : κ} {n : ν} {whole : List β} {d d' : Volume κ ν β} {move : Move ν}

theorem WritePhase.Acts.ok {phase phase' : WritePhase ν β} (h : phase.Acts reserved p n whole d move d' phase')
    (hok : phase.Ok reserved p whole d) : phase'.Ok reserved p whole d' := by
  cases h with
  | create hreserved => exact ⟨hreserved, by simp, by simp⟩
  | fill =>
    obtain ⟨hreserved, hentry, hwhole⟩ := hok
    exact ⟨hreserved, hentry, by rw [Volume.octets_append_self, List.append_assoc, List.take_append_drop, hwhole]⟩
  | refused => exact ⟨hok.1, by simp [hok.2.1]⟩
  | stop hphase => obtain rfl | rfl := hphase <;> trivial
  | leave _ hafter => obtain rfl | rfl := hafter <;> trivial
  | replace | discard => trivial

/-- A writer has the name it had, or a new one that was free. -/
theorem WritePhase.Acts.temp {temp : ν} {phase phase' : WritePhase ν β} (h : phase.Acts reserved p n whole d move d' phase')
    (htemp : phase'.temp = some temp) : phase.temp = some temp ∨ phase.temp = none ∧ d.entry p temp = none := by
  cases h with
  | create _ hfree =>
    cases htemp
    exact .inr ⟨rfl, hfree⟩
  | fill | refused => exact .inl htemp
  | stop hphase => obtain rfl | rfl := hphase <;> cases htemp
  | leave _ hafter => obtain rfl | rfl := hafter <;> cases htemp
  | replace | discard => cases htemp

omit [DecidableEq κ] [DecidableEq ν] in
theorem ReadPhase.Acts.ok {phase phase' : ReadPhase β} (h : phase.Acts p n d move phase') (hsound : d.Sound)
    (hn : reserved n = false) (hok : phase.Ok reserved d) : phase'.Ok reserved d := by
  cases h with
  | opens hentry =>
    refine ⟨hsound.below hentry, List.nil_prefix, fun q m hm hother => ?_⟩
    obtain ⟨rfl, rfl⟩ := hsound.injective hentry hother
    simp [hm] at hn
  | @take inode count got =>
    obtain ⟨hlt, ⟨rest, hrest⟩, hsealed⟩ := hok
    refine ⟨hlt, ?_, hsealed⟩
    rw [← hrest, List.drop_left]
    exact (List.prefix_append_right_inj got).mpr (List.take_prefix count rest)
  | missing | finish | stop => trivial

end ok

/-! ### Any number of them -/

/-- A write of a content, or a read, of the name in the place. -/
inductive Call (κ : Type u) (ν : Type v) (β : Type w) (γ : Type x) where
  | write (p : κ) (n : ν) (content : γ) (phase : WritePhase ν β)
  | read (p : κ) (n : ν) (phase : ReadPhase β)

structure State (κ : Type u) (ν : Type v) (β : Type w) (γ : Type x) (ι : Type y) where
  volume : Volume κ ν β
  calls : ι → Option (Call κ ν β γ)

/-- Nobody has begun. -/
def start (d : Volume κ ν β) : State κ ν β γ ι := ⟨d, fun _ => none⟩

inductive Action (κ : Type u) (ν : Type v) (γ : Type x) (ι : Type y) where
  | beginWrite (i : ι) (p : κ) (n : ν) (content : γ)
  | beginRead (i : ι) (p : κ) (n : ν)
  | act (i : ι) (move : Move ν)
  | remove (p : κ) (n : ν)
  | rename (p q : κ) (n : ν)

namespace Call

/-- The reserved name that the call still has, with its place. -/
def temp : Call κ ν β γ → Option (κ × ν)
  | .write p _ _ phase => phase.temp.map (p, ·)
  | .read .. => none

def litter : Call κ ν β γ → Option (κ × ν)
  | .write p _ _ phase => phase.litter.map (p, ·)
  | .read .. => none

def act (text : γ → List β) (reserved : ν → Bool) (d : Volume κ ν β) :
    Call κ ν β γ → Move ν → Option (Volume κ ν β × Call κ ν β γ)
  | .write p n content phase, move =>
    (phase.act reserved p n (text content) d move).map fun (d', phase') => (d', .write p n content phase')
  | .read p n phase, move => (phase.act p n d move).map fun phase' => (d, .read p n phase')

def Ok (text : γ → List β) (reserved : ν → Bool) (d : Volume κ ν β) : Call κ ν β γ → Prop
  | .write p n content phase => reserved n = false ∧ phase.Ok reserved p (text content) d
  | .read _ n phase => reserved n = false ∧ phase.Ok reserved d

end Call

section step

variable [DecidableEq ι] (text : γ → List β) (reserved : ν → Bool)

/-- No call is on a reserved name, and nobody else removes or renames one. -/
def step (s : State κ ν β γ ι) : Action κ ν γ ι → Option (State κ ν β γ ι)
  | .beginWrite i p n content =>
    if reserved n = true ∨ (s.calls i).isSome = true then none
    else some { s with calls := Function.update s.calls i (some (.write p n content .starting)) }
  | .beginRead i p n =>
    if reserved n = true ∨ (s.calls i).isSome = true then none
    else some { s with calls := Function.update s.calls i (some (.read p n .starting)) }
  | .act i move =>
    (s.calls i).bind fun call => (call.act text reserved s.volume move).map fun (d, call') =>
      ⟨d, Function.update s.calls i (some call')⟩
  | .remove p n => if reserved n = true then none else some { s with volume := s.volume.unlink p n }
  | .rename p q n =>
    if reserved n = true then none else (s.volume.rename p n q n).map fun d => { s with volume := d }

/-- What a step can do. -/
inductive Steps (s : State κ ν β γ ι) : Action κ ν γ ι → State κ ν β γ ι → Prop
  | beginWrite {i : ι} {p : κ} {n : ν} {content : γ} (hn : reserved n = false) (hi : s.calls i = none) :
    Steps s (.beginWrite i p n content) { s with calls := Function.update s.calls i (some (.write p n content .starting)) }
  | beginRead {i : ι} {p : κ} {n : ν} (hn : reserved n = false) (hi : s.calls i = none) :
    Steps s (.beginRead i p n) { s with calls := Function.update s.calls i (some (.read p n .starting)) }
  | write {i : ι} {move : Move ν} {p : κ} {n : ν} {content : γ} {phase phase' : WritePhase ν β} {d : Volume κ ν β}
    (hi : s.calls i = some (.write p n content phase))
    (h : phase.Acts reserved p n (text content) s.volume move d phase') :
    Steps s (.act i move) ⟨d, Function.update s.calls i (some (.write p n content phase'))⟩
  | read {i : ι} {move : Move ν} {p : κ} {n : ν} {phase phase' : ReadPhase β} (hi : s.calls i = some (.read p n phase))
    (h : phase.Acts p n s.volume move phase') :
    Steps s (.act i move) { s with calls := Function.update s.calls i (some (.read p n phase')) }
  | remove {p : κ} {n : ν} (hn : reserved n = false) : Steps s (.remove p n) { s with volume := s.volume.unlink p n }
  | rename {p q : κ} {n : ν} {d : Volume κ ν β} (hn : reserved n = false) (hd : s.volume.rename p n q n = some d) :
    Steps s (.rename p q n) { s with volume := d }

variable {text reserved} {s t : State κ ν β γ ι} {a : Action κ ν γ ι}

theorem steps_of_step (h : step text reserved s a = some t) : Steps text reserved s a t := by
  cases a with
  | beginWrite i p n content =>
    simp only [step] at h
    split_ifs at h with hfree
    rw [not_or, Bool.not_eq_true, Bool.not_eq_true, Option.isSome_eq_false_iff, Option.isNone_iff_eq_none] at hfree
    cases h
    exact .beginWrite hfree.1 hfree.2
  | beginRead i p n =>
    simp only [step] at h
    split_ifs at h with hfree
    rw [not_or, Bool.not_eq_true, Bool.not_eq_true, Option.isSome_eq_false_iff, Option.isNone_iff_eq_none] at hfree
    cases h
    exact .beginRead hfree.1 hfree.2
  | act i move =>
    obtain ⟨call, hi, h⟩ := Option.bind_eq_some_iff.mp h
    obtain ⟨⟨d, call'⟩, hact, h⟩ := Option.map_eq_some_iff.mp h
    cases h
    cases call with
    | write p n content phase =>
      obtain ⟨⟨d, phase'⟩, hphase, h⟩ := Option.map_eq_some_iff.mp hact
      cases h
      exact .write hi (WritePhase.acts_of_act hphase)
    | read p n phase =>
      obtain ⟨phase', hphase, h⟩ := Option.map_eq_some_iff.mp hact
      cases h
      exact .read hi (ReadPhase.acts_of_act hphase)
  | remove p n =>
    simp only [step] at h
    split_ifs at h with hn
    cases h
    exact .remove (by simpa using hn)
  | rename p q n =>
    simp only [step] at h
    split_ifs at h with hn
    obtain ⟨d, hd, h⟩ := Option.map_eq_some_iff.mp h
    cases h
    exact .rename (by simpa using hn) hd

end step

/-! ### The invariant -/

/-- Every call has what it relies on, and no two have one reserved name. -/
structure Sound (text : γ → List β) (reserved : ν → Bool) (s : State κ ν β γ ι) : Prop where
  volume : s.volume.Sound
  calls : ∀ {i : ι} {call : Call κ ν β γ}, s.calls i = some call → call.Ok text reserved s.volume
  apart : ∀ {i j : ι} {call call' : Call κ ν β γ} {name : κ × ν}, s.calls i = some call → s.calls j = some call' →
    call.temp = some name → call'.temp = some name → i = j

section sound

variable {text : γ → List β} {reserved : ν → Bool} {s t : State κ ν β γ ι} {d : Volume κ ν β} {name : Option (κ × ν)}

omit [DecidableEq κ] [DecidableEq ν] in
theorem sound_start {d : Volume κ ν β} (h : d.Sound) : Sound text reserved (start d : State κ ν β γ ι) :=
  ⟨h, nofun, nofun⟩

omit [DecidableEq κ] [DecidableEq ν] in
theorem Call.Ok.frame {call : Call κ ν β γ} (hok : call.Ok text reserved s.volume) (hsound : s.volume.Sound)
    (h : Within reserved name s.volume d) (hname : ∀ x, call.temp = some x → some x ≠ name) :
    call.Ok text reserved d := by
  cases call with
  | write p n content phase =>
    refine ⟨hok.1, hok.2.frame hsound h fun temp htemp => hname (p, temp) ?_⟩
    rw [Call.temp, htemp, Option.map_some]
  | read p n phase => exact ⟨hok.1, hok.2.frame h⟩

omit [DecidableEq κ] [DecidableEq ν] in
theorem Call.Ok.isSome {call : Call κ ν β γ} {d : Volume κ ν β} {p : κ} {temp : ν} (h : call.Ok text reserved d)
    (htemp : call.temp = some (p, temp)) : (d.entry p temp).isSome = true := by
  cases call with
  | write q n content phase =>
    obtain ⟨temp', hphase, heq⟩ := Option.map_eq_some_iff.mp htemp
    cases heq
    exact (h.2.isSome hphase).2
  | read => cases htemp

omit [DecidableEq κ] [DecidableEq ν] in
theorem Sound.within (hs : Sound text reserved s) (hd : d.Sound) (h : Within reserved none s.volume d) :
    Sound text reserved { s with volume := d } :=
  ⟨hd, fun hi => (hs.calls hi).frame hs.volume h nofun, hs.apart⟩

variable [DecidableEq ι]

omit [DecidableEq κ] [DecidableEq ν] in
theorem Sound.update {i : ι} {call : Call κ ν β γ} (hs : Sound text reserved s) (hd : d.Sound)
    (hok : call.Ok text reserved d) (h : Within reserved name s.volume d)
    (hothers : ∀ j c x, j ≠ i → s.calls j = some c → c.temp = some x → some x ≠ name ∧ call.temp ≠ some x) :
    Sound text reserved ⟨d, Function.update s.calls i (some call)⟩ where
  volume := hd
  calls := by
    intro j c hj
    by_cases hji : j = i
    · subst hji
      simp only [Function.update_self, Option.some.injEq] at hj
      exact hj ▸ hok
    · simp only [Function.update_of_ne hji] at hj
      exact (hs.calls hj).frame hs.volume h fun x hx => (hothers j c x hji hj hx).1
  apart := by
    intro j k c c' x hj hk hx hx'
    by_cases hji : j = i <;> by_cases hki : k = i
    · rw [hji, hki]
    · subst hji
      simp only [Function.update_self, Function.update_of_ne hki, Option.some.injEq] at hj hk
      exact absurd (hj ▸ hx) (hothers k c' x hki hk hx').2
    · subst hki
      simp only [Function.update_self, Function.update_of_ne hji, Option.some.injEq] at hj hk
      exact absurd (hk ▸ hx') (hothers j c x hji hj hx).2
    · simp only [Function.update_of_ne hji, Function.update_of_ne hki] at hj hk
      exact hs.apart hj hk hx hx'

omit [DecidableEq κ] [DecidableEq ν] in
theorem Sound.update_of_temp {i : ι} {call : Call κ ν β γ} (hs : Sound text reserved s)
    (hok : call.Ok text reserved s.volume) (htemp : call.temp = none) :
    Sound text reserved { s with calls := Function.update s.calls i (some call) } :=
  hs.update hs.volume hok (Within.refl nofun _) fun _ _ x _ _ _ => ⟨Option.some_ne_none x, by simp [htemp]⟩

omit [DecidableEq ι] in
/-- Others have other names than a writer has or comes to have. -/
theorem Sound.others {i j : ι} {p : κ} {n : ν} {content : γ} {phase phase' : WritePhase ν β} {move : Move ν}
    {call : Call κ ν β γ} {x : κ × ν} {temp : ν} (hs : Sound text reserved s)
    (hi : s.calls i = some (.write p n content phase))
    (h : phase.Acts reserved p n (text content) s.volume move d phase') (hji : j ≠ i) (hj : s.calls j = some call)
    (hx : call.temp = some x) (htemp : phase.temp = some temp ∨ phase'.temp = some temp) : x ≠ (p, temp) := by
  rintro rfl
  have hown (hphase : phase.temp = some temp) : False :=
    hji (hs.apart hj hi hx (by rw [Call.temp, hphase, Option.map_some]))
  rcases htemp with htemp | htemp
  · exact hown htemp
  · rcases h.temp htemp with hphase | ⟨-, hfree⟩
    · exact hown hphase
    · have hthere := (hs.calls hj).isSome hx
      simp [hfree] at hthere

/-- **The invariant is kept.** -/
theorem Sound.step {a : Action κ ν γ ι} (hs : Sound text reserved s) (h : Steps text reserved s a t) :
    Sound text reserved t := by
  cases h with
  | beginWrite hn hi | beginRead hn hi => exact hs.update_of_temp ⟨hn, trivial⟩ rfl
  | @write i move p n content phase phase' d hi h =>
    obtain ⟨hn, hok⟩ := hs.calls hi
    refine hs.update (h.sound hs.volume) ⟨hn, h.ok hok⟩ (h.within hn hok) fun j c x hji hj hx => ⟨?_, ?_⟩
    · intro heq
      obtain ⟨temp, htemp, rfl⟩ := Option.map_eq_some_iff.mp heq.symm
      have howner : phase.temp = some temp ∨ phase'.temp = some temp := by
        rcases hphase : phase.temp with _ | temp'
        · exact .inr (by simpa [hphase] using htemp)
        · exact .inl (by simpa [hphase] using htemp)
      exact hs.others hi h hji hj hx howner rfl
    · intro heq
      obtain ⟨temp, htemp, rfl⟩ := Option.map_eq_some_iff.mp heq
      exact hs.others hi h hji hj hx (.inr htemp) rfl
  | @read i move p n phase phase' hi h =>
    obtain ⟨hn, hok⟩ := hs.calls hi
    exact hs.update_of_temp ⟨hn, h.ok hs.volume hn hok⟩ rfl
  | remove hn => exact hs.within hs.volume.unlink (within_unlink hn)
  | rename hn hd => exact hs.within (hs.volume.rename hd) (within_rename hn hn hd)

end sound

/-! ### What is seen -/

/-- A change of what is seen: a call's content is put there, or a name is removed or renamed. -/
inductive Change (κ : Type u) (ν : Type v) (γ : Type x) (ι : Type y) where
  | put (i : ι) (p : κ) (n : ν) (content : γ)
  | remove (p : κ) (n : ν)
  | rename (p q : κ) (n : ν)

def Change.apply (files : FileStore κ ν γ) : Change κ ν γ ι → FileStore κ ν γ
  | .put _ p n content => files.write p n content
  | .remove p n => files.remove p n
  | .rename p q n => (files.rename p q n).getD files

/-- The files after the changes. -/
def after (files : FileStore κ ν γ) (changes : List (Change κ ν γ ι)) : FileStore κ ν γ := changes.foldl Change.apply files

omit [DecidableEq κ] [DecidableEq ν] in
/-- Only the rename of a writer, and those of others, change what is seen. -/
def change (s : State κ ν β γ ι) : Action κ ν γ ι → Option (Change κ ν γ ι)
  | .act i .replace =>
    match s.calls i with
    | some (.write p n content _) => some (.put i p n content)
    | _ => none
  | .remove p n => some (.remove p n)
  | .rename p q n => some (.rename p q n)
  | _ => none

/-- Each file is in the directory, with the text of its content. -/
def Shows (text : γ → List β) (reserved : ν → Bool) (files : FileStore κ ν γ) (d : Volume κ ν β) : Prop :=
  ∀ p n, reserved n = false → d.content p n = (files.read p n).map text

section shows

variable {text : γ → List β} {reserved : ν → Bool} {d d' : Volume κ ν β} {files : FileStore κ ν γ}
variable {p q : κ} {n m : ν}

theorem after_append (changes changes' : List (Change κ ν γ ι)) :
    after files (changes ++ changes') = after (after files changes) changes' := by simp [after]

omit [DecidableEq κ] [DecidableEq ν] in
theorem content_of_within {name : Option (κ × ν)} (hsound : d.Sound) (h : Within reserved name d d')
    (hn : reserved n = false) (hentry : d'.entry p n = d.entry p n) : d'.content p n = d.content p n := by
  rw [Volume.content, Volume.content, hentry]
  cases hinode : d.entry p n with
  | none => rfl
  | some inode =>
    refine congrArg some (h.octets inode (hsound.below hinode) fun q m hname hother => ?_)
    obtain ⟨rfl, rfl⟩ := hsound.injective hinode hother
    have := h.reserved _ _ hname
    simp [hn] at this

theorem Shows.of_within {name : Option (κ × ν)} (hs : Shows text reserved files d) (hsound : d.Sound)
    (h : Within reserved name d d') (hentry : ∀ p n, reserved n = false → d'.entry p n = d.entry p n) :
    Shows text reserved files d' := fun p n hn =>
  (content_of_within hsound h hn (hentry p n hn)).trans (hs p n hn)

/-- **The content is there with the rename**, and until then nothing is seen of it. -/
theorem WritePhase.Acts.shows {content : γ} {phase phase' : WritePhase ν β} {move : Move ν}
    (h : phase.Acts reserved p n (text content) d move d' phase') (hsound : d.Sound) (hn : reserved n = false)
    (hok : phase.Ok reserved p (text content) d) (hs : Shows text reserved files d) :
    Shows text reserved (if move matches .replace then files.write p n content else files) d' := by
  have hwithin := h.within hn hok
  cases h with
  | @create temp hreserved =>
    refine hs.of_within hsound hwithin fun q m hm => if_neg ?_
    rintro ⟨-, rfl⟩
    simp [hreserved] at hm
  | fill => exact hs.of_within hsound hwithin fun _ _ _ => rfl
  | @discard temp =>
    refine hs.of_within hsound hwithin fun q m hm => if_neg ?_
    rintro ⟨-, rfl⟩
    simp [hok.1] at hm
  | @replace temp inode _ hd =>
    obtain ⟨other, hentry, hoctets, -, hentries⟩ := Volume.entry_rename hd
    obtain ⟨hreserved, htemp, hwhole⟩ := hok
    obtain rfl : inode = other := Option.some.inj (htemp.symm.trans hentry)
    intro q m hm
    show d'.content q m = ((files.write p n content).read q m).map text
    rw [FileStore.read_write]
    by_cases hname : q = p ∧ m = n
    · rw [if_pos hname, Volume.content, hentries, if_pos hname, hoctets]
      simpa using hwhole
    · rw [if_neg hname, ← hs q m hm]
      refine content_of_within hsound hwithin hm ?_
      rw [hentries, if_neg hname, if_neg]
      rintro ⟨-, rfl⟩
      simp [hreserved] at hm
  | refused => exact hs
  | stop _ hmove | leave _ _ hmove =>
    cases move with
    | replace => exact absurd rfl hmove
    | _ => exact hs

theorem shows_unlink (hs : Shows text reserved files d) : Shows text reserved (files.remove p n) (d.unlink p n) := by
  intro q m hm
  rw [FileStore.read_remove, Volume.content, Volume.entry_unlink]
  split_ifs
  · rfl
  · exact hs q m hm

theorem shows_rename (hs : Shows text reserved files d) (hn : reserved n = false) (hd : d.rename p n q n = some d') :
    Shows text reserved ((files.rename p q n).getD files) d' := by
  obtain ⟨inode, hentry, hoctets, -, hentries⟩ := Volume.entry_rename hd
  have hthere := hs p n hn
  simp only [Volume.content, hentry, Option.map_some] at hthere
  obtain ⟨content, hread, htext⟩ := Option.map_eq_some_iff.mp hthere.symm
  obtain ⟨files', hrename⟩ : ∃ files', files.rename p q n = some files' := by simp [FileStore.rename, hread]
  obtain ⟨content', hread', hreads⟩ := FileStore.read_rename hrename
  obtain rfl : content = content' := Option.some.inj (hread.symm.trans hread')
  intro r k hk
  rw [hrename, Option.getD_some, hreads, Volume.content, hentries, hoctets]
  split_ifs
  · simp [htext]
  · rfl
  · exact hs r k hk

variable {s t : State κ ν β γ ι} [DecidableEq ι] {a : Action κ ν γ ι}

theorem shows_step (hs : Sound text reserved s) (hshows : Shows text reserved files s.volume)
    (h : Steps text reserved s a t) : Shows text reserved (after files (change s a).toList) t.volume := by
  cases h with
  | beginWrite | beginRead => exact hshows
  | @write i move p n content phase phase' d hi h =>
    obtain ⟨hn, hok⟩ := hs.calls hi
    have hnext := h.shows hs.volume hn hok hshows
    cases move with
    | replace =>
      rw [change, hi]
      exact hnext
    | _ => exact hnext
  | @read i move p n phase phase' hi =>
    cases move with
    | replace =>
      rw [change, hi]
      exact hshows
    | _ => exact hshows
  | remove => exact shows_unlink hshows
  | rename hn hd => exact shows_rename hshows hn hd

end shows

/-! ### Runs -/

section run

variable [DecidableEq ι] (text : γ → List β) (reserved : ν → Bool)

/-- What a run changes, in its order. -/
def changes (s : State κ ν β γ ι) (as : List (Action κ ν γ ι)) : List (Change κ ν γ ι) :=
  outputs (step text reserved) change s as

/-- It holds of the files as they are when the call opens its own. -/
def AtOpening (files : FileStore κ ν γ) (s : State κ ν β γ ι) (as : List (Action κ ν γ ι)) (i : ι)
    (P : FileStore κ ν γ → Prop) : Prop :=
  ∃ before later, as = before ++ .act i .opens :: later ∧ P (after files (changes text reserved s before))

/-- What a reader has got was in its file when it was opened. -/
def ReadPhase.Saw (p : κ) (n : ν) (d : Volume κ ν β) (atOpening : (FileStore κ ν γ → Prop) → Prop) : ReadPhase β → Prop
  | .reading inode _ => atOpening fun files => ∃ content, files.read p n = some content ∧ text content = d.octets inode
  | .whole got => atOpening fun files => ∃ content, files.read p n = some content ∧ text content = got
  | .missing => atOpening fun files => files.read p n = none
  | _ => True

/-- Every reader has seen what there was. -/
def Saw (files : FileStore κ ν γ) (s : State κ ν β γ ι) (as : List (Action κ ν γ ι)) (t : State κ ν β γ ι) : Prop :=
  ∀ i p n phase, t.calls i = some (.read p n phase) →
    phase.Saw text p n t.volume (AtOpening text reserved files s as i)

variable {text reserved} {files : FileStore κ ν γ} {s t u : State κ ν β γ ι} {as : List (Action κ ν γ ι)}
variable {a : Action κ ν γ ι} {i : ι} {p : κ} {n : ν}

theorem changes_concat (h : run (step text reserved) s as = some t) (ha : step text reserved t a = some u) :
    changes text reserved s (as ++ [a]) = changes text reserved s as ++ (change t a).toList :=
  outputs_concat h ha

theorem AtOpening.concat {P : FileStore κ ν γ → Prop} (h : AtOpening text reserved files s as i P) (a : Action κ ν γ ι) :
    AtOpening text reserved files s (as ++ [a]) i P := by
  obtain ⟨before, later, rfl, hP⟩ := h
  exact ⟨before, later ++ [a], by simp, hP⟩

theorem steps_within (hs : Sound text reserved s) (h : Steps text reserved s a t) :
    ∃ name, Within reserved name s.volume t.volume := by
  cases h with
  | write hi h =>
    obtain ⟨hn, hok⟩ := hs.calls hi
    exact ⟨_, h.within hn hok⟩
  | remove hn => exact ⟨none, within_unlink hn⟩
  | rename hn hd => exact ⟨none, within_rename hn hn hd⟩
  | beginWrite | beginRead | read => exact ⟨none, Within.refl nofun _⟩

omit [DecidableEq ι] in
theorem ReadPhase.Saw.mono {phase : ReadPhase β} {d : Volume κ ν β} {opened opened' : (FileStore κ ν γ → Prop) → Prop}
    (h : phase.Saw text p n d opened) (hopened : ∀ P, opened P → opened' P) : phase.Saw text p n d opened' := by
  cases phase with
  | reading | whole | missing => exact hopened _ h
  | _ => trivial

/-- What somebody else does changes nothing of what a reader has seen. -/
theorem ReadPhase.Saw.step {phase : ReadPhase β}
    (h : phase.Saw text p n s.volume (AtOpening text reserved files u as i)) (hok : phase.Ok reserved s.volume)
    (hs : Sound text reserved s) (hstep : Steps text reserved s a t) :
    phase.Saw text p n t.volume (AtOpening text reserved files u (as ++ [a]) i) := by
  refine ReadPhase.Saw.mono ?_ fun P (hP : AtOpening text reserved files u as i P) => hP.concat a
  cases phase with
  | reading inode got =>
    obtain ⟨name, hwithin⟩ := steps_within hs hstep
    have hoctets : t.volume.octets inode = s.volume.octets inode :=
      hwithin.octets inode hok.1 fun q m hname hm => hok.2.2 q m (hwithin.reserved q m hname) hm
    show AtOpening text reserved files u as i fun files =>
      ∃ content, files.read p n = some content ∧ text content = t.volume.octets inode
    rw [hoctets]
    exact h
  | _ => exact h

/-- What a reader itself does: it opens its file, goes on with it, or has come to its end. -/
theorem ReadPhase.Acts.saw {phase phase' : ReadPhase β} {move : Move ν}
    (h : phase.Acts p n s.volume move phase') (hn : reserved n = false) (hok : phase.Ok reserved s.volume)
    (hshows : Shows text reserved (after files (changes text reserved u as)) s.volume)
    (hsaw : phase.Saw text p n s.volume (AtOpening text reserved files u as i)) :
    phase'.Saw text p n s.volume (AtOpening text reserved files u (as ++ [.act i move]) i) := by
  have hseen := hshows p n hn
  have hsaw := hsaw.mono fun P (hP : AtOpening text reserved files u as i P) => hP.concat (.act i move)
  cases h with
  | missing hentry =>
    refine ⟨as, [], rfl, ?_⟩
    simp only [Volume.content, hentry, Option.map_none] at hseen
    exact Option.map_eq_none_iff.mp hseen.symm
  | opens hentry =>
    refine ⟨as, [], rfl, ?_⟩
    simp only [Volume.content, hentry, Option.map_some] at hseen
    exact Option.map_eq_some_iff.mp hseen.symm
  | take => exact hsaw
  | @finish inode got hend =>
    -- the end of the file
    have hgot : got = s.volume.octets inode := hok.2.1.eq_of_length_le hend
    show AtOpening text reserved files u _ i fun files => ∃ content, files.read p n = some content ∧ text content = got
    rw [hgot]
    exact hsaw
  | stop => trivial

theorem saw_step (hs : Sound text reserved t) (hshows : Shows text reserved (after files (changes text reserved s as)) t.volume)
    (hsaw : Saw text reserved files s as t) (h : Steps text reserved t a u) :
    Saw text reserved files s (as ++ [a]) u := by
  intro i p n phase hi
  have hold (hi : t.calls i = some (.read p n phase)) :
      phase.Saw text p n u.volume (AtOpening text reserved files s (as ++ [a]) i) :=
    (hsaw i p n phase hi).step (hs.calls hi).2 hs h
  cases h with
  | @beginWrite j | @write j =>
    by_cases hij : i = j
    · subst hij
      simp at hi
    · exact hold (by simpa [hij] using hi)
  | @beginRead j =>
    by_cases hij : i = j
    · subst hij
      simp only [Function.update_self, Option.some.injEq, Call.read.injEq] at hi
      obtain ⟨rfl, rfl, rfl⟩ := hi
      trivial
    · exact hold (by simpa [hij] using hi)
  | @read j move q m phase₀ phase' hj h =>
    by_cases hij : i = j
    · subst hij
      simp only [Function.update_self, Option.some.injEq, Call.read.injEq] at hi
      obtain ⟨rfl, rfl, rfl⟩ := hi
      obtain ⟨hn, hok⟩ := hs.calls hj
      exact h.saw hn hok hshows (hsaw i q m phase₀ hj)
    · exact hold (by simpa [hij] using hi)
  | remove | rename => exact hold hi

/-- **Writes are atomic.** In every run, what is seen is a store of files in which each content is put as a whole, and
every reader has seen what there was when its file was opened. -/
theorem shows_run {d : Volume κ ν β} (hd : d.Sound) (hshows : Shows text reserved files d)
    (h : run (step text reserved) (start d : State κ ν β γ ι) as = some t) :
    Sound text reserved t ∧ Shows text reserved (after files (changes text reserved (start d) as)) t.volume ∧
      Saw text reserved files (start d) as t := by
  refine run_induction (I := fun as t => Sound text reserved t ∧
    Shows text reserved (after files (changes text reserved (start d) as)) t.volume ∧
      Saw text reserved files (start d) as t) ⟨sound_start hd, hshows, nofun⟩ ?_ h
  rintro as t a u hrun ⟨hs, hshows, hsaw⟩ ha
  have hstep := steps_of_step ha
  rw [changes_concat hrun ha, after_append]
  exact ⟨hs.step hstep, shows_step hs hshows hstep, saw_step hs hshows hsaw hstep⟩

/-! ### What a write leaves -/

/-- A writer renames once, to end with it. -/
theorem WritePhase.Acts.replaced {whole : List β} {d d' : Volume κ ν β} {phase phase' : WritePhase ν β} {move : Move ν}
    (h : phase.Acts reserved p n whole d move d' phase') : phase ≠ .replaced ∧ (move = .replace ↔ phase' = .replaced) := by
  cases h with
  | create | fill | replace | refused | discard => simp
  | stop hphase hmove => obtain rfl | rfl := hphase <;> simp [hmove]
  | leave hbefore hafter hmove => obtain ⟨_, _, rfl⟩ | rfl := hbefore <;> obtain rfl | rfl := hafter <;> simp [hmove]

end run

end Nerve.AtomicReplace
