import Mathlib.Data.List.AList

/-!
# Files that move between places

A store of named files in several places: a name can stand in any of them. Files are
written in a place, and renamed from one place to another, which
replaces what the other place holds under the name.

Over it, what such a store is used for: an assignment gives each name at most one place and
what it holds there (`Represents`). A rename always refines a move of the assignment, a
write refines an insertion exactly as long as the name is new.
-/

namespace Nerve

universe u v w

/-- Files under a place and a name. -/
abbrev FileStore (κ : Type u) (ν : Type v) (α : Type w) := AList fun _ : κ × ν => α

namespace FileStore

variable {κ : Type u} {ν : Type v} {α : Type w} [DecidableEq κ] [DecidableEq ν]

def read (s : FileStore κ ν α) (p : κ) (n : ν) : Option α := s.lookup (p, n)

def write (s : FileStore κ ν α) (p : κ) (n : ν) (a : α) : FileStore κ ν α := s.insert (p, n) a

def remove (s : FileStore κ ν α) (p : κ) (n : ν) : FileStore κ ν α := s.erase (p, n)

/-- Fails if there is no such file. -/
def rename (s : FileStore κ ν α) (p q : κ) (n : ν) : Option (FileStore κ ν α) :=
  (s.read p n).map fun a => write (s.erase (p, n)) q n a

/-- The names in a place. -/
def list (s : FileStore κ ν α) (p : κ) : List ν := (s.keys.filter fun k => k.1 = p).map Prod.snd

variable {s s' : FileStore κ ν α} {p q : κ} {n m : ν} {a b : α}

theorem read_empty : (∅ : FileStore κ ν α).read p n = none := AList.lookup_empty (p, n)

theorem read_write : (s.write p n a).read q m = if q = p ∧ m = n then some a else s.read q m := by
  unfold read write
  split_ifs with h
  · rw [h.1, h.2]
    exact AList.lookup_insert s
  · exact AList.lookup_insert_ne fun he => h (Prod.mk.inj he)

theorem read_remove : (s.remove p n).read q m = if q = p ∧ m = n then none else s.read q m := by
  unfold read remove
  split_ifs with h
  · rw [h.1, h.2]
    exact AList.lookup_erase (p, n) s
  · exact AList.lookup_erase_ne fun he => h (Prod.mk.inj he)

theorem mem_list : n ∈ s.list p ↔ (s.read p n).isSome := by
  rw [read, AList.lookup_isSome, list, List.mem_map]
  constructor
  · rintro ⟨⟨q, m⟩, hmem, rfl⟩
    obtain ⟨hkey, hq⟩ := List.mem_filter.mp hmem
    obtain rfl : q = p := by simpa using hq
    exact hkey
  · exact fun h => ⟨(p, n), List.mem_filter.mpr ⟨h, by simp⟩, rfl⟩

omit [DecidableEq ν] in
theorem nodup_list : (s.list p).Nodup := by
  refine List.Nodup.map_on ?_ (s.keys_nodup.filter _)
  rintro ⟨q, m⟩ hq ⟨q', m'⟩ hq' rfl
  have hq : q = p := by simpa using (List.mem_filter.mp hq).2
  have hq' : q' = p := by simpa using (List.mem_filter.mp hq').2
  rw [hq, hq']

theorem read_rename (h : s.rename p q n = some s') : ∃ a, s.read p n = some a ∧
    ∀ r m, s'.read r m = if r = q ∧ m = n then some a else if r = p ∧ m = n then none else s.read r m := by
  obtain ⟨a, ha, rfl⟩ := Option.map_eq_some_iff.mp h
  refine ⟨a, ha, fun r m => ?_⟩
  rw [read_write]
  split_ifs with h₁ h₂
  · rfl
  · rw [h₂.1, h₂.2]
    exact AList.lookup_erase (p, n) s
  · exact AList.lookup_erase_ne fun he => h₂ (Prod.mk.inj he)

/-! ### One place for each name -/

/-- The store holds each name where the assignment says, and nowhere else. -/
def Represents (s : FileStore κ ν α) (f : ν → Option (κ × α)) : Prop :=
  ∀ p n a, s.read p n = some a ↔ f n = some (p, a)

variable {f : ν → Option (κ × α)}

theorem represents_empty : Represents (∅ : FileStore κ ν α) fun _ => none := by
  intro p n a
  rw [read_empty]
  exact iff_of_false nofun nofun

/-- A write of a new name. -/
theorem Represents.write (h : s.Represents f) (hn : f n = none) (p : κ) (a : α) :
    (s.write p n a).Represents (Function.update f n (some (p, a))) := by
  intro q m b
  rw [read_write]
  by_cases hm : m = n
  · subst hm
    rw [Function.update_self]
    by_cases hq : q = p
    · rw [if_pos ⟨hq, rfl⟩, hq]
      simp
    · rw [if_neg fun he => hq he.1, h q m b, hn]
      simp [Ne.symm hq]
  · rw [if_neg fun he => hm he.2, Function.update_of_ne hm]
    exact h q m b

/-- A rename moves the name, with what it holds. -/
theorem Represents.rename (h : s.Represents f) (hr : s.rename p q n = some s') :
    ∃ a, f n = some (p, a) ∧ s'.Represents (Function.update f n (some (q, a))) := by
  obtain ⟨a, ha, hread⟩ := read_rename hr
  have hf := (h p n a).mp ha
  refine ⟨a, hf, fun r m b => ?_⟩
  rw [hread]
  by_cases hm : m = n
  · subst hm
    rw [Function.update_self]
    by_cases hq : r = q
    · rw [if_pos ⟨hq, rfl⟩, hq]
      simp
    · rw [if_neg fun he => hq he.1]
      by_cases hp : r = p
      · rw [if_pos ⟨hp, rfl⟩]
        simp [Ne.symm hq]
      · rw [if_neg fun he => hp he.1, h r m b, hf]
        simp [Ne.symm hq, Ne.symm hp]
  · rw [if_neg fun he => hm he.2, if_neg fun he => hm he.2, Function.update_of_ne hm]
    exact h r m b

/-- A name that has a place is there, and nowhere else. -/
theorem Represents.existsUnique (h : s.Represents f) (hf : f n = some (p, a)) : ∃! q, (s.read q n).isSome := by
  refine ⟨p, by simp [(h p n a).mpr hf], fun q hq => ?_⟩
  obtain ⟨b, hb⟩ := Option.isSome_iff_exists.mp hq
  have hb := (h q n b).mp hb
  rw [hf] at hb
  cases hb
  rfl

theorem Represents.eq_none (h : s.Represents f) (hn : ∀ p, s.read p n = none) : f n = none := by
  rw [Option.eq_none_iff_forall_ne_some]
  rintro ⟨p, a⟩ hf
  rw [← h p n a, hn] at hf
  cases hf

end FileStore

end Nerve
