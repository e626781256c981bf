import Nerve.Audit.Chain
import Nerve.Library.HashChain
import Mathlib.Logic.Encodable.Basic
import Mathlib.Logic.Equiv.List

/-!
# What a keyed log proves

Under a key the walk of `verifyChain` accepts exactly the hash chains whose last
entry carries its own MAC (`verifyChain_keyed_iff`), and `appendWithKey` grows
such a chain from one whose first entry carries no hash (`Genuine.spec`). Someone without the key
can write any entries, but only MACs that stand somewhere in the genuine log. What they get
accepted is exactly a stretch of that log (`verifyChain_iff_stretch`).

A stretch that starts with the first entry is the log cut short, which is as
much as a log without an outside record can promise. But nothing checks that the
first entry of the log on disk is a first entry: a stretch from the middle is accepted as well
(`headless_log_verifies`), and `verifyChain_prefix_iff` says that this is all that is wrong.
-/

namespace Nerve.Audit

open Nerve.HashChain

/-- Each entry carries the hash of the one before it. -/
abbrev ChainLinked (H : Hashes) (key : Option Key) (log : List BudgetAuditEntry) : Prop :=
  Linked BudgetAuditEntry.prevHash (fun e => hashEntry H e key) log

variable {H : Hashes} {k : Key}

/-- What the links say does not depend on the entries' own MACs. -/
theorem chainLinked_map_bare {key : Option Key} {log : List BudgetAuditEntry} :
    ChainLinked H key (log.map BudgetAuditEntry.bare) ↔ ChainLinked H key log := by
  simp only [ChainLinked, Linked, List.isChain_map, BudgetAuditEntry.prevHash_bare, hashEntry_bare]

/-! ### What is accepted -/

theorem checkLink_keyed {idx : Nat} {entry y : BudgetAuditEntry} {seen : Bool} :
    (∃ seen', checkLink true (idx + 1) entry (some (hashEntry H y (some k))) seen = .ok seen') ↔
      entry.prevHash = some (hashEntry H y (some k)) := by
  unfold checkLink
  rcases entry.prevHash with _ | claimed
  · simp
  · simp only [Nat.add_eq_zero_iff, Nat.one_ne_zero, and_false, if_false, Option.some.injEq, ← hashesEqual_iff]
    split_ifs <;> simp_all

/-- The walk after an entry accepts the chains that go on from it. -/
theorem walkChain_keyed {idx : Nat} {y : BudgetAuditEntry} {seen : Bool} {log : List BudgetAuditEntry}
    {last : Option String} :
    walkChain H (some k) (idx + 1) (some (hashEntry H y (some k))) seen log = .ok last ↔
      ChainLinked H (some k) (y :: log) ∧
        last = (y :: log).getLast?.map fun e => hashEntry H e (some k) := by
  induction log generalizing idx y seen with
  | nil => simp [walkChain, Linked, eq_comm]
  | cons x log ih =>
    have hlinked : ChainLinked H (some k) (y :: x :: log) ↔
        x.prevHash = some (hashEntry H y (some k)) ∧ ChainLinked H (some k) (x :: log) := List.isChain_cons_cons
    rw [walkChain, hlinked, ← @checkLink_keyed H k idx x y seen, and_assoc, List.getLast?_cons_cons,
      Option.isSome_some]
    rcases checkLink true (idx + 1) x (some (hashEntry H y (some k))) seen with e | seen'
    · simp
    · simp [ih]

/-- **Acceptance under a key**: the links hold and the last entry carries its own MAC. -/
theorem verifyChain_keyed_iff {log : List BudgetAuditEntry} {r : Option String × Nat} :
    verifyChain H log (some k) = .ok r ↔
      ChainLinked H (some k) log ∧ (∀ tail ∈ log.getLast?, tail.entryMac = some (hashEntry H tail (some k))) ∧
        r = (log.getLast?.map fun e => hashEntry H e (some k), log.length) := by
  rcases log with _ | ⟨x, log⟩
  · simp [verifyChain, walkChain, checkTail, eq_comm]
  · have hfirst : walkChain H (some k) 0 none false (x :: log) =
        walkChain H (some k) (0 + 1) (some (hashEntry H x (some k))) false log := rfl
    obtain ⟨tail, htail⟩ : ∃ tail, (x :: log).getLast? = some tail :=
      ⟨_, List.getLast?_eq_some_getLast (List.cons_ne_nil x log)⟩
    have hwalk := @walkChain_keyed H k 0 x false log
    rw [← hfirst, htail] at hwalk
    rw [verifyChain, htail]
    rcases hw : walkChain H (some k) 0 none false (x :: log) with e | last <;> rw [hw] at hwalk
    · -- a walk that fails has met a broken link
      have hbroken : ¬ ChainLinked H (some k) (x :: log) := fun hl => by simpa using hwalk.mpr ⟨hl, rfl⟩
      simp [hbroken]
    · obtain ⟨hlinked, rfl⟩ := hwalk.mp rfl
      rcases hmac : tail.entryMac with _ | claimed
      · simp [checkTail, htail, hmac]
      · by_cases heq : claimed = hashEntry H tail (some k)
        · simp [checkTail, htail, hmac, hashesEqual, heq, hlinked, eq_comm (a := r)]
        · simp [checkTail, htail, hmac, hashesEqual, heq]

/-! ### The genuine log -/

/-- A log that `appendWithKey` grew from nothing under the key. -/
inductive Genuine (H : Hashes) (k : Key) (auditPath : String) : List BudgetAuditEntry → Prop where
  | empty : Genuine H k auditPath []
  | append {log log' : List BudgetAuditEntry} {file : LogFile} {self self' : AuditChainState}
      {entry : BudgetAuditEntry} (hlog : Genuine H k auditPath log)
      (hfile : readAuditLogRaw auditPath file = .ok log)
      (happend : self.appendWithKey H auditPath entry (some k) file = (.ok (), self', .entries log')) :
      Genuine H k auditPath log'

theorem readVerified_ok {auditPath : String} {file : LogFile} {key : Option Key} {log : List BudgetAuditEntry}
    {head : Option String} (h : readVerified H auditPath file key = .ok (log, head)) :
    readAuditLogRaw auditPath file = .ok log ∧ ∃ n, verifyChain H log key = .ok (head, n) := by
  unfold readVerified at h
  rcases hr : readAuditLogRaw auditPath file with e | log' <;> simp only [hr] at h
  · cases h
  rcases hv : verifyChain H log' key with e | ⟨head', n⟩ <;> simp only [hv] at h
  · cases h
  · cases h
    exact ⟨rfl, n, hv⟩

/-- What an append under a key writes. -/
theorem AuditChainState.appendWithKey_ok {auditPath : String} {file file' : LogFile} {self self' : AuditChainState}
    {entry : BudgetAuditEntry} {key : Option Key}
    (h : self.appendWithKey H auditPath entry key file = (.ok (), self', file')) :
    ∃ log head, readVerified H auditPath file key = .ok (log, head) ∧
      file' = .entries (log ++ [link H entry head key]) := by
  unfold appendWithKey at h
  rcases hr : readVerified H auditPath file key with e | ⟨log, head⟩ <;> simp only [hr] at h
  · cases h
  · cases h
    exact ⟨log, head, rfl, rfl⟩

theorem link_keyed (entry : BudgetAuditEntry) (head : Option String) :
    (AuditChainState.link H entry head (some k)).prevHash = head ∧
      (AuditChainState.link H entry head (some k)).entryMac =
        some (hashEntry H (AuditChainState.link H entry head (some k)) (some k)) := by
  refine ⟨rfl, ?_⟩
  simp only [AuditChainState.link, Option.isSome_some, if_true, hashEntry_eq]
  rfl

/-- The genuine log is a hash chain from a first entry without a hash, and every entry
carries its own MAC. -/
theorem Genuine.spec {auditPath : String} {g : List BudgetAuditEntry} (h : Genuine H k auditPath g) :
    (ChainLinked H (some k) g ∧ Rooted BudgetAuditEntry.prevHash g) ∧
      ∀ e ∈ g, e.entryMac = some (hashEntry H e (some k)) := by
  induction h with
  | empty => simp [Rooted]
  | @append log log' file self self' entry hlog hfile happend ih =>
    obtain ⟨log₁, head, hr, hlog'⟩ := AuditChainState.appendWithKey_ok happend
    obtain ⟨hfile₁, n, hv⟩ := readVerified_ok hr
    obtain rfl : log = log₁ := Except.ok.inj (hfile.symm.trans hfile₁)
    obtain ⟨-, -, hhead⟩ := verifyChain_keyed_iff.mp hv
    obtain ⟨hprev, hmac⟩ := link_keyed (H := H) (k := k) entry head
    rw [LogFile.entries.inj hlog', ChainLinked, linked_rooted_concat, hprev]
    refine ⟨⟨ih.1, congrArg Prod.fst hhead⟩, fun e he => ?_⟩
    rcases List.mem_append.mp he with he | he
    · exact ih.2 e he
    · rw [List.mem_singleton.mp he, hmac]

/-- A genuine log may be appended to. -/
theorem Genuine.grow {auditPath : String} {g : List BudgetAuditEntry} (h : Genuine H k auditPath g)
    (entry : BudgetAuditEntry) :
    Genuine H k auditPath
      (g ++ [AuditChainState.link H entry (g.getLast?.map fun e => hashEntry H e (some k)) (some k)]) := by
  have hv := verifyChain_keyed_iff.mpr ⟨h.spec.1.1, fun tail htail => h.spec.2 tail (List.mem_of_getLast? htail), rfl⟩
  have hr : readVerified H auditPath (.entries g) (some k) =
      .ok (g, g.getLast?.map fun e => hashEntry H e (some k)) := by
    simp only [readVerified, readAuditLogRaw, hv]
  have happend : ∃ self', (⟨none, 0⟩ : AuditChainState).appendWithKey H auditPath entry (some k) (.entries g) =
      (.ok (), self', .entries (g ++ [AuditChainState.link H entry (g.getLast?.map fun e => hashEntry H e (some k))
        (some k)])) := by
    rw [AuditChainState.appendWithKey, hr]
    exact ⟨_, rfl⟩
  obtain ⟨self', happend⟩ := happend
  exact .append h rfl happend

/-! ### What can be written without the key -/

/-- The MAC strings that stand in a log. -/
def macStrings (log : List BudgetAuditEntry) : List String :=
  log.flatMap fun e => e.prevHash.toList ++ e.entryMac.toList

/-- A log written without the key: whatever MAC stands in it stands in the genuine one. -/
def WrittenWithoutKey (H : Hashes) (k : Key) (g a : List BudgetAuditEntry) : Prop :=
  ∀ mac ∈ macStrings a, (∃ raw, H.hmacSha256 k raw = mac) → mac ∈ macStrings g

/-- Equal up to the MACs of all entries but the last. -/
def AgreesUpToMac (a s : List BudgetAuditEntry) : Prop :=
  a.map BudgetAuditEntry.bare = s.map BudgetAuditEntry.bare ∧ a.getLast? = s.getLast?

/-- The log cut short. -/
def IsCutShort (a g : List BudgetAuditEntry) : Prop := ∃ s, s <+: g ∧ AgreesUpToMac a s

/-- A nonempty stretch of the log from after its first entry on. -/
def IsHeadless (a g : List BudgetAuditEntry) : Prop :=
  ∃ pre s post, g = pre ++ s ++ post ∧ pre ≠ [] ∧ s ≠ [] ∧ AgreesUpToMac a s

/-- The MACs of the genuine log are those of its entries. -/
theorem Genuine.exists_of_mem_macStrings {auditPath : String} {g : List BudgetAuditEntry}
    (h : Genuine H k auditPath g) {mac : String} (hmac : mac ∈ macStrings g) :
    ∃ e ∈ g, hashEntry H e (some k) = mac := by
  obtain ⟨⟨hlinked, hroot⟩, hself⟩ := h.spec
  obtain ⟨e, he, hin⟩ := List.mem_flatMap.mp hmac
  rcases List.mem_append.mp hin with hin | hin
  · obtain ⟨l, r, rfl⟩ := List.append_of_mem he
    have hl : ChainLinked H (some k) (l ++ [e]) :=
      Linked.of_append_left (show ChainLinked H (some k) ((l ++ [e]) ++ r) by simpa using hlinked)
    have hr : Rooted BudgetAuditEntry.prevHash (l ++ [e]) := by
      rcases l with _ | ⟨x, l⟩ <;> simpa [Rooted] using hroot
    have hprev := (linked_rooted_concat.mp ⟨hl, hr⟩).2
    rw [Option.mem_toList, hprev] at hin
    obtain ⟨y, hy, hym⟩ := Option.map_eq_some_iff.mp hin
    exact ⟨y, List.mem_append_left _ (List.mem_of_getLast? hy), hym⟩
  · rw [Option.mem_toList, hself e he] at hin
    exact ⟨e, he, Option.some.inj hin⟩

theorem hashEntry_keyed_is_mac (e : BudgetAuditEntry) : ∃ raw, H.hmacSha256 k raw = hashEntry H e (some k) :=
  ⟨_, (hashEntry_eq e (some k)).symm⟩

section Attack

variable {auditPath : String} {g a : List BudgetAuditEntry}
  (hinj : ∀ e e' : BudgetAuditEntry, hashEntry H e (some k) = hashEntry H e' (some k) → e.bare = e'.bare)
  (hg : Genuine H k auditPath g)
include hg

/-- A stretch of the genuine log is accepted. -/
theorem Genuine.verifies {pre s post : List BudgetAuditEntry} (hsplit : g = pre ++ s ++ post)
    (ha : AgreesUpToMac a s) : ∃ r, verifyChain H a (some k) = .ok r := by
  obtain ⟨⟨hlinked, -⟩, hself⟩ := hg.spec
  have hs : ChainLinked H (some k) s := (hsplit ▸ hlinked).of_append_left.of_append_right
  refine ⟨_, verifyChain_keyed_iff.mpr ⟨?_, fun tail htail => ?_, rfl⟩⟩
  · rwa [← chainLinked_map_bare, ha.1, chainLinked_map_bare]
  · rw [Option.mem_def, ha.2] at htail
    exact hself tail (by simp [hsplit, List.mem_of_getLast? htail])

include hinj

/-- **What is accepted** of what can be written without the key: the stretches of the genuine log. -/
theorem verifyChain_iff_stretch (ha : WrittenWithoutKey H k g a) :
    (∃ r, verifyChain H a (some k) = .ok r) ↔ ∃ pre s post, g = pre ++ s ++ post ∧ AgreesUpToMac a s := by
  refine ⟨?_, fun ⟨pre, s, post, hsplit, hagrees⟩ => hg.verifies hsplit hagrees⟩
  rintro ⟨r, hr⟩
  obtain ⟨hlinked, htail, -⟩ := verifyChain_keyed_iff.mp hr
  rcases hlast : a.getLast? with _ | tail
  · exact ⟨[], [], g, rfl, by simp [List.getLast?_eq_none_iff.mp hlast, AgreesUpToMac]⟩
  · -- the MAC of the last entry is one of the genuine log's, so the entry is one of them
    have hmac := htail tail hlast
    have hin : hashEntry H tail (some k) ∈ macStrings a :=
      List.mem_flatMap.mpr ⟨tail, List.mem_of_getLast? hlast, by simp [hmac]⟩
    obtain ⟨y, hy, hhash⟩ := hg.exists_of_mem_macStrings (ha _ hin (hashEntry_keyed_is_mac tail))
    obtain ⟨⟨hglinked, hroot⟩, hself⟩ := hg.spec
    have hbare := hinj y tail hhash
    have hytail : y = tail := BudgetAuditEntry.eq_of_bare hbare (by rw [hself y hy, hmac, hhash])
    subst hytail
    obtain ⟨l, post, rfl⟩ := List.append_of_mem hy
    -- going back from it, the entries are those of the genuine log
    have hl : ChainLinked H (some k) (l ++ [y]) :=
      Linked.of_append_left (show ChainLinked H (some k) ((l ++ [y]) ++ post) by simpa using hglinked)
    have hr : Rooted BudgetAuditEntry.prevHash ((l ++ [y]).map BudgetAuditEntry.bare) := by
      rcases l with _ | ⟨x, l⟩ <;> simpa [Rooted] using hroot
    have hsuffix : a.map BudgetAuditEntry.bare <:+ (l ++ [y]).map BudgetAuditEntry.bare := by
      refine Linked.suffix (chainLinked_map_bare.mpr hlinked) (chainLinked_map_bare.mpr hl) hr ?_ ?_
      · intro u hu v hv huv
        obtain ⟨u, -, rfl⟩ := List.mem_map.mp hu
        obtain ⟨v, -, rfl⟩ := List.mem_map.mp hv
        exact hinj u v (by simpa using huv)
      · simp [List.getLast?_map, hlast]
    obtain ⟨w, hw⟩ := hsuffix
    obtain ⟨pre, s, hps, -, hs⟩ := List.map_eq_append_iff.mp hw.symm
    refine ⟨pre, s, post, ?_, hs.symm, ?_⟩
    · rw [← hps]
      simp
    · have hne : s ≠ [] := by
        rintro rfl
        rw [List.map_nil, eq_comm, List.map_eq_nil_iff] at hs
        simp [hs] at hlast
      have : (pre ++ s).getLast? = s.getLast? := List.getLast?_append_of_ne_nil _ hne
      rw [hlast, ← this, ← hps, List.getLast?_concat]

end Attack

/-- A stretch from after the first entry on is no log cut short: its first entry carries a hash. -/
theorem Genuine.not_isCutShort {auditPath : String} {g a : List BudgetAuditEntry} (hg : Genuine H k auditPath g)
    (ha : IsHeadless a g) : ¬ IsCutShort a g := by
  obtain ⟨pre, s, post, hsplit, hpre, hs, hagrees⟩ := ha
  obtain ⟨⟨hlinked, hroot⟩, -⟩ := hg.spec
  rintro ⟨s', ⟨t, ht⟩, hagrees'⟩
  obtain ⟨x, s, rfl⟩ := List.exists_cons_of_ne_nil hs
  have hmap := hagrees.1.symm.trans hagrees'.1
  obtain ⟨x', s'', rfl⟩ : ∃ x' s'', s' = x' :: s'' := by
    rcases s' with _ | ⟨x', s''⟩
    · simp at hmap
    · exact ⟨x', s'', rfl⟩
  have hx : x.prevHash = x'.prevHash := by
    have := (List.cons.inj hmap).1
    rw [← BudgetAuditEntry.prevHash_bare x, this, BudgetAuditEntry.prevHash_bare]
  have hx' : x'.prevHash = none := hroot x' (by rw [← ht]; rfl)
  rw [hsplit, List.append_assoc, List.cons_append] at hlinked
  exact hlinked.back_ne_none hpre (hx.trans hx')

/-! ### The result -/

/-- **Authenticity**: of what can be written without the key, only the log cut short is accepted,
unless what is written is a stretch of the log from after its first entry on. -/
theorem verifyChain_prefix_iff {auditPath : String} {g a : List BudgetAuditEntry}
    (hinj : ∀ e e' : BudgetAuditEntry, hashEntry H e (some k) = hashEntry H e' (some k) → e.bare = e'.bare)
    (hg : Genuine H k auditPath g) (ha : WrittenWithoutKey H k g a) :
    ((∃ r, verifyChain H a (some k) = .ok r) → IsCutShort a g) ↔ ¬ IsHeadless a g := by
  constructor
  · intro h hheadless
    obtain ⟨pre, s, post, hsplit, -, -, hagrees⟩ := id hheadless
    exact hg.not_isCutShort hheadless (h (hg.verifies hsplit hagrees))
  · intro h hr
    obtain ⟨pre, s, post, hsplit, hagrees⟩ := (verifyChain_iff_stretch hinj hg ha).mp hr
    by_cases hs : s = []
    · subst hs
      exact ⟨[], List.nil_prefix, hagrees⟩
    by_cases hpre : pre = []
    · subst hpre
      exact ⟨s, ⟨post, hsplit.symm⟩, hagrees⟩
    · exact absurd ⟨pre, s, post, hsplit, hpre, hs, hagrees⟩ h

/-! ### A log without its head -/

/-- The fields that are hashed, as numbers. -/
def BudgetAuditEntry.code (e : BudgetAuditEntry) :
    Int × (Option ℕ × Option ℕ) × (Option ℕ × Option ℕ) × List ℕ × Bool × Option (List ℕ) :=
  let snapshot (s : BudgetSnapshot) := (s.maxTotalTokens.map UInt64.toNat, s.maxEstimatedCostMicrousd.map UInt64.toNat)
  let text (s : String) := s.toList.map Char.toNat
  (e.ts, snapshot e.prev, snapshot e.next, text e.source, e.userConfirmed, e.prevHash.map text)

theorem BudgetAuditEntry.bare_eq_of_code {e e' : BudgetAuditEntry} (h : e.code = e'.code) : e.bare = e'.bare := by
  have huint : Function.Injective (Option.map UInt64.toNat) :=
    Option.map_injective fun _ _ => UInt64.toNat_inj.mp
  have htext : Function.Injective fun s : String => s.toList.map Char.toNat := fun a b hab =>
    String.toList_inj.mp (List.map_injective_iff.mpr (fun _ _ => Char.toNat_inj.mp) hab)
  obtain ⟨ts, ⟨p₁, p₂⟩, ⟨n₁, n₂⟩, source, confirmed, prevHash, entryMac⟩ := e
  obtain ⟨ts', ⟨p₁', p₂'⟩, ⟨n₁', n₂'⟩, source', confirmed', prevHash', entryMac'⟩ := e'
  simp only [code, Prod.mk.injEq] at h
  obtain ⟨rfl, ⟨hp₁, hp₂⟩, ⟨hn₁, hn₂⟩, hs, rfl, hh⟩ := h
  obtain rfl := huint hp₁
  obtain rfl := huint hp₂
  obtain rfl := huint hn₁
  obtain rfl := huint hn₂
  obtain rfl := htext hs
  obtain rfl := Option.map_injective htext hh
  rfl

/-- Digests that tell all entries apart. -/
def sampleHashes : Hashes where
  toVec e := List.replicate (Encodable.encode e.code) 0
  sha256 raw := String.ofList (raw.map fun _ => 's')
  hmacSha256 _ raw := String.ofList (raw.map fun _ => 'm')

theorem sampleHashes_injective (k : Key) (e e' : BudgetAuditEntry)
    (h : hashEntry sampleHashes e (some k) = hashEntry sampleHashes e' (some k)) : e.bare = e'.bare := by
  simp only [hashEntry_eq, sampleHashes, List.map_replicate, String.ofList_inj] at h
  have hcode := congrArg List.length h
  simp only [List.length_replicate] at hcode
  rw [← BudgetAuditEntry.bare_bare e, BudgetAuditEntry.bare_eq_of_code (Encodable.encode_injective hcode),
    BudgetAuditEntry.bare_bare]

/-- A change of the token budget. -/
def sampleEntry (prev next : UInt64) : BudgetAuditEntry where
  ts := 0
  prev := ⟨some prev, none⟩
  next := ⟨some next, none⟩
  source := "slash"
  userConfirmed := true
  prevHash := none
  entryMac := none

def sampleFirst : BudgetAuditEntry :=
  AuditChainState.link sampleHashes (sampleEntry 100 200) none (some [1])

def sampleSecond : BudgetAuditEntry :=
  AuditChainState.link sampleHashes (sampleEntry 200 300) (some (hashEntry sampleHashes sampleFirst (some [1]))) (some [1])

theorem sampleLog_genuine : Genuine sampleHashes [1] "budget-audit.json" [sampleFirst, sampleSecond] :=
  (Genuine.empty.grow (sampleEntry 100 200)).grow (sampleEntry 200 300)

/-- The untouched log verifies only as itself. -/
theorem verifyChain_prefix_iff_sample :
    ((∃ r, verifyChain sampleHashes [sampleFirst, sampleSecond] (some [1]) = .ok r) →
        IsCutShort [sampleFirst, sampleSecond] [sampleFirst, sampleSecond]) ↔
      ¬ IsHeadless [sampleFirst, sampleSecond] [sampleFirst, sampleSecond] :=
  verifyChain_prefix_iff (sampleHashes_injective [1]) sampleLog_genuine fun _ h _ => h

/-- The second entry alone verifies. -/
theorem headless_log_verifies :
    ¬ ∀ (H : Hashes) (k : Key) (auditPath : String) (g a : List BudgetAuditEntry),
      (∀ e e' : BudgetAuditEntry, hashEntry H e (some k) = hashEntry H e' (some k) → e.bare = e'.bare) →
      Genuine H k auditPath g → WrittenWithoutKey H k g a →
      (∃ r, verifyChain H a (some k) = .ok r) → IsCutShort a g := by
  intro h
  have hsplit : [sampleFirst, sampleSecond] = [sampleFirst] ++ [sampleSecond] ++ [] := rfl
  have hheadless : IsHeadless [sampleSecond] [sampleFirst, sampleSecond] :=
    ⟨_, _, _, hsplit, by simp, by simp, rfl, rfl⟩
  have hwritten : WrittenWithoutKey sampleHashes [1] [sampleFirst, sampleSecond] [sampleSecond] := fun mac hmac _ =>
    List.mem_append_right _ hmac
  exact sampleLog_genuine.not_isCutShort hheadless
    (h sampleHashes [1] _ _ _ (sampleHashes_injective [1]) sampleLog_genuine hwritten
      (sampleLog_genuine.verifies hsplit ⟨rfl, rfl⟩))

end Nerve.Audit
