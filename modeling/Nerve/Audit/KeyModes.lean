import Nerve.Audit.Authenticity

/-!
# A log is of one key

A log grown under a key is to be refused without the key and under every other, and one grown
without a key under every key, both by the verification and by an append. Under a key the last entry
must carry its own MAC, which no entry of another mode does. Without a key a log is refused for its
links, of which a log of one entry has none, and the MAC in its entry is not looked at:
`keyModes_iff` says that this is the only log that gets through. It is the first entry of every
keyed log, and an append without the key goes on from it (`lone_keyed_entry_accepted`).
-/

namespace Nerve.Audit

open Nerve.HashChain

variable {H : Hashes} {k : Key} {auditPath : String}

/-- No MAC is a plain digest, or a MAC under another key. -/
structure Hashes.Separated (H : Hashes) : Prop where
  sha256 : ∀ k raw raw', H.hmacSha256 k raw ≠ H.sha256 raw'
  hmacSha256 : ∀ k k' raw raw', k ≠ k' → H.hmacSha256 k raw ≠ H.hmacSha256 k' raw'

/-- A log that `appendWithKey` grew from nothing without a key, of entries that carry no MAC. -/
inductive Unkeyed (H : Hashes) (auditPath : String) : List BudgetAuditEntry → Prop where
  | empty : Unkeyed H auditPath []
  | append {log log' : List BudgetAuditEntry} {file : LogFile} {self self' : AuditChainState}
      {entry : BudgetAuditEntry} (hlog : Unkeyed H auditPath log) (hentry : entry.entryMac = none)
      (hfile : readAuditLogRaw auditPath file = .ok log)
      (happend : self.appendWithKey H auditPath entry none file = (.ok (), self', .entries log')) :
      Unkeyed H auditPath log'

/-- The log is turned away: it does not verify, and nothing is appended to it. -/
structure Refuses (H : Hashes) (auditPath : String) (key : Option Key) (log : List BudgetAuditEntry) : Prop where
  verify : ∃ e, verifyChain H log key = .error e
  append : ∀ (self : AuditChainState) (entry : BudgetAuditEntry), ∃ e,
    self.appendWithKey H auditPath entry key (.entries log) = (.error e, self, .entries log)

/-- What does not verify is not appended to. -/
theorem refuses_iff {key : Option Key} {log : List BudgetAuditEntry} :
    Refuses H auditPath key log ↔ ∀ r, verifyChain H log key ≠ .ok r := by
  constructor
  · rintro h r hr
    obtain ⟨e, he⟩ := h.verify
    rw [he] at hr
    cases hr
  · intro h
    rcases hv : verifyChain H log key with e | r
    · refine ⟨⟨e, hv⟩, fun self entry => ⟨diagnoseKeyedLoad H e log key auditPath, ?_⟩⟩
      simp only [AuditChainState.appendWithKey, readVerified, readAuditLogRaw, hv]
    · exact absurd hv (h r)

/-! ### Under a key -/

/-- Under a key the last entry must carry its own MAC. -/
theorem refuses_of_tail {log : List BudgetAuditEntry} {tail : BudgetAuditEntry} (htail : log.getLast? = some tail)
    (hmac : tail.entryMac ≠ some (hashEntry H tail (some k))) : Refuses H auditPath (some k) log := by
  rw [refuses_iff]
  intro r hr
  exact hmac ((verifyChain_keyed_iff.mp hr).2.1 tail htail)

theorem exists_getLast {log : List BudgetAuditEntry} (h : log ≠ []) : ∃ tail, log.getLast? = some tail :=
  ⟨_, List.getLast?_eq_some_getLast h⟩

/-- An append without a key adds no MAC. -/
theorem Unkeyed.entryMac {log : List BudgetAuditEntry} (h : Unkeyed H auditPath log) : ∀ e ∈ log, e.entryMac = none := by
  induction h with
  | empty => simp
  | @append log log' file self self' entry hlog hentry hfile happend ih =>
    obtain ⟨log₁, head, hr, hlog'⟩ := AuditChainState.appendWithKey_ok happend
    obtain rfl : log = log₁ := Except.ok.inj (hfile.symm.trans (readVerified_ok hr).1)
    rw [LogFile.entries.inj hlog']
    intro e he
    rcases List.mem_append.mp he with he | he
    · exact ih e he
    · rw [List.mem_singleton.mp he]
      exact hentry

/-- Under every key a log without a key is refused. -/
theorem Unkeyed.refuses {log : List BudgetAuditEntry} (h : Unkeyed H auditPath log) (hne : log ≠ []) (k : Key) :
    Refuses H auditPath (some k) log := by
  obtain ⟨tail, htail⟩ := exists_getLast hne
  refine refuses_of_tail htail ?_
  rw [h.entryMac tail (List.mem_of_getLast? htail)]
  exact (Option.some_ne_none _).symm

/-- Under another key a keyed log is refused. -/
theorem Genuine.refuses_other_key (hsep : H.Separated) {g : List BudgetAuditEntry} (hg : Genuine H k auditPath g)
    (hne : g ≠ []) {k' : Key} (hk : k' ≠ k) : Refuses H auditPath (some k') g := by
  obtain ⟨tail, htail⟩ := exists_getLast hne
  refine refuses_of_tail htail ?_
  rw [hg.spec.2 tail (List.mem_of_getLast? htail), ne_eq, Option.some.injEq, hashEntry_eq, hashEntry_eq]
  exact hsep.hmacSha256 k k' _ _ hk.symm

/-! ### Without a key -/

/-- Without the key a log of two entries is refused for the first link. -/
theorem Genuine.refuses_no_key (hsep : H.Separated) {g : List BudgetAuditEntry} (hg : Genuine H k auditPath g)
    (hlength : 2 ≤ g.length) : Refuses H auditPath none g := by
  rw [refuses_iff]
  intro r hr
  rcases g with _ | ⟨x, _ | ⟨y, log⟩⟩
  · simp at hlength
  · simp at hlength
  · have hlink : y.prevHash = some (hashEntry H x (some k)) :=
      (List.isChain_cons_cons.mp hg.spec.1.1).1
    have hne : hashEntry H x (some k) ≠ hashEntry H x none := by
      rw [hashEntry_eq, hashEntry_eq]
      exact hsep.sha256 k _ _
    have hbroken : checkLink false 1 y (some (hashEntry H x none)) false =
        .error (.chainBroken 1 (hashEntry H x none) y.prevHash) := by
      simp [checkLink, hlink, hashesEqual, hne]
    have hwalk : walkChain H none 0 none false (x :: y :: log) =
        .error (.chainBroken 1 (hashEntry H x none) y.prevHash) := by
      rw [walkChain, Option.isSome_none, checkLink, if_pos rfl]
      simp only [walkChain, Option.isSome_none, hbroken]
    rw [verifyChain, hwalk] at hr
    cases hr

/-- A lone entry has no link that could fail. -/
theorem verifyChain_singleton (x : BudgetAuditEntry) :
    verifyChain H [x] none = .ok (some (hashEntry H x none), 1) := rfl

/-! ### The result -/

/-- **A keyed log is refused without its key, and an unkeyed one under every key, just if the keyed
log has two entries.** -/
theorem keyModes_iff (hsep : H.Separated) {g u : List BudgetAuditEntry} (hg : Genuine H k auditPath g) (hgne : g ≠ [])
    (hu : Unkeyed H auditPath u) (hune : u ≠ []) :
    ((∀ key, key ≠ some k → Refuses H auditPath key g) ∧ ∀ k', Refuses H auditPath (some k') u) ↔ 2 ≤ g.length := by
  constructor
  · rintro ⟨hrefuses, -⟩
    rcases g with _ | ⟨x, _ | ⟨y, log⟩⟩
    · exact absurd rfl hgne
    · exact absurd (verifyChain_singleton x) (refuses_iff.mp (hrefuses none (by simp)) _)
    · simp
  · intro hlength
    refine ⟨fun key hkey => ?_, hu.refuses hune⟩
    rcases key with _ | k'
    · exact hg.refuses_no_key hsep hlength
    · exact hg.refuses_other_key hsep hgne (mt (congrArg some) hkey)

/-! ### Examples -/

/-- Digests that tell the keys apart. -/
def keyedHashes : Hashes where
  toVec e := List.replicate (Encodable.encode e.code) 0
  sha256 raw := String.ofList (raw.map fun _ => 's')
  hmacSha256 k raw :=
    String.ofList (List.replicate (Encodable.encode (k.map UInt8.toNat) + 1) 'm' ++ raw.map fun _ => 's')

theorem keyedHashes_separated : keyedHashes.Separated := by
  have hplain (raw : List UInt8) : (raw.map fun _ => 's').count 'm' = 0 := by
    rw [List.map_const', List.count_replicate]
    rfl
  have hcount (k : Key) (raw : List UInt8) :
      (keyedHashes.hmacSha256 k raw).toList.count 'm' = Encodable.encode (k.map UInt8.toNat) + 1 := by
    rw [keyedHashes, String.toList_ofList, List.count_append, hplain, List.count_replicate_self]
  constructor
  · intro k raw raw' h
    have hsha : (keyedHashes.sha256 raw').toList.count 'm' = 0 := by
      rw [keyedHashes, String.toList_ofList, hplain]
    rw [← h, hcount] at hsha
    omega
  · intro k k' raw raw' hne h
    have := congrArg (fun digest => digest.toList.count 'm') h
    simp only [hcount, Nat.add_right_cancel_iff] at this
    exact hne (List.map_injective_iff.mpr (fun _ _ => UInt8.toNat_inj.mp) (Encodable.encode_injective this))

/-- The first two entries of a log under the key. -/
def keyedFirst : BudgetAuditEntry := AuditChainState.link keyedHashes (sampleEntry 100 200) none (some [1])

def keyedSecond : BudgetAuditEntry :=
  AuditChainState.link keyedHashes (sampleEntry 200 300) (some (hashEntry keyedHashes keyedFirst (some [1]))) (some [1])

theorem keyedFirst_genuine : Genuine keyedHashes [1] "budget-audit.json" [keyedFirst] :=
  Genuine.empty.grow (sampleEntry 100 200)

theorem keyedLog_genuine : Genuine keyedHashes [1] "budget-audit.json" [keyedFirst, keyedSecond] :=
  keyedFirst_genuine.grow (sampleEntry 200 300)

/-- A log without a key. -/
theorem unkeyedLog : Unkeyed keyedHashes "budget-audit.json" [sampleEntry 100 200] :=
  @Unkeyed.append _ _ [] _ .missing ⟨none, 0⟩ _ (sampleEntry 100 200) .empty rfl rfl rfl

theorem keyModes_sample :
    (∀ key, key ≠ some [1] → Refuses keyedHashes "budget-audit.json" key [keyedFirst, keyedSecond]) ∧
      ∀ k', Refuses keyedHashes "budget-audit.json" (some k') [sampleEntry 100 200] :=
  (keyModes_iff keyedHashes_separated keyedLog_genuine (by simp) unkeyedLog (by simp)).mpr (Nat.le_refl 2)

/-- **The first entry of a keyed log verifies without the key, and an append without the key goes on
from it.** -/
theorem lone_keyed_entry_accepted :
    ¬ ∀ (H : Hashes) (k : Key) (auditPath : String) (g : List BudgetAuditEntry), H.Separated →
      Genuine H k auditPath g → g ≠ [] → ∀ key, key ≠ some k → Refuses H auditPath key g := by
  intro h
  have hrefuses := h keyedHashes [1] "budget-audit.json" [keyedFirst] keyedHashes_separated keyedFirst_genuine
    (by simp) none (by simp)
  exact refuses_iff.mp hrefuses _ (verifyChain_singleton keyedFirst)

end Nerve.Audit
