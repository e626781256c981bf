import Nerve.Queue.Mailbox

/-!
# Every message once

A message can be lost, to another of the same id or between a drain's read and its removal, and two
drains can both have it. `exactlyOnce_iff` says which step of a run does it: what is put in place of
a message, or removed, before a drain has read it, and what is read when a drain has read it before.
None of this happens as long as drains are called one at a time, no removal fails, and no message is
sent under a name that is still taken (`exactlyOnce_of_apart`).
-/

namespace Nerve.Queue

open TransitionSystem

/-! ### What it means -/

/-- Each message sent is in the inbox, or one drain has read it; none has been read twice, and none
that was not sent. -/
structure Mailbox.Delivers (b : Mailbox) : Prop where
  kept : ∀ number m, b.sent[number]? = some m → b.Taken number ∨ ∃ name, b.inbox.lookup name = some (.message m number)
  once : ∀ call call' m m' number, (m, number) ∈ b.read call → (m', number) ∈ b.read call' → call = call'
  nodup : ∀ call, ((b.read call).map Prod.snd).Nodup
  genuine : ∀ call m number, (m, number) ∈ b.read call → b.sent[number]? = some m

/-- Messages are delivered once, and what a drain has returned is what it has read. -/
structure ExactlyOnce (s : MailState) : Prop where
  delivers : s.box.Delivers
  returned : ∀ pid call messages, s.procs pid = .idle (some (.ok (.drained call messages))) →
    messages = (s.box.read call).map Prod.fst

/-- The messages in the inbox are messages sent, each under one name. -/
structure Mailbox.Files (b : Mailbox) : Prop where
  sent : ∀ name m number, b.inbox.lookup name = some (.message m number) → b.sent[number]? = some m
  apart : ∀ name name' m m' number, b.inbox.lookup name = some (.message m number) →
    b.inbox.lookup name' = some (.message m' number) → name = name'

namespace Mailbox

variable {b : Mailbox} {name : String} {m : MailMessage} {call number : Nat}

theorem Files.deliver (h : b.Files) (m : MailMessage) : (b.deliver m).Files := by
  have hlt {name : String} {m' : MailMessage} {number : Nat} (hfile : b.inbox.lookup name = some (.message m' number)) :
      number < b.sent.length := (List.getElem?_eq_some_iff.mp (h.sent name m' number hfile)).1
  have hcases {name : String} {m' : MailMessage} {number : Nat}
      (hfile : (b.deliver m).inbox.lookup name = some (.message m' number)) :
      name = mailFile m.id ∧ m' = m ∧ number = b.sent.length ∨ b.inbox.lookup name = some (.message m' number) := by
    by_cases hname : name = mailFile m.id
    · subst hname
      rw [Mailbox.deliver, AList.lookup_insert] at hfile
      cases hfile
      exact Or.inl ⟨rfl, rfl, rfl⟩
    · exact Or.inr ((AList.lookup_insert_ne hname).symm.trans hfile)
  constructor
  · intro name m' number hfile
    show (b.sent ++ [m])[number]? = some m'
    rcases hcases hfile with ⟨rfl, rfl, rfl⟩ | hfile
    · simp
    · rw [List.getElem?_append_left (hlt hfile), h.sent name m' number hfile]
  · intro name name' m' m'' number hfile hfile'
    rcases hcases hfile with ⟨rfl, -, rfl⟩ | hfile <;> rcases hcases hfile' with ⟨rfl, -, heq⟩ | hfile'
    · rfl
    · exact absurd (hlt hfile') (Nat.lt_irrefl _)
    · exact absurd (heq ▸ hlt hfile) (Nat.lt_irrefl _)
    · exact h.apart name name' m' m'' number hfile hfile'

theorem lookup_remove {name' : String} {file : MailFile} :
    (b.remove name).inbox.lookup name' = some file ↔ name' ≠ name ∧ b.inbox.lookup name' = some file := by
  by_cases hname : name' = name
  · subst hname
    simp [Mailbox.remove, AList.lookup_erase]
  · simp [Mailbox.remove, AList.lookup_erase_ne hname, hname]

theorem Files.remove (h : b.Files) (name : String) : (b.remove name).Files where
  sent name' m number hfile := h.sent name' m number (lookup_remove.mp hfile).2
  apart name' name'' m m' number hfile hfile' :=
    h.apart name' name'' m m' number (lookup_remove.mp hfile).2 (lookup_remove.mp hfile').2

theorem mem_read_take {call' number' : Nat} {m' : MailMessage} :
    (m', number') ∈ (b.take call m number).read call' ↔
      (m', number') ∈ b.read call' ∨ call' = call ∧ m' = m ∧ number' = number := by
  by_cases hcall : call' = call
  · subst hcall
    simp [Mailbox.take]
  · simp [Mailbox.take, hcall]

theorem taken_take {number' : Nat} : (b.take call m number).Taken number' ↔ b.Taken number' ∨ number' = number := by
  constructor
  · rintro ⟨call', m', hmem⟩
    rcases mem_read_take.mp hmem with hmem | ⟨-, -, rfl⟩
    · exact Or.inl ⟨call', m', hmem⟩
    · exact Or.inr rfl
  · rintro (⟨call', m', hmem⟩ | rfl)
    · exact ⟨call', m', mem_read_take.mpr (Or.inl hmem)⟩
    · exact ⟨call, m, mem_read_take.mpr (Or.inr ⟨rfl, rfl, rfl⟩)⟩

/-- A message that is put in place of one loses it, unless a drain has read it. -/
theorem delivers_deliver (hfiles : b.Files) (h : b.Delivers) : (b.deliver m).Delivers ↔ b.AllTaken (mailFile m.id) := by
  constructor
  · intro h' m' number hfile
    have hsent := hfiles.sent _ _ _ hfile
    have hlt := (List.getElem?_eq_some_iff.mp hsent).1
    have hsent' : (b.deliver m).sent[number]? = some m' := (List.getElem?_append_left hlt).trans hsent
    rcases h'.kept number m' hsent' with htaken | ⟨name, hname⟩
    · exact htaken
    · by_cases heq : name = mailFile m.id
      · subst heq
        rw [Mailbox.deliver, AList.lookup_insert] at hname
        cases hname
        exact absurd hlt (Nat.lt_irrefl _)
      · have hold : b.inbox.lookup name = some (.message m' number) := (AList.lookup_insert_ne heq).symm.trans hname
        exact absurd (hfiles.apart _ _ _ _ _ hold hfile) heq
  · intro htaken
    refine ⟨fun number m' hsent => ?_, h.once, h.nodup, fun call m' number hmem => ?_⟩
    · rcases Nat.lt_or_ge number b.sent.length with hlt | hge
      · have hsent : b.sent[number]? = some m' := (List.getElem?_append_left hlt).symm.trans hsent
        rcases h.kept number m' hsent with hold | ⟨name, hname⟩
        · exact Or.inl hold
        · by_cases heq : name = mailFile m.id
          · exact Or.inl (htaken m' number (heq ▸ hname))
          · exact Or.inr ⟨name, (AList.lookup_insert_ne heq).trans hname⟩
      · have hlt := (List.getElem?_eq_some_iff.mp hsent).1
        simp only [Mailbox.deliver, List.length_append, List.length_singleton] at hlt
        obtain rfl : number = b.sent.length := by omega
        simp only [Mailbox.deliver, List.getElem?_concat_length, Option.some.injEq] at hsent
        exact Or.inr ⟨mailFile m.id, hsent ▸ AList.lookup_insert _⟩
    · have hold := h.genuine call m' number hmem
      exact (List.getElem?_append_left (List.getElem?_eq_some_iff.mp hold).1).trans hold

/-- A message that is read has been read twice, unless no drain had read it. -/
theorem delivers_take (hfiles : b.Files) (h : b.Delivers) (hfile : b.inbox.lookup name = some (.message m number)) :
    (b.take call m number).Delivers ↔ b.NoneTaken name := by
  have hnone : b.NoneTaken name ↔ ¬ b.Taken number := by
    simp only [Mailbox.NoneTaken, hfile, Option.some.injEq, MailFile.message.injEq]
    refine ⟨fun h => h m number ⟨rfl, rfl⟩, fun h m' number' hsame => ?_⟩
    obtain ⟨-, rfl⟩ := hsame
    exact h
  rw [hnone]
  constructor
  · rintro h' ⟨call', m', hmem⟩
    have hnew : (m, number) ∈ (b.take call m number).read call := mem_read_take.mpr (Or.inr ⟨rfl, rfl, rfl⟩)
    obtain rfl := h'.once call' call m' m number (mem_read_take.mpr (Or.inl hmem)) hnew
    have hnodup := h'.nodup call'
    simp only [Mailbox.take, Function.update_self, List.map_append, List.map_cons, List.map_nil, List.nodup_append] at hnodup
    exact hnodup.2.2 number (List.mem_map_of_mem hmem) number List.mem_cons_self rfl
  · intro hnew
    refine ⟨fun number' m' hsent => ?_, fun call' call'' m' m'' number' hmem hmem' => ?_, fun call' => ?_,
      fun call' m' number' hmem => ?_⟩
    · exact (h.kept number' m' hsent).imp_left fun htaken => taken_take.mpr (Or.inl htaken)
    · rcases mem_read_take.mp hmem with hold | ⟨hcall, -, hnumber⟩ <;>
        rcases mem_read_take.mp hmem' with hold' | ⟨hcall', -, hnumber'⟩
      · exact h.once call' call'' m' m'' number' hold hold'
      · exact absurd ⟨call', m', hnumber' ▸ hold⟩ hnew
      · exact absurd ⟨call'', m'', hnumber ▸ hold'⟩ hnew
      · exact hcall.trans hcall'.symm
    · by_cases hcall : call' = call
      · subst hcall
        simp only [Mailbox.take, Function.update_self, List.map_append, List.map_cons, List.map_nil]
        refine List.Nodup.append (h.nodup call') (List.nodup_singleton _) ?_
        rw [List.disjoint_singleton]
        intro hmem
        obtain ⟨⟨m', number'⟩, hold, rfl⟩ := List.mem_map.mp hmem
        exact hnew ⟨call', m', hold⟩
      · simpa only [Mailbox.take, Function.update_of_ne hcall] using h.nodup call'
    · rcases mem_read_take.mp hmem with hmem | ⟨-, rfl, rfl⟩
      · exact h.genuine call' m' number' hmem
      · exact hfiles.sent name m' number' hfile

/-- A message that is removed is lost, unless a drain has read it. -/
theorem delivers_remove (hfiles : b.Files) (h : b.Delivers) : (b.remove name).Delivers ↔ b.AllTaken name := by
  constructor
  · intro h' m number hfile
    rcases h'.kept number m (hfiles.sent _ _ _ hfile) with htaken | ⟨name', hname'⟩
    · exact htaken
    · obtain ⟨hne, hname'⟩ := lookup_remove.mp hname'
      exact absurd (hfiles.apart _ _ _ _ _ hname' hfile) hne
  · intro htaken
    refine ⟨fun number m hsent => ?_, h.once, h.nodup, h.genuine⟩
    rcases h.kept number m hsent with hold | ⟨name', hname'⟩
    · exact Or.inl hold
    · by_cases heq : name' = name
      · exact Or.inl (htaken m number (heq ▸ hname'))
      · exact Or.inr ⟨name', lookup_remove.mpr ⟨heq, hname'⟩⟩

end Mailbox

/-! ### Processes and drains -/

/-- The messages are where they should be, and each drain is one process's. -/
structure Filed (s : MailState) : Prop where
  files : s.box.Files
  unread : ∀ call, s.box.drains ≤ call → s.box.read call = []
  agrees : ∀ pid, (s.procs pid).Agrees s.box
  alone : ∀ pid pid' call, (s.procs pid).running = some call → (s.procs pid').call = some call → pid = pid'

section Filed

variable {s s' : MailState} {pid : Pid} {next : MailProc} {b' : Mailbox} {action : MailAction}

/-- A step of one process: the drains of the others stay theirs. -/
theorem Filed.set (h : Filed s) (hfiles : b'.Files) (hunread : ∀ call, b'.drains ≤ call → b'.read call = [])
    (hdrains : s.box.drains ≤ b'.drains)
    (hread : ∀ pid' ≠ pid, ∀ call, (s.procs pid').call = some call → b'.read call = s.box.read call)
    (hnext : next.Agrees b') (hrunning : ∀ pid' ≠ pid, ∀ call, next.running = some call → (s.procs pid').call ≠ some call)
    (hcall : ∀ pid' ≠ pid, ∀ call, next.call = some call → (s.procs pid').running ≠ some call) :
    Filed (s.set pid (next, b')) where
  files := hfiles
  unread := hunread
  agrees pid' := by
    by_cases heq : pid' = pid
    · subst heq
      simpa [MailState.set] using hnext
    · simp only [MailState.set, Function.update_of_ne heq]
      exact (h.agrees pid').mono hdrains (hread pid' heq)
  alone pid' pid'' call hr hc := by
    simp only [MailState.set] at hr hc
    by_cases heq : pid' = pid <;> by_cases heq' : pid'' = pid
    · rw [heq, heq']
    · subst heq
      rw [Function.update_self] at hr
      rw [Function.update_of_ne heq'] at hc
      exact absurd hc (hrunning pid'' heq' call hr)
    · subst heq'
      rw [Function.update_of_ne heq] at hr
      rw [Function.update_self] at hc
      exact absurd hr (hcall pid' heq call hc)
    · rw [Function.update_of_ne heq] at hr
      rw [Function.update_of_ne heq'] at hc
      exact h.alone pid' pid'' call hr hc

/-- A process that has at most its own drain takes nobody's. -/
theorem Filed.own (h : Filed s) (hfiles : b'.Files)
    (hread : ∀ call, (s.procs pid).running ≠ some call → b'.read call = s.box.read call)
    (hdrains : b'.drains = s.box.drains) (hnext : next.Agrees b')
    (hrunning : next.running = none ∨ next.running = (s.procs pid).running)
    (hcall : next.call = none ∨ next.call = (s.procs pid).running) : Filed (s.set pid (next, b')) := by
  have hother {pid' : Pid} (hne : pid' ≠ pid) {call : Nat} (hc : (s.procs pid').call = some call) :
      (s.procs pid).running ≠ some call := fun hr => hne (h.alone pid pid' call hr hc).symm
  refine h.set hfiles (fun call hle => ?_) (Nat.le_of_eq hdrains.symm)
    (fun pid' hne call hc => hread call (hother hne hc)) hnext
    (fun pid' hne call hr hc => ?_) (fun pid' hne call hc hr => ?_)
  · rw [hdrains] at hle
    refine (hread call fun hr => ?_).trans (h.unread call hle)
    have := (h.agrees pid).lt (MailProc.call_of_running hr)
    omega
  · rcases hrunning with hnone | hown
    · rw [hnone] at hr
      cases hr
    · exact hother hne hc (hown ▸ hr)
  · rcases hcall with hnone | hown
    · rw [hnone] at hc
      cases hc
    · exact hother hne (MailProc.call_of_running hr) (hown ▸ hc)

/-- Every step keeps the messages and the drains in order. -/
theorem Filed.effect (h : Filed s) (heffect : MailEffect s action s') : Filed s' := by
  cases heffect with
  | quiet exists_ hclean hrunning hcall hagrees _ _ =>
    exact h.own ⟨h.files.sent, h.files.apart⟩ (fun _ _ => rfl) rfl
      ((hagrees (h.agrees _)).mono (Nat.le_refl _) fun _ _ => rfl) hrunning hcall
  | begin haction hclean hidle hcall =>
    refine h.set ⟨h.files.sent, h.files.apart⟩ (fun call hle => h.unread call (Nat.le_of_succ_le hle)) (Nat.le_succ _)
      (fun _ _ _ _ => rfl) ?_ (fun pid' hne call hr hc => ?_) (fun pid' hne call hc hr => ?_)
    · rcases hcall with hnone | rfl
      · exact MailProc.agrees_of_call_eq_none hnone
      · exact ⟨Nat.lt_succ_self _, fun _ => h.unread _ (Nat.le_refl _)⟩
    · have hlt := (h.agrees pid').lt hc
      rcases hcall with hnone | rfl
      · rw [running_eq_none_of_call hnone] at hr
        cases hr
      · cases hr
        exact absurd hlt (Nat.lt_irrefl _)
    · have hlt := (h.agrees pid').lt (MailProc.call_of_running hr)
      rcases hcall with hnone | rfl
      · rw [hnone] at hc
        cases hc
      · cases hc
        exact absurd hlt (Nat.lt_irrefl _)
  | deliver m later haction hproc hclean hcall =>
    exact h.own (h.files.deliver m) (fun _ _ => rfl) rfl (MailProc.agrees_of_call_eq_none hcall)
      (Or.inl (running_eq_none_of_call hcall)) (Or.inl hcall)
  | @take pid call name names m number hclean hproc hfile =>
    have hrunning : (s.procs pid).running = some call := by rw [hproc]; rfl
    have hagrees := h.agrees pid
    rw [hproc] at hagrees
    refine h.own ⟨h.files.sent, h.files.apart⟩ (fun call' hne => ?_) rfl ⟨hagrees.1, fun hstart => by cases hstart⟩
      (Or.inr hrunning.symm) (Or.inr hrunning.symm)
    exact Function.update_of_ne (fun heq : call' = call => hne (heq ▸ hrunning)) _ _
  | @remove pid call name later hclean hproc =>
    have hrunning : (s.procs pid).running = some call := by rw [hproc]; rfl
    have hagrees := h.agrees pid
    rw [hproc] at hagrees
    exact h.own (h.files.remove name) (fun _ _ => rfl) rfl ⟨hagrees.1, fun hstart => by cases hstart⟩ (Or.inr hrunning.symm)
      (Or.inr hrunning.symm)

/-! ### The step that breaks it -/

/-- If messages have been delivered once so far, they are after a step just if it is clean. -/
theorem delivers_effect (h : Filed s) (hdelivers : s.box.Delivers) (heffect : MailEffect s action s') :
    s'.box.Delivers ↔ Clean s action := by
  cases heffect with
  | quiet exists_ hclean _ _ _ _ _ =>
    exact iff_of_true ⟨hdelivers.kept, hdelivers.once, hdelivers.nodup, hdelivers.genuine⟩ hclean
  | begin _ hclean _ _ => exact iff_of_true ⟨hdelivers.kept, hdelivers.once, hdelivers.nodup, hdelivers.genuine⟩ hclean
  | deliver m later haction hproc hclean _ => exact (Mailbox.delivers_deliver h.files hdelivers).trans hclean.symm
  | take call name names m number hclean hproc hfile =>
    exact (Mailbox.delivers_take h.files hdelivers hfile).trans hclean.symm
  | remove call name later hclean hproc => exact (Mailbox.delivers_remove h.files hdelivers).trans hclean.symm

theorem Filed.exactlyOnce (h : Filed s) (hdelivers : s.box.Delivers) : ExactlyOnce s where
  delivers := hdelivers
  returned pid call messages hproc := by
    have hagrees := h.agrees pid
    rw [hproc] at hagrees
    exact hagrees.2

end Filed

/-! ### Runs -/

theorem lookup_initial (stray : List String) (name : String) (m : MailMessage) (number : Nat) :
    (MailState.initial stray).box.inbox.lookup name ≠ some (.message m number) := by
  show (strayFiles stray).lookup name ≠ _
  induction stray with
  | nil => simp [strayFiles]
  | cons first stray ih =>
    show ((strayFiles stray).insert first .malformed).lookup name ≠ _
    by_cases heq : name = first
    · subst heq
      simp [AList.lookup_insert]
    · rwa [AList.lookup_insert_ne heq]

theorem filed_initial (stray : List String) : Filed (MailState.initial stray) where
  files := ⟨fun name m number h => absurd h (lookup_initial stray name m number),
    fun name _ m _ number h => absurd h (lookup_initial stray name m number)⟩
  unread _ _ := rfl
  agrees _ := trivial
  alone _ _ _ h := by cases h

theorem delivers_initial (stray : List String) : (MailState.initial stray).box.Delivers where
  kept _ _ h := by cases h
  once _ _ _ _ _ h := by cases h
  nodup _ := List.nodup_nil
  genuine _ _ _ h := by cases h

/-- **Every message is delivered exactly once** in a run just if each of its steps is clean. -/
theorem exactlyOnce_iff (recipient : String) (stray : List String) (actions : List MailAction) :
    Always (mailStep true recipient) ExactlyOnce (MailState.initial stray) actions ↔
      Meets (mailStep true recipient) Clean (MailState.initial stray) actions := by
  have hkeep (s : MailState) (action : MailAction) (t : MailState) (h : Filed s ∧ s.box.Delivers) (hclean : Clean s action)
      (hstep : mailStep true recipient s action = some t) : Filed t ∧ t.box.Delivers :=
    ⟨h.1.effect (mail_effect hstep), (delivers_effect h.1 h.2 (mail_effect hstep)).mpr hclean⟩
  have hbreak (s : MailState) (action : MailAction) (t : MailState) (h : Filed s ∧ s.box.Delivers) (hclean : ¬ Clean s action)
      (hstep : mailStep true recipient s action = some t) : ¬ ExactlyOnce t :=
    fun honce => hclean ((delivers_effect h.1 h.2 (mail_effect hstep)).mp honce.delivers)
  exact always_iff_meets (fun s h => h.1.exactlyOnce h.2) hkeep hbreak ⟨filed_initial stray, delivers_initial stray⟩ actions

/-- A task that is taken from the patrol twice, before the patrol has looked into its mailbox. -/
def reclaimedTwice : List MailAction :=
  [.start 0 (.recoverOrphans [("t", 1)]), .go 0 .proceed, .go 0 .proceed,
    .start 0 (.recoverOrphans [("t", 2)]), .go 0 .proceed, .go 0 .proceed]

/-- **The second notice replaces the first**, which nobody has read. -/
theorem first_notice_lost :
    ¬ ∀ (recipient : String) (stray : List String) (actions : List MailAction),
      Always (mailStep true recipient) ExactlyOnce (MailState.initial stray) actions := by
  intro h
  have hafter := (((((((h "p" [] reclaimedTwice).2 _ rfl).2 _ rfl).2 _ rfl).2 _ rfl).2 _ rfl).2 _ rfl).head
  rcases hafter.delivers.kept 0 (reclaimedNotice "p" "t" 1) rfl with ⟨call, m, hmem⟩ | ⟨name, hfile⟩
  · cases hmem
  · have hinbox : (((∅ : AList fun _ : String => MailFile).insert "t.json" (.message (reclaimedNotice "p" "t" 1) 0)).insert
        "t.json" (.message (reclaimedNotice "p" "t" 2) 1)).lookup name = some (.message (reclaimedNotice "p" "t" 1) 0) := hfile
    by_cases hname : name = "t.json"
    · subst hname
      rw [AList.lookup_insert] at hinbox
      cases hinbox
    · rw [AList.lookup_insert_ne hname, AList.lookup_insert_ne hname] at hinbox
      cases hinbox

/-! ### Drains one at a time -/

/-- What is asked of those who use a mailbox: a message is put in place under no name that has one,
a drain is called while no other is running, and no removal fails. -/
structure Apart (s : MailState) (action : MailAction) : Prop where
  fresh : ∀ pid m later, action = .go pid .proceed → s.procs pid = .send m .write later →
    ∀ m' number, s.box.inbox.lookup (mailFile m.id) ≠ some (.message m' number)
  alone : ∀ pid pid', action = .start pid .drain → (s.procs pid').running = none
  removed : ∀ pid message name, action = .go pid (.fail message) → ¬ (s.procs pid).Removes name

/-- Only one drain is running, and of the messages in the inbox it has read the one it is about to remove. -/
structure OneDrain (s : MailState) : Prop where
  one : ∀ pid pid' call call', (s.procs pid).running = some call → (s.procs pid').running = some call' → pid = pid'
  untaken : ∀ name m number, s.box.inbox.lookup name = some (.message m number) → s.box.Taken number →
    ∃ pid, (s.procs pid).Removes name
  removing : ∀ pid name, (s.procs pid).Removes name →
    ∃ m number, s.box.inbox.lookup name = some (.message m number) ∧ s.box.Taken number

section OneDrain

variable {s s' : MailState} {pid : Pid} {next : MailProc} {b' : Mailbox} {action : MailAction} {name : String}

theorem MailProc.Removes.running {P : MailProc} (h : P.Removes name) : ∃ call, P.running = some call := by
  obtain ⟨call, later, rfl⟩ := h
  exact ⟨call, rfl⟩

theorem OneDrain.eq (h : OneDrain s) {pid' : Pid} {call : Nat} (hpid : (s.procs pid).running = some call)
    (hpid' : (s.procs pid').Removes name) : pid' = pid := by
  obtain ⟨call', hrunning⟩ := hpid'.running
  exact h.one pid' pid call' call hrunning hpid

/-- Where a drain is running, it is the one that removes. -/
theorem OneDrain.removes (h : OneDrain s) {P : MailProc} {pid' : Pid} {call : Nat} (hproc : s.procs pid = P)
    (hrunning : P.running = some call) (hpid' : (s.procs pid').Removes name) : pid' = pid ∧ P.Removes name := by
  obtain rfl := h.eq (by rw [hproc, hrunning]) hpid'
  exact ⟨rfl, hproc ▸ hpid'⟩

theorem running_set {pid' : Pid} {call : Nat} (h : ((s.set pid (next, b')).procs pid').running = some call) :
    pid' = pid ∧ next.running = some call ∨ pid' ≠ pid ∧ (s.procs pid').running = some call := by
  by_cases heq : pid' = pid
  · subst heq
    exact Or.inl ⟨rfl, by simpa [MailState.set] using h⟩
  · exact Or.inr ⟨heq, by simpa [MailState.set, Function.update_of_ne heq] using h⟩

theorem removes_set {pid' : Pid} : ((s.set pid (next, b')).procs pid').Removes name ↔
    pid' = pid ∧ next.Removes name ∨ pid' ≠ pid ∧ (s.procs pid').Removes name := by
  by_cases heq : pid' = pid
  · subst heq
    simp [MailState.set]
  · simp [MailState.set, heq]

/-- A process that has at most its own drain is not another's. -/
theorem OneDrain.one_set (h : OneDrain s) (hrunning : next.running = none ∨ next.running = (s.procs pid).running)
    {pid' pid'' : Pid} {call call' : Nat} (hpid' : ((s.set pid (next, b')).procs pid').running = some call)
    (hpid'' : ((s.set pid (next, b')).procs pid'').running = some call') : pid' = pid'' := by
  have hold {pid' : Pid} {call : Nat} (h : ((s.set pid (next, b')).procs pid').running = some call) :
      (s.procs pid').running = some call := by
    rcases running_set h with ⟨rfl, hnext⟩ | ⟨-, h⟩
    · rcases hrunning with hnone | hown
      · rw [hnone] at hnext
        cases hnext
      · exact hown ▸ hnext
    · exact h
  exact h.one pid' pid'' call call' (hold hpid') (hold hpid'')

/-- What is asked keeps every step clean. -/
theorem OneDrain.clean (h : OneDrain s) (hapart : Apart s action) (heffect : MailEffect s action s') : Clean s action := by
  cases heffect with
  | quiet exists_ hclean _ _ _ _ _ => exact hclean
  | begin _ hclean _ _ => exact hclean
  | @deliver pid next m later haction hproc hclean hcall =>
    exact hclean.mpr fun m' number hfile => absurd hfile (hapart.fresh pid m later haction hproc m' number)
  | @take pid call name names m number hclean hproc hfile =>
    refine hclean.mpr fun m' number' hfile' htaken => ?_
    obtain ⟨pid', hremoves⟩ := h.untaken name m' number' hfile' htaken
    obtain ⟨-, call', later, hproc'⟩ := h.removes hproc rfl hremoves
    cases hproc'
  | @remove pid call name later hclean hproc =>
    refine hclean.mpr fun m' number' hfile' => ?_
    obtain ⟨m, number, hfile, htaken⟩ := h.removing pid name ⟨call, later, hproc⟩
    rw [hfile] at hfile'
    cases hfile'
    exact htaken

/-- A process that goes on with its drain, or without, leaves the messages where they are. -/
theorem OneDrain.quiet (h : OneDrain s) (exists_ : Bool)
    (hrunning : next.running = none ∨ next.running = (s.procs pid).running) (hnext : ∀ name, ¬ next.Removes name)
    (hremoves : ∀ name, ¬ (s.procs pid).Removes name) :
    OneDrain (s.set pid (next, { s.box with exists_ := exists_ })) where
  one _ _ _ _ := h.one_set hrunning
  untaken name m number hfile htaken := by
    obtain ⟨pid', hpid'⟩ := h.untaken name m number hfile htaken
    refine ⟨pid', removes_set.mpr (Or.inr ⟨?_, hpid'⟩)⟩
    rintro rfl
    exact hremoves name hpid'
  removing pid' name hpid' := by
    rcases removes_set.mp hpid' with ⟨-, hown⟩ | ⟨-, hother⟩
    · exact absurd hown (hnext name)
    · exact h.removing pid' name hother

/-- A drain begins while no other is running. -/
theorem OneDrain.begin (h : OneDrain s) (halone : ∀ pid', (s.procs pid').running = none)
    (hnext : ∀ name, ¬ next.Removes name) :
    OneDrain (s.set pid (next, { s.box with drains := s.box.drains + 1 })) := by
  have hnobody (pid' : Pid) (name : String) : ¬ (s.procs pid').Removes name := by
    intro hpid'
    obtain ⟨call, hrunning⟩ := hpid'.running
    rw [halone pid'] at hrunning
    cases hrunning
  refine ⟨fun pid' pid'' call call' hpid' hpid'' => ?_, fun name m number hfile htaken => ?_,
    fun pid' name hpid' => ?_⟩
  · have hown {pid' : Pid} {call : Nat} (hpid' : ((s.set pid
        (next, { s.box with drains := s.box.drains + 1 })).procs pid').running = some call) : pid' = pid := by
      rcases running_set hpid' with ⟨rfl, -⟩ | ⟨-, hpid'⟩
      · rfl
      · rw [halone pid'] at hpid'
        cases hpid'
    rw [hown hpid', hown hpid'']
  · obtain ⟨pid', hpid'⟩ := h.untaken name m number hfile htaken
    exact absurd hpid' (hnobody pid' name)
  · rcases removes_set.mp hpid' with ⟨-, hown⟩ | ⟨-, hother⟩
    · exact absurd hown (hnext name)
    · exact absurd hother (hnobody pid' name)

/-- A message is put in place under a name that has none. -/
theorem OneDrain.deliver (hdelivers : s.box.Delivers) (h : OneDrain s) (m : MailMessage)
    (hfresh : ∀ m' number, s.box.inbox.lookup (mailFile m.id) ≠ some (.message m' number))
    (hremoves : ∀ name, ¬ (s.procs pid).Removes name) (hcall : next.call = none) :
    OneDrain (s.set pid (next, s.box.deliver m)) where
  one _ _ _ _ := h.one_set (Or.inl (running_eq_none_of_call hcall))
  untaken name m' number hfile htaken := by
    by_cases hname : name = mailFile m.id
    · -- The message is new, and no drain has read its number.
      subst hname
      simp only [MailState.set, Mailbox.deliver, AList.lookup_insert, Option.some.injEq, MailFile.message.injEq] at hfile
      obtain ⟨-, rfl⟩ := hfile
      obtain ⟨call, m', hmem⟩ := htaken
      have := (List.getElem?_eq_some_iff.mp (hdelivers.genuine call m' _ hmem)).1
      exact absurd this (Nat.lt_irrefl _)
    · have hold : s.box.inbox.lookup name = some (.message m' number) := (AList.lookup_insert_ne hname).symm.trans hfile
      obtain ⟨pid', hpid'⟩ := h.untaken name m' number hold htaken
      refine ⟨pid', removes_set.mpr (Or.inr ⟨?_, hpid'⟩)⟩
      rintro rfl
      exact hremoves name hpid'
  removing pid' name hpid' := by
    rcases removes_set.mp hpid' with ⟨-, hown⟩ | ⟨-, hother⟩
    · exact absurd hown (not_removes_of_call hcall name)
    · obtain ⟨m', number, hfile, htaken⟩ := h.removing pid' name hother
      have hname : name ≠ mailFile m.id := by
        rintro rfl
        exact hfresh m' number hfile
      exact ⟨m', number, (AList.lookup_insert_ne hname).trans hfile, htaken⟩

/-- The drain reads a message, and is about to remove it. -/
theorem OneDrain.take (hfiled : Filed s) (h : OneDrain s) {call : Nat} {names : List String} {m : MailMessage}
    {number : Nat} (hproc : s.procs pid = .drain call (.read (name :: names)))
    (hfile : s.box.inbox.lookup name = some (.message m number)) :
    OneDrain (s.set pid (.drain call (.remove name names), s.box.take call m number)) := by
  have hnobody (pid' : Pid) (name' : String) : ¬ (s.procs pid').Removes name' := by
    intro hpid'
    obtain ⟨-, call', later, hproc'⟩ := h.removes hproc rfl hpid'
    cases hproc'
  have hrunning : (s.procs pid).running = some call := by rw [hproc]; rfl
  refine ⟨fun _ _ _ _ hr hr' => h.one_set (by exact Or.inr hrunning.symm) hr hr',
    fun name' m' number' hfile' htaken => ?_, fun pid' name' hpid' => ?_⟩
  · rcases Mailbox.taken_take.mp htaken with htaken | rfl
    · obtain ⟨pid', hpid'⟩ := h.untaken name' m' number' hfile' htaken
      exact absurd hpid' (hnobody pid' name')
    · obtain rfl := hfiled.files.apart name' name m' m number' hfile' hfile
      exact ⟨pid, removes_set.mpr (Or.inl ⟨rfl, call, names, rfl⟩)⟩
  · rcases removes_set.mp hpid' with ⟨-, call', later, hown⟩ | ⟨-, hother⟩
    · cases hown
      exact ⟨m, number, hfile, Mailbox.taken_take.mpr (Or.inr rfl)⟩
    · exact absurd hother (hnobody pid' name')

/-- The drain removes the file of the message it has read. -/
theorem OneDrain.remove (h : OneDrain s) {call : Nat} {later : List String}
    (hproc : s.procs pid = .drain call (.remove name later)) :
    OneDrain (s.set pid (.drain call (.read later), s.box.remove name)) := by
  have honly {pid' : Pid} {name' : String} (hpid' : (s.procs pid').Removes name') : pid' = pid ∧ name' = name := by
    obtain ⟨rfl, call', later', hproc'⟩ := h.removes hproc rfl hpid'
    cases hproc'
    exact ⟨rfl, rfl⟩
  have hrunning : (s.procs pid).running = some call := by rw [hproc]; rfl
  refine ⟨fun _ _ _ _ hr hr' => h.one_set (by exact Or.inr hrunning.symm) hr hr',
    fun name' m' number' hfile' htaken => ?_, fun pid' name' hpid' => ?_⟩
  · obtain ⟨hne, hfile'⟩ := Mailbox.lookup_remove.mp hfile'
    obtain ⟨pid', hpid'⟩ := h.untaken name' m' number' hfile' htaken
    exact absurd (honly hpid').2 hne
  · rcases removes_set.mp hpid' with ⟨-, call', later', hown⟩ | ⟨hne, hother⟩
    · cases hown
    · exact absurd (honly hother).1 hne

/-- What is asked keeps the drains one at a time. -/
theorem OneDrain.effect (hfiled : Filed s) (hdelivers : s.box.Delivers) (h : OneDrain s) (hapart : Apart s action)
    (heffect : MailEffect s action s') : OneDrain s' := by
  cases heffect with
  | @quiet pid next exists_ hclean hrunning hcall hagrees hnext hremoves =>
    refine h.quiet exists_ hrunning hnext fun name hpid => ?_
    obtain ⟨message, haction⟩ := hremoves name hpid
    exact hapart.removed pid message name haction hpid
  | @begin pid next haction hclean hidle hcall =>
    refine h.begin (fun pid' => hapart.alone pid pid' haction) fun name => ?_
    rcases hcall with hnone | rfl
    · exact not_removes_of_call hnone name
    · simp [MailProc.Removes]
  | @deliver pid next m later haction hproc hclean hcall =>
    refine OneDrain.deliver hdelivers h m (hapart.fresh pid m later haction hproc) (fun name hpid => ?_) hcall
    obtain ⟨call, names, hpid⟩ := hpid
    rw [hproc] at hpid
    cases hpid
  | @take pid call name names m number hclean hproc hfile => exact OneDrain.take hfiled h hproc hfile
  | @remove pid call name later hclean hproc => exact h.remove hproc

end OneDrain

theorem oneDrain_initial (stray : List String) : OneDrain (MailState.initial stray) where
  one _ _ _ _ h := by cases h
  untaken name m number h := absurd h (lookup_initial stray name m number)
  removing _ _ h := by
    obtain ⟨call, later, h⟩ := h
    cases h

/-- **Users who keep apart have every message delivered exactly once.** -/
theorem exactlyOnce_of_apart {recipient : String} {stray : List String} {actions : List MailAction}
    (h : Meets (mailStep true recipient) Apart (MailState.initial stray) actions) :
    Always (mailStep true recipient) ExactlyOnce (MailState.initial stray) actions := by
  have hkeep (s : MailState) (action : MailAction) (t : MailState) (h : Filed s ∧ s.box.Delivers ∧ OneDrain s)
      (hapart : Apart s action) (hstep : mailStep true recipient s action = some t) :
      Filed t ∧ t.box.Delivers ∧ OneDrain t := by
    obtain ⟨hfiled, hdelivers, hone⟩ := h
    have heffect := mail_effect hstep
    exact ⟨hfiled.effect heffect, (delivers_effect hfiled hdelivers heffect).mpr (hone.clean hapart heffect),
      hone.effect hfiled hdelivers hapart heffect⟩
  exact (always_of_meets hkeep ⟨filed_initial stray, delivers_initial stray, oneDrain_initial stray⟩ h).mono
    fun s h => h.1.exactlyOnce h.2.1

end Nerve.Queue
